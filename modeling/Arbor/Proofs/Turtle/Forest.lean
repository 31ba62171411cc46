import Arbor.Turtle.Interpreter

/-!
# Sentences as forests

A grove is a list of modules in which every bracket has its partner, and a forest one in which only
closes need it: a group that is never closed lasts to the end.  Both are types, over the operations
of a table, so what is read as one has its brackets in order.

A forest is evaluated by recursion: a group begins where the turtle stands, and what comes behind
the group begins there too.
-/

set_option autoImplicit false

namespace Arbor.Turtle

namespace OperationTable

abbrev Opening (t : OperationTable) : Type := { m : Module // t.get m.symbol = .push }

abbrev Closing (t : OperationTable) : Type := { m : Module // t.get m.symbol = .pop }

abbrev Plain (t : OperationTable) : Type :=
  { m : Module // t.get m.symbol ≠ .push ∧ t.get m.symbol ≠ .pop }

end OperationTable

inductive Grove (t : OperationTable) where
  | nil
  | leaf (m : t.Plain) (rest : Grove t)
  | group (opening : t.Opening) (inside : Grove t) (closing : t.Closing) (rest : Grove t)

inductive Forest (t : OperationTable) where
  | closed (g : Grove t)
  /-- A grove, and a group behind it that lasts to the end. -/
  | opened (g : Grove t) (opening : t.Opening) (inside : Forest t)

section Modules
variable {t : OperationTable}

def Grove.modules : Grove t → List Module
  | nil => []
  | leaf m rest => m.val :: rest.modules
  | group opening inside closing rest =>
    opening.val :: inside.modules ++ closing.val :: rest.modules

def Forest.modules : Forest t → List Module
  | closed g => g.modules
  | opened g opening inside => g.modules ++ opening.val :: inside.modules

end Modules

/-! ## Evaluation -/

namespace Interpreter

/-- The length of a walk: the first parameter of its module, or else the length of a step. -/
def stride (i : Interpreter) (m : Module) : Float32 := (argument m).getD i.settings.stepLength

def steer (i : Interpreter) (c : Cursor) (m : Module) : Cursor :=
  match i.table.get m.symbol with
  | .draw | .move => c.advance (i.stride m)
  | .yaw sign => c.yaw (i.turnAngle m * sign)
  | .pitch sign => c.pitch (i.turnAngle m * sign)
  | .push | .pop | .ignore => c

def stroke (i : Interpreter) (c : Cursor) (m : Module) : List (Module × Segment) :=
  if i.table.get m.symbol = .draw then
    [(m, ⟨c.position, c.heading.direction, i.stride m, i.settings.thickness⟩)]
  else []

def drawers (i : Interpreter) (ms : List Module) : List Module :=
  ms.filter fun m => i.table.get m.symbol = .draw

end Interpreter

/-- Where the turtle stands behind a grove. -/
def Grove.exit (i : Interpreter) (c : Cursor) : Grove i.table → Cursor
  | nil => c
  | leaf m rest => rest.exit i (i.steer c m)
  | group _ _ _ rest => rest.exit i c

/-- What is drawn in a grove, with the modules that draw it. -/
def Grove.strokes (i : Interpreter) (c : Cursor) : Grove i.table → List (Module × Segment)
  | nil => []
  | leaf m rest => i.stroke c m ++ rest.strokes i (i.steer c m)
  | group _ inside _ rest => inside.strokes i c ++ rest.strokes i c

def Forest.strokes (i : Interpreter) (c : Cursor) : Forest i.table → List (Module × Segment)
  | closed g => g.strokes i c
  | opened g _ inside => g.strokes i c ++ inside.strokes i (g.exit i c)

/-! ## Modules that draw -/

namespace Interpreter

theorem drawers_cons (i : Interpreter) (c : Cursor) (m : Module) (ms : List Module) :
    i.drawers (m :: ms) = (i.stroke c m).map Prod.fst ++ i.drawers ms := by
  by_cases draws : i.table.get m.symbol = .draw <;> simp [drawers, stroke, draws]

end Interpreter

end Arbor.Turtle
