import Arbor.Error
import Arbor.Segment
import Arbor.Turtle.Cursor
import Arbor.Turtle.Operation

/-!
# Drawing a sentence

An interpreter walks a cursor through a sentence, one module after the other, and collects the
segments that it draws.  `Interpreter.step` is the effect of one module, `Interpreter.replay` that
of a list of modules, and `Interpreter.interpret` draws a sentence from the origin.

A module's first parameter, narrowed to single precision, is the length of a walk or the angle of a
turn in degrees; without one the settings give them.  A walk must have a size as its length; turns
take anything.
-/
set_option autoImplicit false

namespace Arbor.Turtle

inductive UnderflowPolicy where
  | reject
  | ignore
deriving DecidableEq, Repr

def UnderflowPolicy.name : UnderflowPolicy → String
  | .reject => "reject"
  | .ignore => "ignore"

structure Settings where
  stepLength : Float32
  thickness : Float32
  angle : Float32
  heading : HeadingMode
  underflow : UnderflowPolicy
  /-- How many cursors can be saved at once. -/
  maxStackDepth : UInt64
deriving DecidableEq, Repr

namespace Settings

def standard : Settings where
  stepLength := 1
  thickness := 0.02
  angle := Geometry.pi / 6
  heading := .spatial
  underflow := .reject
  maxStackDepth := 1024

def validate (s : Settings) : Except ConfigError Unit := do
  checkSize .segmentLength s.stepLength
  checkSize .segmentThickness s.thickness
  checkFinite .angle s.angle
  if s.maxStackDepth = 0 then .error .zeroStackDepth else .ok ()

end Settings

structure Interpreter where
  settings : Settings
  table : OperationTable
deriving DecidableEq, Repr

structure Progress where
  index : Nat
  cursor : Cursor
  /-- The saved cursors, the last one first. -/
  saved : List Cursor
  /-- The segments drawn, the last one first. -/
  segments : List Segment
  /-- The indices of the closes that were skipped, the last one first. -/
  strayCloses : List Nat
deriving DecidableEq, Repr

def Progress.initial (mode : HeadingMode) : Progress := ⟨0, Cursor.initial mode, [], [], []⟩

namespace Interpreter

def new (settings : Settings) : Except ConfigError Interpreter := do
  settings.validate
  return ⟨settings, .empty⟩

def standard (settings : Settings) (symbols : SymbolTable) : Except ConfigError Interpreter := do
  let i ← new settings
  return { i with table := i.table.addStandard symbols }

def argument (m : Module) : Option Float32 := m.params.head?.map Number.narrow

def walkLength (i : Interpreter) (m : Module) : Option Float32 :=
  match argument m with
  | none => some i.settings.stepLength
  | some length => if Number.IsSize length then some length else none

def turnAngle (i : Interpreter) (m : Module) : Float32 :=
  match argument m with
  | none => i.settings.angle
  | some degrees => Geometry.ofDegrees degrees

/-- Walks along the heading; `draws` tells whether the walk leaves a segment. -/
def walk (i : Interpreter) (p : Progress) (m : Module) (draws : Bool) :
    Except InterpretError Progress :=
  match i.walkLength m with
  | none => .error (.degenerateSegment p.index)
  | some length =>
    let segment : Segment :=
      ⟨p.cursor.position, p.cursor.heading.direction, length, i.settings.thickness⟩
    .ok { p with
      cursor := p.cursor.advance length
      segments := if draws then segment :: p.segments else p.segments }

def perform (i : Interpreter) (p : Progress) (m : Module) :
    Operation → Except InterpretError Progress
  | .draw => i.walk p m true
  | .move => i.walk p m false
  | .yaw sign => .ok { p with cursor := p.cursor.yaw (i.turnAngle m * sign) }
  | .pitch sign => .ok { p with cursor := p.cursor.pitch (i.turnAngle m * sign) }
  | .push =>
    let depth := i.settings.maxStackDepth.toNat
    if depth ≤ p.saved.length then .error (.stackOverflow p.index depth)
    else .ok { p with saved := p.cursor :: p.saved }
  | .pop =>
    match p.saved, i.settings.underflow with
    | cursor :: saved, _ => .ok { p with cursor, saved }
    | [], .reject => .error (.unbalancedBranch p.index)
    | [], .ignore => .ok { p with strayCloses := p.index :: p.strayCloses }
  | .ignore => .ok p

def step (i : Interpreter) (p : Progress) (m : Module) : Except InterpretError Progress := do
  let q ← i.perform p m (i.table.get m.symbol)
  return { q with index := q.index + 1 }

/-- The effect of a list of modules: how far the turtle comes, and what stops it, if anything. -/
def replay (i : Interpreter) (p : Progress) : List Module → Progress × Option InterpretError
  | [] => (p, none)
  | m :: ms =>
    match i.step p m with
    | .ok q => i.replay q ms
    | .error e => (p, some e)

theorem replay_append (i : Interpreter) (p : Progress) (ms ns : List Module) :
    i.replay p (ms ++ ns) = match i.replay p ms with
      | (q, none) => i.replay q ns
      | (q, some e) => (q, some e) := by
  induction ms generalizing p with
  | nil => rfl
  | cons m ms ih =>
    simp only [List.cons_append, replay]
    cases i.step p m with
    | ok q => exact ih q
    | error e => rfl

def run (i : Interpreter) (sentence : List Module) : Progress × Option InterpretError :=
  i.replay (.initial i.settings.heading) sentence

def interpret (i : Interpreter) (sentence : List Module) : Except InterpretError (List Segment) :=
  match i.run sentence with
  | (p, none) => .ok p.segments.reverse
  | (_, some e) => .error e

def strayCloses (i : Interpreter) (sentence : List Module) : List Nat :=
  (i.run sentence).1.strayCloses.reverse

end Interpreter

end Arbor.Turtle
