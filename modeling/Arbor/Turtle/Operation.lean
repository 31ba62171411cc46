import Arbor.Sentence

/-!
# Turtle operations

What a symbol means to the turtle.  `Operation.standard` gives the usual meaning of a name;
`OperationTable` assigns operations to the numbers of symbols, and a number without an entry is
ignored.
-/
set_option autoImplicit false

namespace Arbor.Turtle

inductive Operation where
  | draw
  | move
  /-- Turn by the angle times `sign`. -/
  | yaw (sign : Float32)
  | pitch (sign : Float32)
  | push
  | pop
  | ignore
deriving DecidableEq, Repr

def standardMeanings : List (String × Operation) :=
  [("F", .draw), ("f", .move), ("+", .yaw (-1)), ("-", .yaw 1), ("^", .pitch 1), ("&", .pitch (-1)),
    ("[", .push), ("]", .pop)]

def Operation.standard (name : String) : Operation :=
  match name with
  | "F" => .draw
  | "f" => .move
  | "+" => .yaw (-1)
  | "-" => .yaw 1
  | "^" => .pitch 1
  | "&" => .pitch (-1)
  | "[" => .push
  | "]" => .pop
  | _ => .ignore

structure OperationTable where
  entries : Array Operation
deriving DecidableEq, Repr

namespace OperationTable

def empty : OperationTable := ⟨#[]⟩

def get (t : OperationTable) (symbol : Nat) : Operation := t.entries[symbol]?.getD .ignore

def set (t : OperationTable) (symbol : Nat) (op : Operation) : OperationTable :=
  let gap := Array.replicate (symbol + 1 - t.entries.size) Operation.ignore
  ⟨(t.entries ++ gap).setIfInBounds symbol op⟩

@[simp] theorem get_empty (symbol : Nat) : empty.get symbol = .ignore := by simp [get, empty]

theorem get_set (t : OperationTable) (symbol other : Nat) (op : Operation) :
    (t.set symbol op).get other = if other = symbol then op else t.get other := by
  simp only [get, set, Array.getElem?_setIfInBounds, Array.size_append, Array.size_replicate,
    Array.getElem?_append, Array.getElem?_replicate]
  grind

def addStandard (t : OperationTable) (symbols : SymbolTable) : OperationTable :=
  standardMeanings.foldl
    (fun t (name, op) => match symbols.find? name with
      | some symbol => t.set symbol op
      | none => t) t

def standard (symbols : SymbolTable) : OperationTable := empty.addStandard symbols

end OperationTable

end Arbor.Turtle
