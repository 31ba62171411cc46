import Arbor.Grammar.Lexeme

/-!
# Expressions

Conditions and parameters are expressions over numbers, names and function calls.  From loose to
tight the operators are `|`, `&`, comparisons, `+ -`, `* /`, one sign or negation, and `^`, which
groups to the right.

Each level below is a reader built on the reader of powers, so that only parentheses, calls and
exponents recurse; `power depth` counts how deep these may still be nested, and deeper nesting is a
fault.
-/
set_option autoImplicit false

namespace Arbor.Grammar

open Text (Reader)

inductive BinaryOperator where
  | or
  | and
  | equal
  | notEqual
  | lessEqual
  | greaterEqual
  | less
  | greater
  | add
  | subtract
  | multiply
  | divide
  | power
deriving DecidableEq, Repr

inductive Expression where
  | number (value : Float)
  | name (name : String)
  | negate (a : Expression)
  | not (a : Expression)
  | binary (op : BinaryOperator) (a b : Expression)
  | call (function : String) (arguments : List Expression)
deriving Repr

namespace Expression

def operator : List (String × BinaryOperator) → Reader BinaryOperator
  | [] => Reader.absent
  | (t, op) :: ops => Reader.orElse (do token t; return op) (operator ops)

/-- The comparisons, each before the shorter ones that it begins with. -/
def comparisons : List (String × BinaryOperator) :=
  [("==", .equal), ("!=", .notEqual), ("<=", .lessEqual), (">=", .greaterEqual), ("<", .less),
    (">", .greater), ("=", .equal)]

def leftGrouped (op : Reader BinaryOperator) (operand : Reader Expression) : Reader Expression := do
  let a ← operand
  Reader.chain (fun a => do return .binary (← op) a (← operand)) a

/-- A plus or minus sign that is not the start of an arrow. -/
def sumOperator : Reader BinaryOperator := do
  if ← Reader.isNext (token "->") then Reader.absent
  else operator [("+", .add), ("-", .subtract)]

def unary (power : Reader Expression) : Reader Expression :=
  Reader.orElse (do token "!"; return .not (← power))
    (Reader.orElse (do token "-"; return .negate (← power)) power)

def product (power : Reader Expression) : Reader Expression :=
  leftGrouped (operator [("*", .multiply), ("/", .divide)]) (unary power)

def sum (power : Reader Expression) : Reader Expression := leftGrouped sumOperator (product power)

def comparison (power : Reader Expression) : Reader Expression := do
  let a ← sum power
  let rest := do return (← operator comparisons, ← sum power)
  match ← Reader.optional rest with
  | some (op, b) => return .binary op a b
  | none => return a

def conjunction (power : Reader Expression) : Reader Expression :=
  leftGrouped (operator [("&", .and)]) (comparison power)

def whole (power : Reader Expression) : Reader Expression :=
  leftGrouped (operator [("|", .or)]) (conjunction power)

def maxArguments : Nat := 32

/-- Arguments with commas between them and perhaps one after the last.  There is room for a number
of them; a comma after the last place is a fault.  An argument that cannot be read ends the list.
-/
def argumentsWithin (argument : Reader Expression) : (room : Nat) → Reader (List Expression)
  | 0 => Reader.broken
  | room + 1 => do
    match ← Reader.optional (Reader.lenient argument) with
    | none => return []
    | some a =>
      match ← Reader.optional (token ",") with
      | none => return [a]
      | some _ => return a :: (← argumentsWithin argument room)

def parenthesized (argument : Reader Expression) : Reader (List Expression) := do
  token "("
  let arguments ← argumentsWithin argument maxArguments
  token ")"
  return arguments

def atom (inner : Reader Expression) : Reader Expression :=
  Reader.orElse (number <$> Grammar.number) <|
  Reader.orElse (do return call (← Grammar.name) (← parenthesized inner)) <|
  Reader.orElse (name <$> Grammar.name) <| do
    token "("
    let a ← inner
    token ")"
    return a

def power : (depth : Nat) → Reader Expression
  | 0 => Reader.broken
  | depth + 1 => do
    let a ← atom (whole (power depth))
    match ← Reader.optional (do token "^"; power depth) with
    | some b => return binary .power a b
    | none => return a

def maxDepth : Nat := 65

def condition : Reader Expression := whole (power maxDepth)

def parameter : Reader Expression := whole (power (maxDepth - 1))

end Expression

end Arbor.Grammar
