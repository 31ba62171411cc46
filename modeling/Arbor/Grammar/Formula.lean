import Arbor.Grammar.Error
import Arbor.Grammar.Expression
import Arbor.Number.Circle
import Arbor.Number.Integral
import Arbor.Number.Power

/-!
# Formulas

A formula is an expression whose names have been replaced by the places of their values in a frame.
`Formula.ofExpression` makes one, `Formula.value` works it out.

Values are finite: a result that is not a number is an error, and an infinite one becomes the
largest double of its sign.  Operands are worked out from the left.  `below` counts the values
that wait for an operation meanwhile; when `maxWaiting` of them wait, no further operation is
possible.

Two numbers count as equal when they are equal but for rounding; `<` and `>` leave such pairs out.
-/
set_option autoImplicit false

namespace Arbor.Grammar

inductive UnaryFunction where
  | sin
  | cos
  | tan
  | sqrt
  | abs
  | floor
  | ceil
  | round
deriving DecidableEq, Repr

inductive BinaryFunction where
  | min
  | max
deriving DecidableEq, Repr

inductive Function where
  | unary (f : UnaryFunction)
  | binary (f : BinaryFunction)
deriving DecidableEq, Repr

def Function.ofName? : String → Option Function
  | "sin" => some (.unary .sin)
  | "cos" => some (.unary .cos)
  | "tan" => some (.unary .tan)
  | "sqrt" => some (.unary .sqrt)
  | "abs" => some (.unary .abs)
  | "floor" => some (.unary .floor)
  | "ceil" => some (.unary .ceil)
  | "round" => some (.unary .round)
  | "min" => some (.binary .min)
  | "max" => some (.binary .max)
  | _ => none

inductive Formula where
  | constant (value : Float)
  | slot (place : Nat)
  | negate (a : Formula)
  | not (a : Formula)
  | binary (op : BinaryOperator) (a b : Formula)
  | unaryCall (f : UnaryFunction) (a : Formula)
  | binaryCall (f : BinaryFunction) (a b : Formula)
deriving DecidableEq, Repr

def ageName : String := "age"

def Formula.ofName (names : List String) (name : String) : Except CompileError Formula :=
  if name = ageName then .ok (.constant 0)
  else match names.idxOf? name with
    | some place => .ok (.slot place)
    | none => .error (.unknownName name)

/-- The formula of an expression in which the given names are bound.  Operands are taken from the
left; of a call, the function and the number of its arguments come before the arguments. -/
def Formula.ofExpression (names : List String) : Expression → Except CompileError Formula
  | .number value => .ok (.constant value)
  | .name name => Formula.ofName names name
  | .negate a => do return .negate (← ofExpression names a)
  | .not a => do return .not (← ofExpression names a)
  | .binary op a b => do
    let a ← ofExpression names a
    let b ← ofExpression names b
    return .binary op a b
  | .call function arguments =>
    match Function.ofName? function, arguments with
    | none, _ => .error (.unknownFunction function)
    | some (.unary f), [a] => do return .unaryCall f (← ofExpression names a)
    | some (.unary _), _ => .error (.argumentCount function 1)
    | some (.binary f), [a, b] => do
      let a ← ofExpression names a
      let b ← ofExpression names b
      return .binaryCall f a b
    | some (.binary _), _ => .error (.argumentCount function 2)

def Formula.ofExpressions (names : List String) :
    List Expression → Except CompileError (List Formula)
  | [] => .ok []
  | a :: as => do
    let a ← ofExpression names a
    let as ← ofExpressions names as
    return a :: as

def largest : Float := 1.7976931348623157e308

def settle (x : Float) : Except EvaluationError Float :=
  if x.isNaN then .error .notANumber
  else if largest < x then .ok largest
  else if x < -largest then .ok (-largest)
  else .ok x

/-- Whether two numbers are equal but for rounding.  Near zero the difference counts, elsewhere its
ratio to the numbers. -/
def nearlyEqual (a b : Float) : Bool :=
  if a == b then true
  else
    let difference := (a - b).abs
    let total := a.abs + b.abs
    if a == 0 || b == 0 || total < 2.2250738585072014e-308 then
      difference < 2.220446049250313e-16 * 100
    else difference / (if total < largest then total else largest) < 1e-8

def ofTruth (b : Bool) : Float := if b then 1 else 0

def truth (x : Float) : Bool := x != 0

/-- The result of an operator before it is settled.  A quotient by zero is no number. -/
def BinaryOperator.result (op : BinaryOperator) (a b : Float) : Float :=
  match op with
  | .or => ofTruth (truth a || truth b)
  | .and => ofTruth (truth a && truth b)
  | .equal => ofTruth (nearlyEqual a b)
  | .notEqual => ofTruth (!nearlyEqual a b)
  | .lessEqual => ofTruth (a < b || nearlyEqual a b)
  | .greaterEqual => ofTruth (b < a || nearlyEqual a b)
  | .less => ofTruth (a < b && !nearlyEqual a b)
  | .greater => ofTruth (b < a && !nearlyEqual a b)
  | .add => a + b
  | .subtract => a - b
  | .multiply => a * b
  | .divide => if b == 0 then 0 / 0 else a / b
  | .power => Number.pow a b

def UnaryFunction.result (f : UnaryFunction) (a : Float) : Float :=
  match f with
  | .sin => Number.doubleSin a
  | .cos => Number.doubleCos a
  | .tan => Number.doubleTan a
  | .sqrt => a.sqrt
  | .abs => a.abs
  | .floor => Number.integral .floor a
  | .ceil => Number.integral .ceil a
  | .round => Number.integral .halfAway a

/-- The result of a function of two arguments.  Of two zeros it is the second. -/
def BinaryFunction.result (f : BinaryFunction) (a b : Float) : Float :=
  match f with
  | .min => if a < b then a else b
  | .max => if b < a then a else b

/-- The number of waiting values at which no further operation is possible. -/
def maxWaiting : Nat := 256

def checkRoom (below : Nat) : Except EvaluationError Unit :=
  if maxWaiting ≤ below then .error .stackOverflow else .ok ()

namespace Formula

/-- The value of a formula while `below` values wait. -/
def valueAbove (frame : List Float) (below : Nat) : Formula → Except EvaluationError Float
  | constant value => do
    checkRoom below
    return value
  | slot place => do
    checkRoom below
    return frame.getD place 0
  | negate a => do
    let x ← a.valueAbove frame below
    checkRoom (below + 1)
    return -x
  | not a => do
    let x ← a.valueAbove frame below
    checkRoom (below + 1)
    return ofTruth (!truth x)
  | binary op a b => do
    let x ← a.valueAbove frame below
    let y ← b.valueAbove frame (below + 1)
    checkRoom (below + 2)
    settle (op.result x y)
  | unaryCall f a => do
    let x ← a.valueAbove frame below
    checkRoom (below + 1)
    settle (f.result x)
  | binaryCall f a b => do
    let x ← a.valueAbove frame below
    let y ← b.valueAbove frame (below + 1)
    checkRoom (below + 2)
    settle (f.result x y)

def value (frame : List Float) (f : Formula) : Except EvaluationError Float := f.valueAbove frame 0

def values (frame : List Float) : List Formula → Except EvaluationError (List Float)
  | [] => .ok []
  | f :: fs => do
    let x ← f.value frame
    let xs ← values frame fs
    return x :: xs

end Formula

end Arbor.Grammar
