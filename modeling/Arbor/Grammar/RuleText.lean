import Arbor.Grammar.Expression

/-!
# The form of rules and axioms

A rule is `label : weight : left < predecessor > right : condition -> successors`, of which only
the predecessor, the arrow and the successors must be there; symbols that contexts pass over may
follow as `{ ignore : … }`.  The label says nothing and is dropped.

A text that begins like a label but does not go on as a rule is read again without one, so that
`F : 1 -> G` is a rule with a condition.  Whatever stands after the successors is ignored.
-/
set_option autoImplicit false

namespace Arbor.Grammar

open Text (Reader)

structure ModuleText where
  name : String
  params : List Expression
deriving Repr

structure RuleText where
  weight : Option Float
  left : List ModuleText
  predecessor : ModuleText
  right : List ModuleText
  condition : Option Expression
  successors : List ModuleText
  ignored : List String
deriving Repr

/-- A module.  Once its parameters are opened they must be complete. -/
def ModuleText.reader : Reader ModuleText := do
  let name ← symbol
  let params ←
    if ← Reader.isNext (token "(") then Reader.must (Expression.parenthesized Expression.parameter)
    else Reader.done []
  return ⟨name, params⟩

namespace RuleText

def maxContext : Nat := 32

def successorBound : Nat := 128

def ignoredBound : Nat := 32

def contextReader (stop : Reader Unit) : Reader (List ModuleText) := do
  let modules ← Reader.upTo stop ModuleText.reader
  if modules.length ≤ maxContext then return modules else Reader.broken

def leftReader : Reader (List ModuleText) := do
  let modules ← contextReader (token "<")
  token "<"
  return modules

def rightReader : Reader (List ModuleText) := do
  token ">"
  contextReader (Reader.orElse (token ":") (token "->"))

def conditionReader : Reader Expression := do
  token ":"
  Reader.orElse (do token "*"; return .number 1) Expression.condition

def ignoredReader : Reader (List String) := do
  token "\x7b"
  token "ignore"
  token ":"
  let symbols ← Reader.fewerThan ignoredBound symbol
  token "\x7d"
  return symbols

def bodyReader : Reader RuleText := do
  let weight ← Reader.optional do
    let w ← number
    token ":"
    return w
  let left ← Reader.optional leftReader
  let predecessor ← ModuleText.reader
  let right ← Reader.optional rightReader
  let condition ← Reader.optional conditionReader
  token "->"
  let successors ← Reader.fewerThan successorBound (Reader.lenient ModuleText.reader)
  let ignored ← if ← Reader.isNext (token "\x7b") then ignoredReader else Reader.done []
  return ⟨weight, left.getD [], predecessor, right.getD [], condition, successors, ignored⟩

def reader : Reader RuleText := do
  spacing
  Reader.orElse (do let _ ← name; token ":"; bodyReader) bodyReader

def ofText? (text : String) : Option RuleText :=
  match reader text.toList with
  | .read rule _ => some rule
  | _ => none

def effectiveWeight (r : RuleText) : Float :=
  match r.weight, r.condition with
  | some w, _ => w
  | none, some (.number w) => w
  | none, _ => 1

end RuleText

/-- The modules of an axiom, at most `fuel` of them: the text is read to its end, which may be
blanks of any script. -/
def axiomWithin : (fuel : Nat) → List Char → Option (List ModuleText)
  | 0, _ => none
  | fuel + 1, cs =>
    if cs.all Text.isWhite then some []
    else match (do spacing; ModuleText.reader : Reader ModuleText) cs with
      | .read m rest => (axiomWithin fuel rest).map (m :: ·)
      | _ => none

def axiomOfText? (text : String) : Option (List ModuleText) :=
  let cs := text.toList
  axiomWithin (cs.length + 1) cs

end Arbor.Grammar
