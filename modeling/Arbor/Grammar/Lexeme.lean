import Arbor.Text.Character
import Arbor.Text.Digits
import Arbor.Text.Reader

/-!
# The smallest parts of rules and axioms

Blanks and comments may stand around every part: a comment is `/* … */`, which must be closed, or
`// …` up to the end of the line, which must not be empty.  Each reader below also takes the spacing
after its part.
-/
set_option autoImplicit false

namespace Arbor.Grammar

open Text (Reader Reading splitDigits)

inductive SpacingMode where
  | between
  | inBlock
  | inLine

def isClosed : List Char → Bool
  | '*' :: '/' :: _ => true
  | _ :: cs => isClosed cs
  | [] => false

def isLineEnd (c : Char) : Bool := c = '\r' || c = '\n'

def isBlank (c : Char) : Bool := c = ' ' || c = '\t' || isLineEnd c

/-- The text after leading spacing, when the reader is in a given part of the spacing. -/
def skipFrom : SpacingMode → List Char → List Char
  | .between, '/' :: '*' :: cs => if isClosed cs then skipFrom .inBlock cs else '/' :: '*' :: cs
  | .between, '/' :: '/' :: c :: cs =>
    if isLineEnd c then '/' :: '/' :: c :: cs else skipFrom .inLine cs
  | .between, c :: cs => if isBlank c then skipFrom .between cs else c :: cs
  | .inBlock, '*' :: '/' :: cs => skipFrom .between cs
  | .inBlock, _ :: cs => skipFrom .inBlock cs
  | .inLine, c :: cs => if isLineEnd c then skipFrom .between cs else skipFrom .inLine cs
  | _, [] => []

def skipSpacing (cs : List Char) : List Char := skipFrom .between cs

def spacing : Reader Unit := fun cs => .read () (skipSpacing cs)

def token (t : String) : Reader Unit := fun cs =>
  let ts := t.toList
  if ts.isPrefixOf cs then .read () (skipSpacing (cs.drop ts.length)) else .absent

def isNamePart (c : Char) : Bool := Text.isAlphabetic c || Text.isNumeric c || c = '_'

def maxNameLength : Nat := 64

def numberWords : List String := ["nan", "inf", "infinity"]

def name : Reader String := fun cs =>
  let part := (cs.take maxNameLength).takeWhile isNamePart
  let s := String.ofList part
  if part.head?.any Text.isAlphabetic && !numberWords.contains s.toLower then
    .read s (skipSpacing (cs.drop part.length))
  else .absent

def marks : List Char :=
  ['+', '-', '/', '&', '^', '[', ']', '|', '\\', '!', '$', '%', '~', '\x27', ',', '@', '#', ';']

def symbol : Reader String :=
  Reader.orElse name fun cs =>
    match cs with
    | c :: cs => if c ∈ marks then .read (String.singleton c) (skipSpacing cs) else .absent
    | [] => .absent

def mantissa? (cs : List Char) : Option (List Char × List Char × List Char) :=
  match splitDigits cs with
  | ([], '.' :: cs) =>
    let (fraction, rest) := splitDigits cs
    if fraction = [] then none else some ([], fraction, rest)
  | ([], _) => none
  | (whole, '.' :: cs) =>
    let (fraction, rest) := splitDigits cs
    some (whole, fraction, rest)
  | (whole, rest) => some (whole, [], rest)

def exponent : Reader Int := fun cs =>
  match cs with
  | c :: r =>
    if c = 'e' ∨ c = 'E' then
      let (negative, r) := Text.splitSign r
      let (ds, rest) := splitDigits r
      if ds = [] then .broken else .read (Text.signed negative (Text.ofDigits ds)) rest
    else .read 0 cs
  | [] => .read 0 []

/-- A number with an optional sign, rounded to the nearest double.  One beyond the largest double is
no number. -/
def number : Reader Float := fun cs =>
  let (negative, r) := Text.splitSign cs
  match mantissa? r with
  | none => .absent
  | some (whole, fraction, r) =>
    match exponent r with
    | .read e rest =>
      let x := (Text.decimal negative whole fraction e).toDouble
      if x.isFinite then .read x (skipSpacing rest) else .absent
    | .absent => .absent
    | .broken => .broken

end Arbor.Grammar
