import Arbor.Json.Basic
import Arbor.Text.Digits

/-!
# Reading JSON

`Json.ofText?` reads a text that is one JSON value between blanks, and nothing else: blanks are
space, tab, line feed and carriage return, numbers have no needless zeros, strings no raw control
characters.

The reader of values counts down from a bound that no text of the given length reaches: each array
or object uses up a bracket, and each further element a comma.
-/
set_option autoImplicit false

namespace Arbor.Json

open Text (splitDigits ofDigits)

def isBlank (c : Char) : Bool := c = ' ' || c = '\t' || c = '\n' || c = '\r'

def skipBlanks (cs : List Char) : List Char := cs.dropWhile isBlank

def readFraction : List Char → Option (Option (List Char) × List Char)
  | '.' :: cs =>
    let (ds, rest) := splitDigits cs
    if ds = [] then none else some (some ds, rest)
  | cs => some (none, cs)

def readExponent : List Char → Option (Option Int × List Char)
  | c :: cs =>
    if c = 'e' ∨ c = 'E' then
      let (negative, cs) := Text.splitSign cs
      let (ds, rest) := splitDigits cs
      if ds = [] then none else some (some (Text.signed negative (ofDigits ds)), rest)
    else some (none, c :: cs)
  | [] => some (none, [])

def readNumber (cs : List Char) : Option (Json × List Char) := do
  let (negative, cs) := match cs with
    | '-' :: cs => (true, cs)
    | cs => (false, cs)
  let (whole, cs) := splitDigits cs
  guard (whole ≠ [] ∧ (whole.head? = some '0' → whole.length = 1))
  let (fraction, cs) ← readFraction cs
  let (exponent, cs) ← readExponent cs
  return (number { negative, whole, fraction, exponent }, cs)

def hexValue? (c : Char) : Option Nat :=
  if c.isDigit then some (c.toNat - 48)
  else if 'a' ≤ c ∧ c ≤ 'f' then some (c.toNat - 87)
  else if 'A' ≤ c ∧ c ≤ 'F' then some (c.toNat - 55)
  else none

def codeUnit? (a b c d : Char) : Option Nat := do
  return 4096 * (← hexValue? a) + 256 * (← hexValue? b) + 16 * (← hexValue? c) + (← hexValue? d)

def escaped? : Char → Option Char
  | '"' => some '"'
  | '\\' => some '\\'
  | '/' => some '/'
  | 'b' => some '\x08'
  | 'f' => some '\x0c'
  | 'n' => some '\n'
  | 'r' => some '\r'
  | 't' => some '\t'
  | _ => none

inductive Piece where
  | char (c : Char)
  | unit (n : Nat)

def readPieces : List Char → Option (List Piece × List Char)
  | '"' :: cs => some ([], cs)
  | '\\' :: 'u' :: a :: b :: c :: d :: cs => do
    let n ← codeUnit? a b c d
    let (ps, rest) ← readPieces cs
    return (.unit n :: ps, rest)
  | '\\' :: c :: cs => do
    let e ← escaped? c
    let (ps, rest) ← readPieces cs
    return (.char e :: ps, rest)
  | c :: cs => do
    guard (32 ≤ c.toNat)
    let (ps, rest) ← readPieces cs
    return (.char c :: ps, rest)
  | [] => none

/-- The characters of a string.  A number in the surrogate range needs its other half beside it. -/
def joinPieces : List Piece → Option (List Char)
  | [] => some []
  | .char c :: ps => (joinPieces ps).map (c :: ·)
  | .unit n :: ps =>
    if n < 0xD800 ∨ 0xE000 ≤ n then (joinPieces ps).map (Char.ofNat n :: ·)
    else match ps with
      | .unit m :: qs =>
        if n < 0xDC00 ∧ 0xDC00 ≤ m ∧ m < 0xE000 then
          (joinPieces qs).map (Char.ofNat (0x10000 + (n - 0xD800) * 0x400 + (m - 0xDC00)) :: ·)
        else none
      | _ => none

def readString (cs : List Char) : Option (Option String × List Char) := do
  let (ps, rest) ← readPieces cs
  return ((joinPieces ps).map String.ofList, rest)

def readName (cs : List Char) : Option (Option String × List Char) := do
  let '"' :: cs := skipBlanks cs | none
  let (name, cs) ← readString cs
  let ':' :: cs := skipBlanks cs | none
  return (name, cs)

mutual

def readValue : (fuel : Nat) → List Char → Option (Json × List Char)
  | 0, _ => none
  | fuel + 1, cs =>
    match skipBlanks cs with
    | 'n' :: 'u' :: 'l' :: 'l' :: cs => some (null, cs)
    | 't' :: 'r' :: 'u' :: 'e' :: cs => some (bool true, cs)
    | 'f' :: 'a' :: 'l' :: 's' :: 'e' :: cs => some (bool false, cs)
    | '"' :: cs => do
      let (s, cs) ← readString cs
      return (string s, cs)
    | '[' :: cs =>
      match skipBlanks cs with
      | ']' :: cs => some (array [], cs)
      | cs => do
        let (vs, cs) ← readElements fuel cs
        return (array vs, cs)
    | '\x7b' :: cs =>
      match skipBlanks cs with
      | '\x7d' :: cs => some (object [], cs)
      | cs => do
        let (ms, cs) ← readMembers fuel cs
        return (object ms, cs)
    | cs => readNumber cs

def readElements : (fuel : Nat) → List Char → Option (List Json × List Char)
  | 0, _ => none
  | fuel + 1, cs => do
    let (v, cs) ← readValue fuel cs
    match skipBlanks cs with
    | ']' :: cs => some ([v], cs)
    | ',' :: cs => do
      let (vs, cs) ← readElements fuel cs
      return (v :: vs, cs)
    | _ => none

def readMembers : (fuel : Nat) → List Char → Option (List (Option String × Json) × List Char)
  | 0, _ => none
  | fuel + 1, cs => do
    let (name, cs) ← readName cs
    let (v, cs) ← readValue fuel cs
    match skipBlanks cs with
    | '\x7d' :: cs => some ([(name, v)], cs)
    | ',' :: cs => do
      let (ms, cs) ← readMembers fuel cs
      return ((name, v) :: ms, cs)
    | _ => none

end

def ofText? (s : String) : Option Json := do
  let cs := s.toList
  let (v, rest) ← readValue (2 * cs.length + 2) cs
  guard (skipBlanks rest = [])
  return v

end Arbor.Json
