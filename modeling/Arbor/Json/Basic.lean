import Arbor.Json.Numeral

/-!
# JSON values

A value keeps what its text said: a number how it was written, an object its members in order with
repetitions, and a string `none` when it held half of a surrogate pair, which is well-formed but no
text.

`Json.text` writes a value without blanks.  How a single-precision value is written as a numeral is left
to the caller; what has no digits is null.
-/
set_option autoImplicit false

namespace Arbor

inductive Json where
  | null
  | bool (value : Bool)
  | number (numeral : Numeral)
  /-- A string, or `none` when it is no text. -/
  | string (value : Option String)
  | array (elements : List Json)
  | object (members : List (Option String × Json))

namespace Json

def ofNat (n : Nat) : Json := number (.ofNat n)

def ofString (s : String) : Json := string (some s)

def ofFields (fields : List (String × Json)) : Json :=
  object (fields.map fun (name, value) => (some name, value))

def ofSingle (print : Float32 → Numeral) (x : Float32) : Json :=
  if x.isFinite then number (print x) else null

def hexDigit (n : Nat) : Char := if n < 10 then Char.ofNat (48 + n) else Char.ofNat (87 + n)

def letter? : Char → Option Char
  | '"' => some '"'
  | '\\' => some '\\'
  | '\x08' => some 'b'
  | '\x0c' => some 'f'
  | '\n' => some 'n'
  | '\r' => some 'r'
  | '\t' => some 't'
  | _ => none

def escape (c : Char) : List Char :=
  match letter? c with
  | some e => ['\\', e]
  | none =>
    if c.toNat < 32 then ['\\', 'u', '0', '0', hexDigit (c.toNat / 16), hexDigit (c.toNat % 16)]
    else [c]

def stringText : Option String → List Char
  | some s => '"' :: (s.toList.flatMap escape ++ ['"'])
  | none => "\"\\ud800\"".toList

def numberText (n : Numeral) : List Char :=
  let sign (negative : Bool) := if negative then ['-'] else []
  let fraction := match n.fraction with
    | some ds => '.' :: ds
    | none => []
  let exponent := match n.exponent with
    | some e => 'e' :: (sign (e < 0) ++ Number.Decimal.digits e.natAbs)
    | none => []
  sign n.negative ++ n.whole ++ fraction ++ exponent

mutual

def chars : Json → List Char
  | null => "null".toList
  | bool true => "true".toList
  | bool false => "false".toList
  | number n => numberText n
  | string s => stringText s
  | array [] => "[]".toList
  | array (v :: vs) => '[' :: (v.chars ++ elementChars vs)
  | object [] => "\x7b\x7d".toList
  | object ((name, v) :: ms) => '\x7b' :: (stringText name ++ ':' :: (v.chars ++ memberChars ms))

def elementChars : List Json → List Char
  | [] => [']']
  | v :: vs => ',' :: (v.chars ++ elementChars vs)

def memberChars : List (Option String × Json) → List Char
  | [] => ['\x7d']
  | (name, v) :: ms => ',' :: (stringText name ++ ':' :: (v.chars ++ memberChars ms))

end

def text (v : Json) : String := String.ofList v.chars

end Json

end Arbor
