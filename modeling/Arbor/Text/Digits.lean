import Arbor.Number.Decimal

/-!
# Reading digits

Readers take the characters of a text and give back a value with the characters that are left.
-/
set_option autoImplicit false

namespace Arbor.Text

def splitDigits (cs : List Char) : List Char × List Char :=
  (cs.takeWhile Char.isDigit, cs.dropWhile Char.isDigit)

def digitValue (c : Char) : Nat := c.toNat - '0'.toNat

def ofDigits (ds : List Char) : Nat := ds.foldl (fun n c => 10 * n + digitValue c) 0

def splitSign : List Char → Bool × List Char
  | '-' :: cs => (true, cs)
  | '+' :: cs => (false, cs)
  | cs => (false, cs)

def signed (negative : Bool) (n : Nat) : Int := if negative then -n else n

def decimal (negative : Bool) (whole fraction : List Char) (exponent : Int) : Number.Decimal :=
  ⟨negative, ofDigits (whole ++ fraction), exponent - fraction.length⟩

end Arbor.Text
