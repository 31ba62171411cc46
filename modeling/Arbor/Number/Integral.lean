import Arbor.Number.Rounding

/-!
# Rounding to whole numbers

`toIntegral` rounds a float to a whole number by a rule on the fraction that is cut off; floor,
ceiling and rounding half away from zero are three such rules.  A result of zero keeps the sign of
the argument.  Infinities and the value that is not a number are left alone.
-/
set_option autoImplicit false

namespace Arbor.Number

open Float.Model (Format UnpackedFloat)
open Float.Model.UnpackedFloat (Sign)

/-- How the cut-off fraction `part / whole` of a magnitude moves it to the next whole number. -/
inductive IntegralRule where
  | floor
  | ceil
  | halfAway
deriving DecidableEq, Repr

/-- Whether the magnitude goes up to the next whole number when the fraction `part / whole`
with `part < whole` is cut off. -/
def IntegralRule.up (rule : IntegralRule) (sign : Sign) (part whole : Nat) : Bool :=
  match rule, sign with
  | .floor, .positive => false
  | .floor, .negative => part != 0
  | .ceil, .positive => part != 0
  | .ceil, .negative => false
  | .halfAway, _ => whole ≤ 2 * part

def IntegralRule.magnitude (rule : IntegralRule) (sign : Sign) (m : Nat) (e : Int) : Nat :=
  if 0 ≤ e then m <<< e.toNat
  else
    let whole := Nat.pow 2 (-e).toNat
    m / whole + (rule.up sign (m % whole) whole).toNat

def toIntegral (format : Format) (rule : IntegralRule) : UnpackedFloat → UnpackedFloat
  | .finite sign m e _ => nearestInt format sign (rule.magnitude sign m e) 0
  | u => u

def integral (rule : IntegralRule) (x : Float) : Float :=
  .ofModel (.pack (toIntegral .binary64 rule x.toModel.unpack))

/-- The nearest 64-bit integer, a half going away from zero.  Values beyond the range take its
nearest end, and the value that is not a number gives zero. -/
def nearestInt64 (x : Float32) : Int64 :=
  match x.toModel.unpack with
  | .finite sign m e _ => Int64.ofIntClamp (sign.apply (IntegralRule.halfAway.magnitude sign m e))
  | .infinity .positive => Int64.maxValue
  | .infinity .negative => Int64.minValue
  | .zero _ => 0
  | .notANumber => 0

end Arbor.Number
