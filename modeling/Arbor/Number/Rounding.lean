/-!
# Rounding to a float format

A float is a signed dyadic rational `± m · 2 ^ e` together with signed zeros, signed infinities and
one value that is not a number.  `nearest` carries such a value to a format: to nearest, a tie goes
to the even mantissa, and a value beyond the largest one becomes an infinity.

`narrow` and `widen` move between the double format, in which module parameters are computed, and
the single format, in which geometry is computed.  Both are `nearest` read on the bits, so widening
is exact and narrowing rounds once.
-/
set_option autoImplicit false

namespace Arbor.Number

open Float.Model (Format UnpackedFloat)
open Float.Model.UnpackedFloat (Sign Accuracy)

def nearest (format : Format) : UnpackedFloat → UnpackedFloat
  | .finite sign m e _ => UnpackedFloat.round format sign m e
  | u => u

def narrow (x : Float) : Float32 :=
  .ofModel (.pack (nearest .binary32 x.toModel.unpack))

def widen (x : Float32) : Float :=
  .ofModel (.pack (nearest .binary64 x.toModel.unpack))

/-- A single-precision value is a size when it is finite and above zero: lengths, thicknesses, radii
and growth factors are sizes. -/
def IsSize (x : Float32) : Prop := x.isFinite = true ∧ (0 : Float32) < x

instance (x : Float32) : Decidable (IsSize x) :=
  inferInstanceAs (Decidable (x.isFinite = true ∧ (0 : Float32) < x))

/-- Rounds `± q · 2 ^ e` to `format` when the exact value lies strictly between that value and the
one with `q + 1`: the form in which a truncated series or quotient is rounded. -/
def nearestAbove (format : Format) (sign : Sign) (q : Nat) (e : Int) : UnpackedFloat :=
  UnpackedFloat.roundWithAccuracy format sign q e (.inexact .lt)

/-- Rounds the integer `n · 2 ^ e` to `format`; zero keeps `sign`. -/
def nearestInt (format : Format) (sign : Sign) (n : Nat) (e : Int) : UnpackedFloat :=
  if n = 0 then .zero sign else UnpackedFloat.round format sign n e

end Arbor.Number
