import Arbor.Number.Rounding

/-!
# Powers with any exponent

`pow x y` is `x ^ y` for finite doubles, rounded once.  The magnitude is `2 ^ (y · log₂ |x|)`,
worked out in whole numbers as multiples of `2 ^ -256`.

The working value is close to the true one, never equal to it, so an exact power such as `3 ^ 2`
could be taken for a value just below.  `settle` decides this: a working value that agrees with a
multiple of `2 ^ -128` to all but its last places is taken to be that multiple.

A zero base, a negative base and a zero exponent follow the usual rules: any base to the power zero
is one, a negative base has powers at whole exponents only, and its sign is that of an odd one.
-/
set_option autoImplicit false

namespace Arbor.Number.Power

open Float.Model (Format UnpackedFloat)
open Float.Model.UnpackedFloat (Sign)

def places : Nat := 256

/-- `terms` terms of `p / k + p · s / (k + 2) + p · s² / (k + 4) + …`, all numbers but `k` being
multiples of `2 ^ -places`. -/
def oddReciprocals (s : Nat) : (terms : Nat) → (p k : Nat) → Nat
  | 0, _, _ => 0
  | terms + 1, p, k => p / k + oddReciprocals s terms ((p * s) >>> places) (k + 2)

/-- The natural logarithm of `a / b`, for `b ≤ a ≤ 2 b`, by the series of the inverse hyperbolic
tangent of `(a − b) / (a + b)`. -/
def logQuotient (a b : Nat) : Nat :=
  let t := ((a - b) <<< places) / (a + b)
  2 * oddReciprocals ((t * t) >>> places) 90 t 1

def logTwo : Nat := logQuotient 2 1

def log2 (m : Nat) (e : Int) : Int :=
  let whole := m.log2
  (e + whole) <<< places + ((logQuotient m (Nat.pow 2 whole) <<< places) / logTwo : Nat)

def one : Nat := Nat.pow 2 places

/-- `1 + x / k · (1 + x / (k + 1) · …)` with `n` factors: the exponential series when `k = 1`. -/
def expSeries (x : Nat) : (n k : Nat) → Nat
  | 0, _ => one
  | n + 1, k => one + ((x * expSeries x n (k + 1)) >>> places) / k

/-- Rounds `q · 2 ^ e`, where `q` is close to the true value.  If all but the last forty of the
cut-off places are equal, they are taken to come from an exact value. -/
def settle (format : Format) (sign : Sign) (q : Nat) (e : Int) : UnpackedFloat :=
  let unit := Nat.pow 2 128
  let fuzz := Nat.pow 2 40
  if (q + fuzz) % unit ≤ 2 * fuzz then
    UnpackedFloat.round format sign ((q + fuzz) / unit) (e + 128)
  else nearestAbove format sign (q / unit) (e + 128)

def exp2 (format : Format) (sign : Sign) (t : Int) : UnpackedFloat :=
  let whole := t >>> places
  let part := (t - whole <<< places).toNat
  settle format sign (expSeries ((part * logTwo) >>> places) 60 1) (whole - places)

def parity (n : Nat) (f : Int) : Option Bool :=
  if 0 ≤ f then some (f = 0 ∧ n % 2 = 1)
  else
    let unit := Nat.pow 2 (-f).toNat
    if n % unit = 0 then some ((n / unit) % 2 = 1) else none

def magnitude (format : Format) (sign : Sign) (m : Nat) (e : Int) (y : Sign) (n : Nat) (f : Int) :
    UnpackedFloat :=
  let base := log2 m e
  let scaled := y.apply n * base
  let t := if 0 ≤ f then scaled <<< (min f.toNat 1200) else scaled >>> (-f).toNat
  if base = 0 then nearestInt format sign 1 0
  else if 1100 <<< places ≤ t then .infinity sign
  else if t ≤ -(1100 <<< places) then .zero sign
  else exp2 format sign t

def power (format : Format) (x y : UnpackedFloat) : UnpackedFloat :=
  match x, y with
  | _, .zero _ => UnpackedFloat.ofNat format 1
  | .zero sign, .finite y n f _ =>
    let sign := if parity n f = some true then sign else .positive
    match y with
    | .positive => .zero sign
    | .negative => .infinity sign
  | .finite .positive m e _, .finite y n f _ => magnitude format .positive m e y n f
  | .finite .negative m e _, .finite y n f _ =>
    match parity n f with
    | none => .notANumber
    | some odd => magnitude format (if odd then .negative else .positive) m e y n f
  | _, _ => .notANumber

end Arbor.Number.Power

namespace Arbor.Number

def pow (x y : Float) : Float :=
  .ofModel (.pack (Power.power .binary64 x.toModel.unpack y.toModel.unpack))

end Arbor.Number
