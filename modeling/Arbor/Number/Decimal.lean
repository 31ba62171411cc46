import Arbor.Number.Rounding

/-!
# Decimals

A `Decimal` is a sign, a whole number and a power of ten.  This module reads one as a float,
rounding once, and writes a float as one in three ways:

* `exact`: all its digits, so that reading it back gives the float again;
* `shortest`: the fewest digits that read back to the float, and of those the nearest to it;
* `fixed`: a set number of places after the point, the exact value rounded half to even.

Numbers in messages and answers are shortest decimals in positional notation.
-/
set_option autoImplicit false

namespace Arbor.Number

open Float.Model (Format UnpackedFloat)
open Float.Model.UnpackedFloat (Sign)

/-- `± coefficient · 10 ^ exponent`. -/
structure Decimal where
  negative : Bool
  coefficient : Nat
  exponent : Int
deriving DecidableEq, Repr

namespace Decimal

def round (format : Format) (d : Decimal) : UnpackedFloat :=
  let u := UnpackedFloat.ofScientific format d.coefficient d.exponent
  if d.negative then u.neg else u

def toDouble (d : Decimal) : Float := .ofModel (.pack (d.round .binary64))

def toSingle (d : Decimal) : Float32 := .ofModel (.pack (d.round .binary32))

def ofBinary (negative : Bool) (m : Nat) (e : Int) : Decimal :=
  if 0 ≤ e then ⟨negative, m <<< e.toNat, 0⟩
  else ⟨negative, m * Nat.pow 5 (-e).toNat, e⟩

def exact : UnpackedFloat → Option Decimal
  | .finite sign m e _ => some (ofBinary (sign == .negative) m e)
  | .zero sign => some ⟨sign == .negative, 0, 0⟩
  | _ => none

/-- Moves trailing zeros of the coefficient into the exponent; `fuel` bounds how many. -/
def strip : (fuel : Nat) → Nat → Int → Nat × Int
  | 0, c, k => (c, k)
  | fuel + 1, c, k => if c ≠ 0 ∧ c % 10 = 0 then strip fuel (c / 10) (k + 1) else (c, k)

/-- The reals that round to `m · 2 ^ e`, in quarters of `2 ^ e` times `up / down`: the two ends, the
value itself, and whether the ends belong to them. -/
structure Interval where
  low : Nat
  mid : Nat
  high : Nat
  up : Nat
  down : Nat
  closed : Bool

/-- The interval of a value of `format`.  Below a power of two the neighbour is half as far away,
except at the least exponent, where the spacing no longer changes. -/
def Interval.ofBinary (format : Format) (m : Nat) (e : Int) : Interval :=
  let narrowBelow := m = Nat.pow 2 (format.mantissaBits - 1) ∧ format.minExponent < e
  { low := if narrowBelow then 4 * m - 1 else 4 * m - 2
    mid := 4 * m
    high := 4 * m + 2
    up := Nat.pow 2 (e - 2).toNat
    down := Nat.pow 2 (2 - e).toNat
    closed := m % 2 = 0 }

namespace Interval

def compareWith (i : Interval) (n c : Nat) (k : Int) : Ordering :=
  compare (n * i.up * Nat.pow 10 (-k).toNat) (c * i.down * Nat.pow 10 k.toNat)

def contains (i : Interval) (c : Nat) (k : Int) : Bool :=
  let low := i.compareWith i.low c k
  let high := i.compareWith i.high c k
  (low == .lt || (i.closed && low == .eq)) && (high == .gt || (i.closed && high == .eq))

/-- The decimal of the grid `10 ^ k` that is in the interval and nearest to its value, if there is
one; of two equally near the larger. -/
def onGrid (i : Interval) (k : Int) : Option (Nat × Int) :=
  let num := i.mid * i.up * Nat.pow 10 (-k).toNat
  let den := i.down * Nat.pow 10 k.toNat
  let c := num / den
  match i.contains c k, i.contains (c + 1) k with
  | true, true => some (if 2 * (num % den) < den then c else c + 1, k)
  | true, false => some (c, k)
  | false, true => some (c + 1, k)
  | false, false => none

end Interval

/-- The least exponent of a power of ten above the value, looked for from `k` upward in at most
`fuel` steps. -/
def magnitude (i : Interval) : (fuel : Nat) → Int → Int
  | 0, k => k
  | fuel + 1, k => if i.compareWith i.mid 1 k == .lt then k else magnitude i fuel (k + 1)

/-- The fewest digits that read back as `m · 2 ^ e`, and of those the nearest: the grids of one
digit, two digits and so on are tried in turn.  Seventeen digits always suffice for a double. -/
def shortestDigits (format : Format) (m : Nat) (e : Int) : Nat × Int :=
  let i := Interval.ofBinary format m e
  let bits : Int := m.log2 + e
  let top := magnitude i 3 ((bits * 30103) / 100000)
  match (List.range 17).findSome? (fun n => i.onGrid (top - (n + 1 : Nat))) with
  | some (c, k) => strip 17 c k
  | none => let d := ofBinary false m e; (d.coefficient, d.exponent)

def shortest (format : Format) : UnpackedFloat → Option Decimal
  | .finite sign m e _ =>
    let (c, k) := shortestDigits format m e
    some ⟨sign == .negative, c, k⟩
  | .zero sign => some ⟨sign == .negative, 0, 0⟩
  | _ => none

/-- `num / den` rounded to a whole number, a half going to the even one. -/
def divideHalfEven (num den : Nat) : Nat :=
  let q := num / den
  match compare (2 * (num % den)) den with
  | .lt => q
  | .gt => q + 1
  | .eq => q + q % 2

def fixed (places : Nat) : UnpackedFloat → Option Decimal
  | .finite sign m e _ =>
    let num := m * Nat.pow 10 places * Nat.pow 2 e.toNat
    let den := Nat.pow 2 (-e).toNat
    some ⟨sign == .negative, divideHalfEven num den, -places⟩
  | .zero sign => some ⟨sign == .negative, 0, -places⟩
  | _ => none

def digits (n : Nat) : List Char := Nat.toDigits 10 n

/-- Positional notation: no exponent, and a point only where a digit stands after it. -/
def positional (d : Decimal) : List Char :=
  let sign := if d.negative then ['-'] else []
  let ds := digits d.coefficient
  if 0 ≤ d.exponent then
    sign ++ if d.coefficient = 0 then ['0'] else ds ++ List.replicate d.exponent.toNat '0'
  else
    let places := (-d.exponent).toNat
    let padded := List.replicate (places + 1 - ds.length) '0' ++ ds
    sign ++ padded.take (padded.length - places) ++ '.' :: padded.drop (padded.length - places)

end Decimal

def specialText : UnpackedFloat → String
  | .infinity .positive => "inf"
  | .infinity .negative => "-inf"
  | _ => "NaN"

def textOf (u : UnpackedFloat) (d : Option Decimal) : String :=
  match d with
  | some d => String.ofList d.positional
  | none => specialText u

def singleText (x : Float32) : String :=
  textOf x.toModel.unpack (Decimal.shortest .binary32 x.toModel.unpack)

def doubleText (x : Float) : String :=
  textOf x.toModel.unpack (Decimal.shortest .binary64 x.toModel.unpack)

def fourPlacesText (x : Float) : String :=
  textOf x.toModel.unpack (Decimal.fixed 4 x.toModel.unpack)

end Arbor.Number
