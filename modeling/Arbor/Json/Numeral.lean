import Arbor.Number.Rounding
import Arbor.Text.Digits

/-!
# Numerals

A numeral is a JSON number as it is written.  It stands for the number `Numeral.decimal`, but it is
read in words of the machine:

* `word?` is a whole number of at most 64 bits;
* `toDouble` keeps as many digits as fit into 64 bits, and multiplies or divides them by a power of
  ten.  Digits, power and result are rounded one after the other, so the result can be some units in
  the last place away from the double nearest to the numeral.
-/
set_option autoImplicit false

namespace Arbor

open Text (digitValue ofDigits)

structure Numeral where
  negative : Bool
  whole : List Char
  /-- The digits after the point, if there is one. -/
  fraction : Option (List Char)
  /-- The power of ten behind the digits, if one is written. -/
  exponent : Option Int
deriving DecidableEq, Repr

namespace Numeral

def ofNat (n : Nat) : Numeral := ⟨false, Number.Decimal.digits n, none, none⟩

/-- A numeral of a decimal, all of whose digits stand before the point. -/
def ofDecimal (d : Number.Decimal) : Numeral :=
  ⟨d.negative, Number.Decimal.digits d.coefficient, none, some d.exponent⟩

/-- A numeral of a decimal, with a power of ten only if the point is far from the digits. -/
def pointed (d : Number.Decimal) : Numeral :=
  let ds := Number.Decimal.digits d.coefficient
  let point : Int := ds.length + d.exponent
  if d.coefficient = 0 then ⟨d.negative, ['0'], some ['0'], none⟩
  else if 0 ≤ d.exponent ∧ point ≤ 13 then
    ⟨d.negative, ds ++ List.replicate d.exponent.toNat '0', some ['0'], none⟩
  else if 0 < point ∧ point ≤ 13 then
    ⟨d.negative, ds.take point.toNat, some (ds.drop point.toNat), none⟩
  else if -6 < point ∧ point ≤ 0 then
    ⟨d.negative, ['0'], some (List.replicate (-point).toNat '0' ++ ds), none⟩
  else if ds.length = 1 then ⟨d.negative, ds, none, some d.exponent⟩
  else ⟨d.negative, ds.take 1, some (ds.drop 1), some (point - 1)⟩

def decimal (n : Numeral) : Number.Decimal :=
  Text.decimal n.negative n.whole (n.fraction.getD []) (n.exponent.getD 0)

def wordValues : Nat := Nat.pow 2 64

/-- Puts digits behind those of a number as long as it stays a word: the number, and the digits
left over. -/
def takeDigits (m : Nat) : List Char → Nat × List Char
  | [] => (m, [])
  | c :: cs =>
    let next := 10 * m + digitValue c
    if next < wordValues then takeDigits next cs else (m, c :: cs)

/-- The digits that are kept, as a word, and the power of ten that belongs behind them.  A digit
left over before the point raises the power, one left over after it changes nothing. -/
def significand (n : Numeral) : Nat × Int :=
  let fraction := n.fraction.getD []
  let (m, restWhole) := takeDigits 0 n.whole
  let (m, restFraction) := takeDigits m fraction
  let kept : Nat := fraction.length - restFraction.length
  (m, n.exponent.getD 0 + restWhole.length - kept)

/-- The whole number of a numeral without point and exponent, if a word holds it.  Negative zero is
no whole number. -/
def word? (n : Numeral) : Option Int :=
  let m := ofDigits n.whole
  if n.fraction.isSome ∨ n.exponent.isSome then none
  else if n.negative then if 0 < m ∧ m ≤ Nat.pow 2 63 then some (-m) else none
  else if m < wordValues then some m else none

def tenTo (k : Nat) : Float := Number.Decimal.toDouble ⟨false, 1, k⟩

def maxPower : Int := 308

/-- A number below `2 ^ 64` times a power of ten.  Below the least power it is divided twice, and
further below nothing is left of it. -/
def scale (x : Float) (e : Int) : Float :=
  if x == 0 then x
  else if maxPower < e then 1 / 0
  else if 0 ≤ e then x * tenTo e.toNat
  else if -maxPower ≤ e then x / tenTo (-e).toNat
  else if -2 * maxPower ≤ e then x / tenTo maxPower.toNat / tenTo (-maxPower - e).toNat
  else 0

def toDouble (n : Numeral) : Float :=
  let (m, e) := n.significand
  let x := scale (Number.Decimal.toDouble ⟨false, m, 0⟩) e
  if n.negative then -x else x

/-- The single-precision value as which a numeral is read: a whole number is rounded once, any other
one by way of a double, of which there must be one. -/
def toSingle? (n : Numeral) : Option Float32 :=
  match n.word? with
  | some i => some (Number.Decimal.toSingle ⟨i < 0, i.natAbs, 0⟩)
  | none =>
    let x := n.toDouble
    if x.isFinite then some (Number.narrow x) else none

/-- A finite value in as few digits as stand for it.  It is written in full where the reader, which
rounds more than once, would take those for another value. -/
def ofSingle (x : Float32) : Numeral :=
  let u := x.toModel.unpack
  let short := pointed ((Number.Decimal.shortest .binary32 u).getD ⟨false, 0, 0⟩)
  if short.toSingle? = some x then short
  else ofDecimal ((Number.Decimal.exact u).getD ⟨false, 0, 0⟩)

end Numeral

end Arbor
