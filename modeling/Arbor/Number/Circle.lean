import Arbor.Number.Rounding

/-!
# Sine, cosine and tangent, correctly rounded

Each function is computed in whole numbers, as a multiple of `2 ^ -192`, and rounded once to the
format asked for.

* `pi` is the circle constant, from `π = 16 · arctan (1/5) − 4 · arctan (1/239)`.
* `Turn` is an angle brought into the first quarter turn: the number of quarters taken off and the
  rest.  The rest is exact up to `2 ^ -190`, however large the angle, because the constant carries
  more bits than the largest double has.
* `alternating` is the nested form of the two power series.

An angle below `2 ^ -30` is its own sine and tangent, and its cosine is one: the next term of the
series is less than a quarter unit in the last place.
-/
set_option autoImplicit false

namespace Arbor.Number.Circle

open Float.Model (Format UnpackedFloat)
open Float.Model.UnpackedFloat (Sign)

def places : Nat := 192

/-- The number of binary places of `pi`: enough for the largest double and the working places. -/
def piPlaces : Nat := 1280

/-- `terms` terms of `p / k − p / (n² (k + 2)) + …`, the series of the inverse tangent of `1 / n`
when `p = scale / n` and `k = 1`. -/
def reciprocalArctan (n : Nat) : (terms : Nat) → (p k : Nat) → Int
  | 0, _, _ => 0
  | terms + 1, p, k => (p / k : Nat) - reciprocalArctan n terms (p / (n * n)) (k + 2)

def pi : Nat :=
  let scale := Nat.pow 2 (piPlaces + 16)
  let fifth := reciprocalArctan 5 320 (scale / 5) 1
  let small := reciprocalArctan 239 100 (scale / 239) 1
  (16 * fifth - 4 * small).toNat >>> 16

/-- An angle as a number of quarter turns, modulo four, and a rest in units of `2 ^ -places`. -/
structure Turn where
  quarter : Fin 4
  rest : Int

def Turn.ofAngle (m : Nat) (e : Int) : Turn :=
  let angle := m <<< (e + piPlaces).toNat
  let quarter := pi >>> 1
  ⟨Fin.ofNat 4 (angle / quarter), (angle % quarter : Nat) >>> (piPlaces - places)⟩

def one : Int := Nat.pow 2 places

/-- `1 − s / (k (k + 1)) · (1 − s / ((k + 2) (k + 3)) · …)` with `n` factors, all numbers being
multiples of `2 ^ -places`. -/
def alternating (s : Int) : (n k : Nat) → Int
  | 0, _ => one
  | n + 1, k => one - ((s * alternating s n (k + 2)) >>> places) / (k * (k + 1))

def sineSeries (r : Int) : Int := (r * alternating ((r * r) >>> places) 28 2) >>> places

def cosineSeries (r : Int) : Int := alternating ((r * r) >>> places) 28 1

def Turn.sine (t : Turn) : Int :=
  match t.quarter with
  | 0 => sineSeries t.rest
  | 1 => cosineSeries t.rest
  | 2 => -sineSeries t.rest
  | 3 => -cosineSeries t.rest

def Turn.cosine (t : Turn) : Int :=
  match t.quarter with
  | 0 => cosineSeries t.rest
  | 1 => -sineSeries t.rest
  | 2 => -cosineSeries t.rest
  | 3 => sineSeries t.rest

def isTiny (m : Nat) (e : Int) : Bool := Float.Model.totalExponent m e ≤ -30

def signOf (flip : Sign) (n : Int) : Sign := if n < 0 then -flip else flip

def sine (format : Format) : UnpackedFloat → UnpackedFloat
  | .finite sign m e h =>
    if isTiny m e then .finite sign m e h
    else
      let s := (Turn.ofAngle m e).sine
      nearestAbove format (signOf sign s) s.natAbs (-places)
  | .zero sign => .zero sign
  | _ => .notANumber

def cosine (format : Format) : UnpackedFloat → UnpackedFloat
  | .finite _ m e _ =>
    if isTiny m e then UnpackedFloat.ofNat format 1
    else
      let c := (Turn.ofAngle m e).cosine
      nearestAbove format (signOf .positive c) c.natAbs (-places)
  | .zero _ => UnpackedFloat.ofNat format 1
  | _ => .notANumber

def tangent (format : Format) : UnpackedFloat → UnpackedFloat
  | .finite sign m e h =>
    if isTiny m e then .finite sign m e h
    else
      let t := Turn.ofAngle m e
      let q := (t.sine.natAbs <<< places) / t.cosine.natAbs
      nearestAbove format (signOf sign (t.sine * t.cosine)) q (-places)
  | .zero sign => .zero sign
  | _ => .notANumber

end Arbor.Number.Circle

namespace Arbor.Number

open Float.Model (UnpackedFloat)

def sin (x : Float32) : Float32 := .ofModel (.pack (Circle.sine .binary32 x.toModel.unpack))

def cos (x : Float32) : Float32 := .ofModel (.pack (Circle.cosine .binary32 x.toModel.unpack))

def doubleSin (x : Float) : Float := .ofModel (.pack (Circle.sine .binary64 x.toModel.unpack))

def doubleCos (x : Float) : Float := .ofModel (.pack (Circle.cosine .binary64 x.toModel.unpack))

def doubleTan (x : Float) : Float := .ofModel (.pack (Circle.tangent .binary64 x.toModel.unpack))

end Arbor.Number
