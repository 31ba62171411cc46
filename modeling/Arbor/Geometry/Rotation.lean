import Arbor.Geometry.Vector
import Arbor.Number.Circle

/-!
# Rotations

A rotation is a quaternion `x i + y j + z k + w` of length one.  Turning by `a` about an axis has
the half angle in its coordinates: `(axis · sin (a / 2), cos (a / 2))`.

As with vectors, each operation rounds once and the order of the operations counts.
-/
set_option autoImplicit false

namespace Arbor.Geometry

def pi : Float32 := 3.1415927

def radiansPerDegree : Float32 := 0.017453292

def ofDegrees (angle : Float32) : Float32 := angle * radiansPerDegree

structure Rotation where
  x : Float32
  y : Float32
  z : Float32
  w : Float32
deriving DecidableEq, Repr

namespace Rotation

def identity : Rotation := ⟨0, 0, 0, 1⟩

def about (axis : Vec3) (angle : Float32) : Rotation :=
  let half := angle * 0.5
  let s := Number.sin half
  ⟨axis.x * s, axis.y * s, axis.z * s, Number.cos half⟩

def aboutVertical (angle : Float32) : Rotation :=
  let half := angle * 0.5
  ⟨0, Number.sin half, 0, Number.cos half⟩

def axis (q : Rotation) : Vec3 := ⟨q.x, q.y, q.z⟩

def apply (q : Rotation) (v : Vec3) : Vec3 :=
  let b := q.axis
  v.scale (q.w * q.w - b.dot b) + b.scale (v.dot b * 2) + (b.cross v).scale (q.w * 2)

def parallelCosine : Float32 := 0.99999976

def normalize (q : Rotation) : Rotation :=
  let length := ((q.x * q.x + q.z * q.z) + (q.y * q.y + q.w * q.w)).sqrt
  ⟨q.x / length, q.y / length, q.z / length, q.w / length⟩

/-- The shortest rotation that carries the upward direction to the unit vector `target`.  Straight
down there is none shortest, and the half turn about the third axis is taken. -/
def fromUp (target : Vec3) : Rotation :=
  let cosine := Vec3.unitY.dot target
  if parallelCosine < cosine then identity
  else if cosine < -parallelCosine then about ⟨-0.0, 0, -1⟩ pi
  else
    let c := Vec3.unitY.cross target
    normalize ⟨c.x, c.y, c.z, 1 + cosine⟩

end Rotation

end Arbor.Geometry
