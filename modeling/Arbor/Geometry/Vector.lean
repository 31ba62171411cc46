import Arbor.Number.Rounding

/-!
# Vectors

Points, directions and displacements in space, with single-precision coordinates.  Every sum and
product is rounded on its own, so the order of the operations below is part of their meaning.
-/
set_option autoImplicit false

namespace Arbor.Geometry

structure Vec3 where
  x : Float32
  y : Float32
  z : Float32
deriving DecidableEq, Repr

namespace Vec3

def zero : Vec3 := ⟨0, 0, 0⟩

def unitX : Vec3 := ⟨1, 0, 0⟩

def unitY : Vec3 := ⟨0, 1, 0⟩

def unitZ : Vec3 := ⟨0, 0, 1⟩

def add (v w : Vec3) : Vec3 := ⟨v.x + w.x, v.y + w.y, v.z + w.z⟩

instance : Add Vec3 := ⟨add⟩

def scale (v : Vec3) (k : Float32) : Vec3 := ⟨v.x * k, v.y * k, v.z * k⟩

def dot (v w : Vec3) : Float32 := v.x * w.x + v.y * w.y + v.z * w.z

def cross (v w : Vec3) : Vec3 :=
  ⟨v.y * w.z - w.y * v.z, v.z * w.x - w.z * v.x, v.x * w.y - w.x * v.y⟩

/-- The unit vector along `v`, or `fallback` when the inverse of the length of `v` is not a size. -/
def normalizeOr (v fallback : Vec3) : Vec3 :=
  let inverse := 1 / (v.dot v).sqrt
  if Number.IsSize inverse then v.scale inverse else fallback

def IsFinite (v : Vec3) : Prop :=
  v.x.isFinite = true ∧ v.y.isFinite = true ∧ v.z.isFinite = true

instance (v : Vec3) : Decidable v.IsFinite :=
  inferInstanceAs (Decidable (v.x.isFinite = true ∧ v.y.isFinite = true ∧ v.z.isFinite = true))

end Vec3

end Arbor.Geometry
