import Arbor.Geometry.Rotation

/-!
# Segments

A segment is one straight piece of a drawing, described by where it starts, which way it points, how
long it is and how thick at its base.  Its other end, its middle and the solid that shows it follow
from these four.
-/
set_option autoImplicit false

namespace Arbor

open Arbor.Geometry (Vec3 Rotation)

structure Segment where
  start : Vec3
  direction : Vec3
  length : Float32
  /-- The radius at the base. -/
  thickness : Float32
deriving DecidableEq, Repr

/-- A cone without its tip, standing on the middle of its axis. -/
structure Frustum where
  topRadius : Float32
  bottomRadius : Float32
  height : Float32
deriving DecidableEq, Repr

namespace Segment

def pointAt (s : Segment) (distance : Float32) : Vec3 := s.start + s.direction.scale distance

def tip (s : Segment) : Vec3 := s.pointAt s.length

def midpoint (s : Segment) : Vec3 := s.pointAt (s.length / 2)

def orientation (s : Segment) : Rotation :=
  Rotation.fromUp (s.direction.normalizeOr Vec3.unitY)

def frustum (s : Segment) : Frustum := ⟨s.thickness / 2, s.thickness, s.length⟩

def scale (s : Segment) (factor : Float32) : Segment :=
  { s with length := s.length * factor, thickness := s.thickness * factor }

end Segment

end Arbor
