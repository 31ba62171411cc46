import Arbor.Segment

/-!
# Primitives

What a scene can show: a branch, a line or a sphere.  A placement moves a primitive.
-/
set_option autoImplicit false

namespace Arbor

open Arbor.Geometry (Vec3 Rotation)

structure Placement where
  position : Vec3
  rotation : Rotation
deriving DecidableEq, Repr

namespace Placement

def identity : Placement := ⟨Vec3.zero, Rotation.identity⟩

def apply (p : Placement) (v : Vec3) : Vec3 := p.position + p.rotation.apply v

end Placement

inductive Primitive where
  /-- A frustum about the second axis, centred on its placement. -/
  | branch (frustum : Frustum) (placement : Placement)
  | line (start stop : Vec3)
  | sphere (radius : Float32) (placement : Placement)
deriving DecidableEq, Repr

namespace Primitive

/-- The primitive at a new placement.  A solid takes the placement as its own; a line has none, so
its two ends are carried along. -/
def place (p : Placement) : Primitive → Primitive
  | branch frustum _ => branch frustum p
  | line start stop => line (p.apply start) (p.apply stop)
  | sphere radius _ => sphere radius p

def ofSegment (s : Segment) : Primitive := branch s.frustum ⟨s.midpoint, s.orientation⟩

def lineOfSegment (s : Segment) : Primitive := line s.start s.tip

end Primitive

end Arbor
