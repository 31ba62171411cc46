import Arbor.Geometry.Rotation

/-!
# The cursor

A cursor stands at a point and faces a direction.  It is steered in one of two ways: a planar
heading is an angle in the plane of the first two axes, a spatial heading is a direction in space.
-/
set_option autoImplicit false

namespace Arbor.Turtle

open Arbor.Geometry (Vec3 Rotation)

inductive HeadingMode where
  | planar
  | spatial
deriving DecidableEq, Repr

def HeadingMode.name : HeadingMode → String
  | .planar => "planar"
  | .spatial => "spatial"

inductive Heading where
  /-- An angle in radians, counter-clockwise from the first axis. -/
  | planar (angle : Float32)
  | spatial (direction : Vec3)
deriving DecidableEq, Repr

namespace Heading

def initial : HeadingMode → Heading
  | .planar => .planar 0
  | .spatial => .spatial Vec3.unitY

def direction : Heading → Vec3
  | .planar angle => ⟨Number.cos angle, Number.sin angle, 0⟩
  | .spatial direction => direction

def yaw (angle : Float32) : Heading → Heading
  | .planar current => .planar (current + angle)
  | .spatial direction => .spatial ((Rotation.about Vec3.unitZ angle).apply direction)

def pitch (angle : Float32) : Heading → Heading
  | .planar current => .planar current
  | .spatial direction => .spatial ((Rotation.about Vec3.unitX angle).apply direction)

end Heading

structure Cursor where
  position : Vec3
  heading : Heading
deriving DecidableEq, Repr

namespace Cursor

def initial (mode : HeadingMode) : Cursor := ⟨Vec3.zero, Heading.initial mode⟩

def advance (c : Cursor) (distance : Float32) : Cursor :=
  { c with position := c.position + c.heading.direction.scale distance }

def yaw (c : Cursor) (angle : Float32) : Cursor := { c with heading := c.heading.yaw angle }

def pitch (c : Cursor) (angle : Float32) : Cursor := { c with heading := c.heading.pitch angle }

end Cursor

end Arbor.Turtle
