import Arbor.Engine.Tick
import Arbor.Geometry.Rotation

/-!
# Spinners

A spinner is a sphere that turns about the vertical axis.  Its first tick shows the sphere, every
further one moves it.
-/
set_option autoImplicit false

namespace Arbor

open Arbor.Geometry (Vec3 Rotation)

structure Spinner where
  radius : Float32
  /-- How far it turns at each tick, in radians. -/
  step : Float32
  /-- How far it has turned, in radians. -/
  yaw : Float32
  handle : Option Handle
deriving DecidableEq, Repr

namespace Spinner

def standardStep : Float32 := 0.01

def standard : Spinner := ⟨3, standardStep, 0, none⟩

def new (radius step : Float32) : Except ConfigError Spinner := do
  checkSize .radius radius
  checkFinite .step step
  return ⟨radius, step, 0, none⟩

def placement (s : Spinner) : Placement := ⟨Vec3.zero, Rotation.aboutVertical s.yaw⟩

def primitive (s : Spinner) : Primitive := .sphere s.radius s.placement

variable {σ : Type} [Scene σ]

def tick (s : Spinner) (scene : σ) : Tick Spinner σ :=
  let s := { s with yaw := s.yaw + s.step }
  match s.handle with
  | some h => ⟨s, Scene.place scene h s.placement, .moved, []⟩
  | none =>
    let (scene, h) := Scene.materialize scene s.primitive
    ⟨{ s with handle := some h }, scene, .moved, []⟩

def teardown (s : Spinner) (scene : σ) : Spinner × σ :=
  match s.handle with
  | some h => ({ s with handle := none }, Scene.dispose scene h)
  | none => (s, scene)

end Spinner

end Arbor
