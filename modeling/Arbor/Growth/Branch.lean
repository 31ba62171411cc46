import Arbor.Error
import Arbor.Number.Integral
import Arbor.Scene.Basic

/-!
# Branches

A branch is a segment that stays: it has an identity, it grows, and it knows the primitive that
shows it.  `BranchKey` tells when two segments are one branch, `GrowthFactor` is what a branch can
grow by.
-/
set_option autoImplicit false

namespace Arbor

/-- A coordinate in units of the grid on which branches are told apart. -/
def gridUnits (v : Float32) : Int64 := Number.nearestInt64 (v * 10000)

/-- The place and the direction of a segment on the grid: six coordinates, those of the place
first. -/
abbrev BranchKey := Vector Int64 6

def Segment.key (s : Segment) : BranchKey :=
  #v[gridUnits s.start.x, gridUnits s.start.y, gridUnits s.start.z,
    gridUnits s.direction.x, gridUnits s.direction.y, gridUnits s.direction.z]

structure GrowthFactor where
  value : Float32
  isSize : Number.IsSize value

namespace GrowthFactor

def ofValue (value : Float32) : Except ConfigError GrowthFactor :=
  if h : Number.IsSize value then .ok ⟨value, h⟩ else .error (sizeError .growthFactor value)

def one : GrowthFactor := ⟨1, by decide⟩

end GrowthFactor

structure Branch where
  id : Nat
  segment : Segment
  handle : Option Handle
  /-- Whether the branch has changed since it was shown. -/
  stale : Bool
deriving DecidableEq, Repr

namespace Branch

def new (id : Nat) (segment : Segment) : Branch := ⟨id, segment, none, true⟩

def grow (factor : GrowthFactor) (b : Branch) : Branch :=
  { b with segment := b.segment.scale factor.value, stale := true }

def primitive (b : Branch) : Primitive := .ofSegment b.segment

variable {σ : Type} [Scene σ]

def dispose (b : Branch) (scene : σ) : Branch × σ :=
  let scene := match b.handle with
    | some h => Scene.dispose scene h
    | none => scene
  ({ b with handle := none, stale := true }, scene)

/-- Shows the branch at its size in place of what showed it before. -/
def rematerialize (b : Branch) (scene : σ) : Branch × σ :=
  let (b, scene) := b.dispose scene
  let (scene, h) := Scene.materialize scene b.primitive
  ({ b with handle := some h, stale := false }, scene)

end Branch

end Arbor
