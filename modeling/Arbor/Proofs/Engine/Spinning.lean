import Arbor.Proofs.Engine.Building
import Arbor.Proofs.Engine.Run
import Arbor.Proofs.Geometry.Turning
import Arbor.Proofs.Number.Accumulation
import Arbor.Scene.Ledger

/-!
# How long a spinner spins

The angle of a spinner is a sum that is never reduced to one turn, so a spinner is as good as this sum:
it turns by its step as long as its ticks are not too many, and in the end it stands still, or has
an angle that is infinite and shows a rotation that is no number.
-/

set_option autoImplicit false

namespace Arbor

open Arbor.Geometry (Rotation)
open Arbor.Number

theorem Geometry.Rotation.aboutVertical_nearUnit {angle : Float32} (finite : angle.isFinite = true) :
    (Rotation.aboutVertical angle).NearUnit := by
  obtain ⟨sine_finite, cosine_finite, on_circle⟩ := sin_cos_on_circle (Geometry.isFinite_half finite)
  have zero_finite : (0 : Float32).isFinite = true := by decide
  refine ⟨⟨zero_finite, sine_finite, zero_finite⟩, cosine_finite, ?_⟩
  change real 0 ^ 2 + real (sin (angle * 0.5)) ^ 2 + real 0 ^ 2 + real (cos (angle * 0.5)) ^ 2 ≤ _
  rw [real_zero]
  linarith

namespace Spinner

open Animate

theorem isFinite_of_new {radius step : Float32} {s : Spinner} (built : new radius step = .ok s) :
    step.isFinite = true := by
  unfold new at built
  obtain ⟨_, _, built⟩ := exists_of_bind_eq_ok built
  obtain ⟨_, checked, _⟩ := exists_of_bind_eq_ok built
  exact checkFinite_ok checked

/-- One spinner is another that has turned some more steps. -/
structure Turned (s e : Spinner) (n : ℕ) : Prop where
  radius_eq : e.radius = s.radius
  step_eq : e.step = s.step
  yaw_eq : e.yaw = (fun yaw => yaw + s.step)^[n] s.yaw

section
variable {σ : Type} [Scene σ]

theorem tick_turned (s : Spinner) (scene : σ) : s.Turned (tick s scene).engine 1 := by
  unfold tick
  cases s.handle <;> exact ⟨rfl, rfl, rfl⟩

theorem teardown_turned (s : Spinner) (scene : σ) : s.Turned (teardown s scene).1 0 := by
  unfold teardown
  cases s.handle <;> exact ⟨rfl, rfl, rfl⟩

theorem Turned.trans {s e f : Spinner} {n m : ℕ} (first : s.Turned e n) (later : e.Turned f m) :
    s.Turned f (m + n) where
  radius_eq := later.radius_eq.trans first.radius_eq
  step_eq := later.step_eq.trans first.step_eq
  yaw_eq := by rw [later.yaw_eq, first.step_eq, first.yaw_eq, Function.iterate_add_apply]

theorem after_turned (calls : List (Call σ)) (s : Spinner) :
    s.Turned (after s calls) (ticks s calls).length := by
  induction calls generalizing s with
  | nil => exact ⟨rfl, rfl, rfl⟩
  | cons call calls ih =>
      cases call with
      | tick scene => exact (tick_turned s scene).trans (ih _)
      | teardown scene => exact (teardown_turned s scene).trans (ih _)

/-- A spinner turns, tick after tick and whatever is torn down meanwhile.  In the first ten million
ticks, and as long as the angle is not too large, the angle is close to the sum of the steps, a
further tick changes it, and what is shown is a rotation.  But there is a tick after which the angle
never changes again. -/
theorem after_new_turns {radius step : Float32} {s : Spinner} (built : new radius step = .ok s)
    (turning : real step ≠ 0) :
    (∀ calls : List (Call σ), (after s calls).radius = radius ∧ (after s calls).step = step ∧
      (after s calls).yaw = accumulated step (ticks s calls).length) ∧
    (∀ calls : List (Call σ), (ticks s calls).length ≤ 10 ^ 7 →
      (ticks s calls).length * |real step| ≤ 2 ^ (126 : ℤ) →
      (after s calls).yaw.isFinite = true ∧
      |real (after s calls).yaw - (ticks s calls).length * real step| ≤
        (ticks s calls).length ^ 2 / 2 ^ 24 * |real step| ∧
      (∀ scene : σ, (tick (after s calls) scene).engine.yaw ≠ (after s calls).yaw) ∧
      (after s calls).placement.rotation.NearUnit) ∧
    ∃ m, ∀ calls : List (Call σ), m ≤ (ticks s calls).length →
      (after s calls).yaw = accumulated step m := by
  have finite := isFinite_of_new built
  cases new_eq radius step s built
  have turned (calls : List (Call σ)) := after_turned calls ⟨radius, step, 0, none⟩
  refine ⟨fun calls => ⟨(turned calls).radius_eq, (turned calls).step_eq, (turned calls).yaw_eq⟩,
    fun calls few small => ?_, ?_⟩
  · have yaw_eq := (turned calls).yaw_eq
    change _ = accumulated step _ at yaw_eq
    obtain ⟨yaw_finite, close⟩ := accumulated_close finite (few.trans (by norm_num)) small
    have moves := add_ne_self yaw_finite finite (abs_accumulated_lt finite turning few small)
    rw [← yaw_eq] at yaw_finite close moves
    refine ⟨yaw_finite, close, fun scene => ?_, Rotation.aboutVertical_nearUnit yaw_finite⟩
    rw [(tick_turned _ scene).yaw_eq, (turned calls).step_eq]
    exact moves
  · obtain ⟨m, stops⟩ := exists_accumulated_stops finite
    exact ⟨m, fun calls late => (turned calls).yaw_eq.trans (stops _ late)⟩

end

theorem after_new_turns_standard :
    new 3 standardStep = .ok standard ∧ real standardStep ≠ 0 ∧
      let calls : List (Call SceneLedger) := [.tick .empty, .teardown .empty, .tick .empty]
      (ticks standard calls).length * |real standardStep| ≤ 2 ^ (126 : ℤ) ∧
        (after standard calls).yaw.isFinite = true ∧
        (tick (after standard calls) SceneLedger.empty).engine.yaw ≠ (after standard calls).yaw := by
  have built : new 3 standardStep = .ok standard := by decide +kernel
  have step_eq : real standardStep = 10737418 * 2 ^ (-30 : ℤ) := by
    rw [real_of_unpack (s := .positive) (m := 10737418) (e := -30) (by rfl), signed]
    norm_num
  have turning : real standardStep ≠ 0 := by
    rw [step_eq]
    positivity
  have small : ((2 : ℕ) : ℝ) * |real standardStep| ≤ 2 ^ (126 : ℤ) := by
    rw [step_eq]
    norm_num
  obtain ⟨_, early, _⟩ := after_new_turns (σ := SceneLedger) built turning
  obtain ⟨finite, _, moves, _⟩ := early [.tick .empty, .teardown .empty, .tick .empty]
    (by decide +kernel) small
  exact ⟨built, turning, small, finite, moves .empty⟩

/-- A step that is finite can be so large that the second tick makes the angle infinite.  From then on
the rotation that is shown is no number and a tick changes nothing. -/
theorem after_new_stops :
    new 1 3e38 = .ok ⟨1, 3e38, 0, none⟩ ∧
      let s : Spinner := after ⟨1, 3e38, 0, none⟩ [Call.tick SceneLedger.empty, .tick .empty]
      ¬ s.yaw.isFinite = true ∧ s.placement.rotation.y.isNaN = true ∧
        (tick s SceneLedger.empty).engine.yaw = s.yaw := by
  decide +kernel

end Spinner

end Arbor
