import Arbor.Proofs.Geometry.Turning
import Arbor.Proofs.Turtle.Depiction

/-!
# How far a turtle comes

Walks are checked and turns are not: a turn by an angle that is not finite leaves a direction that is
not, and nothing reports it.  When every turn is by a finite angle and no walk is enormous, all that
is drawn is finite.  A direction in space is stretched a little by each turn, so there is a limit to
their number.  Positions and planar angles need none: they stop growing where single precision has
too few bits left for what is added.
-/

set_option autoImplicit false

namespace Arbor.Turtle

open Arbor.Geometry
open Arbor.Number

/-- Farther than this no walk may lead, and by more than this no turn in the plane. -/
def farthest : Float32 := 1e27

theorem isFinite_farthest : farthest.isFinite = true ∧ (-farthest).isFinite = true := by
  decide +kernel

theorem real_farthest : real farthest ≤ 2 ^ 90 ∧ -2 ^ 90 ≤ real (-farthest) := by
  rw [real_of_unpack (x := farthest) (s := .positive) (m := 13552527) (e := 66) rfl,
    real_of_unpack (x := -farthest) (s := .negative) (m := 13552527) (e := 66) rfl, signed, signed]
  norm_num

/-! ## Points and directions -/

structure Boxed (bound : ℝ) (v : Vec3) : Prop where
  isFinite : v.IsFinite
  x : |real v.x| ≤ bound
  y : |real v.y| ≤ bound
  z : |real v.z| ≤ bound

theorem coordinate_bounded {p d length : Float32} (p_finite : p.isFinite = true)
    (p_bounded : |real p| ≤ 2 ^ (127 : ℤ)) (d_finite : d.isFinite = true)
    (d_bounded : |real d| ≤ 2 ^ 12) (size : IsSize length) (near : length ≤ farthest) :
    (p + d * length).isFinite = true ∧ |real (p + d * length)| ≤ 2 ^ (127 : ℤ) := by
  obtain ⟨length_finite, positive⟩ := (isSize_iff length).mp size
  have length_le : real length ≤ 2 ^ 90 :=
    ((le_iff_real_le length_finite isFinite_farthest.1).mp near).trans real_farthest.1
  have product : |real d * real length| ≤ 2 ^ (102 : ℤ) := by
    rw [abs_mul, abs_of_pos positive]
    calc |real d| * real length ≤ 2 ^ 12 * 2 ^ 90 :=
          mul_le_mul d_bounded length_le positive.le (by positivity)
      _ = 2 ^ (102 : ℤ) := by norm_num
  obtain ⟨finite, _, bounded⟩ := (rounds_mul d_finite length_finite).of_abs_le
    (onGrid_two_zpow (by decide)) (zpow_lt_zpow_right₀ one_lt_two (by norm_num)) product
  refine (rounds_add p_finite finite).saturates ?_
  calc |real p + real (d * length)| ≤ |real p| + |real (d * length)| := abs_add_le _ _
    _ ≤ 2 ^ (127 : ℤ) + 2 ^ (102 : ℤ) := add_le_add p_bounded bounded
    _ < 2 ^ (127 : ℤ) + 2 ^ (103 : ℤ) := by norm_num

theorem Boxed.walk {p d : Vec3} {length : Float32} (position : Boxed (2 ^ (127 : ℤ)) p)
    (direction : Boxed (2 ^ 12) d) (size : IsSize length) (near : length ≤ farthest) :
    Boxed (2 ^ (127 : ℤ)) (p + d.scale length) := by
  obtain ⟨⟨x_finite, y_finite, z_finite⟩, x, y, z⟩ := position
  obtain ⟨⟨x_finite', y_finite', z_finite'⟩, x', y', z'⟩ := direction
  obtain ⟨x_stays, x_bounded⟩ := coordinate_bounded x_finite x x_finite' x' size near
  obtain ⟨y_stays, y_bounded⟩ := coordinate_bounded y_finite y y_finite' y' size near
  obtain ⟨z_stays, z_bounded⟩ := coordinate_bounded z_finite z z_finite' z' size near
  exact ⟨⟨x_stays, y_stays, z_stays⟩, x_bounded, y_bounded, z_bounded⟩

/-! ## Headings -/

/-- By how much a number of turns may stretch a direction. -/
noncomputable def stretch (turns : Nat) : ℝ := (1 + 1 / 2 ^ 17) ^ turns

theorem one_le_stretch (turns : Nat) : 1 ≤ stretch turns := one_le_pow₀ (by norm_num)

theorem stretch_le {turns : Nat} (few : turns ≤ 2 ^ 20) : stretch turns ≤ 2 ^ 12 := by
  have exponential : Real.exp 1 < 2.7182818286 := Real.exp_one_lt_d9
  calc stretch turns ≤ (1 + 1 / 2 ^ 17) ^ 2 ^ 20 := pow_le_pow_right₀ (by norm_num) few
    _ ≤ Real.exp (1 / 2 ^ 17) ^ 2 ^ 20 := by
        refine pow_le_pow_left₀ (by positivity) ?_ _
        rw [add_comm]
        exact Real.add_one_le_exp _
    _ = Real.exp 1 ^ 8 := by
        rw [← Real.exp_nat_mul, ← Real.exp_nat_mul]
        norm_num
    _ ≤ 2.7182818286 ^ 8 := pow_le_pow_left₀ (Real.exp_pos 1).le exponential.le 8
    _ ≤ 2 ^ 12 := by norm_num

namespace Heading

/-- A heading of the given kind, after at most so many turns. -/
def Steady (mode : HeadingMode) (turns : Nat) : Heading → Prop
  | .planar angle =>
    mode = .planar ∧ angle.isFinite = true ∧ |real angle| ≤ 2 ^ (127 : ℤ)
  | .spatial direction => mode = .spatial ∧ direction.Within (stretch turns)

variable {mode : HeadingMode} {turns : Nat} {h : Heading}

theorem Steady.mono (steady : h.Steady mode turns) {more : Nat} (le : turns ≤ more) :
    h.Steady mode more := by
  cases h with
  | planar angle => exact steady
  | spatial d =>
      obtain ⟨spatial, within⟩ := steady
      refine ⟨spatial, within.isFinite, within.length.trans ?_⟩
      have nonneg := zero_le_one.trans (one_le_stretch turns)
      exact pow_le_pow_left₀ nonneg (pow_le_pow_right₀ (by norm_num) le) 2

variable (few : mode = .spatial → turns ≤ 2 ^ 20)
include few

theorem Steady.direction (steady : h.Steady mode turns) : Boxed (2 ^ 12) h.direction := by
  cases h with
  | planar angle =>
      obtain ⟨_, finite, _⟩ := steady
      obtain ⟨sine_finite, cosine_finite, on_circle⟩ := sin_cos_on_circle finite
      have sine_square := sq_nonneg (real (sin angle))
      have cosine_square := sq_nonneg (real (cos angle))
      norm_num at on_circle
      have zero_finite : (0 : Float32).isFinite = true := rfl
      have sine_le : |real (sin angle)| ≤ 2 ^ 12 :=
        abs_le_of_sq_le_sq (by norm_num; linarith) (by norm_num)
      have cosine_le : |real (cos angle)| ≤ 2 ^ 12 :=
        abs_le_of_sq_le_sq (by norm_num; linarith) (by norm_num)
      refine ⟨⟨cosine_finite, sine_finite, zero_finite⟩, cosine_le, sine_le, ?_⟩
      change |real 0| ≤ _
      rw [real_zero, abs_zero]
      norm_num
  | spatial d =>
      obtain ⟨spatial, within⟩ := steady
      obtain ⟨x, y, z⟩ := within.abs_le (zero_le_one.trans (one_le_stretch turns))
      have le := stretch_le (few spatial)
      exact ⟨within.isFinite, x.trans le, y.trans le, z.trans le⟩

omit few in
theorem planar_steady {current angle : Float32} (steady : (planar current).Steady mode turns)
    (finite : angle.isFinite = true)
    (near : mode = .planar → -farthest ≤ angle ∧ angle ≤ farthest) :
    (planar (current + angle)).Steady mode (turns + 1) := by
  obtain ⟨planar, current_finite, bounded⟩ := steady
  obtain ⟨low, high⟩ := near planar
  have low_real := (le_iff_real_le isFinite_farthest.2 finite).mp low
  have high_real := (le_iff_real_le finite isFinite_farthest.1).mp high
  obtain ⟨high_limit, low_limit⟩ := real_farthest
  have small : |real angle| ≤ 2 ^ 90 := abs_le.mpr ⟨by linarith, by linarith⟩
  refine ⟨planar, (rounds_add current_finite finite).saturates ?_⟩
  calc |real current + real angle| ≤ |real current| + |real angle| := abs_add_le _ _
    _ ≤ 2 ^ (127 : ℤ) + 2 ^ 90 := add_le_add bounded small
    _ < 2 ^ (127 : ℤ) + 2 ^ (103 : ℤ) := by norm_num

theorem spatial_steady {d axis : Vec3} {angle : Float32} (steady : (spatial d).Steady mode turns)
    (coordinate : axis = Vec3.unitX ∨ axis = Vec3.unitZ) (finite : angle.isFinite = true) :
    (spatial ((Rotation.about axis angle).apply d)).Steady mode (turns + 1) := by
  obtain ⟨spatial, within⟩ := steady
  refine ⟨spatial, ?_⟩
  rw [stretch, pow_succ]
  exact Rotation.apply_within (one_le_stretch turns)
    ((stretch_le (few spatial)).trans (by norm_num)) (Rotation.about_nearUnit coordinate finite)
    within

theorem Steady.yaw {angle : Float32} (steady : h.Steady mode turns) (finite : angle.isFinite = true)
    (near : mode = .planar → -farthest ≤ angle ∧ angle ≤ farthest) :
    (h.yaw angle).Steady mode (turns + 1) := by
  cases h with
  | planar current => exact planar_steady steady finite near
  | spatial d => exact spatial_steady few steady (Or.inr rfl) finite

theorem Steady.pitch {angle : Float32} (steady : h.Steady mode turns)
    (finite : angle.isFinite = true) : (h.pitch angle).Steady mode (turns + 1) := by
  cases h with
  | planar current => exact steady
  | spatial d => exact spatial_steady few steady (Or.inl rfl) finite

end Heading

/-! ## The turtle -/

structure Cursor.Steady (mode : HeadingMode) (turns : Nat) (c : Cursor) : Prop where
  position : Boxed (2 ^ (127 : ℤ)) c.position
  heading : c.heading.Steady mode turns

/-- Both ends of a segment and its direction are finite. -/
structure IsDrawable (s : Segment) : Prop where
  start : s.start.IsFinite
  direction : s.direction.IsFinite
  tip : s.tip.IsFinite

structure Progress.Steady (mode : HeadingMode) (turns : Nat) (p : Progress) : Prop where
  cursor : p.cursor.Steady mode turns
  saved : ∀ c ∈ p.saved, c.Steady mode turns
  segments : ∀ s ∈ p.segments, IsDrawable s

variable {mode : HeadingMode} {turns : Nat}

theorem Cursor.Steady.mono {c : Cursor} (steady : c.Steady mode turns) {more : Nat}
    (le : turns ≤ more) : c.Steady mode more :=
  ⟨steady.position, steady.heading.mono le⟩

theorem Progress.Steady.mono {p : Progress} (steady : p.Steady mode turns) {more : Nat}
    (le : turns ≤ more) : p.Steady mode more :=
  ⟨steady.cursor.mono le, fun c member => (steady.saved c member).mono le, steady.segments⟩

theorem Progress.initial_steady (mode : HeadingMode) : (Progress.initial mode).Steady mode 0 where
  cursor := by
    have zero_finite : (0 : Float32).isFinite = true := rfl
    have one_finite : (1 : Float32).isFinite = true := rfl
    have zero_le : |real 0| ≤ 2 ^ (127 : ℤ) := by
      rw [real_zero, abs_zero]
      positivity
    refine ⟨⟨⟨zero_finite, zero_finite, zero_finite⟩, zero_le, zero_le, zero_le⟩, ?_⟩
    cases mode with
    | planar => exact ⟨rfl, zero_finite, zero_le⟩
    | spatial =>
        refine ⟨rfl, ⟨zero_finite, one_finite, zero_finite⟩, ?_⟩
        change real 0 ^ 2 + real 1 ^ 2 + real 0 ^ 2 ≤ _
        rw [real_zero, real_one, stretch]
        norm_num
  saved := List.forall_mem_nil _
  segments := List.forall_mem_nil _

namespace Interpreter

variable {i : Interpreter} {m : Module}

def turn (i : Interpreter) (m : Module) : Option Float32 :=
  match i.table.get m.symbol with
  | .yaw sign | .pitch sign => some (i.turnAngle m * sign)
  | _ => none

def turnCount (i : Interpreter) (ms : List Module) : Nat := (ms.filterMap i.turn).length

/-- A module that leads nowhere enormous: its walk is not too long, its turn is by a finite angle,
and in the plane by one that is not too large. -/
structure Moderate (i : Interpreter) (m : Module) : Prop where
  stride : i.table.get m.symbol = .draw ∨ i.table.get m.symbol = .move → i.stride m ≤ farthest
  turn : ∀ angle ∈ i.turn m, angle.isFinite = true
  planar : i.settings.heading = .planar → ∀ angle ∈ i.turn m, -farthest ≤ angle ∧ angle ≤ farthest

instance (i : Interpreter) (m : Module) : Decidable (i.Moderate m) :=
  decidable_of_iff
    ((i.table.get m.symbol = .draw ∨ i.table.get m.symbol = .move → i.stride m ≤ farthest) ∧
      (∀ angle ∈ i.turn m, angle.isFinite = true) ∧
      (i.settings.heading = .planar → ∀ angle ∈ i.turn m, -farthest ≤ angle ∧ angle ≤ farthest))
    ⟨fun ⟨stride, turn, planar⟩ => ⟨stride, turn, planar⟩,
      fun moderate => ⟨moderate.stride, moderate.turn, moderate.planar⟩⟩

theorem walk_steady {p q : Progress} {draws : Bool} (few : mode = .spatial → turns ≤ 2 ^ 20)
    (steady : p.Steady mode turns) (step : IsSize i.settings.stepLength)
    (near : i.stride m ≤ farthest) (walked : i.walk p m draws = .ok q) : q.Steady mode turns := by
  obtain ⟨measured, cursor, saved, segments⟩ := walk_eq_ok walked
  have size := isSize_of_walkLength step measured
  have direction := steady.cursor.heading.direction few
  have target := steady.cursor.position.walk direction size near
  refine ⟨?_, saved ▸ steady.saved, ?_⟩
  · rw [cursor]
    exact ⟨target, steady.cursor.heading⟩
  · rw [segments]
    intro s member
    rcases List.mem_append.mp member with new | old
    · cases draws with
      | true =>
          obtain rfl := List.mem_singleton.mp new
          exact ⟨steady.cursor.position.isFinite, direction.isFinite, target.isFinite⟩
      | false => exact nomatch new
    · exact steady.segments s old

theorem turnCount_cons (i : Interpreter) (m : Module) (ms : List Module) :
    i.turnCount (m :: ms) = i.turnCount [m] + i.turnCount ms := by
  unfold turnCount
  rw [← List.singleton_append, List.filterMap_append, List.length_append]

theorem step_steady {p q : Progress}
    (few : i.settings.heading = .spatial → turns ≤ 2 ^ 20)
    (steady : p.Steady i.settings.heading turns) (step : IsSize i.settings.stepLength)
    (moderate : i.Moderate m) (stepped : i.step p m = .ok q) :
    q.Steady i.settings.heading (turns + i.turnCount [m]) := by
  obtain ⟨r, performed, rfl⟩ := exists_of_step_eq_ok stepped
  suffices r.Steady i.settings.heading (turns + i.turnCount [m]) from
    ⟨this.cursor, this.saved, this.segments⟩
  have more : turns ≤ turns + i.turnCount [m] := Nat.le_add_right _ _
  have later := steady.mono more
  cases op : i.table.get m.symbol with
  | draw =>
      rw [op] at performed
      exact (walk_steady few steady step (moderate.stride (Or.inl op)) performed).mono more
  | move =>
      rw [op] at performed
      exact (walk_steady few steady step (moderate.stride (Or.inr op)) performed).mono more
  | yaw sign =>
      rw [op] at performed
      cases performed
      have turned : i.turn m = some (i.turnAngle m * sign) := by rw [turn, op]
      have count : i.turnCount [m] = 1 := by simp [turnCount, turned]
      rw [count] at later ⊢
      have heading := steady.cursor.heading.yaw few (moderate.turn _ turned) fun planar =>
        moderate.planar planar _ turned
      exact ⟨⟨steady.cursor.position, heading⟩, later.saved, later.segments⟩
  | pitch sign =>
      rw [op] at performed
      cases performed
      have turned : i.turn m = some (i.turnAngle m * sign) := by rw [turn, op]
      have count : i.turnCount [m] = 1 := by simp [turnCount, turned]
      rw [count] at later ⊢
      have heading := steady.cursor.heading.pitch few (moderate.turn _ turned)
      exact ⟨⟨steady.cursor.position, heading⟩, later.saved, later.segments⟩
  | push =>
      rw [op] at performed
      rw [perform_push performed]
      exact ⟨later.cursor, List.forall_mem_cons.mpr ⟨later.cursor, later.saved⟩, later.segments⟩
  | pop =>
      rw [op] at performed
      cases saved : p.saved with
      | nil =>
          rw [perform_stray saved performed]
          exact ⟨later.cursor, later.saved, later.segments⟩
      | cons cursor rest =>
          rw [perform_pop saved performed]
          have all := later.saved
          rw [saved] at all
          exact ⟨(List.forall_mem_cons.mp all).1, (List.forall_mem_cons.mp all).2, later.segments⟩
  | ignore =>
      rw [op] at performed
      cases performed
      exact later

theorem replay_steady {ms : List Module} {p q : Progress}
    (few : i.settings.heading = .spatial → turns + i.turnCount ms ≤ 2 ^ 20)
    (steady : p.Steady i.settings.heading turns) (step : IsSize i.settings.stepLength)
    (moderate : ∀ m ∈ ms, i.Moderate m) (replayed : i.replay p ms = (q, none)) :
    q.Steady i.settings.heading (turns + i.turnCount ms) := by
  induction ms generalizing p turns with
  | nil =>
      cases replayed
      exact steady
  | cons m ms ih =>
      obtain ⟨r, stepped, replayed⟩ := replay_cons_eq replayed
      rw [turnCount_cons, ← Nat.add_assoc] at few ⊢
      obtain ⟨first, rest⟩ := List.forall_mem_cons.mp moderate
      have begun : i.settings.heading = .spatial → turns ≤ 2 ^ 20 := by
        intro spatial
        have := few spatial
        omega
      exact ih few (step_steady begun steady step first stepped) rest replayed

theorem replay_walks {ms : List Module} {p q : Progress} (step : IsSize i.settings.stepLength)
    (replayed : i.replay p ms = (q, none)) :
    ∀ m ∈ ms, i.table.get m.symbol = .draw ∨ i.table.get m.symbol = .move →
      IsSize (i.stride m) := by
  induction ms generalizing p with
  | nil => exact List.forall_mem_nil _
  | cons m ms ih =>
      obtain ⟨r, stepped, replayed⟩ := replay_cons_eq replayed
      refine List.forall_mem_cons.mpr ⟨?_, ih replayed⟩
      obtain ⟨_, performed, _⟩ := exists_of_step_eq_ok stepped
      rintro (draw | move)
      · rw [draw] at performed
        exact isSize_of_walkLength step (walk_eq_ok performed).1
      · rw [move] at performed
        exact isSize_of_walkLength step (walk_eq_ok performed).1

end Interpreter

/-- What is drawn has sizes, and what moderate turns and walks draw is finite. -/
structure Sound (i : Interpreter) (ms : List Module) (segments : List Segment) : Prop where
  walks : ∀ m ∈ ms, i.table.get m.symbol = .draw ∨ i.table.get m.symbol = .move →
    IsSize (i.stride m)
  sizes : ∀ s ∈ segments, IsSize s.length ∧ IsSize s.thickness
  finite : (∀ m ∈ ms, i.Moderate m) →
    (i.settings.heading = .spatial → i.turnCount ms ≤ 2 ^ 20) → ∀ s ∈ segments, IsDrawable s

/-- Under settings that are accepted a drawing is sound, whatever its symbols mean. -/
theorem Interpreter.interpret_sound (i : Interpreter) (valid : i.settings.validate = .ok ())
    (ms : List Module) (segments : List Segment) (drawn : i.interpret ms = .ok segments) :
    Sound i ms segments := by
  obtain ⟨step, thickness⟩ := Settings.sizes_of_validate valid
  obtain ⟨q, replayed, segments_eq⟩ := run_of_interpret drawn
  refine ⟨replay_walks step replayed, sizes_of_interpret step thickness drawn, ?_⟩
  intro moderate few s member
  have steady := replay_steady (by rwa [Nat.zero_add]) (Progress.initial_steady _) step moderate
    replayed
  rw [segments_eq] at member
  exact steady.segments s (List.mem_reverse.mp member)

theorem Interpreter.interpret_sound_turning :
    let i : Interpreter := ⟨.standard, .standard ⟨#["F", "f", "+", "&", "[", "]"]⟩⟩
    let ms : List Module := [⟨0, []⟩, ⟨2, [30]⟩, ⟨4, []⟩, ⟨3, []⟩, ⟨0, [1e20]⟩, ⟨5, []⟩, ⟨1, []⟩,
      ⟨2, []⟩, ⟨0, []⟩]
    ∃ segments, i.interpret ms = .ok segments ∧ segments.length = 3 ∧ Sound i ms segments ∧
      ∀ s ∈ segments, IsDrawable s := by
  intro i ms
  have count : (i.interpret ms).toOption.map List.length = some 3 := by decide +kernel
  obtain ⟨segments, drawn⟩ : ∃ segments, i.interpret ms = .ok segments :=
    exists_of_isOk (by decide +kernel)
  rw [drawn] at count
  have sound := interpret_sound i (by decide +kernel) ms segments drawn
  exact ⟨segments, drawn, Option.some.inj count, sound,
    sound.finite (by decide +kernel) (by decide +kernel)⟩

/-- A turn by more degrees than single precision has: the walk after it is drawn and goes nowhere. -/
theorem Interpreter.turn_beyond_range :
    let i : Interpreter := ⟨.standard, .standard ⟨#["+", "F"]⟩⟩
    i.settings.validate = .ok () ∧
      ∃ segments, i.interpret [⟨0, [1e39]⟩, ⟨1, []⟩] = .ok segments ∧ segments ≠ [] ∧
        ∀ s ∈ segments, ¬ s.direction.IsFinite ∧ ¬ s.tip.IsFinite := by
  intro i
  have valid : i.settings.validate = .ok () := by decide +kernel
  obtain ⟨segments, drawn⟩ : ∃ segments, i.interpret [⟨0, [1e39]⟩, ⟨1, []⟩] = .ok segments :=
    exists_of_isOk (by decide +kernel)
  have broken : ((i.interpret [⟨0, [1e39]⟩, ⟨1, []⟩]).toOption.any fun segments =>
      segments ≠ [] ∧ ∀ s ∈ segments, ¬ s.direction.IsFinite ∧ ¬ s.tip.IsFinite) = true := by
    decide +kernel
  rw [drawn] at broken
  exact ⟨valid, segments, drawn, of_decide_eq_true broken⟩

end Arbor.Turtle
