import Arbor.Proofs.Number.Widening

/-!
# Adding the same step again and again

`accumulated s n` is what `n` additions of a step make of zero.  As long as there are not too many of
them the sum is close to `n` times the step and every addition still moves it.  But single precision
has only so many values: in the end the sum is so large that the step is lost in rounding, or infinite,
and stays as it is for ever.
-/

set_option autoImplicit false

namespace Arbor.Number

open Float.Model (Format UnpackedFloat)
open Float.Model.UnpackedFloat

variable {format : Format}

/-! ## Steps on the grid -/

theorem OnGrid.exists_least {x : ℝ} (grid : OnGrid format x) :
    ∃ n : ℤ, x = n * 2 ^ format.minExponent := by
  obtain ⟨n, t, _, above, rfl⟩ := grid
  obtain ⟨d, rfl⟩ := Int.le.dest above
  exact ⟨n * 2 ^ d, by rw [zpow_add₀ two_ne_zero, zpow_natCast]; push_cast; ring⟩

theorem OnGrid.least_le {x : ℝ} (grid : OnGrid format x) (positive : 0 < x) :
    2 ^ format.minExponent ≤ x := by
  have unit : (0 : ℝ) < 2 ^ format.minExponent := zpow_pos two_pos _
  obtain ⟨n, rfl⟩ := grid.exists_least
  have one_le : (1 : ℝ) ≤ n := by
    have some_units : 0 < n := by exact_mod_cast (mul_pos_iff_of_pos_right unit).mp positive
    exact_mod_cast some_units
  exact le_mul_of_one_le_left unit.le one_le

theorem lt_of_least_units {n : ℤ}
    (small : |(n : ℝ) * 2 ^ format.minExponent| < 2 ^ (format.mantissaBits - 1 + format.minExponent)) :
    2 * |n| < 2 ^ format.mantissaBits := by
  have unit : (0 : ℝ) < 2 ^ format.minExponent := zpow_pos two_pos _
  have whole : (2 : ℝ) * 2 ^ ((format.mantissaBits : ℤ) - 1 + format.minExponent) =
      2 ^ format.mantissaBits * 2 ^ format.minExponent := by
    rw [zpow_add_mantissaBits, mul_comm, ← zpow_add_one₀ two_ne_zero]
    congr 1
    ring
  rw [abs_mul, abs_of_pos unit] at small
  have cast : 2 * |(n : ℝ)| < 2 ^ format.mantissaBits := by
    rw [← mul_lt_mul_iff_left₀ unit, ← whole]
    linarith
  exact_mod_cast cast

/-- What is a whole number of least units is rounded with a small relative error, or not at all. -/
theorem Nearest.relative_error_of_whole {v w : ℝ} (nearest : Nearest format v w) {n : ℤ}
    (whole : v = n * 2 ^ format.minExponent) : |w - v| ≤ |v| / 2 ^ format.mantissaBits := by
  rcases le_or_gt (2 ^ (format.mantissaBits - 1 + format.minExponent)) |v| with normal | small
  · exact nearest.relative_error normal
  · have grid : OnGrid format v := by
      rw [whole] at small ⊢
      have few := lt_of_least_units small
      have := abs_nonneg n
      exact onGrid_of_le (by omega) le_rfl
    rw [nearest.eq_of_onGrid grid, sub_self, abs_zero]
    positivity

theorem OnGrid.exists_above {x : ℝ} (grid : OnGrid format x) :
    ∃ g, OnGrid format g ∧ x < g ∧
      (g - x = 2 ^ format.minExponent ∨ 2 ^ format.mantissaBits * (g - x) ≤ 2 * |x|) := by
  rcases le_or_gt (2 ^ (format.mantissaBits - 1 + format.minExponent)) |x| with normal | small
  · have positive : 0 < |x| := lt_of_lt_of_le (zpow_pos two_pos _) normal
    obtain ⟨k, low, high⟩ := exists_mem_Ico_zpow positive (one_lt_two (α := ℝ))
    obtain ⟨t, t_eq⟩ : ∃ t : ℤ, t = k + 1 - format.mantissaBits := ⟨_, rfl⟩
    have unit : (0 : ℝ) < 2 ^ t := zpow_pos two_pos t
    have above : format.minExponent ≤ t := by
      by_contra below
      have order : (2 : ℝ) ^ (k + 1) ≤ 2 ^ (format.mantissaBits - 1 + format.minExponent) :=
        zpow_le_zpow_right₀ one_le_two (by omega)
      linarith
    have bits : (2 : ℝ) ^ format.mantissaBits * 2 ^ t = 2 * 2 ^ k := by
      rw [zpow_add_mantissaBits, mul_comm, ← zpow_add_one₀ two_ne_zero]
      congr 1
      omega
    obtain ⟨n, rfl⟩ := grid.exists_mul (t := t) (by
      have same : (format.mantissaBits : ℤ) - 1 + t = k := by omega
      rw [same]
      exact low)
    have few : |n| < 2 ^ format.mantissaBits := by
      rw [abs_mul, abs_of_pos unit, zpow_add_one₀ two_ne_zero, mul_comm _ (2 : ℝ), ← bits,
        mul_lt_mul_iff_left₀ unit] at high
      exact_mod_cast high
    have next : (n : ℝ) * 2 ^ t + 2 ^ t = ((n + 1 : ℤ) : ℝ) * 2 ^ t := by
      push_cast
      ring
    have still_few : |n + 1| ≤ 2 ^ format.mantissaBits := by
      have := abs_add_le n 1
      rw [abs_one] at this
      omega
    refine ⟨n * 2 ^ t + 2 ^ t, next ▸ onGrid_of_le still_few above, by linarith, Or.inr ?_⟩
    rw [add_sub_cancel_left, bits]
    linarith
  · have unit : (0 : ℝ) < 2 ^ format.minExponent := zpow_pos two_pos _
    obtain ⟨n, rfl⟩ := grid.exists_least
    have few := lt_of_least_units small
    have next : (n : ℝ) * 2 ^ format.minExponent + 2 ^ format.minExponent =
        ((n + 1 : ℤ) : ℝ) * 2 ^ format.minExponent := by
      push_cast
      ring
    have still_few : |n + 1| ≤ 2 ^ format.mantissaBits := by
      have := abs_add_le n 1
      have := abs_nonneg n
      have some_bits : (1 : ℤ) ≤ 2 ^ format.mantissaBits := one_le_pow₀ (by norm_num)
      rw [abs_one] at *
      omega
    exact ⟨n * 2 ^ format.minExponent + 2 ^ format.minExponent, next ▸ onGrid_of_le still_few le_rfl,
      by linarith, Or.inl (add_sub_cancel_left _ _)⟩

/-- A step is not lost unless it is less than half a unit of what it is added to. -/
theorem Nearest.lt_of_step {x d w : ℝ} (nearest : Nearest format (x + d) w) (grid : OnGrid format x)
    (grid' : OnGrid format d) (positive : 0 < d) (small : |x| < 2 ^ format.mantissaBits * d) :
    x < w := by
  apply lt_of_le_of_ne (nearest.ge_of_ge grid (by linarith))
  rintro rfl
  obtain ⟨g, g_grid, above, near⟩ := grid.exists_above
  have bits : (0 : ℝ) < 2 ^ format.mantissaBits := by positivity
  have close : g - x < 2 * d := by
    rcases near with least | relative
    · have := grid'.least_le positive
      linarith
    · by_contra far
      have := mul_le_mul_of_nonneg_left (not_lt.mp far) bits.le
      linarith
  have closer := nearest.closest g g_grid
  rw [sub_add_cancel_left, abs_neg, abs_of_pos positive] at closer
  rcases le_abs.mp closer with far | near <;> linarith

/-! ## One addition -/

theorem add_eq_self_of_infinite {x y : Float32} {s : Sign} (infinite : x.toModel.unpack = .infinity s)
    (finite : y.isFinite = true) : x + y = x := by
  change y.toModel.unpack.isFinite = true at finite
  have sum : add .binary32 x.toModel.unpack y.toModel.unpack = x.toModel.unpack := by
    rw [infinite]
    cases unpacked : y.toModel.unpack with
    | infinity s' => rw [unpacked] at finite; exact nomatch finite
    | notANumber => rw [unpacked] at finite; exact nomatch finite
    | zero s' => rfl
    | finite s' m e positive => rfl
  change Float32.ofModel (.pack (add .binary32 x.toModel.unpack y.toModel.unpack)) = x
  rw [sum, ofModel_pack_unpack]

theorem zero_add_of_real_eq_zero {s : Float32} (finite : s.isFinite = true) (zero : real s = 0) :
    0 + s = 0 := by
  change s.toModel.unpack.isFinite = true at finite
  cases unpacked : s.toModel.unpack with
  | infinity sign => rw [unpacked] at finite; exact nomatch finite
  | notANumber => rw [unpacked] at finite; exact nomatch finite
  | zero sign =>
      change Float32.ofModel (.pack (add .binary32 (.zero .positive) s.toModel.unpack)) = 0
      rw [unpacked]
      cases sign <;> rfl
  | finite sign m e positive =>
      rw [real_of_unpack unpacked] at zero
      have magnitude : (m : ℝ) * 2 ^ e ≠ 0 := by positivity
      cases sign with
      | positive => exact absurd zero magnitude
      | negative => exact absurd (neg_eq_zero.mp zero) magnitude

section Addition
variable {x s : Float32} (finite : x.isFinite = true) (finite' : s.isFinite = true)
include finite finite'

theorem moved_of_add (small : |real x| < 2 ^ 24 * |real s|) (still : (x + s).isFinite = true) :
    0 < (real (x + s) - real x) * real s := by
  obtain ⟨_, nearest⟩ | ⟨_, _, _, _, infinite⟩ := (rounds_add finite finite').cases
  · rcases lt_trichotomy (real s) 0 with negative | zero | positive
    · rw [abs_of_neg negative] at small
      have mirrored : Nearest .binary32 (-real x + -real s) (-real (x + s)) := by
        rw [← neg_add]
        exact nearest.neg
      have less := mirrored.lt_of_step (onGrid_real x).neg (onGrid_real s).neg (by linarith) (by
        rw [abs_neg]
        exact small)
      exact mul_pos_of_neg_of_neg (by linarith) negative
    · rw [zero, abs_zero, mul_zero] at small
      exact absurd small (not_lt.mpr (abs_nonneg _))
    · rw [abs_of_pos positive] at small
      have less := nearest.lt_of_step (onGrid_real x) (onGrid_real s) positive small
      exact mul_pos (by linarith) positive
  · exact absurd still (not_finite_of_infinite infinite)

theorem add_ne_self (small : |real x| < 2 ^ 24 * |real s|) : x + s ≠ x := by
  intro same
  have moved := moved_of_add finite finite' small (by rw [same]; exact finite)
  rw [same, sub_self, zero_mul] at moved
  exact lt_irrefl 0 moved

theorem moved_of_ne (nonzero : real s ≠ 0) (different : x + s ≠ x)
    (still : (x + s).isFinite = true) : 0 < (real (x + s) - real x) * real s := by
  obtain ⟨_, nearest⟩ | ⟨_, _, _, _, infinite⟩ := (rounds_add finite finite').cases
  · have apart : real (x + s) ≠ real x := by
      intro same
      rcases eq_or_ne (real x) 0 with none | some_x
      · rw [none, zero_add] at nearest
        rw [none, nearest.eq_of_onGrid (onGrid_real s)] at same
        exact nonzero same
      · exact different (eq_of_real_eq same (same ▸ some_x))
    rcases lt_or_gt_of_ne nonzero with negative | positive
    · have le := nearest.le_of_le (onGrid_real x) (by linarith)
      exact mul_pos_of_neg_of_neg (sub_neg.mpr (lt_of_le_of_ne le apart)) negative
    · have le := nearest.ge_of_ge (onGrid_real x) (by linarith)
      exact mul_pos (sub_pos.mpr (lt_of_le_of_ne le apart.symm)) positive
  · exact absurd still (not_finite_of_infinite infinite)

end Addition

/-! ## Many additions -/

instance finite_single : Finite Float32 :=
  Finite.of_injective (fun x => x.toModel.toBits.toBitVec.toFin) fun x y same => by
    rcases x with ⟨⟨⟨⟨x⟩⟩, _⟩⟩
    rcases y with ⟨⟨⟨⟨y⟩⟩, _⟩⟩
    cases same
    rfl

/-- What a number of additions of a step make of zero. -/
def accumulated (s : Float32) (n : ℕ) : Float32 := (fun y => y + s)^[n] 0

theorem accumulated_succ (s : Float32) (n : ℕ) : accumulated s (n + 1) = accumulated s n + s :=
  Function.iterate_succ_apply' ..

section Accumulation
variable {s : Float32} (finite : s.isFinite = true)
include finite

/-- The errors of rounding add up to at most a square. -/
theorem accumulated_close {n : ℕ} (few : n ≤ 2 ^ 24) (small : n * |real s| ≤ 2 ^ (126 : ℤ)) :
    (accumulated s n).isFinite = true ∧
      |real (accumulated s n) - n * real s| ≤ n ^ 2 / 2 ^ 24 * |real s| := by
  induction n with
  | zero =>
      change (0 : Float32).isFinite = true ∧ |real 0 - _| ≤ _
      exact ⟨by decide, by simp [real_zero]⟩
  | succ n ih =>
      have step_nonneg := abs_nonneg (real s)
      have n_nonneg : (0 : ℝ) ≤ n := Nat.cast_nonneg n
      have n_le : (n : ℝ) ≤ 2 ^ 24 := by exact_mod_cast (Nat.le_succ n).trans few
      push_cast at small ⊢
      obtain ⟨sum_finite, close⟩ := ih ((Nat.le_succ n).trans few) (by linarith)
      -- The error so far is at most one step for each addition.
      have share : (n : ℝ) ^ 2 / 2 ^ 24 ≤ n := by
        rw [div_le_iff₀ (by positivity), sq]
        exact mul_le_mul_of_nonneg_left n_le n_nonneg
      have error : |real (accumulated s n) + real s - (n + 1) * real s| ≤
          n ^ 2 / 2 ^ 24 * |real s| := by
        have same : real (accumulated s n) + real s - (n + 1) * real s =
            real (accumulated s n) - n * real s := by ring
        rwa [same]
      have size : |real (accumulated s n) + real s| ≤ (n ^ 2 / 2 ^ 24 + (n + 1)) * |real s| := by
        have way := abs_add_le (real (accumulated s n) + real s - (n + 1) * real s) ((n + 1) * real s)
        rw [sub_add_cancel, abs_mul, abs_of_nonneg (by linarith : (0 : ℝ) ≤ n + 1)] at way
        linarith
      have bounded : |real (accumulated s n) + real s| ≤ 2 ^ (127 : ℤ) := by
        have double : (2 : ℝ) ^ (127 : ℤ) = 2 * 2 ^ (126 : ℤ) := by norm_num
        have := mul_le_mul_of_nonneg_right share step_nonneg
        linarith
      obtain ⟨next_finite, nearest, _⟩ := (rounds_add sum_finite finite).of_abs_le
        (onGrid_two_zpow (by decide)) (zpow_lt_zpow_right₀ one_lt_two (by norm_num)) bounded
      rw [accumulated_succ]
      refine ⟨next_finite, ?_⟩
      obtain ⟨a, a_eq⟩ := (onGrid_real (accumulated s n)).exists_least
      obtain ⟨b, b_eq⟩ := (onGrid_real s).exists_least
      have rounding : |real (accumulated s n + s) - (real (accumulated s n) + real s)| ≤
          |real (accumulated s n) + real s| / 2 ^ 24 :=
        nearest.relative_error_of_whole (n := a + b) (by rw [a_eq, b_eq]; push_cast; ring)
      have way := abs_sub_le (real (accumulated s n + s)) (real (accumulated s n) + real s)
        ((n + 1) * real s)
      have total : (n ^ 2 / 2 ^ 24 + (n + 1)) / 2 ^ 24 + (n : ℝ) ^ 2 / 2 ^ 24 ≤
          (n + 1) ^ 2 / 2 ^ 24 := by
        rw [← add_div]
        apply div_le_div_of_nonneg_right _ (by positivity)
        linarith
      have scaled := mul_le_mul_of_nonneg_right total step_nonneg
      have split : (n ^ 2 / 2 ^ 24 + (n + 1)) * |real s| / 2 ^ 24 + n ^ 2 / 2 ^ 24 * |real s| =
          ((n ^ 2 / 2 ^ 24 + (n + 1)) / 2 ^ 24 + (n : ℝ) ^ 2 / 2 ^ 24) * |real s| := by ring
      have := div_le_div_of_nonneg_right size (by positivity : (0 : ℝ) ≤ 2 ^ 24)
      linarith

theorem abs_accumulated_lt (nonzero : real s ≠ 0) {n : ℕ} (few : n ≤ 10 ^ 7)
    (small : n * |real s| ≤ 2 ^ (126 : ℤ)) : |real (accumulated s n)| < 2 ^ 24 * |real s| := by
  obtain ⟨_, close⟩ := accumulated_close finite (few.trans (by norm_num)) small
  have n_nonneg : (0 : ℝ) ≤ n := Nat.cast_nonneg n
  have n_le : (n : ℝ) ≤ (10 : ℝ) ^ 7 := by exact_mod_cast few
  have way := abs_add_le (real (accumulated s n) - n * real s) (n * real s)
  rw [sub_add_cancel, abs_mul, abs_of_nonneg n_nonneg] at way
  have square := pow_le_pow_left₀ n_nonneg n_le 2
  have factor : (n : ℝ) ^ 2 / 2 ^ 24 + n < 2 ^ 24 := by linarith
  have scaled := mul_lt_mul_of_pos_right factor (abs_pos.mpr nonzero)
  linarith

theorem isFinite_accumulated_of_moving (moving : ∀ n, accumulated s n + s ≠ accumulated s n) (n : ℕ) :
    (accumulated s n).isFinite = true := by
  induction n with
  | zero => exact (by decide : (0 : Float32).isFinite = true)
  | succ n ih =>
      obtain ⟨still, _⟩ | ⟨_, _, _, _, infinite⟩ := (rounds_add ih finite).cases
      · rwa [accumulated_succ]
      · rw [← accumulated_succ] at infinite
        exact absurd (add_eq_self_of_infinite infinite finite) (moving (n + 1))

/-- There are only so many values, so in the end an addition changes nothing. -/
theorem exists_accumulated_stops : ∃ m, ∀ n, m ≤ n → accumulated s n = accumulated s m := by
  obtain ⟨m, still⟩ : ∃ m, accumulated s m + s = accumulated s m := by
    by_contra never
    push Not at never
    have sums_finite := isFinite_accumulated_of_moving finite never
    have nonzero : real s ≠ 0 := fun zero => never 0 (zero_add_of_real_eq_zero finite zero)
    -- Every addition goes the way of the step, so no value comes again.
    have moved (n : ℕ) : real (accumulated s n) * real s < real (accumulated s (n + 1)) * real s := by
      have moves := moved_of_ne (sums_finite n) finite nonzero (never n)
        (accumulated_succ s n ▸ sums_finite (n + 1))
      rw [← accumulated_succ] at moves
      linarith
    have injective : Function.Injective (accumulated s) := fun i j same =>
      (strictMono_nat_of_lt_succ moved).injective (by rw [same])
    exact not_injective_infinite_finite _ injective
  refine ⟨m, fun n le => Nat.le_induction rfl (fun k _ same => ?_) n le⟩
  rw [accumulated_succ, same, still]

end Accumulation

end Arbor.Number
