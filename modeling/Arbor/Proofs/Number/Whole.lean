import Arbor.Number.Integral
import Arbor.Proofs.Number.Single

/-!
# Rounding to whole numbers in single precision

`wholeOf x` is the whole number nearest to `x`, a half going away from zero.  Where a number was
rounded to single precision first, the two roundings together still tell apart what is more than one
apart, as long as half units are on the grid: where the first rounding reaches down to the lower end
of a unit, it keeps at least as much away from the upper end.
-/

set_option autoImplicit false

namespace Arbor.Number

open Float.Model.UnpackedFloat (Sign)

/-! ## The nearest whole number -/

noncomputable def wholeOf (x : ℝ) : ℤ := if 0 ≤ x then round x else -round (-x)

theorem wholeOf_of_nonneg {x : ℝ} (above : 0 ≤ x) : wholeOf x = round x := if_pos above

theorem wholeOf_neg (x : ℝ) : wholeOf (-x) = -wholeOf x := by
  rcases lt_trichotomy x 0 with below | rfl | above
  · rw [wholeOf, wholeOf, if_pos (by linarith), if_neg (not_le.mpr below), neg_neg]
  · simp [wholeOf]
  · rw [wholeOf, wholeOf, if_neg (by linarith), if_pos above.le, neg_neg]

theorem wholeOf_signed (s : Sign) (x : ℝ) : wholeOf (signed s x) = s.apply (wholeOf x) := by
  cases s with
  | negative => exact wholeOf_neg x
  | positive => rfl

theorem mem_unit_of_nonneg {x : ℝ} (above : 0 ≤ x) :
    0 ≤ wholeOf x ∧ wholeOf x - 1 / 2 ≤ x ∧ x < wholeOf x + 1 / 2 := by
  rw [wholeOf_of_nonneg above, round_eq]
  have low := Int.floor_le (x + 1 / 2)
  have high := Int.lt_floor_add_one (x + 1 / 2)
  exact ⟨Int.floor_nonneg.mpr (by linarith), by linarith, by linarith⟩

theorem nonneg_of_wholeOf_pos {x : ℝ} (positive : 0 < wholeOf x) : 0 ≤ x := by
  by_contra below
  have mirrored := (mem_unit_of_nonneg (x := -x) (by linarith)).1
  rw [wholeOf_neg] at mirrored
  omega

theorem abs_lt_of_wholeOf_eq_zero {x : ℝ} (zero : wholeOf x = 0) : |x| < 1 / 2 := by
  rcases le_total 0 x with above | below
  · have inside := (mem_unit_of_nonneg above).2.2
    rw [zero, Int.cast_zero, zero_add] at inside
    rwa [abs_of_nonneg above]
  · have inside := (mem_unit_of_nonneg (neg_nonneg.mpr below)).2.2
    rw [wholeOf_neg, zero, neg_zero, Int.cast_zero, zero_add] at inside
    rwa [abs_of_nonpos below]

theorem abs_sub_wholeOf_le (x : ℝ) : |x - wholeOf x| ≤ 1 / 2 := by
  rcases le_total 0 x with above | below
  · obtain ⟨_, low, high⟩ := mem_unit_of_nonneg above
    exact abs_le.mpr ⟨by linarith, by linarith⟩
  · obtain ⟨_, low, high⟩ := mem_unit_of_nonneg (neg_nonneg.mpr below)
    rw [wholeOf_neg, Int.cast_neg] at low high
    exact abs_le.mpr ⟨by linarith, by linarith⟩

/-! ## Rounding a float -/

theorem round_add_fraction (q r k : ℕ) (less : r < 2 ^ k) :
    round ((q : ℝ) + r / 2 ^ k) = ((q + (decide (2 ^ k ≤ 2 * r)).toNat : ℕ) : ℤ) := by
  have whole : (0 : ℝ) < 2 ^ k := by positivity
  have below : (r : ℝ) / 2 ^ k < 1 := (div_lt_one whole).mpr (by exact_mod_cast less)
  have above : (0 : ℝ) ≤ r / 2 ^ k := by positivity
  rw [round_eq, Int.floor_eq_iff]
  by_cases up : 2 ^ k ≤ 2 * r
  · have half : (1 : ℝ) / 2 ≤ r / 2 ^ k := by
      have cast : (2 : ℝ) ^ k ≤ 2 * r := by exact_mod_cast up
      rw [le_div_iff₀ whole]
      linarith
    rw [decide_eq_true up, Bool.toNat_true]
    push_cast
    constructor <;> linarith
  · have half : (r : ℝ) / 2 ^ k < 1 / 2 := by
      have cast : (2 : ℝ) * r < 2 ^ k := by exact_mod_cast not_le.mp up
      rw [div_lt_iff₀ whole]
      linarith
    rw [decide_eq_false up, Bool.toNat_false]
    push_cast
    constructor <;> linarith

theorem magnitude_halfAway (s : Sign) (m : Nat) (e : Int) :
    (IntegralRule.halfAway.magnitude s m e : ℤ) = wholeOf (m * 2 ^ e) := by
  rw [wholeOf_of_nonneg (by positivity), IntegralRule.magnitude]
  split
  · next above =>
      obtain ⟨k, rfl⟩ := Int.eq_ofNat_of_zero_le above
      have whole : (m : ℝ) * 2 ^ (k : ℤ) = ((m * 2 ^ k : ℕ) : ℝ) := by
        push_cast
        rw [zpow_natCast]
      rw [whole, round_natCast, Int.toNat_natCast, Nat.shiftLeft_eq]
  · next below =>
      obtain ⟨k, rfl⟩ : ∃ k : ℕ, e = -k := ⟨(-e).toNat, by omega⟩
      have unit : (2 : ℝ) ^ k ≠ 0 := by positivity
      have parts : (m : ℝ) = 2 ^ k * (m / 2 ^ k : ℕ) + (m % 2 ^ k : ℕ) := by
        exact_mod_cast (Nat.div_add_mod m (2 ^ k)).symm
      have fraction : (m : ℝ) * 2 ^ (-(k : ℤ)) = (m / 2 ^ k : ℕ) + (m % 2 ^ k : ℕ) / 2 ^ k := by
        rw [zpow_neg, zpow_natCast, ← div_eq_mul_inv, parts, add_div, mul_div_cancel_left₀ _ unit]
      rw [fraction, round_add_fraction _ _ _ (Nat.mod_lt m (Nat.two_pow_pos k)), neg_neg,
        Int.toNat_natCast]
      rfl

theorem toInt_ofIntClamp (n : ℤ) :
    (Int64.ofIntClamp n).toInt = max (-2 ^ 63) (min n (2 ^ 63 - 1)) := by
  have least : Int64.minValue.toInt = -2 ^ 63 := rfl
  have greatest : Int64.maxValue.toInt = 2 ^ 63 - 1 := rfl
  rcases lt_or_ge n (-2 ^ 63) with below | inside
  · rw [Int64.ofIntClamp, dif_neg (by omega), least]
    omega
  · rcases le_or_gt n (2 ^ 63 - 1) with inside' | above
    · rw [Int64.toInt_ofIntClamp (by omega) (by omega)]
      omega
    · rw [Int64.ofIntClamp, dif_pos (by omega), dif_neg (by omega), greatest]
      omega

theorem nearestInt64_of_finite {x : Float32} (finite : x.isFinite = true) :
    nearestInt64 x = Int64.ofIntClamp (wholeOf (real x)) := by
  change x.toModel.unpack.isFinite = true at finite
  rw [nearestInt64, real]
  cases unpacked : x.toModel.unpack with
  | infinity s => rw [unpacked] at finite; exact absurd finite Bool.false_ne_true
  | notANumber => rw [unpacked] at finite; exact absurd finite Bool.false_ne_true
  | zero s =>
      have none : wholeOf 0 = 0 := by simp [wholeOf]
      change 0 = Int64.ofIntClamp (wholeOf 0)
      rw [none]
      rfl
  | finite s m e positive =>
      rw [realOf, wholeOf_signed, ← magnitude_halfAway s]

/-- What a number is rounded to in single precision is rounded to a whole number, as if the range
had no end above that of the whole numbers. -/
theorem Rounds.nearestInt64_eq {v : ℝ} {z : Float32} (rounds : Rounds v z) :
    ∃ w, Nearest .binary32 v w ∧ nearestInt64 z = Int64.ofIntClamp (wholeOf w) := by
  obtain ⟨finite, nearest⟩ | ⟨w, s, nearest, large, infinite⟩ := rounds.cases
  · exact ⟨real z, nearest, nearestInt64_of_finite finite⟩
  · refine ⟨w, nearest, ?_⟩
    have beyond : ∀ y : ℝ, 2 ^ (128 : ℤ) ≤ y → 2 ^ 63 ≤ wholeOf y := by
      intro y y_large
      have close := (abs_le.mp (abs_sub_wholeOf_le y)).2
      have order : (2 : ℝ) ^ 63 < wholeOf y := by
        norm_num at y_large ⊢
        linarith
      exact_mod_cast order.le
    rw [nearestInt64, infinite, ← Int64.toInt_inj, toInt_ofIntClamp]
    cases s with
    | positive =>
        have above := beyond w large
        have greatest : Int64.maxValue.toInt = 2 ^ 63 - 1 := rfl
        simp only [greatest]
        omega
    | negative =>
        have below := beyond (-w) large
        have least : Int64.minValue.toInt = -2 ^ 63 := rfl
        rw [wholeOf_neg] at below
        simp only [least]
        omega

/-! ## Two roundings -/

theorem OnGrid.sub_one {x : ℝ} (grid : OnGrid .binary32 x) (above : 1 ≤ x) (below : x < 2 ^ 24) :
    OnGrid .binary32 (x - 1) := by
  obtain ⟨n, t, small, least, rfl⟩ := grid
  change |n| < 2 ^ 24 at small
  rcases le_total 0 t with whole | fraction
  · obtain ⟨k, rfl⟩ := Int.eq_ofNat_of_zero_le whole
    have cast : (n : ℝ) * 2 ^ (k : ℤ) = ((n * 2 ^ k : ℤ) : ℝ) := by
      push_cast
      rw [zpow_natCast]
    rw [cast] at above below ⊢
    have above' : 1 ≤ n * 2 ^ k := by exact_mod_cast above
    have below' : n * 2 ^ k < 2 ^ 24 := by exact_mod_cast below
    refine ⟨n * 2 ^ k - 1, 0, ?_, by decide, by push_cast; ring⟩
    change |n * 2 ^ k - 1| < 2 ^ 24
    rw [abs_lt]
    omega
  · obtain ⟨k, rfl⟩ : ∃ k : ℕ, t = -k := ⟨(-t).toNat, by omega⟩
    have unit : (0 : ℝ) < 2 ^ k := by positivity
    have many : (2 : ℤ) ^ k ≤ n := by
      rw [zpow_neg, zpow_natCast, ← div_eq_mul_inv, le_div_iff₀ unit, one_mul] at above
      exact_mod_cast above
    have one : (0 : ℤ) < 2 ^ k := by positivity
    refine ⟨n - 2 ^ k, -k, ?_, least, ?_⟩
    · change |n - 2 ^ k| < 2 ^ 24
      rw [abs_lt] at small ⊢
      omega
    · push_cast
      rw [sub_mul, zpow_neg, zpow_natCast, mul_inv_cancel₀ unit.ne']

theorem onGrid_half {n : ℤ} (small : |n| < 2 ^ 24) : OnGrid .binary32 (n / 2) :=
  ⟨n, -1, small, by decide, by rw [zpow_neg_one, div_eq_mul_inv]⟩

section Units
variable {a b p q : ℝ} (nearest : Nearest .binary32 a p) (nearest' : Nearest .binary32 b q)
include nearest nearest'

/-- What is rounded to less than the end of a unit is at most one above what is not rounded to less
than its beginning. -/
theorem le_add_one_of_unit {g : ℝ} (grid : OnGrid .binary32 g) (grid' : OnGrid .binary32 (g + 1))
    (some_bits : 0 < g) (small : g + 1 ≤ 2 ^ 24) (begins : g ≤ p) (ends : q < g + 1) :
    b ≤ a + 1 := by
  by_contra apart
  rw [not_le] at apart
  have b_lt : b < g + 1 := by
    by_contra passed
    exact absurd (nearest'.ge_of_ge grid' (not_lt.mp passed)) (not_le.mpr ends)
  have p_eq : p = g := le_antisymm (nearest.le_of_le grid (by linarith)) begins
  rw [p_eq] at nearest
  have q_ge : 1 ≤ q := by
    have closer := nearest.closest 0 onGrid_zero
    rw [abs_of_pos (by linarith), zero_sub, abs_neg] at closer
    have positive : 0 < a := by
      by_contra below
      rw [abs_of_nonpos (not_lt.mp below)] at closer
      linarith
    exact nearest'.ge_of_ge (by simpa using onGrid_half (n := 2) (by decide)) (by linarith)
  -- One below `q` is no closer to `a` than `g`, and one above `g` is no closer to `b` than `q`.
  have closer := nearest.closest (q - 1) (nearest'.grid.sub_one q_ge (by linarith))
  have closer' := nearest'.closest (g + 1) grid'
  rw [abs_of_pos (by linarith)] at closer
  rw [abs_of_pos (by linarith : (0 : ℝ) < g + 1 - b)] at closer'
  have low := (abs_le.mp closer').1
  rcases le_abs.mp closer with left | right <;> linarith

theorem abs_sub_le_one_of_pos (same : wholeOf p = wholeOf q) (positive : 0 < wholeOf p)
    (small : wholeOf p < 2 ^ 23) : |a - b| ≤ 1 := by
  obtain ⟨_, begins, ends⟩ := mem_unit_of_nonneg (nonneg_of_wholeOf_pos positive)
  obtain ⟨_, begins', ends'⟩ := mem_unit_of_nonneg (nonneg_of_wholeOf_pos (same ▸ positive))
  rw [← same] at begins' ends'
  have one : (1 : ℝ) ≤ wholeOf p := by exact_mod_cast positive
  have limit : (wholeOf p : ℝ) < 2 ^ 23 := by exact_mod_cast small
  have beginning : OnGrid .binary32 (wholeOf p - 1 / 2) := by
    have half : (wholeOf p : ℝ) - 1 / 2 = ((2 * wholeOf p - 1 : ℤ) : ℝ) / 2 := by
      push_cast
      ring
    rw [half]
    exact onGrid_half (abs_lt.mpr ⟨by omega, by omega⟩)
  have ending : OnGrid .binary32 (wholeOf p - 1 / 2 + 1) := by
    have half : (wholeOf p : ℝ) - 1 / 2 + 1 = ((2 * wholeOf p + 1 : ℤ) : ℝ) / 2 := by
      push_cast
      ring
    rw [half]
    exact onGrid_half (abs_lt.mpr ⟨by omega, by omega⟩)
  have up := le_add_one_of_unit nearest nearest' beginning ending (by linarith) (by linarith)
    begins (by linarith)
  have down := le_add_one_of_unit nearest' nearest beginning ending (by linarith) (by linarith)
    begins' (by linarith)
  exact abs_le.mpr ⟨by linarith, by linarith⟩

theorem abs_sub_le_one_of_wholeOf_eq (same : wholeOf p = wholeOf q)
    (small : |wholeOf p| < 2 ^ 23) : |a - b| ≤ 1 := by
  obtain ⟨low, high⟩ := abs_lt.mp small
  rcases lt_trichotomy (wholeOf p) 0 with negative | zero | positive
  · have mirrored := abs_sub_le_one_of_pos nearest.neg nearest'.neg
      (by rw [wholeOf_neg, wholeOf_neg, same]) (by rw [wholeOf_neg]; omega)
      (by rw [wholeOf_neg]; omega)
    have swapped : -a - -b = -(a - b) := by ring
    rwa [swapped, abs_neg] at mirrored
  · have half : OnGrid .binary32 (1 / 2) := by simpa using onGrid_half (n := 1) (by decide)
    have inside : ∀ {v w : ℝ}, Nearest .binary32 v w → wholeOf w = 0 → |v| < 1 / 2 := by
      intro v w rounded none
      obtain ⟨w_low, w_high⟩ := abs_lt.mp (abs_lt_of_wholeOf_eq_zero none)
      rw [abs_lt]
      constructor
      · by_contra passed
        have := rounded.le_of_le half.neg (not_lt.mp passed)
        linarith
      · by_contra passed
        have := rounded.ge_of_ge half (not_lt.mp passed)
        linarith
    obtain ⟨a_low, a_high⟩ := abs_lt.mp (inside nearest zero)
    obtain ⟨b_low, b_high⟩ := abs_lt.mp (inside nearest' (same ▸ zero))
    exact abs_le.mpr ⟨by linarith, by linarith⟩
  · exact abs_sub_le_one_of_pos nearest nearest' same positive high

end Units

end Arbor.Number
