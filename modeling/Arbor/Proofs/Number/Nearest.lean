import Arbor.Number.Rounding
import Mathlib.Algebra.Order.Archimedean.Basic
import Mathlib.Algebra.Order.Round
import Mathlib.Algebra.Order.Archimedean.Real.Basic
import Mathlib.Tactic.Linarith
import Mathlib.Tactic.Ring

/-!
# Nearest values of a format

The grid of a format are the real numbers `n · 2 ^ t` with few bits and an exponent that is not too
small.  A value nearest to `v` lies on the grid and no grid point is closer to `v`.  Nothing else
about rounding is used of it: it never passes a grid point, it is `v` itself when `v` is on the grid,
and its error is half a unit in the last place.
-/

set_option autoImplicit false

namespace Arbor.Number

open Float.Model (Format)

/-- The literal two is a real number by this one proof, in every definition that has it. -/
instance (priority := high) two_atLeastTwo : Nat.AtLeastTwo 2 := ⟨le_refl 2⟩

/-- The values that a format would have if its exponents were not bounded above. -/
def OnGrid (format : Format) (x : ℝ) : Prop :=
  ∃ n t : ℤ, |n| < 2 ^ format.mantissaBits ∧ format.minExponent ≤ t ∧ x = n * 2 ^ t

/-- The value `w` is on the grid, and no value on the grid is closer to `v`. -/
structure Nearest (format : Format) (v w : ℝ) : Prop where
  grid : OnGrid format w
  closest : ∀ g, OnGrid format g → |w - v| ≤ |g - v|

variable {format : Format}

/-! ## The grid -/

theorem OnGrid.neg {x : ℝ} (grid : OnGrid format x) : OnGrid format (-x) := by
  obtain ⟨n, t, small, above, rfl⟩ := grid
  exact ⟨-n, t, by rwa [abs_neg], above, by push_cast; ring⟩

theorem OnGrid.double {x : ℝ} (grid : OnGrid format x) : OnGrid format (x * 2) := by
  obtain ⟨n, t, small, above, rfl⟩ := grid
  exact ⟨n, t + 1, small, by omega, by rw [zpow_add_one₀ two_ne_zero, mul_assoc]⟩

theorem OnGrid.abs {x : ℝ} (grid : OnGrid format x) : OnGrid format |x| := by
  rcases abs_choice x with same | same
  · rwa [same]
  · rw [same]
    exact grid.neg

/-- A mantissa of one bit too many is fine when it is a power of two. -/
theorem onGrid_of_le {n t : ℤ} (small : |n| ≤ 2 ^ format.mantissaBits)
    (above : format.minExponent ≤ t) : OnGrid format (n * 2 ^ t) := by
  rcases lt_or_eq_of_le small with less | full
  · exact ⟨n, t, less, above, rfl⟩
  · have double : (2 : ℤ) ^ format.mantissaBits = 2 * 2 ^ format.mantissaBitsWithoutImplicit := by
      have bits : format.mantissaBits = 1 + format.mantissaBitsWithoutImplicit := rfl
      rw [bits, pow_add, pow_one]
    have split : (2 : ℝ) ^ (t + 1) = 2 ^ t * 2 := zpow_add_one₀ two_ne_zero t
    have half : |((2 : ℤ) ^ format.mantissaBitsWithoutImplicit)| < 2 ^ format.mantissaBits := by
      rw [abs_of_pos (by positivity), double]
      have : (0 : ℤ) < 2 ^ format.mantissaBitsWithoutImplicit := by positivity
      omega
    rcases abs_choice n with same | same
    · refine ⟨2 ^ format.mantissaBitsWithoutImplicit, t + 1, half, by omega, ?_⟩
      rw [← same, full, double, split]
      push_cast
      ring
    · refine ⟨-2 ^ format.mantissaBitsWithoutImplicit, t + 1, by rwa [abs_neg], by omega, ?_⟩
      have n_eq : n = -2 ^ format.mantissaBits := by omega
      rw [n_eq, double, split]
      push_cast
      ring

theorem onGrid_zero : OnGrid format 0 :=
  ⟨0, format.minExponent, by simp, le_refl _, by simp⟩

theorem onGrid_two_zpow {k : ℤ} (above : format.minExponent ≤ k) : OnGrid format (2 ^ k) := by
  have one : |(1 : ℤ)| ≤ 2 ^ format.mantissaBits := by
    rw [abs_one]
    exact one_le_pow₀ (by norm_num)
  have := onGrid_of_le one above
  rwa [Int.cast_one, one_mul] at this

theorem zpow_add_mantissaBits (t : ℤ) :
    (2 : ℝ) ^ format.mantissaBits * 2 ^ t = 2 ^ (format.mantissaBits + t) := by
  rw [zpow_add₀ two_ne_zero, zpow_natCast]

theorem OnGrid.exists_mul {x : ℝ} (grid : OnGrid format x) {t : ℤ}
    (large : 2 ^ (format.mantissaBits - 1 + t) ≤ |x|) : ∃ n : ℤ, x = n * 2 ^ t := by
  obtain ⟨n, s, small, _, rfl⟩ := grid
  rcases le_or_gt t s with le | less
  · obtain ⟨d, rfl⟩ := Int.le.dest le
    exact ⟨n * 2 ^ d, by rw [zpow_add₀ two_ne_zero, zpow_natCast]; push_cast; ring⟩
  · exfalso
    have cast : |(n : ℝ)| < 2 ^ format.mantissaBits := by exact_mod_cast small
    rw [abs_mul, abs_of_pos (zpow_pos two_pos s : (0 : ℝ) < 2 ^ s)] at large
    have below : |(n : ℝ)| * 2 ^ s < 2 ^ (format.mantissaBits + s) := by
      rw [← zpow_add_mantissaBits]
      exact mul_lt_mul_of_pos_right cast (zpow_pos two_pos s)
    have order : (2 : ℝ) ^ (format.mantissaBits + s) ≤ 2 ^ (format.mantissaBits - 1 + t) :=
      zpow_le_zpow_right₀ one_le_two (by omega)
    linarith

/-! ## Rounding to the grid -/

namespace Nearest

variable {v w g : ℝ}

theorem neg (nearest : Nearest format v w) : Nearest format (-v) (-w) where
  grid := nearest.grid.neg
  closest := by
    intro g grid
    have closer := nearest.closest (-g) grid.neg
    have left : -w - -v = -(w - v) := by ring
    have right : g - -v = -(-g - v) := by ring
    rwa [left, right, abs_neg, abs_neg]

/-- Rounding does not pass a grid point from below. -/
theorem le_of_le (nearest : Nearest format v w) (grid : OnGrid format g) (le : v ≤ g) : w ≤ g := by
  by_contra passed
  rw [not_le] at passed
  have closer := nearest.closest g grid
  rw [abs_of_nonneg (by linarith), abs_of_nonneg (by linarith)] at closer
  linarith

theorem ge_of_ge (nearest : Nearest format v w) (grid : OnGrid format g) (le : g ≤ v) : g ≤ w := by
  have mirrored := nearest.neg.le_of_le grid.neg (neg_le_neg le)
  exact neg_le_neg_iff.mp mirrored

theorem eq_of_onGrid (nearest : Nearest format v w) (grid : OnGrid format v) : w = v :=
  le_antisymm (nearest.le_of_le grid le_rfl) (nearest.ge_of_ge grid le_rfl)

theorem abs_le_of_abs_le (nearest : Nearest format v w) (grid : OnGrid format g) (le : |v| ≤ g) :
    |w| ≤ g := by
  rw [abs_le] at le ⊢
  exact ⟨nearest.ge_of_ge grid.neg le.1, nearest.le_of_le grid le.2⟩

/-- The error is half a unit, and the unit depends on the size. -/
theorem error_le (nearest : Nearest format v w) {t : ℤ} (above : format.minExponent ≤ t)
    (small : |v| ≤ 2 ^ (format.mantissaBits + t)) : |w - v| ≤ 2 ^ t / 2 := by
  have unit : (0 : ℝ) < 2 ^ t := zpow_pos two_pos t
  have inside : |v / 2 ^ t| ≤ 2 ^ format.mantissaBits := by
    rw [abs_div, abs_of_pos unit, div_le_iff₀ unit, zpow_add_mantissaBits]
    exact small
  have bounded : |round (v / 2 ^ t)| ≤ 2 ^ format.mantissaBits := by
    have step := abs_sub_abs_le_abs_sub (round (v / 2 ^ t) : ℝ) (v / 2 ^ t)
    rw [abs_sub_comm] at step
    have half := abs_sub_round (v / 2 ^ t)
    have below : |(round (v / 2 ^ t) : ℝ)| < 2 ^ format.mantissaBits + 1 := by linarith
    exact Int.lt_add_one_iff.mp (by exact_mod_cast below)
  calc |w - v| ≤ |round (v / 2 ^ t) * 2 ^ t - v| := nearest.closest _ (onGrid_of_le bounded above)
    _ = |v / 2 ^ t - round (v / 2 ^ t)| * 2 ^ t := by
        rw [← abs_of_pos unit, ← abs_mul, abs_of_pos unit, sub_mul, div_mul_cancel₀ _ unit.ne',
          abs_sub_comm]
    _ ≤ 1 / 2 * 2 ^ t := mul_le_mul_of_nonneg_right (abs_sub_round _) unit.le
    _ = 2 ^ t / 2 := by ring

theorem relative_error (nearest : Nearest format v w)
    (normal : 2 ^ (format.mantissaBits - 1 + format.minExponent) ≤ |v|) :
    |w - v| ≤ |v| / 2 ^ format.mantissaBits := by
  have positive : 0 < |v| := lt_of_lt_of_le (zpow_pos two_pos _) normal
  obtain ⟨k, low, high⟩ := exists_mem_Ico_zpow positive (one_lt_two (α := ℝ))
  have above : format.minExponent ≤ k + 1 - format.mantissaBits := by
    by_contra below
    have order : (2 : ℝ) ^ (k + 1) ≤ 2 ^ (format.mantissaBits - 1 + format.minExponent) :=
      zpow_le_zpow_right₀ one_le_two (by omega)
    linarith
  have error := nearest.error_le above (by rw [add_sub_cancel]; exact high.le)
  have unit : (2 : ℝ) ^ (k + 1 - format.mantissaBits) / 2 = 2 ^ k / 2 ^ format.mantissaBits := by
    rw [zpow_sub₀ two_ne_zero, zpow_add_one₀ two_ne_zero, zpow_natCast]
    ring
  rw [unit] at error
  exact error.trans (div_le_div_of_nonneg_right low (by positivity))

theorem error_le_add (nearest : Nearest format v w) :
    |w - v| ≤ |v| / 2 ^ format.mantissaBits + 2 ^ format.minExponent / 2 := by
  have tiny : (0 : ℝ) < 2 ^ format.minExponent := zpow_pos two_pos _
  rcases le_total (2 ^ (format.mantissaBits - 1 + format.minExponent)) |v| with normal | small
  · have := nearest.relative_error normal
    linarith
  · have order : (2 : ℝ) ^ (format.mantissaBits - 1 + format.minExponent) ≤
        2 ^ (format.mantissaBits + format.minExponent) :=
      zpow_le_zpow_right₀ one_le_two (by omega)
    have := nearest.error_le le_rfl (small.trans order)
    have share : 0 ≤ |v| / 2 ^ format.mantissaBits := by positivity
    linarith

theorem le_of_lt_half_unit (nearest : Nearest format v w) {k : ℤ}
    (above : format.minExponent + format.mantissaBits ≤ k + 1)
    (close : v < 2 ^ k + 2 ^ (k - format.mantissaBits)) : w ≤ 2 ^ k := by
  have bits : 1 ≤ format.mantissaBits := Nat.le_add_right 1 _
  have power : OnGrid format (2 ^ k) := onGrid_two_zpow (by omega)
  by_contra passed
  rw [not_le] at passed
  have beyond : (2 : ℝ) ^ k < v := by
    by_contra le
    exact absurd (nearest.le_of_le power (not_lt.mp le)) (not_le.mpr passed)
  have unit : (0 : ℝ) < 2 ^ (k + 1 - format.mantissaBits) := zpow_pos two_pos _
  have half : (2 : ℝ) ^ (k + 1 - format.mantissaBits) = 2 * 2 ^ (k - format.mantissaBits) := by
    rw [add_sub_right_comm, zpow_add_one₀ two_ne_zero, mul_comm]
  have whole : (2 : ℝ) ^ k =
      2 ^ (format.mantissaBits - 1) * 2 ^ (k + 1 - format.mantissaBits) := by
    rw [← zpow_natCast, ← zpow_add₀ two_ne_zero]
    congr 1
    omega
  -- Beyond the power of two the grid goes on in whole units.
  obtain ⟨n, rfl⟩ := nearest.grid.exists_mul (t := k + 1 - format.mantissaBits) (by
    have same : (format.mantissaBits : ℤ) - 1 + (k + 1 - format.mantissaBits) = k := by ring
    rw [same]
    exact passed.le.trans (le_abs_self _))
  have more : (2 ^ (format.mantissaBits - 1) : ℝ) + 1 ≤ n := by
    rw [whole, mul_lt_mul_iff_left₀ unit] at passed
    have next : (2 ^ (format.mantissaBits - 1) : ℤ) < n := by exact_mod_cast passed
    exact_mod_cast next
  have next : (2 : ℝ) ^ k + 2 ^ (k + 1 - format.mantissaBits) ≤
      n * 2 ^ (k + 1 - format.mantissaBits) := by
    rw [whole, ← add_one_mul]
    exact mul_le_mul_of_nonneg_right more unit.le
  have closer := nearest.closest _ power
  rw [abs_of_nonneg (by linarith), abs_of_neg (by linarith)] at closer
  linarith

theorem abs_le_of_lt_half_unit (nearest : Nearest format v w) {k : ℤ}
    (above : format.minExponent + format.mantissaBits ≤ k + 1)
    (close : |v| < 2 ^ k + 2 ^ (k - format.mantissaBits)) : |w| ≤ 2 ^ k := by
  rw [abs_lt] at close
  rw [abs_le]
  constructor
  · have mirrored := nearest.neg.le_of_lt_half_unit above (by linarith)
    linarith
  · exact nearest.le_of_lt_half_unit above close.2

end Nearest

/-! ## Finding a nearest value -/

/-- No whole number is closer than one at a distance of a half. -/
theorem abs_sub_le_of_le_half {x : ℝ} {r : ℤ} (close : |r - x| ≤ 1 / 2) (n : ℤ) :
    |r - x| ≤ |n - x| := by
  rcases eq_or_ne n r with rfl | different
  · exact le_refl _
  · have apart : (1 : ℝ) ≤ |(n : ℝ) - r| := by
      exact_mod_cast Int.one_le_abs (sub_ne_zero.mpr different)
    have way := abs_sub_le (n : ℝ) x r
    rw [abs_sub_comm x] at way
    linarith

/-- A whole number of units that is off by half a unit at most is nearest, provided that the unit is
the least one or that the value has all its bits. -/
theorem nearest_of_units {x : ℝ} {r t : ℤ} (above : format.minExponent ≤ t)
    (bounded : |r| ≤ 2 ^ format.mantissaBits) (close : |r - x| ≤ 1 / 2)
    (fits : t = format.minExponent ∨ 2 ^ (format.mantissaBits - 1) ≤ |x|) :
    Nearest format (x * 2 ^ t) (r * 2 ^ t) where
  grid := onGrid_of_le bounded above
  closest := by
    rintro g ⟨n, s, small, s_above, rfl⟩
    have unit : (0 : ℝ) < 2 ^ t := zpow_pos two_pos t
    rw [← sub_mul, abs_mul, abs_of_pos unit]
    rcases le_or_gt t s with le | less
    · obtain ⟨d, rfl⟩ := Int.le.dest le
      have units : (n : ℝ) * 2 ^ (t + d) = ((n * 2 ^ d : ℤ) : ℝ) * 2 ^ t := by
        rw [zpow_add₀ two_ne_zero, zpow_natCast]
        push_cast
        ring
      rw [units, ← sub_mul, abs_mul, abs_of_pos unit]
      exact mul_le_mul_of_nonneg_right (abs_sub_le_of_le_half close _) unit.le
    · -- The grid point has a finer unit, so it is smaller than all values with this one.
      have full : (2 : ℝ) ^ (format.mantissaBits - 1) ≤ |x| := fits.resolve_left (by omega)
      have finer : |(n : ℝ) * 2 ^ s| ≤ 2 ^ (format.mantissaBits - 1) * 2 ^ t := by
        have cast : |(n : ℝ)| ≤ 2 ^ format.mantissaBits := by exact_mod_cast small.le
        have bits : format.mantissaBits - 1 + 1 = format.mantissaBits :=
          Nat.sub_add_cancel (Nat.le_add_right 1 _)
        rw [abs_mul, abs_of_pos (zpow_pos two_pos s : (0 : ℝ) < 2 ^ s)]
        calc |(n : ℝ)| * 2 ^ s ≤ 2 ^ format.mantissaBits * 2 ^ (t - 1) :=
              mul_le_mul cast (zpow_le_zpow_right₀ one_le_two (by omega))
                (zpow_pos two_pos s).le (by positivity)
          _ = 2 ^ (format.mantissaBits - 1) * 2 ^ t := by
              rw [← bits, pow_succ, Nat.add_sub_cancel, zpow_sub_one₀ two_ne_zero]
              ring
      have candidate : |r - x| ≤ |x| - 2 ^ (format.mantissaBits - 1) := by
        rcases le_total 0 x with positive | negative
        · have whole := abs_sub_le_of_le_half close (2 ^ (format.mantissaBits - 1))
          push_cast at whole
          rw [abs_of_nonneg positive] at full ⊢
          have distance : |(2 : ℝ) ^ (format.mantissaBits - 1) - x| =
              x - 2 ^ (format.mantissaBits - 1) := by
            rw [abs_of_nonpos (by linarith), neg_sub]
          rwa [distance] at whole
        · have whole := abs_sub_le_of_le_half close (-2 ^ (format.mantissaBits - 1))
          push_cast at whole
          rw [abs_of_nonpos negative] at full ⊢
          have distance : |-(2 : ℝ) ^ (format.mantissaBits - 1) - x| =
              -x - 2 ^ (format.mantissaBits - 1) := by
            rw [abs_of_nonneg (by linarith)]
            ring
          rwa [distance] at whole
      have way := abs_sub_abs_le_abs_sub (x * 2 ^ t) (n * 2 ^ s)
      rw [abs_mul x, abs_of_pos unit, abs_sub_comm] at way
      have scaled := mul_le_mul_of_nonneg_right candidate unit.le
      rw [sub_mul] at scaled
      linarith

end Arbor.Number
