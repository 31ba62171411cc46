import Arbor.Number.Circle
import Arbor.Proofs.Number.Single

/-!
# Sine and cosine are on the circle

The two series are nested forms of the real and the imaginary part of a partial sum of the
exponential series, so their squares add up to one but for the terms left out.  In whole numbers each
of them is off by a few units of `2 ^ -192`, and rounding adds less than one part in `2 ^ 23`.
-/

set_option autoImplicit false

namespace Arbor.Number.Circle

open Float.Model (Format UnpackedFloat)
open Float.Model.UnpackedFloat

/-! ## The series -/

/-- The nested form of the two series, in real numbers. -/
noncomputable def nested (x : ℝ) : (n k : Nat) → ℝ
  | 0, _ => 1
  | n + 1, k => 1 - x * nested x n (k + 2) / (k * (k + 1))

theorem nested_eq_sum (x : ℝ) (n i : Nat) :
    nested x n (i + 1) =
      ∑ j ∈ Finset.range (n + 1), (-x) ^ j * (i.factorial / (i + 2 * j).factorial) := by
  induction n generalizing i with
  | zero =>
      have nonzero : (i.factorial : ℝ) ≠ 0 := by exact_mod_cast i.factorial_ne_zero
      simp [nested, div_self nonzero]
  | succ n ih =>
      have nonzero : (i.factorial : ℝ) ≠ 0 := by exact_mod_cast i.factorial_ne_zero
      have two_more : ((i + 2).factorial : ℝ) = (i + 2) * (i + 1) * i.factorial := by
        rw [Nat.factorial_succ, Nat.factorial_succ]
        push_cast
        ring
      rw [nested, show i + 1 + 2 = (i + 2) + 1 from rfl, ih (i + 2),
        Finset.sum_range_succ' _ (n + 1), Finset.mul_sum, Finset.sum_div]
      have each : ∀ j ∈ Finset.range (n + 1),
          x * ((-x) ^ j * ((i + 2).factorial / (i + 2 + 2 * j).factorial)) /
              (((i + 1 : Nat) : ℝ) * ((i + 1 : Nat) + 1)) =
            -((-x) ^ (j + 1) * (i.factorial / (i + 2 * (j + 1)).factorial)) := by
        intro j _
        rw [two_more, show i + 2 * (j + 1) = i + 2 + 2 * j by ring]
        push_cast
        field_simp
        ring
      rw [Finset.sum_congr rfl each, Finset.sum_neg_distrib]
      simp [div_self nonzero]
      ring

/-- The exponential series on the imaginary axis, cut off after a sine. -/
theorem sum_exp (t : ℝ) (n : Nat) :
    ∑ m ∈ Finset.range (2 * (n + 1)), ((t : ℂ) * Complex.I) ^ m / (m.factorial : ℂ) =
      (nested (t ^ 2) n 1 : ℂ) + (t * nested (t ^ 2) n 2 : ℝ) * Complex.I := by
  have square : ((t : ℂ) * Complex.I) ^ 2 = ((-(t ^ 2) : ℝ) : ℂ) := by
    rw [mul_pow, Complex.I_sq]
    push_cast
    ring
  rw [nested_eq_sum _ n 0, nested_eq_sum _ n 1]
  induction n with
  | zero =>
      simp [Finset.sum_range_succ]
  | succ n ih =>
      rw [show 2 * (n + 1 + 1) = 2 * (n + 1) + 1 + 1 by ring, Finset.sum_range_succ,
        Finset.sum_range_succ, ih, Finset.sum_range_succ _ (n + 1), Finset.sum_range_succ _ (n + 1)]
      have even : ((t : ℂ) * Complex.I) ^ (2 * (n + 1)) = ((-(t ^ 2) : ℝ) : ℂ) ^ (n + 1) := by
        rw [pow_mul, square]
      have odd : ((t : ℂ) * Complex.I) ^ (2 * (n + 1) + 1) =
          ((-(t ^ 2) : ℝ) : ℂ) ^ (n + 1) * (t * Complex.I) := by
        rw [pow_succ, even]
      rw [even, odd]
      push_cast
      simp only [Nat.factorial_zero, Nat.factorial_one, Nat.zero_add, Nat.cast_one]
      rw [show 1 + 2 * (n + 1) = 2 * (n + 1) + 1 by ring]
      ring

theorem nested_on_circle {x : ℝ} (above : 0 ≤ x) (small : x ≤ 3) :
    nested x 28 1 ^ 2 + x * nested x 28 2 ^ 2 ≤ 1 + 1 / 2 ^ 90 := by
  obtain ⟨t, t_eq⟩ : ∃ t, t = √x := ⟨_, rfl⟩
  have root : t ^ 2 = x := t_eq ▸ Real.sq_sqrt above
  have t_above : 0 ≤ t := t_eq ▸ Real.sqrt_nonneg x
  have t_small : t ≤ 2 := abs_le_of_sq_le_sq' (by linarith) two_pos.le |>.2
  have norm_eq : ‖(t : ℂ) * Complex.I‖ = t := by
    rw [norm_mul, Complex.norm_I, mul_one, Complex.norm_real, Real.norm_of_nonneg t_above]
  have remainder := Complex.exp_bound' (x := (t : ℂ) * Complex.I) (n := 58) (by
    rw [norm_eq]
    norm_num
    linarith)
  rw [sum_exp t 28, norm_eq, root] at remainder
  have power : t ^ 58 ≤ 2 ^ 58 := pow_le_pow_left₀ t_above t_small 58
  have tiny : t ^ 58 / (Nat.factorial 58 : ℝ) * 2 ≤ 1 / 2 ^ 100 := by
    have digits : ((Nat.factorial 58 : Nat) : ℝ) =
        2350561331282878571829474910515074683828862318181142924420699914240000000000000 := by
      norm_num [Nat.factorial]
    rw [digits]
    have bounded : t ^ 58 ≤ 288230376151711744 := by linarith
    rw [div_mul_eq_mul_div, div_le_div_iff₀ (by norm_num) (by norm_num)]
    linarith
  -- What the partial sum is next to has norm one.
  have near : ‖(nested x 28 1 : ℂ) + (t * nested x 28 2 : ℝ) * Complex.I‖ ≤ 1 + 1 / 2 ^ 100 := by
    have way := norm_sub_norm_le ((nested x 28 1 : ℂ) + (t * nested x 28 2 : ℝ) * Complex.I)
      (Complex.exp (t * Complex.I))
    rw [Complex.norm_exp_ofReal_mul_I, norm_sub_rev] at way
    linarith
  have squared := pow_le_pow_left₀ (norm_nonneg _) near 2
  rw [Complex.sq_norm, Complex.normSq_add_mul_I, mul_pow, root] at squared
  calc nested x 28 1 ^ 2 + x * nested x 28 2 ^ 2 ≤ (1 + 1 / 2 ^ 100) ^ 2 := squared
    _ ≤ 1 + 1 / 2 ^ 90 := by norm_num

theorem abs_nested_le {x : ℝ} (above : 0 ≤ x) (small : x ≤ 3) (n : Nat) {k : Nat} (two_le : 2 ≤ k) :
    |nested x n k| ≤ 2 := by
  induction n generalizing k with
  | zero =>
      rw [nested, abs_one]
      norm_num
  | succ n ih =>
      have inner := ih (Nat.le_add_right_of_le two_le : 2 ≤ k + 2)
      have cast : (2 : ℝ) ≤ k := by exact_mod_cast two_le
      have divisor : (6 : ℝ) ≤ k * (k + 1) := by nlinarith
      have product : |x * nested x n (k + 2)| ≤ 6 := by
        rw [abs_mul, abs_of_nonneg above]
        calc x * |nested x n (k + 2)| ≤ 3 * 2 :=
              mul_le_mul small inner (abs_nonneg _) (by norm_num)
          _ = 6 := by norm_num
      have quotient : |x * nested x n (k + 2) / (k * (k + 1))| ≤ 1 := by
        rw [abs_div, abs_of_pos (by linarith : (0 : ℝ) < k * (k + 1)),
          div_le_one (by linarith)]
        exact product.trans divisor
      rw [nested]
      rw [abs_le] at quotient ⊢
      constructor <;> linarith

/-! ## Whole numbers -/

theorem cast_one : ((one : Int) : ℝ) = 2 ^ 192 := by
  unfold one places
  norm_num

theorem abs_div_sub_le (a : Int) {d : Int} (positive : 0 < d) :
    |((a / d : Int) : ℝ) - a / d| ≤ 1 := by
  have cast : (0 : ℝ) < d := by exact_mod_cast positive
  have split : (a : ℝ) = d * ((a / d : Int) : ℝ) + ((a % d : Int) : ℝ) := by
    exact_mod_cast (Int.mul_ediv_add_emod a d).symm
  have low : (0 : ℝ) ≤ ((a % d : Int) : ℝ) := by exact_mod_cast Int.emod_nonneg a positive.ne'
  have high : ((a % d : Int) : ℝ) ≤ d := by exact_mod_cast (Int.emod_lt_of_pos a positive).le
  have difference : ((a / d : Int) : ℝ) - a / d = -(((a % d : Int) : ℝ) / d) := by
    rw [split]
    field_simp
    ring
  rw [difference, abs_neg, abs_of_nonneg (div_nonneg low cast.le)]
  exact (div_le_one cast).mpr high

theorem abs_shiftRight_sub_le (a : Int) : |((a >>> places : Int) : ℝ) - a / 2 ^ 192| ≤ 1 := by
  have close := abs_div_sub_le a (pow_pos two_pos 192)
  have whole : a >>> places = a / 2 ^ 192 := by
    rw [Int.shiftRight_eq_div_pow, Nat.cast_pow]
    rfl
  rw [Int.cast_pow, Int.cast_ofNat] at close
  rwa [whole]

theorem alternating_succ_close {s : Int} (above : 0 ≤ s) {n k : Nat} (positive : 0 < k) {ε : ℝ}
    (inner : |alternating s n (k + 2) / 2 ^ 192 - nested (s / 2 ^ 192) n (k + 2)| ≤ ε / 2 ^ 192) :
    |alternating s (n + 1) k / 2 ^ 192 - nested (s / 2 ^ 192) (n + 1) k| ≤
      (1 + (1 + s / 2 ^ 192 * ε) / (k * (k + 1))) / 2 ^ 192 := by
  have divisor : (0 : ℝ) < k * (k + 1) := by positivity
  obtain ⟨a, a_eq⟩ : ∃ a, a = alternating s n (k + 2) := ⟨_, rfl⟩
  obtain ⟨b, b_eq⟩ : ∃ b, b = nested (s / 2 ^ 192) n (k + 2) := ⟨_, rfl⟩
  obtain ⟨x, x_eq⟩ : ∃ x : ℝ, x = s / 2 ^ 192 := ⟨_, rfl⟩
  rw [← a_eq, ← b_eq] at inner
  have x_above : 0 ≤ x := by
    rw [x_eq]
    have cast : (0 : ℝ) ≤ s := by exact_mod_cast above
    positivity
  obtain ⟨q, q_eq⟩ : ∃ q, q = (s * a) >>> places := ⟨_, rfl⟩
  have shifted : |(q : ℝ) - x * a| ≤ 1 := by
    have close := abs_shiftRight_sub_le (s * a)
    rw [← q_eq] at close
    push_cast at close
    rwa [mul_div_right_comm, ← x_eq] at close
  have divided : |((q / (k * (k + 1)) : Int) : ℝ) - q / (k * (k + 1))| ≤ 1 := by
    have close := abs_div_sub_le q (by positivity : (0 : Int) < k * (k + 1))
    push_cast at close ⊢
    exact close
  have split : (alternating s (n + 1) k : ℝ) / 2 ^ 192 - nested (s / 2 ^ 192) (n + 1) k =
      -((((q / (k * (k + 1)) : Int) : ℝ) - q / (k * (k + 1))) / 2 ^ 192 +
        ((q : ℝ) - x * a) / (k * (k + 1)) / 2 ^ 192 +
        x * (a / 2 ^ 192 - b) / (k * (k + 1))) := by
    rw [alternating, nested, ← a_eq, ← b_eq, ← q_eq, ← x_eq, Int.cast_sub, cast_one]
    field_simp
    ring
  rw [split, abs_neg]
  have first : |(((q / (k * (k + 1)) : Int) : ℝ) - q / (k * (k + 1))) / 2 ^ 192| ≤ 1 / 2 ^ 192 := by
    rw [abs_div, abs_of_pos (by positivity : (0 : ℝ) < 2 ^ 192)]
    exact div_le_div_of_nonneg_right divided (by positivity)
  have second : |((q : ℝ) - x * a) / (k * (k + 1)) / 2 ^ 192| ≤
      1 / ((k : ℝ) * (k + 1)) / 2 ^ 192 := by
    rw [abs_div, abs_div, abs_of_pos divisor, abs_of_pos (by positivity : (0 : ℝ) < 2 ^ 192)]
    exact div_le_div_of_nonneg_right (div_le_div_of_nonneg_right shifted divisor.le) (by positivity)
  have third : |x * (a / 2 ^ 192 - b) / (k * (k + 1))| ≤ x * (ε / 2 ^ 192) / (k * (k + 1)) := by
    rw [abs_div, abs_mul, abs_of_nonneg x_above, abs_of_pos divisor]
    exact div_le_div_of_nonneg_right (mul_le_mul_of_nonneg_left inner x_above) divisor.le
  calc _ ≤ 1 / 2 ^ 192 + 1 / ((k : ℝ) * (k + 1)) / 2 ^ 192 + x * (ε / 2 ^ 192) / (k * (k + 1)) :=
        (abs_add_three _ _ _).trans (add_le_add_three first second third)
    _ = (1 + (1 + s / 2 ^ 192 * ε) / (k * (k + 1))) / 2 ^ 192 := by
        rw [x_eq]
        field_simp
        ring

section Close
variable {s : Int} (above : 0 ≤ s) (small : (s : ℝ) / 2 ^ 192 ≤ 3)
include above small

theorem alternating_close (n : Nat) {k : Nat} (two_le : 2 ≤ k) :
    |alternating s n k / 2 ^ 192 - nested (s / 2 ^ 192) n k| ≤ 3 / 2 ^ 192 := by
  induction n generalizing k with
  | zero =>
      rw [alternating, nested, cast_one, div_self (by positivity), sub_self, abs_zero]
      positivity
  | succ n ih =>
      have step := alternating_succ_close above (by omega : 0 < k) (ih (by omega : 2 ≤ k + 2))
      refine step.trans (div_le_div_of_nonneg_right ?_ (by positivity))
      have cast : (2 : ℝ) ≤ k := by exact_mod_cast two_le
      have share : (1 + s / 2 ^ 192 * 3) / ((k : ℝ) * (k + 1)) ≤ 2 := by
        rw [div_le_iff₀ (by positivity)]
        nlinarith
      linarith

theorem alternating_one_close :
    |alternating s 28 1 / 2 ^ 192 - nested (s / 2 ^ 192) 28 1| ≤ 6 / 2 ^ 192 := by
  have step := alternating_succ_close above one_pos (alternating_close above small 27 (by norm_num))
  refine step.trans (div_le_div_of_nonneg_right ?_ (by positivity))
  rw [Nat.cast_one]
  linarith

end Close

theorem sq_le_of_close {a b e bound : ℝ} (close : |a - b| ≤ e) (le : |b| ≤ bound) :
    a ^ 2 ≤ b ^ 2 + e * (2 * bound + e) := by
  have nonneg : 0 ≤ e := (abs_nonneg _).trans close
  have magnitude : |a| ≤ |b| + e := by
    have way := abs_sub_abs_le_abs_sub a b
    linarith
  have squared := pow_le_pow_left₀ (abs_nonneg a) magnitude 2
  rw [sq_abs, add_sq, sq_abs] at squared
  nlinarith [mul_le_mul_of_nonneg_left le nonneg]

section Series
variable {r : Int} (above : 0 ≤ r) (small : (r : ℝ) / 2 ^ 192 ≤ 8 / 5)
include above small

theorem square_close :
    0 ≤ (r * r) >>> places ∧ ((r * r) >>> places : Int) / 2 ^ 192 ≤ (3 : ℝ) ∧
      |((r * r) >>> places : Int) / 2 ^ 192 - ((r : ℝ) / 2 ^ 192) ^ 2| ≤ 1 / 2 ^ 192 := by
  have scale : (0 : ℝ) < 2 ^ 192 := by positivity
  have angle_above : (0 : ℝ) ≤ r / 2 ^ 192 := by
    have cast : (0 : ℝ) ≤ r := by exact_mod_cast above
    positivity
  have close : |((r * r) >>> places : Int) / 2 ^ 192 - ((r : ℝ) / 2 ^ 192) ^ 2| ≤ 1 / 2 ^ 192 := by
    have shifted := abs_shiftRight_sub_le (r * r)
    rw [Int.cast_mul] at shifted
    have split : ((r * r) >>> places : Int) / 2 ^ 192 - ((r : ℝ) / 2 ^ 192) ^ 2 =
        (((r * r) >>> places : Int) - r * r / 2 ^ 192) / 2 ^ 192 := by ring
    rw [split, abs_div, abs_of_pos scale]
    exact div_le_div_of_nonneg_right shifted scale.le
  refine ⟨?_, ?_, close⟩
  · rw [Int.shiftRight_eq_div_pow]
    exact Int.ediv_nonneg (mul_nonneg above above) (by positivity)
  · have square := pow_le_pow_left₀ angle_above small 2
    have upper := (abs_le.mp close).2
    norm_num at square upper ⊢
    linarith

theorem cosineSeries_close :
    |cosineSeries r / 2 ^ 192 - nested (((r * r) >>> places : Int) / 2 ^ 192) 28 1| ≤
      6 / 2 ^ 192 := by
  obtain ⟨square_above, square_small, _⟩ := square_close above small
  exact alternating_one_close square_above square_small

theorem sineSeries_close :
    |sineSeries r / 2 ^ 192 - r / 2 ^ 192 * nested (((r * r) >>> places : Int) / 2 ^ 192) 28 2| ≤
      6 / 2 ^ 192 := by
  obtain ⟨square_above, square_small, _⟩ := square_close above small
  have scale : (0 : ℝ) < 2 ^ 192 := by positivity
  have angle_above : (0 : ℝ) ≤ r / 2 ^ 192 := by
    have cast : (0 : ℝ) ≤ r := by exact_mod_cast above
    positivity
  have inner := alternating_close square_above square_small 28 (le_refl 2)
  obtain ⟨a, a_eq⟩ : ∃ a, a = alternating ((r * r) >>> places) 28 2 := ⟨_, rfl⟩
  obtain ⟨q, q_eq⟩ : ∃ q, q = nested (((r * r) >>> places : Int) / 2 ^ 192) 28 2 := ⟨_, rfl⟩
  rw [← a_eq, ← q_eq] at inner
  have outer := abs_shiftRight_sub_le (r * a)
  have sine_eq : sineSeries r = (r * a) >>> places := by
    rw [a_eq]
    rfl
  rw [← sine_eq, Int.cast_mul] at outer
  have split : sineSeries r / 2 ^ 192 - r / 2 ^ 192 * q =
      (sineSeries r - r * a / 2 ^ 192) / 2 ^ 192 + r / 2 ^ 192 * (a / 2 ^ 192 - q) := by ring
  have first : |((sineSeries r : ℝ) - r * a / 2 ^ 192) / 2 ^ 192| ≤ 1 / 2 ^ 192 := by
    rw [abs_div, abs_of_pos scale]
    exact div_le_div_of_nonneg_right outer scale.le
  have second : |r / 2 ^ 192 * (a / 2 ^ 192 - q)| ≤ 8 / 5 * (3 / 2 ^ 192) := by
    rw [abs_mul, abs_of_nonneg angle_above]
    exact mul_le_mul small inner (abs_nonneg _) (by norm_num)
  rw [← q_eq, split]
  refine ((abs_add_le _ _).trans (add_le_add first second)).trans ?_
  norm_num

/-- Sine and cosine of an angle of at most a quarter turn, in whole numbers, are next to the
circle. -/
theorem series_on_circle :
    (sineSeries r / 2 ^ 192 : ℝ) ^ 2 + (cosineSeries r / 2 ^ 192 : ℝ) ^ 2 ≤ 1 + 1 / 2 ^ 80 := by
  obtain ⟨square_above, square_small, square⟩ := square_close above small
  have angle_above : (0 : ℝ) ≤ r / 2 ^ 192 := by
    have cast : (0 : ℝ) ≤ r := by exact_mod_cast above
    positivity
  have x_above : (0 : ℝ) ≤ ((r * r) >>> places : Int) / 2 ^ 192 := by
    have cast : (0 : ℝ) ≤ ((r * r) >>> places : Int) := by exact_mod_cast square_above
    positivity
  have on_circle := nested_on_circle x_above square_small
  have sine_close := sineSeries_close above small
  have cosine_close := cosineSeries_close above small
  have inner := abs_nested_le x_above square_small 28 (le_refl 2)
  obtain ⟨x, x_eq⟩ : ∃ x : ℝ, x = ((r * r) >>> places : Int) / 2 ^ 192 := ⟨_, rfl⟩
  obtain ⟨angle, angle_eq⟩ : ∃ angle : ℝ, angle = r / 2 ^ 192 := ⟨_, rfl⟩
  rw [← x_eq] at x_above square on_circle sine_close cosine_close inner
  rw [← angle_eq] at angle_above square sine_close small
  obtain ⟨p, p_eq⟩ : ∃ p, p = nested x 28 1 := ⟨_, rfl⟩
  obtain ⟨q, q_eq⟩ : ∃ q, q = nested x 28 2 := ⟨_, rfl⟩
  rw [← p_eq] at on_circle cosine_close
  rw [← q_eq] at on_circle sine_close inner
  have q_square : q ^ 2 ≤ 4 := by
    have squared := pow_le_pow_left₀ (abs_nonneg q) inner 2
    rw [sq_abs] at squared
    linarith
  have p_bounded : |p| ≤ 2 := by
    apply abs_le_of_sq_le_sq _ (by norm_num)
    have product := mul_nonneg x_above (sq_nonneg q)
    norm_num at on_circle ⊢
    linarith
  have product_bounded : |angle * q| ≤ 4 := by
    rw [abs_mul, abs_of_nonneg angle_above]
    calc angle * |q| ≤ 8 / 5 * 2 := mul_le_mul small inner (abs_nonneg _) (by norm_num)
      _ ≤ 4 := by norm_num
  have angle_square : (angle * q) ^ 2 ≤ x * q ^ 2 + 4 / 2 ^ 192 := by
    have lower := (abs_le.mp square).1
    have difference : (angle ^ 2 - x) * q ^ 2 ≤ 1 / 2 ^ 192 * 4 :=
      mul_le_mul (by linarith) q_square (sq_nonneg q) (by positivity)
    rw [mul_pow]
    linarith
  have cosine_square := sq_le_of_close cosine_close p_bounded
  have sine_square := sq_le_of_close sine_close product_bounded
  norm_num at cosine_square sine_square angle_square on_circle ⊢
  linarith

end Series

/-! ## Turns -/

theorem Turn.rest_ofAngle (m : Nat) (e : Int) :
    0 ≤ (ofAngle m e).rest ∧ ((ofAngle m e).rest : ℝ) / 2 ^ 192 ≤ 8 / 5 := by
  obtain ⟨scale, scale_eq⟩ : ∃ scale : Nat, scale = 2 ^ 1088 := ⟨_, rfl⟩
  obtain ⟨quarter, quarter_eq⟩ : ∃ quarter, quarter = pi >>> 1 := ⟨_, rfl⟩
  obtain ⟨angle, angle_eq⟩ : ∃ angle, angle = m <<< (e + piPlaces).toNat := ⟨_, rfl⟩
  obtain ⟨scale_positive, quarter_positive, quarter_small⟩ :
      0 < scale ∧ 0 < quarter ∧ 5 * quarter ≤ 8 * (2 ^ 192 * scale) := by
    rw [quarter_eq, scale_eq]
    decide +kernel
  have rest_eq : (ofAngle m e).rest = ((angle % quarter / scale : Nat) : Int) := by
    rw [scale_eq, ← Nat.shiftRight_eq_div_pow, angle_eq, quarter_eq]
    rfl
  have inside : angle % quarter / scale * (5 * scale) ≤ 8 * 2 ^ 192 * scale := by
    calc angle % quarter / scale * (5 * scale) = 5 * (angle % quarter / scale * scale) := by ring
      _ ≤ 5 * (angle % quarter) := Nat.mul_le_mul_left 5 (Nat.div_mul_le_self _ _)
      _ ≤ 5 * quarter := Nat.mul_le_mul_left 5 (Nat.mod_lt _ quarter_positive).le
      _ ≤ 8 * 2 ^ 192 * scale := by rw [mul_assoc]; exact quarter_small
  rw [← mul_assoc] at inside
  have cast : ((angle % quarter / scale : Nat) : ℝ) * 5 ≤ 8 * 2 ^ 192 := by
    exact_mod_cast Nat.le_of_mul_le_mul_right inside scale_positive
  refine ⟨rest_eq ▸ Int.natCast_nonneg _, ?_⟩
  rw [rest_eq, Int.cast_natCast, div_le_iff₀ (by positivity)]
  linarith

theorem Turn.on_circle {t : Turn} (above : 0 ≤ t.rest) (small : (t.rest : ℝ) / 2 ^ 192 ≤ 8 / 5) :
    (t.sine / 2 ^ 192 : ℝ) ^ 2 + (t.cosine / 2 ^ 192 : ℝ) ^ 2 ≤ 1 + 1 / 2 ^ 80 := by
  have series := series_on_circle above small
  obtain ⟨quarter, rest⟩ := t
  fin_cases quarter <;> simp only [sine, cosine, Int.cast_neg, neg_div, neg_sq] <;> linarith

/-! ## Rounding the series -/

theorem lt_of_isTiny {m : Nat} {e : Int} (tiny : isTiny m e = true) :
    (m : ℝ) * 2 ^ e ≤ 1 / 2 ^ 30 := by
  have total : (m.log2 : Int) + 1 + e ≤ -30 := of_decide_eq_true tiny
  have cast : (m : ℝ) ≤ 2 ^ ((m.log2 : Int) + 1) := by
    have below := Nat.lt_log2_self (n := m)
    exact_mod_cast below.le
  calc (m : ℝ) * 2 ^ e ≤ 2 ^ ((m.log2 : Int) + 1) * 2 ^ e :=
        mul_le_mul_of_nonneg_right cast (zpow_pos two_pos e).le
    _ = 2 ^ ((m.log2 : Int) + 1 + e) := (zpow_add₀ two_ne_zero _ _).symm
    _ ≤ 2 ^ (-30 : ℤ) := zpow_le_zpow_right₀ one_le_two total
    _ = 1 / 2 ^ 30 := by norm_num

theorem abs_le_two_of_on_circle {a b : ℝ} (on_circle : a ^ 2 + b ^ 2 ≤ 1 + 1 / 2 ^ 80) :
    |a| ≤ 2 ∧ |b| ≤ 2 := by
  have square := sq_nonneg a
  have square' := sq_nonneg b
  norm_num at on_circle
  exact ⟨abs_le_of_sq_le_sq (by linarith) two_pos.le, abs_le_of_sq_le_sq (by linarith) two_pos.le⟩

/-- Two rounded series next to the circle are next to the circle. -/
theorem rounded_on_circle {a b u v : ℝ} (on_circle : a ^ 2 + b ^ 2 ≤ 1 + 1 / 2 ^ 80)
    (left : |u| ≤ |a| * (1 + 1 / 2 ^ 24) + 1 / 2 ^ 148)
    (right : |v| ≤ |b| * (1 + 1 / 2 ^ 24) + 1 / 2 ^ 148) : u ^ 2 + v ^ 2 ≤ 1 + 1 / 2 ^ 22 := by
  have square := sq_nonneg a
  have square' := sq_nonneg b
  obtain ⟨a_small, b_small⟩ := abs_le_two_of_on_circle on_circle
  have left_square := pow_le_pow_left₀ (abs_nonneg u) left 2
  have right_square := pow_le_pow_left₀ (abs_nonneg v) right 2
  rw [add_sq, mul_pow, sq_abs, sq_abs] at left_square right_square
  norm_num at on_circle left_square right_square ⊢
  linarith

/-- A truncated series lies between two neighbours, so rounding it only drops bits. -/
theorem nearestAbove_rounded (s : Sign) (q : Nat) :
    Rounded .binary32 (signed s ((q + 1 / 4) * 2 ^ (-192 : ℤ)))
      (nearestAbove .binary32 s q (-places)) := by
  have quarter_way : Represents (.ofMantissaAndAccuracy q (.inexact .lt)) (q + 1 / 4) := by
    constructor <;> simp only [ExtendedMantissa.ofMantissaAndAccuracy] <;> linarith
  have coarse : (-places : Int) ≤
      Format.binary32.targetExponent (Float.Model.totalExponent q (-places)) :=
    le_max_of_le_right (by decide)
  exact (roundWithAccuracy_rounded quarter_way coarse).1

theorem nearestAbove_close (s : Sign) {n : Int} (small : |(n : ℝ) / 2 ^ 192| ≤ 2) {z : Float32}
    (z_eq : z = .ofModel (.pack (nearestAbove .binary32 s n.natAbs (-places)))) :
    z.isFinite = true ∧ |real z| ≤ |(n : ℝ) / 2 ^ 192| * (1 + 1 / 2 ^ 24) + 1 / 2 ^ 148 := by
  have size : |signed s (((n.natAbs : ℕ) + 1 / 4) * 2 ^ (-192 : ℤ))| =
      |(n : ℝ) / 2 ^ 192| + 1 / 2 ^ 194 := by
    have cast : ((n.natAbs : ℕ) : ℝ) = |(n : ℝ)| := by rw [Nat.cast_natAbs, Int.cast_abs]
    rw [abs_signed, cast, abs_of_nonneg (by positivity), abs_div,
      abs_of_pos (by positivity : (0 : ℝ) < 2 ^ 192)]
    norm_num
    ring
  have rounds : Rounds _ z := z_eq ▸ rounds_pack (nearestAbove_rounded s n.natAbs)
  obtain ⟨finite, error⟩ := rounds.close size.le (by norm_num at small ⊢; linarith)
  refine ⟨finite, ?_⟩
  have way := abs_sub_abs_le_abs_sub (real z) (signed s (((n.natAbs : ℕ) + 1 / 4) * 2 ^ (-192 : ℤ)))
  rw [size] at way
  have total := way.trans error
  norm_num at total ⊢
  linarith

end Arbor.Number.Circle

namespace Arbor.Number

open Float.Model (Format UnpackedFloat)
open Float.Model.UnpackedFloat

theorem rounds_ofNat_one : Rounds 1 (.ofModel (.pack (UnpackedFloat.ofNat .binary32 1))) := by
  have rounded := normalize_rounded .binary32 1 0 .positive
  rw [Int.cast_one, zpow_zero, mul_one] at rounded
  exact rounds_pack rounded

/-- Sine and cosine of a finite angle are finite, and next to the circle. -/
theorem sin_cos_on_circle {x : Float32} (finite : x.isFinite = true) :
    (sin x).isFinite = true ∧ (cos x).isFinite = true ∧
      real (sin x) ^ 2 + real (cos x) ^ 2 ≤ 1 + 1 / 2 ^ 22 := by
  have canonical := canonical_unpack x
  obtain ⟨one_finite, one_eq⟩ :=
    rounds_ofNat_one.of_onGrid (real_one ▸ onGrid_real 1) (real_one ▸ abs_real_lt 1)
  change x.toModel.unpack.isFinite = true at finite
  rw [sin, cos]
  cases unpacked : x.toModel.unpack with
  | infinity s => rw [unpacked] at finite; exact nomatch finite
  | notANumber => rw [unpacked] at finite; exact nomatch finite
  | zero s =>
      have rounds : Rounds 0 (.ofModel (.pack (Circle.sine .binary32 (.zero s)))) :=
        rounds_pack (rounded_zero s)
      obtain ⟨sine_finite, sine_eq⟩ := rounds.of_onGrid onGrid_zero (by
        rw [abs_zero]
        exact zpow_pos two_pos _)
      refine ⟨sine_finite, one_finite, ?_⟩
      change _ + real (.ofModel (.pack (UnpackedFloat.ofNat .binary32 1))) ^ 2 ≤ _
      rw [sine_eq, one_eq]
      norm_num
  | finite s m e positive =>
      rw [unpacked] at canonical
      rw [Circle.sine, Circle.cosine]
      split
      · next tiny =>
          -- The angle is its own sine.
          have small := Circle.lt_of_isTiny tiny
          have magnitude : (0 : ℝ) ≤ m * 2 ^ e := by positivity
          have size : |realOf (.finite s m e positive)| = m * 2 ^ e := by
            rw [realOf, abs_signed, abs_of_nonneg magnitude]
          obtain ⟨sine_finite, sine_eq⟩ := (rounds_pack (canonical.rounded rfl)).of_onGrid
            canonical.onGrid (by
              rw [size]
              exact lt_of_le_of_lt small (by norm_num))
          refine ⟨sine_finite, one_finite, ?_⟩
          have square := pow_le_pow_left₀ magnitude small 2
          rw [sine_eq, one_eq, ← sq_abs, size]
          norm_num at square ⊢
          linarith
      · obtain ⟨above, small⟩ := Circle.Turn.rest_ofAngle m e
        have on_circle := Circle.Turn.on_circle above small
        obtain ⟨sine_small, cosine_small⟩ := Circle.abs_le_two_of_on_circle on_circle
        obtain ⟨sine_finite, sine_close⟩ := Circle.nearestAbove_close _ sine_small rfl
        obtain ⟨cosine_finite, cosine_close⟩ := Circle.nearestAbove_close _ cosine_small rfl
        exact ⟨sine_finite, cosine_finite,
          Circle.rounded_on_circle on_circle sine_close cosine_close⟩

end Arbor.Number
