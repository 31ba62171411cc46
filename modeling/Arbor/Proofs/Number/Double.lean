import Arbor.Number.Decimal
import Arbor.Proofs.Number.Quotient
import Arbor.Proofs.Number.Widening

/-!
# By way of doubles

A double that is a little off still narrows to the single-precision value next to it, since the
neighbours of that value are far away in comparison.  So digits may be rounded to a double, scaled by a
power of ten that is rounded as well, and rounded again.
-/

set_option autoImplicit false

namespace Arbor.Number

open Float.Model (Format UnpackedFloat)
open Float.Model.UnpackedFloat

/-! ## Neighbours -/

/-- A value of the grid that is very close to another one is that value. -/
theorem OnGrid.eq_of_close {format : Format} {v w : ℝ} (grid : OnGrid format v)
    (grid' : OnGrid format w) (close : 2 ^ (format.mantissaBits + 1) * |w - v| < |v|) : w = v := by
  have bits : (1 : ℝ) ≤ 2 ^ format.mantissaBits := one_le_pow₀ one_le_two
  have positive : 0 < |v| := lt_of_le_of_lt (by positivity) close
  obtain ⟨k, low, high⟩ := exists_mem_Ico_zpow positive (one_lt_two (α := ℝ))
  obtain ⟨t, t_eq⟩ : ∃ t : ℤ, t = k - format.mantissaBits := ⟨_, rfl⟩
  have unit : (0 : ℝ) < 2 ^ t := zpow_pos two_pos t
  have half : (2 : ℝ) ^ ((format.mantissaBits : ℤ) - 1 + t) = 2 ^ k / 2 := by
    rw [div_eq_mul_inv, ← zpow_sub_one₀ two_ne_zero]
    congr 1
    omega
  have way := abs_sub_abs_le_abs_sub v w
  have share : |v - w| ≤ |v| / 2 := by
    rw [abs_sub_comm]
    have := mul_le_mul_of_nonneg_right bits (abs_nonneg (w - v))
    rw [pow_succ] at close
    linarith
  obtain ⟨a, rfl⟩ := grid.exists_mul (t := t) (by rw [half]; linarith)
  obtain ⟨b, rfl⟩ := grid'.exists_mul (t := t) (by rw [half]; linarith)
  -- Both are whole numbers of units, and they are less than one unit apart.
  have whole : (2 : ℝ) ^ (k + 1) = 2 ^ (format.mantissaBits + 1) * 2 ^ t := by
    rw [← zpow_natCast, ← zpow_add₀ two_ne_zero]
    congr 1
    push_cast
    omega
  have apart : |((b - a : ℤ) : ℝ)| < 1 := by
    rw [← sub_mul, abs_mul (_ - _), abs_of_pos unit] at close
    rw [whole] at high
    push_cast
    have := close.trans high
    rw [mul_lt_mul_iff_right₀ (by positivity)] at this
    rwa [mul_lt_iff_lt_one_left unit] at this
  have same : |b - a| < 1 := by exact_mod_cast apart
  rw [Int.abs_lt_one_iff, sub_eq_zero] at same
  rw [same]

theorem ten_pow_le (k : ℕ) : (10 : ℝ) ^ k ≤ 2 ^ (4 * k) := by
  rw [pow_mul]
  exact pow_le_pow_left₀ (by norm_num) (by norm_num) k

section Range
variable {m : ℝ} (one_le : 1 ≤ m) (few : m ≤ 2 ^ 64) {k : ℕ} (low : k ≤ 150)
include one_le few low

theorem mul_ten_pow_mem : 2 ^ (-1000 : ℤ) ≤ m * 10 ^ k ∧ m * 10 ^ k ≤ 2 ^ (1000 : ℤ) := by
  have power : (1 : ℝ) ≤ 10 ^ k := one_le_pow₀ (by norm_num)
  constructor
  · exact (zpow_le_one_of_nonpos₀ one_le_two (by norm_num)).trans
      (one_le_mul_of_one_le_of_one_le one_le power)
  · calc m * 10 ^ k ≤ 2 ^ 64 * 2 ^ (4 * k) :=
          mul_le_mul few (ten_pow_le k) (by positivity) (by positivity)
      _ = 2 ^ ((64 + 4 * k : ℕ) : ℤ) := by rw [zpow_natCast, pow_add]
      _ ≤ 2 ^ (1000 : ℤ) := zpow_le_zpow_right₀ one_le_two (by omega)

theorem div_ten_pow_mem : 2 ^ (-1000 : ℤ) ≤ m / 10 ^ k ∧ m / 10 ^ k ≤ 2 ^ (1000 : ℤ) := by
  have power : (1 : ℝ) ≤ 10 ^ k := one_le_pow₀ (by norm_num)
  constructor
  · calc (2 : ℝ) ^ (-1000 : ℤ) ≤ 2 ^ (-((4 * k : ℕ) : ℤ)) :=
          zpow_le_zpow_right₀ one_le_two (by omega)
      _ = 1 / 2 ^ (4 * k) := by rw [zpow_neg, zpow_natCast, one_div]
      _ ≤ m / 10 ^ k := div_le_div₀ (by positivity) one_le (by positivity) (ten_pow_le k)
  · calc m / 10 ^ k ≤ m := div_le_self (by positivity) power
      _ ≤ 2 ^ 64 := few
      _ ≤ 2 ^ (1000 : ℤ) := by
          rw [← zpow_natCast]
          exact zpow_le_zpow_right₀ one_le_two (by norm_num)

end Range

/-! ## Doubles -/

/-- The number that a finite double stands for. -/
noncomputable def doubleReal (x : Float) : ℝ := realOf x.toModel.unpack

theorem canonical_unpack_double (x : Float) : Canonical .binary64 x.toModel.unpack ∧
    overflow .binary64 x.toModel.unpack = x.toModel.unpack := by
  change Canonical .binary64 (unpack .binary64 x.toModel.toBits.toBitVec) ∧
    overflow .binary64 (unpack .binary64 x.toModel.toBits.toBitVec) =
      unpack .binary64 x.toModel.toBits.toBitVec
  exact unpack_canonical (by decide) _

theorem overflow_neg (format : Format) (u : UnpackedFloat) :
    overflow format u.neg = (overflow format u).neg := by
  cases u with
  | finite s m e positive =>
      rw [UnpackedFloat.neg, overflow, overflow]
      split <;> rfl
  | infinity s => rfl
  | notANumber => rfl
  | zero s => rfl

theorem Canonical.opposite {format : Format} {u : UnpackedFloat} (canonical : Canonical format u) :
    Canonical format u.neg := by
  cases u <;> exact canonical

theorem realOf_neg (u : UnpackedFloat) : realOf u.neg = -realOf u := by
  cases u with
  | finite s m e positive => exact signed_neg s _
  | infinity s => exact neg_zero.symm
  | notANumber => exact neg_zero.symm
  | zero s => exact neg_zero.symm

theorem isFinite_neg (u : UnpackedFloat) : u.neg.isFinite = u.isFinite := by
  cases u <;> rfl

theorem unpack_neg_double (x : Float) : (-x).toModel.unpack = x.toModel.unpack.neg := by
  obtain ⟨canonical, fits⟩ := canonical_unpack_double x
  change unpack .binary64 (pack .binary64 x.toModel.unpack.neg) = _
  rw [unpack_pack (by decide) canonical.opposite, overflow_neg, fits]

theorem isFinite_neg_double (x : Float) : (-x).isFinite = x.isFinite := by
  change (-x).toModel.unpack.isFinite = x.toModel.unpack.isFinite
  rw [unpack_neg_double, isFinite_neg]

theorem doubleReal_neg (x : Float) : doubleReal (-x) = -doubleReal x := by
  rw [doubleReal, doubleReal, unpack_neg_double, realOf_neg]

/-- A finite double that is off from a positive number by at most a part of it. -/
structure Approx (part v : ℝ) (x : Float) : Prop where
  isFinite : x.isFinite = true
  positive : 0 < v
  close : |doubleReal x - v| ≤ part * v

namespace Approx

theorem mono {part larger v : ℝ} {x : Float} (approx : Approx part v x) (le : part ≤ larger) :
    Approx larger v x :=
  ⟨approx.isFinite, approx.positive,
    approx.close.trans (mul_le_mul_of_nonneg_right le approx.positive.le)⟩

theorem of_rounded {t v part : ℝ} {u : UnpackedFloat} (rounded : Rounded .binary64 t u)
    (off : |t - v| ≤ part * v) (half : part ≤ 1 / 2) (large : 2 ^ (-1000 : ℤ) ≤ v)
    (small : v ≤ 2 ^ (1000 : ℤ)) : Approx (part + 2 / 2 ^ 53) v (.ofModel (.pack u)) := by
  have positive : 0 < v := lt_of_lt_of_le (zpow_pos two_pos _) large
  have share := mul_le_mul_of_nonneg_right half positive.le
  obtain ⟨below, above⟩ := abs_le.mp off
  have t_positive : 0 < t := by linarith
  have normal : (2 : ℝ) ^ ((Format.binary64.mantissaBits : ℤ) - 1 + Format.binary64.minExponent) ≤
      |t| := by
    have least : ((Format.binary64.mantissaBits : ℤ) - 1 + Format.binary64.minExponent) = -1022 := rfl
    have order : (2 : ℝ) ^ (-1022 : ℤ) ≤ 2 ^ (-1000 : ℤ) / 2 := by
      rw [div_eq_mul_inv, ← zpow_sub_one₀ two_ne_zero]
      exact zpow_le_zpow_right₀ one_le_two (by norm_num)
    rw [least, abs_of_pos t_positive]
    linarith
  have fits : |t| ≤ 2 ^ (1001 : ℤ) := by
    calc |t| ≤ v * 2 := by
          rw [abs_of_pos t_positive]
          linarith
      _ ≤ 2 ^ (1000 : ℤ) * 2 := mul_le_mul_of_nonneg_right small two_pos.le
      _ = 2 ^ (1001 : ℤ) := (zpow_add_one₀ two_ne_zero 1000).symm
  have error := rounded.nearest.relative_error normal
  have bounded := rounded.nearest.abs_le_of_abs_le (onGrid_two_zpow (by decide)) fits
  have kept : (Float.ofModel (.pack u)).toModel.unpack = u := by
    change unpack .binary64 (pack .binary64 u) = u
    rw [unpack_pack (by decide) rounded.canonical]
    exact rounded.canonical.overflow_eq (by decide)
      (bounded.trans_lt (zpow_lt_zpow_right₀ one_lt_two (by decide)))
  refine ⟨?_, positive, ?_⟩
  · change (Float.ofModel (.pack u)).toModel.unpack.isFinite = true
    rw [kept]
    exact rounded.isFinite
  · rw [doubleReal, kept]
    have bits : Format.binary64.mantissaBits = 53 := rfl
    rw [bits, abs_of_pos t_positive] at error
    have way := abs_sub_le (realOf u) t v
    have size : t / 2 ^ 53 ≤ 2 / 2 ^ 53 * v := by
      rw [div_mul_eq_mul_div]
      exact div_le_div_of_nonneg_right (by linarith) (by positivity)
    linarith

theorem decimal {m k : ℕ} (positive : 0 < m) (few : m ≤ 2 ^ 64) (low : k ≤ 150) :
    Approx (2 / 2 ^ 53) (m * 10 ^ k) (Decimal.toDouble ⟨false, m, k⟩) := by
  have rounded : Rounded .binary64 (m * 10 ^ k) (ofScientific .binary64 m k) :=
    ofScientific_rounded positive (low.trans (by decide))
  have one_le : (1 : ℝ) ≤ m := by exact_mod_cast positive
  have few_cast : (m : ℝ) ≤ 2 ^ 64 := by exact_mod_cast few
  obtain ⟨large, small⟩ := mul_ten_pow_mem one_le few_cast low
  have approx := of_rounded rounded (by rw [sub_self, abs_zero, zero_mul]) (by norm_num) large small
  rwa [zero_add] at approx

variable {v w : ℝ} {x y : Float}

theorem bounds (approx : Approx (2 / 2 ^ 53) v x) :
    v * (1 - 2 / 2 ^ 53) ≤ doubleReal x ∧ doubleReal x ≤ v * (1 + 2 / 2 ^ 53) := by
  obtain ⟨below, above⟩ := abs_le.mp approx.close
  constructor <;> linarith

theorem beq_zero (approx : Approx (2 / 2 ^ 53) v x) : (x == 0) = false := by
  have positive : 0 < realOf x.toModel.unpack :=
    (mul_pos approx.positive (by norm_num)).trans_le approx.bounds.1
  have compared := compare_unpack (b := .zero .positive) (canonical_unpack_double x).1
    (by trivial) approx.isFinite rfl
  have none : realOf (.zero .positive) = 0 := rfl
  change (x.toModel.unpack.compare (.zero .positive) == some .eq) = false
  rw [compared, none, compare_gt_iff_gt.mpr positive]
  rfl

theorem mul (left : Approx (2 / 2 ^ 53) v x) (right : Approx (2 / 2 ^ 53) w y)
    (large : 2 ^ (-1000 : ℤ) ≤ v * w) (small : v * w ≤ 2 ^ (1000 : ℤ)) :
    Approx (1 / 2 ^ 50) (v * w) (x * y) := by
  have positive := mul_pos left.positive right.positive
  obtain ⟨low, high⟩ := left.bounds
  obtain ⟨low', high'⟩ := right.bounds
  have rounded := mul_rounded (canonical_unpack_double x).1 (canonical_unpack_double y).1
    left.isFinite right.isFinite
  have off : |doubleReal x * doubleReal y - v * w| ≤ 5 / 2 ^ 53 * (v * w) := by
    have below : v * (1 - 2 / 2 ^ 53) * (w * (1 - 2 / 2 ^ 53)) ≤ doubleReal x * doubleReal y :=
      mul_le_mul low low' (mul_nonneg right.positive.le (by norm_num))
        ((mul_nonneg left.positive.le (by norm_num)).trans low)
    have above : doubleReal x * doubleReal y ≤ v * (1 + 2 / 2 ^ 53) * (w * (1 + 2 / 2 ^ 53)) :=
      mul_le_mul high high' ((mul_nonneg right.positive.le (by norm_num)).trans low')
        (mul_nonneg left.positive.le (by norm_num))
    norm_num at below above ⊢
    rw [abs_le]
    constructor <;> linarith
  exact (of_rounded rounded off (by norm_num) large small).mono (by norm_num)

theorem div (left : Approx (2 / 2 ^ 53) v x) (right : Approx (2 / 2 ^ 53) w y)
    (large : 2 ^ (-1000 : ℤ) ≤ v / w) (small : v / w ≤ 2 ^ (1000 : ℤ)) :
    Approx (1 / 2 ^ 50) (v / w) (x / y) := by
  have positive := div_pos left.positive right.positive
  obtain ⟨low, high⟩ := left.bounds
  obtain ⟨low', high'⟩ := right.bounds
  have divisor : 0 < doubleReal y := (mul_pos right.positive (by norm_num)).trans_le low'
  have rounded : Rounded .binary64 (doubleReal x / doubleReal y) _ :=
    div_rounded left.isFinite right.isFinite divisor.ne'
  have off : |doubleReal x / doubleReal y - v / w| ≤ 5 / 2 ^ 53 * (v / w) := by
    have below : v * (1 - 2 / 2 ^ 53) / (w * (1 + 2 / 2 ^ 53)) ≤ doubleReal x / doubleReal y :=
      div_le_div₀ ((mul_nonneg left.positive.le (by norm_num)).trans low) low divisor high'
    have above : doubleReal x / doubleReal y ≤ v * (1 + 2 / 2 ^ 53) / (w * (1 - 2 / 2 ^ 53)) :=
      div_le_div₀ (mul_nonneg left.positive.le (by norm_num)) high
        (mul_pos right.positive (by norm_num)) low'
    have least := mul_le_mul_of_nonneg_left
      (by norm_num : (1 : ℝ) - 5 / 2 ^ 53 ≤ (1 - 2 / 2 ^ 53) / (1 + 2 / 2 ^ 53)) positive.le
    have most := mul_le_mul_of_nonneg_left
      (by norm_num : (1 + 2 / 2 ^ 53) / (1 - 2 / 2 ^ 53) ≤ (1 : ℝ) + 5 / 2 ^ 53) positive.le
    rw [mul_div_mul_comm] at below above
    rw [abs_le]
    constructor <;> linarith
  exact (of_rounded rounded off (by norm_num) large small).mono (by norm_num)

end Approx

/-! ## Narrowing -/

theorem rounds_narrow {y : Float} (finite : y.isFinite = true) : Rounds (doubleReal y) (narrow y) := by
  apply rounds_pack
  change y.toModel.unpack.isFinite = true at finite
  rw [doubleReal]
  cases unpacked : y.toModel.unpack with
  | infinity s => rw [unpacked] at finite; exact nomatch finite
  | notANumber => rw [unpacked] at finite; exact nomatch finite
  | zero s => exact rounded_zero s
  | finite s m e positive => exact round_rounded positive

/-- A double that is very close to a value narrows to this value. -/
theorem narrow_eq_of_close {x : Float32} {y : Float} (finite : y.isFinite = true)
    (nonzero : real x ≠ 0) (close : |doubleReal y - real x| ≤ |real x| / 2 ^ 48) : narrow y = x := by
  have positive : 0 < |real x| := abs_pos.mpr nonzero
  have bits : Format.binary32.mantissaBits + 1 = 25 := rfl
  have same : ∀ w, Nearest .binary32 (doubleReal y) w → w = real x := by
    intro w nearest
    apply (onGrid_real x).eq_of_close nearest.grid
    have closer := nearest.closest _ (onGrid_real x)
    rw [abs_sub_comm (real x)] at closer
    have way := abs_sub_le w (doubleReal y) (real x)
    rw [bits]
    norm_num at close ⊢
    linarith
  obtain ⟨_, nearest⟩ | ⟨w, s, nearest, large, _⟩ := (rounds_narrow finite).cases
  · have real_eq := same _ nearest
    exact eq_of_real_eq real_eq (real_eq ▸ nonzero)
  · exfalso
    have magnitude := le_abs_self (signed s w)
    have bounded := abs_real_lt x
    rw [abs_signed] at magnitude
    rw [← same w nearest] at bounded
    linarith

end Arbor.Number
