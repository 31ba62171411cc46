import Arbor.Proofs.Number.Rounding

/-!
# Single precision as real arithmetic

A single-precision value that is finite stands for a real number.  Sums, differences and products of
finite values round the real result, which is finite as long as it stays below the largest value;
and finite values compare as the numbers that they stand for.
-/

set_option autoImplicit false

namespace Arbor.Number

open Float.Model (Format UnpackedFloat)
open Float.Model.UnpackedFloat

/-- The number that a finite value stands for. -/
noncomputable def real (x : Float32) : ℝ := realOf x.toModel.unpack

/-- The value `z` is what becomes of the number `v` when it is rounded. -/
def Rounds (v : ℝ) (z : Float32) : Prop :=
  ∃ u, Rounded .binary32 v u ∧ z.toModel.unpack = overflow .binary32 u

theorem canonical_unpack (x : Float32) : Canonical .binary32 x.toModel.unpack := by
  change Canonical .binary32 (unpack .binary32 x.toModel.toBits.toBitVec)
  exact (unpack_canonical (by decide) _).1

theorem onGrid_real (x : Float32) : OnGrid .binary32 (real x) := (canonical_unpack x).onGrid

theorem abs_real_lt (x : Float32) : |real x| < 2 ^ (128 : ℤ) := by
  obtain ⟨canonical, fits⟩ : Canonical .binary32 x.toModel.unpack ∧
      overflow .binary32 x.toModel.unpack = x.toModel.unpack := by
    change Canonical .binary32 (unpack .binary32 x.toModel.toBits.toBitVec) ∧
      overflow .binary32 (unpack .binary32 x.toModel.toBits.toBitVec) =
        unpack .binary32 x.toModel.toBits.toBitVec
    exact unpack_canonical (by decide) _
  have none : |(0 : ℝ)| < 2 ^ (128 : ℤ) := by
    rw [abs_zero]
    exact zpow_pos two_pos _
  rw [real]
  cases unpacked : x.toModel.unpack with
  | infinity s => exact none
  | notANumber => exact none
  | zero s => exact none
  | finite s m e positive =>
      rw [unpacked] at canonical fits
      have le : e ≤ 104 := by
        by_contra large
        have above : maxExponent .binary32 < e := not_le.mp large
        rw [overflow, if_pos above] at fits
        cases fits
      have cast : (m : ℝ) < 2 ^ 24 := by
        have lt : m < 2 ^ 24 := canonical.lt
        exact_mod_cast lt
      rw [realOf, abs_signed, abs_of_nonneg (by positivity)]
      calc (m : ℝ) * 2 ^ e < 2 ^ 24 * 2 ^ e := mul_lt_mul_of_pos_right cast (zpow_pos two_pos e)
        _ ≤ 2 ^ 24 * 2 ^ (104 : ℤ) :=
            mul_le_mul_of_nonneg_left (zpow_le_zpow_right₀ one_le_two le) (by positivity)
        _ = 2 ^ (128 : ℤ) := by norm_num

/-! ## Arithmetic -/

theorem rounds_pack {v : ℝ} {u : UnpackedFloat} (rounded : Rounded .binary32 v u) :
    Rounds v (.ofModel (.pack u)) :=
  ⟨u, rounded, unpack_pack (by decide) rounded.canonical⟩

section Operations
variable {x y : Float32} (finite : x.isFinite = true) (finite' : y.isFinite = true)
include finite finite'

theorem rounds_mul : Rounds (real x * real y) (x * y) :=
  rounds_pack (mul_rounded (canonical_unpack x) (canonical_unpack y) finite finite')

theorem rounds_add : Rounds (real x + real y) (x + y) :=
  rounds_pack (add_rounded (canonical_unpack x) (canonical_unpack y) finite finite')

theorem rounds_sub : Rounds (real x - real y) (x - y) :=
  rounds_pack (sub_rounded (canonical_unpack x) (canonical_unpack y) finite finite')

end Operations

namespace Rounds

variable {v : ℝ} {z : Float32}

theorem cases (rounds : Rounds v z) :
    (z.isFinite = true ∧ Nearest .binary32 v (real z)) ∨
      ∃ w s, Nearest .binary32 v w ∧ 2 ^ (128 : ℤ) ≤ signed s w ∧
        z.toModel.unpack = .infinity s := by
  obtain ⟨u, rounded, same⟩ := rounds
  have kept : ∀ u', overflow .binary32 u = u' → u' = u →
      z.isFinite = true ∧ Nearest .binary32 v (real z) := by
    rintro u' rounds_to rfl
    rw [rounds_to] at same
    refine ⟨?_, ?_⟩
    · change z.toModel.unpack.isFinite = true
      rw [same]
      exact rounded.isFinite
    · rw [real, same]
      exact rounded.nearest
  rcases lt_or_ge |realOf u| (2 ^ (128 : ℤ)) with small | large
  · exact Or.inl (kept _ (rounded.canonical.overflow_eq (by decide) small) rfl)
  · cases u with
    | infinity s => exact nomatch rounded.isFinite
    | notANumber => exact nomatch rounded.isFinite
    | zero s => exact Or.inl (kept _ rfl rfl)
    | finite s m e positive =>
        by_cases above : maxExponent .binary32 < e
        · refine Or.inr ⟨_, s, rounded.nearest, ?_, ?_⟩
          · have magnitude : (0 : ℝ) ≤ m * 2 ^ e := by positivity
            rw [realOf, abs_signed, abs_of_nonneg magnitude] at large
            cases s with
            | negative =>
                change _ ≤ -(-((m : ℝ) * 2 ^ e))
                rwa [neg_neg]
            | positive => exact large
          · rw [same, overflow, if_pos above]
        · exact Or.inl (kept _ (if_neg above) rfl)

theorem of_abs_le (rounds : Rounds v z) {g : ℝ} (grid : OnGrid .binary32 g)
    (small : g < 2 ^ (128 : ℤ)) (le : |v| ≤ g) :
    z.isFinite = true ∧ Nearest .binary32 v (real z) ∧ |real z| ≤ g := by
  obtain ⟨finite, nearest⟩ | ⟨w, s, nearest, large, _⟩ := rounds.cases
  · exact ⟨finite, nearest, nearest.abs_le_of_abs_le grid le⟩
  · exfalso
    have bounded := nearest.abs_le_of_abs_le grid le
    rw [← abs_signed s] at bounded
    have := le_abs_self (signed s w)
    linarith

/-- Rounding a number that is not too large costs half a unit in the last place. -/
theorem close (rounds : Rounds v z) {bound : ℝ} (bounded : |v| ≤ bound)
    (small : bound ≤ 2 ^ (100 : ℤ)) :
    z.isFinite = true ∧ |real z - v| ≤ bound / 2 ^ 24 + 1 / 2 ^ 149 := by
  have grid : OnGrid .binary32 (2 ^ (100 : ℤ)) := onGrid_two_zpow (by decide)
  obtain ⟨finite, nearest, _⟩ := rounds.of_abs_le grid
    (zpow_lt_zpow_right₀ one_lt_two (by norm_num)) (bounded.trans small)
  refine ⟨finite, ?_⟩
  have error := nearest.error_le_add
  have bits : Format.binary32.mantissaBits = 24 := rfl
  have least : Format.binary32.minExponent = -149 := rfl
  rw [bits, least] at error
  norm_num at error ⊢
  linarith

theorem sign_of_infinite {w : ℝ} {s : Sign} (above : 0 ≤ w) (large : 2 ^ (128 : ℤ) ≤ signed s w) :
    s = .positive := by
  cases s with
  | positive => rfl
  | negative =>
      have limit : (0 : ℝ) < 2 ^ (128 : ℤ) := zpow_pos two_pos _
      have below : signed .negative w = -w := rfl
      linarith

theorem of_onGrid (rounds : Rounds v z) (grid : OnGrid .binary32 v)
    (small : |v| < 2 ^ (128 : ℤ)) : z.isFinite = true ∧ real z = v := by
  obtain ⟨finite, nearest, _⟩ := rounds.of_abs_le grid.abs small le_rfl
  exact ⟨finite, nearest.eq_of_onGrid grid⟩

/-- Near the end of the range a small step is lost, so nothing that grows in small steps passes the
greatest power of two. -/
theorem saturates (rounds : Rounds v z) (close : |v| < 2 ^ (127 : ℤ) + 2 ^ (103 : ℤ)) :
    z.isFinite = true ∧ |real z| ≤ 2 ^ (127 : ℤ) := by
  have stays : ∀ w, Nearest .binary32 v w → |w| ≤ 2 ^ (127 : ℤ) := fun w nearest =>
    nearest.abs_le_of_lt_half_unit (by decide) close
  obtain ⟨finite, nearest⟩ | ⟨w, s, nearest, large, _⟩ := rounds.cases
  · exact ⟨finite, stays _ nearest⟩
  · exfalso
    have bounded := stays w nearest
    have magnitude := le_abs_self (signed s w)
    have below : (2 : ℝ) ^ (127 : ℤ) < 2 ^ (128 : ℤ) := zpow_lt_zpow_right₀ one_lt_two (by norm_num)
    rw [abs_signed] at magnitude
    linarith

end Rounds

/-! ## Comparison -/

/-- Canonical numbers compare by the exponent first. -/
theorem IsCanonical.lt_of_exponent_lt {format : Format} {m m' : Nat} {e e' : Int}
    (left : IsCanonical format m e) (right : IsCanonical format m' e') (less : e < e') :
    (m : ℝ) * 2 ^ e < m' * 2 ^ e' := by
  have above := left.above
  have full : 2 ^ format.mantissaBitsWithoutImplicit ≤ m' := right.full.resolve_right (by omega)
  have cast : (m : ℝ) < 2 * 2 ^ format.mantissaBitsWithoutImplicit := by
    have lt := left.lt
    rw [two_pow_mantissaBits] at lt
    exact_mod_cast lt
  have cast' : (2 : ℝ) ^ format.mantissaBitsWithoutImplicit ≤ m' := by exact_mod_cast full
  calc (m : ℝ) * 2 ^ e < 2 * 2 ^ format.mantissaBitsWithoutImplicit * 2 ^ e :=
        mul_lt_mul_of_pos_right cast (zpow_pos two_pos e)
    _ = 2 ^ format.mantissaBitsWithoutImplicit * 2 ^ (e + 1) := by
        rw [zpow_add_one₀ two_ne_zero]
        ring
    _ ≤ m' * 2 ^ e' :=
        mul_le_mul cast' (zpow_le_zpow_right₀ one_le_two (by omega)) (by positivity) (by positivity)

theorem IsCanonical.compare_eq {format : Format} {m m' : Nat} {e e' : Int}
    (left : IsCanonical format m e) (right : IsCanonical format m' e') :
    (compare e e').then (compare m m') = compare ((m : ℝ) * 2 ^ e) (m' * 2 ^ e') := by
  rcases lt_trichotomy e e' with less | rfl | more
  · rw [compare_lt_iff_lt.mpr less, compare_lt_iff_lt.mpr (left.lt_of_exponent_lt right less)]
    rfl
  · have unit : (0 : ℝ) < 2 ^ e := zpow_pos two_pos e
    rw [compare_eq_iff_eq.mpr rfl, Ordering.eq_then]
    rcases lt_trichotomy m m' with less | rfl | more
    · have scaled : (m : ℝ) * 2 ^ e < m' * 2 ^ e :=
        mul_lt_mul_of_pos_right (by exact_mod_cast less) unit
      rw [compare_lt_iff_lt.mpr less, compare_lt_iff_lt.mpr scaled]
    · rw [compare_eq_iff_eq.mpr rfl, compare_eq_iff_eq.mpr rfl]
    · have scaled : (m' : ℝ) * 2 ^ e < m * 2 ^ e :=
        mul_lt_mul_of_pos_right (by exact_mod_cast more) unit
      rw [compare_gt_iff_gt.mpr more, compare_gt_iff_gt.mpr scaled]
  · rw [compare_gt_iff_gt.mpr more, compare_gt_iff_gt.mpr (right.lt_of_exponent_lt left more)]
    rfl

theorem compare_neg_neg (x y : ℝ) : compare (-x) (-y) = (compare x y).swap := by
  rcases lt_trichotomy x y with less | rfl | more
  · rw [compare_lt_iff_lt.mpr less, compare_gt_iff_gt.mpr (neg_lt_neg less)]
    rfl
  · rw [compare_eq_iff_eq.mpr rfl, compare_eq_iff_eq.mpr rfl]
    rfl
  · rw [compare_gt_iff_gt.mpr more, compare_lt_iff_lt.mpr (neg_lt_neg more)]
    rfl

theorem compare_unpack {format : Format} {a b : UnpackedFloat} (left : Canonical format a)
    (right : Canonical format b) (finite : a.isFinite = true) (finite' : b.isFinite = true) :
    a.compare b = some (compare (realOf a) (realOf b)) := by
  have magnitude : ∀ {m : Nat} {e : Int}, 0 < m → (0 : ℝ) < m * 2 ^ e := by
    intro m e positive
    positivity
  cases a with
  | infinity s => exact nomatch finite
  | notANumber => exact nomatch finite
  | zero s =>
      cases b with
      | infinity s' => exact nomatch finite'
      | notANumber => exact nomatch finite'
      | zero s' => exact congrArg some (compare_eq_iff_eq.mpr rfl).symm
      | finite s' m' e' positive' =>
          cases s' with
          | negative =>
              exact congrArg some (compare_gt_iff_gt.mpr (neg_lt_zero.mpr (magnitude positive'))).symm
          | positive => exact congrArg some (compare_lt_iff_lt.mpr (magnitude positive')).symm
  | finite s m e positive =>
      cases b with
      | infinity s' => exact nomatch finite'
      | notANumber => exact nomatch finite'
      | zero s' =>
          cases s with
          | negative =>
              exact congrArg some (compare_lt_iff_lt.mpr (neg_lt_zero.mpr (magnitude positive))).symm
          | positive => exact congrArg some (compare_gt_iff_gt.mpr (magnitude positive)).symm
      | finite s' m' e' positive' =>
          cases s with
          | negative =>
              cases s' with
              | negative =>
                  change some ((compare e e').then (compare m m')).swap =
                    some (compare (-((m : ℝ) * 2 ^ e)) (-((m' : ℝ) * 2 ^ e')))
                  rw [compare_neg_neg, IsCanonical.compare_eq left right]
              | positive =>
                  exact congrArg some (compare_lt_iff_lt.mpr
                    ((neg_lt_zero.mpr (magnitude positive)).trans (magnitude positive'))).symm
          | positive =>
              cases s' with
              | negative =>
                  exact congrArg some (compare_gt_iff_gt.mpr
                    ((neg_lt_zero.mpr (magnitude positive')).trans (magnitude positive))).symm
              | positive => exact congrArg some (IsCanonical.compare_eq left right)

section Order
variable {x y : Float32} (finite : x.isFinite = true) (finite' : y.isFinite = true)
include finite finite'

theorem lt_iff_real_lt : x < y ↔ real x < real y := by
  have compared := compare_unpack (canonical_unpack x) (canonical_unpack y) finite finite'
  change decide (x.toModel.unpack.lt y.toModel.unpack = true) = true ↔ _
  rw [decide_eq_true_iff, UnpackedFloat.lt, compared, real, real, ← compare_lt_iff_lt]
  cases compare (realOf x.toModel.unpack) (realOf y.toModel.unpack) <;> decide

theorem le_iff_real_le : x ≤ y ↔ real x ≤ real y := by
  have compared := compare_unpack (canonical_unpack x) (canonical_unpack y) finite finite'
  change decide (x.toModel.unpack.le y.toModel.unpack = true) = true ↔ _
  rw [decide_eq_true_iff, UnpackedFloat.le, compared, real, real, ← compare_le_iff_le]
  cases compare (realOf x.toModel.unpack) (realOf y.toModel.unpack) <;> decide

end Order

theorem real_of_unpack {x : Float32} {s : Sign} {m : Nat} {e : Int} {positive : 0 < m}
    (unpacked : x.toModel.unpack = .finite s m e positive) : real x = signed s (m * 2 ^ e) := by
  rw [real, unpacked, realOf]

theorem real_zero : real 0 = 0 := rfl

theorem real_one : real 1 = 1 := by
  rw [real_of_unpack (s := .positive) (m := 2 ^ 23) (e := -23) rfl, signed]
  norm_num

theorem real_two : real 2 = 2 := by
  rw [real_of_unpack (s := .positive) (m := 2 ^ 23) (e := -22) rfl, signed]
  norm_num

theorem real_half : real 0.5 = 1 / 2 := by
  rw [real_of_unpack (s := .positive) (m := 2 ^ 23) (e := -24) rfl, signed]
  norm_num

theorem zero_le_of_not_finite {x : Float32} (infinite : ¬ x.isFinite = true) :
    (0 ≤ x ↔ x.toModel.unpack = .infinity .positive) ∧
      (0 < x ↔ x.toModel.unpack = .infinity .positive) := by
  change ¬ x.toModel.unpack.isFinite = true at infinite
  change (decide (UnpackedFloat.le (.zero .positive) x.toModel.unpack = true) = true ↔ _) ∧
    (decide (UnpackedFloat.lt (.zero .positive) x.toModel.unpack = true) = true ↔ _)
  cases unpacked : x.toModel.unpack with
  | infinity s =>
      cases s <;> simp [UnpackedFloat.le, UnpackedFloat.lt, UnpackedFloat.compare]
  | notANumber => simp [UnpackedFloat.le, UnpackedFloat.lt, UnpackedFloat.compare]
  | zero s => rw [unpacked] at infinite; exact absurd rfl infinite
  | finite s m e positive => rw [unpacked] at infinite; exact absurd rfl infinite

theorem not_finite_of_infinite {x : Float32} {s : Sign} (infinite : x.toModel.unpack = .infinity s) :
    ¬ x.isFinite = true := by
  change ¬ x.toModel.unpack.isFinite = true
  rw [infinite]
  exact nofun

theorem nonneg_iff (x : Float32) :
    0 ≤ x ↔ (x.isFinite = true ∧ 0 ≤ real x) ∨ x.toModel.unpack = .infinity .positive := by
  by_cases finite : x.isFinite = true
  · rw [le_iff_real_le rfl finite, real_zero]
    exact ⟨fun le => Or.inl ⟨finite, le⟩, fun either => either.elim And.right
      fun infinite => absurd finite (not_finite_of_infinite infinite)⟩
  · rw [(zero_le_of_not_finite finite).1]
    exact ⟨Or.inr, fun either => either.resolve_left fun both => finite both.1⟩

theorem pos_iff (x : Float32) :
    0 < x ↔ (x.isFinite = true ∧ 0 < real x) ∨ x.toModel.unpack = .infinity .positive := by
  by_cases finite : x.isFinite = true
  · rw [lt_iff_real_lt rfl finite, real_zero]
    exact ⟨fun less => Or.inl ⟨finite, less⟩, fun either => either.elim And.right
      fun infinite => absurd finite (not_finite_of_infinite infinite)⟩
  · rw [(zero_le_of_not_finite finite).2]
    exact ⟨Or.inr, fun either => either.resolve_left fun both => finite both.1⟩

theorem isSize_iff (x : Float32) : IsSize x ↔ x.isFinite = true ∧ 0 < real x := by
  constructor
  · rintro ⟨finite, positive⟩
    exact ⟨finite, real_zero ▸ (lt_iff_real_lt rfl finite).mp positive⟩
  · rintro ⟨finite, positive⟩
    exact ⟨finite, (lt_iff_real_lt rfl finite).mpr (real_zero ▸ positive)⟩

theorem IsSize.unpack_eq {x : Float32} (size : IsSize x) :
    ∃ m e positive, x.toModel.unpack = .finite .positive m e positive := by
  obtain ⟨finite, above⟩ := (isSize_iff x).mp size
  change x.toModel.unpack.isFinite = true at finite
  rw [real] at above
  cases unpacked : x.toModel.unpack with
  | infinity s => rw [unpacked] at finite; exact nomatch finite
  | notANumber => rw [unpacked] at finite; exact nomatch finite
  | zero s => rw [unpacked] at above; exact absurd above (lt_irrefl 0)
  | finite s m e positive =>
      cases s with
      | positive => exact ⟨m, e, positive, rfl⟩
      | negative =>
          rw [unpacked] at above
          have magnitude : (0 : ℝ) < m * 2 ^ e := by positivity
          have below : realOf (.finite .negative m e positive) = -((m : ℝ) * 2 ^ e) := rfl
          linarith

theorem mul_infinite {x y : Float32} (infinite : x.toModel.unpack = .infinity .positive)
    (size : IsSize y) : (x * y).toModel.unpack = .infinity .positive := by
  obtain ⟨m, e, positive, unpacked⟩ := size.unpack_eq
  change unpack .binary32 (pack .binary32 (mul .binary32 x.toModel.unpack y.toModel.unpack)) = _
  rw [infinite, unpacked]
  exact unpack_packedInfinity .positive

theorem zero_mul_of_isSize {x : Float32} (size : IsSize x) : 0 * x = 0 := by
  obtain ⟨m, e, positive, unpacked⟩ := size.unpack_eq
  change Float32.ofModel (.pack (mul .binary32 (.zero .positive) x.toModel.unpack)) = 0
  rw [unpacked]
  rfl

end Arbor.Number
