import Arbor.Proofs.Number.Single

/-!
# Widening is exact

Every value of single precision is on the grid of double precision, and a format has only one
canonical number for each value of its grid.  So nothing is lost when a value is widened, and when
it is narrowed again it is the value that it was, to the last bit; this is so of infinities and of
the value that is not a number, too.
-/

set_option autoImplicit false

namespace Arbor.Number

open Float.Model (Format UnpackedFloat)
open Float.Model.UnpackedFloat

variable {format : Format}

/-- A format with at least the bits and the exponents of another one has all of its grid. -/
theorem OnGrid.mono {finer : Format} {x : ℝ} (grid : OnGrid format x)
    (bits : format.mantissaBits ≤ finer.mantissaBits)
    (exponents : finer.minExponent ≤ format.minExponent) : OnGrid finer x := by
  obtain ⟨n, t, small, above, rfl⟩ := grid
  exact ⟨n, t, small.trans_le (pow_le_pow_right₀ (by norm_num) bits), exponents.trans above, rfl⟩

theorem IsCanonical.eq_of_mul_eq {m m' : Nat} {e e' : Int} (left : IsCanonical format m e)
    (right : IsCanonical format m' e') (same : (m : ℝ) * 2 ^ e = m' * 2 ^ e') :
    m = m' ∧ e = e' := by
  have compared := left.compare_eq right
  rw [compare_eq_iff_eq.mpr same, Ordering.then_eq_eq] at compared
  exact ⟨compare_eq_iff_eq.mp compared.2, compare_eq_iff_eq.mp compared.1⟩

theorem eq_of_signed_eq {s s' : Sign} {x y : ℝ} (x_positive : 0 < x) (y_positive : 0 < y)
    (same : signed s x = signed s' y) : s = s' ∧ x = y := by
  cases s with
  | positive =>
      cases s' with
      | positive => exact ⟨rfl, same⟩
      | negative =>
          have opposite : x = -y := same
          linarith
  | negative =>
      cases s' with
      | positive =>
          have opposite : -x = y := same
          linarith
      | negative => exact ⟨rfl, neg_injective same⟩

/-- Only finite values stand for numbers other than zero. -/
theorem exists_finite_of_realOf {u : UnpackedFloat} {s : Sign} {x : ℝ} (above : 0 < x)
    (same : realOf u = signed s x) :
    ∃ m e positive, u = .finite s m e positive ∧ (m : ℝ) * 2 ^ e = x := by
  have nonzero : signed s x ≠ 0 := by
    rw [← abs_pos, abs_signed, abs_of_pos above]
    exact above
  cases u with
  | infinity s' => exact absurd same.symm nonzero
  | notANumber => exact absurd same.symm nonzero
  | zero s' => exact absurd same.symm nonzero
  | finite s' m e positive =>
      have magnitude : (0 : ℝ) < m * 2 ^ e := by positivity
      obtain ⟨rfl, x_eq⟩ := eq_of_signed_eq magnitude above same
      exact ⟨m, e, positive, rfl, x_eq⟩

/-- Rounding to a grid keeps what is on it. -/
theorem round_of_onGrid {s : Sign} {m : Nat} {e : Int} (positive : 0 < m)
    (grid : OnGrid format (signed s (m * 2 ^ e))) :
    Canonical format (round format s m e) ∧
      realOf (round format s m e) = signed s (m * 2 ^ e) := by
  have rounded : Rounded format (signed s (m * 2 ^ e)) (round format s m e) :=
    round_rounded positive
  exact ⟨rounded.canonical, rounded.nearest.eq_of_onGrid grid⟩

theorem toModel_widen (x : Float32) : (widen x).toModel.unpack =
    unpack .binary64 (pack .binary64 (nearest .binary64 x.toModel.unpack)) := rfl

theorem unpack_widen {x : Float32} {s : Sign} {m : Nat} {e : Int} {positive : 0 < m}
    (unpacked : x.toModel.unpack = .finite s m e positive) :
    ∃ m' e' positive', (widen x).toModel.unpack = .finite s m' e' positive' ∧
      (m' : ℝ) * 2 ^ e' = m * 2 ^ e := by
  have magnitude : (0 : ℝ) < m * 2 ^ e := by positivity
  have real_eq := real_of_unpack unpacked
  have grid : OnGrid .binary64 (signed s (m * 2 ^ e)) :=
    real_eq ▸ (onGrid_real x).mono (by decide) (by decide)
  obtain ⟨canonical, same⟩ := round_of_onGrid positive grid
  have small : |realOf (round .binary64 s m e)| <
      2 ^ (Format.binary64.mantissaBits + maxExponent .binary64) := by
    rw [same, ← real_eq]
    exact (abs_real_lt x).trans_le (zpow_le_zpow_right₀ one_le_two (by decide))
  have kept : (widen x).toModel.unpack = round .binary64 s m e := by
    rw [toModel_widen, unpacked, nearest, unpack_pack (by decide) canonical,
      canonical.overflow_eq (by decide) small]
  rw [kept]
  exact exists_finite_of_realOf magnitude same

theorem ofModel_pack_unpack (x : Float32) : Float32.ofModel (.pack x.toModel.unpack) = x := by
  obtain ⟨bits, valid⟩ := x
  have packed : UInt32.ofBitVec (pack .binary32 (unpack .binary32 bits.toBitVec)) = bits := by
    rw [pack_unpack (by decide) valid, UInt32.ofBitVec_toBitVec]
  exact congrArg Float32.ofModel (Float32.Model.mk.injEq _ _ _ _ |>.mpr packed)

theorem eq_of_real_eq {x y : Float32} (same : real x = real y) (nonzero : real x ≠ 0) : x = y := by
  have unpacked : ∀ z : Float32, real z ≠ 0 →
      ∃ s m e positive, z.toModel.unpack = .finite s m e positive := by
    intro z z_nonzero
    cases z_unpacked : z.toModel.unpack with
    | infinity s => rw [real, z_unpacked] at z_nonzero; exact absurd rfl z_nonzero
    | notANumber => rw [real, z_unpacked] at z_nonzero; exact absurd rfl z_nonzero
    | zero s => rw [real, z_unpacked] at z_nonzero; exact absurd rfl z_nonzero
    | finite s m e positive => exact ⟨s, m, e, positive, rfl⟩
  obtain ⟨s, m, e, positive, x_eq⟩ := unpacked x nonzero
  obtain ⟨s', m', e', positive', y_eq⟩ := unpacked y (same ▸ nonzero)
  have canonical := canonical_unpack x
  have canonical' := canonical_unpack y
  rw [x_eq] at canonical
  rw [y_eq] at canonical'
  rw [real_of_unpack x_eq, real_of_unpack y_eq] at same
  obtain ⟨rfl, magnitude⟩ := eq_of_signed_eq (by positivity) (by positivity) same
  obtain ⟨rfl, rfl⟩ := canonical.eq_of_mul_eq canonical' magnitude
  rw [← ofModel_pack_unpack x, ← ofModel_pack_unpack y, x_eq, y_eq]

theorem nearest_widen {x : Float32} {s : Sign} {m : Nat} {e : Int} {positive : 0 < m}
    (unpacked : x.toModel.unpack = .finite s m e positive) :
    nearest .binary32 (widen x).toModel.unpack = .finite s m e positive := by
  have canonical := canonical_unpack x
  rw [unpacked] at canonical
  have magnitude : (0 : ℝ) < m * 2 ^ e := by positivity
  obtain ⟨m', e', positive', widened, value⟩ := unpack_widen unpacked
  have grid : OnGrid .binary32 (signed s (m' * 2 ^ e')) := by
    rw [value, ← real_of_unpack unpacked]
    exact onGrid_real x
  obtain ⟨canonical', same⟩ := round_of_onGrid positive' grid
  rw [value] at same
  obtain ⟨m'', e'', positive'', rounded, value'⟩ := exists_finite_of_realOf magnitude same
  rw [widened, nearest]
  rw [rounded] at canonical' ⊢
  obtain ⟨rfl, rfl⟩ := IsCanonical.eq_of_mul_eq canonical' canonical value'
  rfl

theorem narrow_widen (x : Float32) : narrow (widen x) = x := by
  suffices same : nearest .binary32 (widen x).toModel.unpack = x.toModel.unpack by
    rw [narrow, same, ofModel_pack_unpack]
  cases unpacked : x.toModel.unpack with
  | infinity s => simp [toModel_widen, unpacked, nearest, pack]
  | notANumber => simp [toModel_widen, unpacked, nearest, pack]
  | zero s => simp [toModel_widen, unpacked, nearest, pack]
  | finite s m e positive => exact nearest_widen unpacked

end Arbor.Number
