import Arbor.Proofs.Number.Rounding

/-!
# Quotients and decimals round to the nearest

A quotient is divided out to all the bits of the format, and what is left of the division says where
the exact quotient lies.  A whole number times a power of ten is rounded as a product.
-/

set_option autoImplicit false

namespace Arbor.Number

open Float.Model (Format UnpackedFloat totalExponent)
open Float.Model.UnpackedFloat

variable {format : Format}

/-! ## Quotients -/

theorem represents_rest (q : ℕ) {r d : ℕ} (less : r < d) :
    Represents (.ofMantissaAndAccuracy q (accuracyOfFraction r d)) (q + r / d : ℝ) := by
  have unit : (0 : ℝ) < d := by exact_mod_cast (Nat.zero_le r).trans_lt less
  rw [accuracyOfFraction]
  split
  · next none =>
      rw [none, Nat.cast_zero, zero_div, add_zero]
      exact represents_exact q
  · next some_rest =>
      have above : 0 < (r : ℝ) / d := div_pos (by exact_mod_cast Nat.pos_of_ne_zero some_rest) unit
      have below : (r : ℝ) / d < 1 := (div_lt_one unit).mpr (by exact_mod_cast less)
      rcases lt_trichotomy (2 * r) d with low | middle | high
      · rw [compare_lt_iff_lt.mpr low]
        have cast : (2 : ℝ) * r < d := by exact_mod_cast low
        have half : (r : ℝ) / d < 1 / 2 := by
          rw [div_lt_iff₀ unit]
          linarith
        exact ⟨lt_add_of_pos_right _ above, add_lt_add_right half _⟩
      · rw [compare_eq_iff_eq.mpr middle]
        have cast : (2 : ℝ) * r = d := by exact_mod_cast middle
        have half : (r : ℝ) / d = 1 / 2 := by
          rw [div_eq_iff unit.ne']
          linarith
        exact congrArg _ half
      · rw [compare_gt_iff_gt.mpr high]
        have cast : (d : ℝ) < 2 * r := by exact_mod_cast high
        have half : 1 / 2 < (r : ℝ) / d := by
          rw [lt_div_iff₀ unit]
          linarith
        exact ⟨add_lt_add_right half _, add_lt_add_right below _⟩

theorem signed_div (s s' : Sign) (x y : ℝ) : signed s x / signed s' y = signed (s / s') (x / y) := by
  cases s with
  | negative =>
      cases s' with
      | negative => exact neg_div_neg_eq x y
      | positive => exact neg_div y x
  | positive =>
      cases s' with
      | negative => exact div_neg x
      | positive => rfl

theorem divided (m : ℕ) {d : ℕ} (positive : 0 < d) :
    ((m / d : ℕ) + (m % d : ℕ) / d : ℝ) = m / d := by
  have unit : (d : ℝ) ≠ 0 := by exact_mod_cast positive.ne'
  have parts : (d * (m / d : ℕ) + (m % d : ℕ) : ℝ) = m := by exact_mod_cast Nat.div_add_mod m d
  rw [← parts, add_div, mul_div_cancel_left₀ _ unit]

/-- The dividend is moved up so far that the quotient has at least the bits of the format. -/
theorem le_targetExponent_div {m m' : ℕ} {e e' t : ℤ} (positive : 0 < m) (positive' : 0 < m')
    (t_eq : t = min (e - e') (format.targetExponent (totalExponent m e - totalExponent m' e'))) :
    t ≤ format.targetExponent (totalExponent ((m <<< (e - e' - t).toNat) / m') t) := by
  rw [Format.targetExponent, totalExponent, totalExponent] at t_eq
  rw [Format.targetExponent, totalExponent]
  rcases le_or_gt t format.minExponent with least | above
  · exact least.trans (le_max_right _ _)
  · have bits : format.mantissaBits = 1 + format.mantissaBitsWithoutImplicit := rfl
    obtain ⟨k, k_eq⟩ : ∃ k, k = (e - e' - t).toNat := ⟨_, rfl⟩
    have shift : format.mantissaBits + m'.log2 ≤ m.log2 + k := by omega
    have full : 2 ^ (format.mantissaBits - 1) ≤ (m <<< k) / m' := by
      rw [Nat.le_div_iff_mul_le positive', Nat.shiftLeft_eq]
      calc 2 ^ (format.mantissaBits - 1) * m'
          ≤ 2 ^ (format.mantissaBits - 1) * 2 ^ (m'.log2 + 1) :=
            Nat.mul_le_mul_left _ Nat.lt_log2_self.le
        _ = 2 ^ (format.mantissaBits + m'.log2) := by
            rw [← Nat.pow_add]
            congr 1
            omega
        _ ≤ 2 ^ (m.log2 + k) := Nat.pow_le_pow_right two_pos shift
        _ = 2 ^ m.log2 * 2 ^ k := Nat.pow_add ..
        _ ≤ m * 2 ^ k := Nat.mul_le_mul_right _ (Nat.log2_self_le positive.ne')
    have digits := (Nat.le_log2 (by
      have := Nat.two_pow_pos (format.mantissaBits - 1)
      omega)).mpr full
    rw [← k_eq]
    omega

theorem div_rounded {a b : UnpackedFloat} (finite : a.isFinite = true) (finite' : b.isFinite = true)
    (nonzero : realOf b ≠ 0) : Rounded format (realOf a / realOf b) (div format a b) := by
  cases b with
  | infinity s' => exact nomatch finite'
  | notANumber => exact nomatch finite'
  | zero s' => exact absurd rfl nonzero
  | finite s' m' e' positive' =>
      cases a with
      | infinity s => exact nomatch finite
      | notANumber => exact nomatch finite
      | zero s =>
          have none : realOf (.zero s) = 0 := rfl
          rw [none, zero_div]
          exact rounded_zero _
      | finite s m e positive =>
          obtain ⟨t, t_eq⟩ : ∃ t, t = min (e - e') (format.targetExponent
            (totalExponent m e - totalExponent m' e')) := ⟨_, rfl⟩
          obtain ⟨k, k_eq⟩ : ∃ k, k = (e - e' - t).toNat := ⟨_, rfl⟩
          have core : divCore format m e m' e' =
              ((m <<< k) / m', t, accuracyOfFraction ((m <<< k) % m') m') := by
            rw [divCore, k_eq, t_eq]
          have place := le_targetExponent_div positive positive' t_eq
          rw [← k_eq] at place
          have rounded := (roundWithAccuracy_rounded (s := s / s')
            (represents_rest ((m <<< k) / m') (Nat.mod_lt (m <<< k) positive')) place).1
          have quotient : realOf (.finite s m e positive) / realOf (.finite s' m' e' positive') =
              signed (s / s') (((m <<< k / m' : ℕ) + (m <<< k % m' : ℕ) / m' : ℝ) * 2 ^ t) := by
            rw [realOf, realOf, signed_div, divided _ positive', Nat.shiftLeft_eq]
            have units : e - e' = k + t := by omega
            rw [mul_div_mul_comm, ← zpow_sub₀ two_ne_zero, units, zpow_add₀ two_ne_zero, zpow_natCast]
            push_cast
            ring_nf
          rw [quotient, div, core]
          exact rounded

/-! ## Decimals -/

theorem ofScientific_rounded {m : ℕ} (positive : 0 < m) {k : ℕ}
    (small : k ≤ 2 ^ format.exponentBits) :
    Rounded format (m * 10 ^ k) (ofScientific format m k) := by
  have least := minExponent_nonpos format
  have product : 0 < m * 10 ^ k := by positivity
  have bits : 1 ≤ format.mantissaBits := Nat.le_add_right 1 _
  -- There are more places in front than the format has bits.
  have place : -(format.mantissaBits : ℤ) + 0 ≤ format.targetExponent
      (totalExponent (m <<< format.mantissaBits * 10 ^ k) (-format.mantissaBits + 0)) := by
    have digits : format.mantissaBits ≤ (m <<< format.mantissaBits * 10 ^ k).log2 := by
      rw [Nat.le_log2 (by rw [Nat.shiftLeft_eq]; positivity), Nat.shiftLeft_eq, mul_right_comm]
      exact Nat.le_mul_of_pos_left _ product
    rw [Format.targetExponent, totalExponent]
    omega
  have rounded := (roundWithAccuracy_rounded (s := Sign.positive * Sign.positive)
    (represents_exact _) place).1
  have exact_product : signed (Sign.positive * Sign.positive)
      ((m <<< format.mantissaBits * 10 ^ k : ℕ) * 2 ^ (-(format.mantissaBits : ℤ) + 0)) =
        (m : ℝ) * 10 ^ k := by
    rw [Nat.shiftLeft_eq, add_zero, zpow_neg, zpow_natCast]
    change ((m * 2 ^ format.mantissaBits * 10 ^ k : ℕ) : ℝ) * _ = _
    push_cast
    field_simp
  rw [exact_product] at rounded
  have bound : (k : ℤ) ≤ 2 ^ format.exponentBits := by exact_mod_cast small
  rw [ofScientific, dif_neg positive.ne', if_neg (by omega), if_neg (by omega), if_pos (by omega)]
  exact rounded

end Arbor.Number
