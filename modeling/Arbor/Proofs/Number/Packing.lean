import Mathlib

/-!
# Bits and numbers

A finite number is canonical for a format when its mantissa has all the bits of the format, or fewer
under the least exponent.  What bits stand for is canonical, and packing a canonical number keeps it
unless its exponent is too large, when it becomes an infinity.
-/

set_option autoImplicit false

namespace Arbor.Number

open Float.Model (Format UnpackedFloat)
open Float.Model.UnpackedFloat

structure IsCanonical (format : Format) (m : Nat) (e : Int) : Prop where
  lt : m < 2 ^ format.mantissaBits
  above : format.minExponent ≤ e
  full : 2 ^ format.mantissaBitsWithoutImplicit ≤ m ∨ e = format.minExponent

def Canonical (format : Format) : UnpackedFloat → Prop
  | .finite _ m e _ => IsCanonical format m e
  | _ => True

/-- The largest exponent of a finite number. -/
def maxExponent (format : Format) : Int :=
  format.exponentBias - format.mantissaBitsWithoutImplicit

def overflow (format : Format) : UnpackedFloat → UnpackedFloat
  | .finite s m e positive =>
    if maxExponent format < e then .infinity s else .finite s m e positive
  | u => u

variable {format : Format}

theorem two_pow_exponentBits (format : Format) :
    2 ^ format.exponentBits = 2 * format.exponentBias + 2 := by
  have capacity : 2 ^ format.exponentBits = 2 * 2 ^ (format.exponentBits - 1) := by
    rw [← Nat.pow_succ', Nat.succ_eq_add_one, Nat.sub_add_cancel format.he]
  have positive : 0 < 2 ^ (format.exponentBits - 1) := Nat.two_pow_pos _
  rw [capacity, Format.exponentBias]
  omega

theorem minExponent_eq (format : Format) :
    format.minExponent = 1 - format.exponentBias - format.mantissaBitsWithoutImplicit := by
  have positive : 1 ≤ 2 ^ (format.exponentBits - 1) := Nat.one_le_two_pow
  rw [Format.minExponent, Format.exponentBias, Format.mantissaBits, Nat.cast_sub positive]
  push_cast
  ring

theorem two_pow_mantissaBits (format : Format) :
    2 ^ format.mantissaBits = 2 * 2 ^ format.mantissaBitsWithoutImplicit := by
  rw [Format.mantissaBits, Nat.add_comm, Nat.pow_succ']

theorem allOnes_toNat (format : Format) :
    (-1#_ : BitVec format.exponentBits).toNat = 2 ^ format.exponentBits - 1 := by
  rw [BitVec.neg_one_eq_allOnes, BitVec.toNat_allOnes]

theorem zero_ne_allOnes (format : Format) : (0#_ : BitVec format.exponentBits) ≠ -1#_ := by
  intro same
  have ones := congrArg BitVec.toNat same
  have capacity := two_pow_exponentBits format
  rw [allOnes_toNat, BitVec.toNat_zero] at ones
  omega

/-! ## Unpacking -/

theorem toNat_implicit {bits : Nat} (m : BitVec bits) : (1#1 ++ m).toNat = 2 ^ bits + m.toNat := by
  rw [BitVec.toNat_append, ← Nat.shiftLeft_add_eq_or_of_lt m.isLt]
  simp [Nat.shiftLeft_eq]

/-- The bits of a format stand for canonical numbers with exponents that are not too large. -/
theorem unpack_canonical (wide : 0 < format.exponentBias) (b : BitVec format.numBits) :
    Canonical format (unpack format b) ∧ overflow format (unpack format b) = unpack format b := by
  have capacity := two_pow_exponentBits format
  have double := two_pow_mantissaBits format
  have least := minExponent_eq format
  unfold unpack
  extract_lets mantissa exponent e signBit sign
  have mantissa_lt := mantissa.isLt
  split
  · split
    · exact ⟨trivial, rfl⟩
    · exact ⟨trivial, rfl⟩
  · next notOnes =>
      split
      · next zero =>
          split
          · exact ⟨trivial, rfl⟩
          · have e_eq : e + 1 = format.minExponent := by
              simp only [e, zero, BitVec.toNat_zero, least]
              omega
            refine ⟨⟨by omega, e_eq.ge, Or.inr e_eq⟩, ?_⟩
            rw [overflow, if_neg]
            rw [maxExponent, e_eq, least]
            omega
      · next notZero =>
          have positive : 0 < exponent.toNat := by
            rw [Nat.pos_iff_ne_zero]
            exact fun zero => notZero (BitVec.eq_of_toNat_eq zero)
          have below : exponent.toNat < 2 ^ format.exponentBits - 1 := by
            have fits := exponent.isLt
            have different : exponent.toNat ≠ 2 ^ format.exponentBits - 1 := fun ones =>
              notOnes (BitVec.eq_of_toNat_eq (ones.trans (allOnes_toNat format).symm))
            omega
          refine ⟨⟨?_, ?_, Or.inl ?_⟩, ?_⟩
          · rw [toNat_implicit]
            omega
          · simp only [e, least]
            omega
          · rw [toNat_implicit]
            omega
          · rw [overflow, if_neg]
            simp only [e, maxExponent]
            omega

/-! ## Packing -/

@[simp] theorem unpack_packedInfinity (s : Sign) :
    unpack format (packedInfinity format s) = .infinity s := by
  simp [unpack, packedInfinity]

theorem log2_of_full {m : Nat} (full : 2 ^ format.mantissaBitsWithoutImplicit ≤ m)
    (lt : m < 2 ^ format.mantissaBits) : m.log2 + 1 = format.mantissaBits := by
  have above : 0 < 2 ^ format.mantissaBitsWithoutImplicit := by positivity
  have some_bits : m ≠ 0 := by omega
  have lower := (Nat.le_log2 some_bits).mpr full
  have upper := (Nat.log2_lt some_bits).mpr lt
  rw [Format.mantissaBits] at upper ⊢
  omega

theorem log2_of_small {m : Nat} (positive : 0 < m)
    (small : m < 2 ^ format.mantissaBitsWithoutImplicit) : m.log2 + 1 ≠ format.mantissaBits := by
  have upper := (Nat.log2_lt positive.ne').mpr small
  rw [Format.mantissaBits]
  omega

theorem unpack_pack_normal {s : Sign} {m : Nat} {e : Int} (canonical : IsCanonical format m e)
    (full : 2 ^ format.mantissaBitsWithoutImplicit ≤ m) (le : e ≤ maxExponent format)
    (positive : 0 < m) :
    unpack format (pack format (.finite s m e positive)) = .finite s m e positive := by
  have capacity := two_pow_exponentBits format
  have double := two_pow_mantissaBits format
  have least := minExponent_eq format
  have above := canonical.above
  have lt := canonical.lt
  rw [maxExponent] at le
  obtain ⟨b, b_eq⟩ : ∃ b : Nat,
      (b : Int) = e + format.exponentBias + format.mantissaBitsWithoutImplicit :=
    ⟨_, Int.toNat_of_nonneg (by omega)⟩
  have biased : (e + format.exponentBias + format.mantissaBitsWithoutImplicit).toNat = b := by omega
  have bits := log2_of_full full lt
  have exponent : (BitVec.ofNat format.exponentBits b).toNat = b := by
    rw [BitVec.toNat_ofNat, Nat.mod_eq_of_lt (by omega)]
  have notOnes : BitVec.ofNat format.exponentBits b ≠ -1#_ := by
    intro same
    have ones := congrArg BitVec.toNat same
    rw [exponent, allOnes_toNat] at ones
    omega
  have notZero : BitVec.ofNat format.exponentBits b ≠ 0#_ := by
    intro same
    have zero := congrArg BitVec.toNat same
    rw [exponent, BitVec.toNat_zero] at zero
    omega
  have mantissa : (1#1 ++ BitVec.ofNat format.mantissaBitsWithoutImplicit m).toNat = m := by
    have quotient : m / 2 ^ format.mantissaBitsWithoutImplicit = 1 :=
      Nat.div_eq_of_lt_le (by omega) (by omega)
    have split := Nat.mod_add_div m (2 ^ format.mantissaBitsWithoutImplicit)
    rw [quotient] at split
    rw [toNat_implicit, BitVec.toNat_ofNat]
    omega
  simp only [pack, biased]
  rw [if_neg (by omega), if_pos bits]
  simp only [unpack, unpackMantissa_packComponents, unpackExponent_packComponents,
    unpackSign_packComponents, Sign.ofBitVec_toBitVec, if_neg notOnes, if_neg notZero, mantissa,
    exponent]
  congr 1
  omega

theorem unpack_pack_subnormal (wide : 0 < format.exponentBias) {s : Sign} {m : Nat}
    (small : m < 2 ^ format.mantissaBitsWithoutImplicit) (positive : 0 < m) :
    unpack format (pack format (.finite s m format.minExponent positive)) =
      .finite s m format.minExponent positive := by
  have capacity := two_pow_exponentBits format
  have least := minExponent_eq format
  have bits := log2_of_small positive small
  have mantissa : (BitVec.ofNat format.mantissaBitsWithoutImplicit m).toNat = m := by
    rw [BitVec.toNat_ofNat, Nat.mod_eq_of_lt small]
  have notZero : BitVec.ofNat format.mantissaBitsWithoutImplicit m ≠ 0#_ := by
    intro same
    have zero := congrArg BitVec.toNat same
    rw [mantissa, BitVec.toNat_zero] at zero
    omega
  simp only [pack]
  rw [if_neg (by omega), if_neg bits]
  simp only [unpack, unpackMantissa_packComponents, unpackExponent_packComponents,
    unpackSign_packComponents, Sign.ofBitVec_toBitVec, if_neg (zero_ne_allOnes format),
    dif_neg notZero, mantissa, if_true, BitVec.toNat_zero]
  congr 1
  omega

theorem unpack_pack (wide : 0 < format.exponentBias) {u : UnpackedFloat}
    (canonical : Canonical format u) :
    unpack format (pack format u) = overflow format u := by
  cases u with
  | infinity s => exact unpack_packedInfinity s
  | notANumber => exact unpack_packedNaN
  | zero s => exact unpack_packedZero
  | finite s m e positive =>
      rcases lt_or_ge (maxExponent format) e with large | le
      · have capacity := two_pow_exponentBits format
        rw [overflow, if_pos large]
        rw [maxExponent] at large
        simp only [pack]
        rw [if_pos (by omega)]
        exact unpack_packedInfinity s
      · rw [overflow, if_neg (not_lt.mpr le)]
        rcases le_or_gt (2 ^ format.mantissaBitsWithoutImplicit) m with full | small
        · exact unpack_pack_normal canonical full le positive
        · obtain rfl := canonical.full.resolve_left (not_le.mpr small)
          exact unpack_pack_subnormal wide small positive

/-! ## Packing what was unpacked -/

theorem toBitVec_ofBitVec (s : BitVec 1) : (Sign.ofBitVec s).toBitVec = s := by
  revert s
  decide

theorem packComponents_unpack (b : BitVec format.numBits) :
    packComponents format (Sign.ofBitVec (unpackSign b)) (unpackExponent b) (unpackMantissa b) =
      b := by
  rw [packComponents, toBitVec_ofBitVec]
  apply BitVec.eq_of_getLsbD_eq
  intro i inside
  have inside : i < 1 + format.exponentBits + format.mantissaBitsWithoutImplicit := inside
  rcases Nat.lt_or_ge i format.mantissaBitsWithoutImplicit with low | above
  · simp [BitVec.getLsbD_append, unpackMantissa, low]
  · obtain ⟨j, rfl⟩ := Nat.exists_eq_add_of_le above
    rcases Nat.lt_or_ge j format.exponentBits with middle | top
    · simp [BitVec.getLsbD_append, unpackExponent, middle]
    · obtain rfl : j = format.exponentBits := by omega
      simp [BitVec.getLsbD_append, BitVec.getElem_append, unpackSign]

theorem ofNat_toNat_implicit {bits : Nat} (m : BitVec bits) :
    BitVec.ofNat bits (1#1 ++ m).toNat = m := by
  apply BitVec.eq_of_toNat_eq
  rw [toNat_implicit, BitVec.toNat_ofNat, Nat.add_mod_left, Nat.mod_eq_of_lt m.isLt]

theorem pack_normal {s : Sign} {exponent : BitVec format.exponentBits}
    {m : BitVec format.mantissaBitsWithoutImplicit} {e : Int} {positive : 0 < (1#1 ++ m).toNat}
    (notOnes : exponent ≠ -1#_)
    (biased : e + format.exponentBias + format.mantissaBitsWithoutImplicit = exponent.toNat) :
    pack format (.finite s (1#1 ++ m).toNat e positive) = packComponents format s exponent m := by
  have double := two_pow_mantissaBits format
  have below : exponent.toNat ≠ 2 ^ format.exponentBits - 1 := fun ones =>
    notOnes (BitVec.eq_of_toNat_eq (ones.trans (allOnes_toNat format).symm))
  have full : (1#1 ++ m).toNat.log2 + 1 = format.mantissaBits := by
    have m_lt := m.isLt
    apply log2_of_full <;> rw [toNat_implicit] <;> omega
  simp only [pack, biased, Int.toNat_natCast]
  rw [if_neg (by omega), if_pos full, ofNat_toNat_implicit, BitVec.ofNat_toNat, BitVec.setWidth_eq]

theorem pack_subnormal (wide : 0 < format.exponentBias) {s : Sign}
    {m : BitVec format.mantissaBitsWithoutImplicit} {e : Int} {positive : 0 < m.toNat}
    (biased : e + format.exponentBias + format.mantissaBitsWithoutImplicit = 1) :
    pack format (.finite s m.toNat e positive) = packComponents format s (0#_) m := by
  have capacity := two_pow_exponentBits format
  simp only [pack, biased]
  rw [if_neg (by omega), if_neg (log2_of_small positive m.isLt), BitVec.ofNat_toNat,
    BitVec.setWidth_eq]

/-- What bits stand for is packed into these bits. -/
theorem pack_unpack (wide : 0 < format.exponentBias) {b : BitVec format.numBits}
    (valid : format.Valid b) : pack format (unpack format b) = b := by
  have parts := packComponents_unpack b
  unfold unpack
  extract_lets mantissa exponent e signBit sign
  change packComponents format sign exponent mantissa = b at parts
  split
  · next ones =>
      split
      · next none =>
          rw [ones, none] at parts
          exact parts
      · next some_bits => exact (valid.eq_packedNaN ones some_bits).symm
  · next notOnes =>
      split
      · next zero =>
          rw [zero] at parts
          split
          · next none =>
              rw [none] at parts
              exact parts
          · next some_bits =>
              have biased : e + 1 + format.exponentBias + format.mantissaBitsWithoutImplicit =
                  1 := by
                simp only [e, zero, BitVec.toNat_zero]
                omega
              rw [pack_subnormal wide biased, parts]
      · next notZero =>
          have biased : e + format.exponentBias + format.mantissaBitsWithoutImplicit =
              exponent.toNat := by
            simp only [e]
            omega
          rw [pack_normal notOnes biased, parts]

end Arbor.Number
