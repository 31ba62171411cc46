import Arbor.Proofs.Number.Nearest
import Arbor.Proofs.Number.Packing

/-!
# Rounding is to the nearest

The residual bits of a mantissa say where the exact value lies between two neighbours, and shifting
keeps them true.  So whatever is rounded, by a product, a sum or a truncated series, becomes a value
of the format that is nearest to it, unless its exponent is too large.
-/

set_option autoImplicit false

namespace Arbor.Number

open Float.Model (Format UnpackedFloat totalExponent)
open Float.Model.UnpackedFloat

/-! ## Residual bits -/

/-- The number `x` lies where the residual bits say. -/
def Represents (em : ExtendedMantissa) (x : ℝ) : Prop :=
  match em.roundBit, em.stickyBit with
  | false, false => x = em.mantissa
  | false, true => em.mantissa < x ∧ x < em.mantissa + 1 / 2
  | true, false => x = em.mantissa + 1 / 2
  | true, true => em.mantissa + 1 / 2 < x ∧ x < em.mantissa + 1

theorem represents_exact (m : Nat) : Represents (.ofMantissaAndAccuracy m .exact) m := rfl

namespace Represents

variable {em : ExtendedMantissa} {x : ℝ}

theorem le (represents : Represents em x) : em.mantissa ≤ x := by
  unfold Represents at represents
  split at represents <;> linarith

theorem lt (represents : Represents em x) : x < em.mantissa + 1 := by
  unfold Represents at represents
  split at represents <;> linarith

theorem close (represents : Represents em x) : |em.roundedMantissa - x| ≤ 1 / 2 := by
  obtain ⟨m, roundBit, stickyBit⟩ := em
  rw [abs_le]
  cases roundBit with
  | false =>
      cases stickyBit with
      | false =>
          obtain rfl : x = m := represents
          simp [ExtendedMantissa.roundedMantissa, ExtendedMantissa.accuracy,
            Accuracy.roundToNearestEven]
      | true =>
          obtain ⟨low, high⟩ : (m : ℝ) < x ∧ x < m + 1 / 2 := represents
          simp only [ExtendedMantissa.roundedMantissa, ExtendedMantissa.accuracy,
            Accuracy.roundToNearestEven]
          constructor <;> linarith
  | true =>
      cases stickyBit with
      | false =>
          obtain rfl : x = m + 1 / 2 := represents
          have parity : (m % 2 : Nat) = 0 ∨ (m % 2 : Nat) = 1 := by omega
          simp only [ExtendedMantissa.roundedMantissa, ExtendedMantissa.accuracy,
            Accuracy.roundToNearestEven]
          rcases parity with even | odd
          · rw [even]
            push_cast
            constructor <;> linarith
          · rw [odd]
            push_cast
            constructor <;> linarith
      | true =>
          obtain ⟨low, high⟩ : (m : ℝ) + 1 / 2 < x ∧ x < m + 1 := represents
          simp only [ExtendedMantissa.roundedMantissa, ExtendedMantissa.accuracy,
            Accuracy.roundToNearestEven]
          push_cast
          constructor <;> linarith

theorem roundedMantissa_le (represents : Represents em x) {n : Nat} (le : x ≤ n) :
    em.roundedMantissa ≤ n := by
  have close := (abs_le.mp represents.close).2
  have below : (em.roundedMantissa : ℝ) < (n + 1 : Nat) := by
    push_cast
    linarith
  exact Nat.lt_add_one_iff.mp (by exact_mod_cast below)

theorem le_roundedMantissa (represents : Represents em x) {n : Nat} (le : n ≤ x) :
    n ≤ em.roundedMantissa := by
  have close := (abs_le.mp represents.close).1
  have below : (n : ℝ) < (em.roundedMantissa + 1 : Nat) := by
    push_cast
    linarith
  exact Nat.lt_add_one_iff.mp (by exact_mod_cast below)

theorem shiftRightOne (represents : Represents em x) : Represents em.shiftRightOne (x / 2) := by
  obtain ⟨m, roundBit, stickyBit⟩ := em
  obtain ⟨half, even | odd⟩ : ∃ half, m = 2 * half ∨ m = 2 * half + 1 := ⟨m / 2, by omega⟩
  · have quotient : m / 2 = half := by omega
    have rest : m % 2 = 0 := by omega
    cases roundBit <;> cases stickyBit <;>
      simp_all [Represents, ExtendedMantissa.shiftRightOne] <;> grind
  · have quotient : m / 2 = half := by omega
    have rest : m % 2 = 1 := by omega
    cases roundBit <;> cases stickyBit <;>
      simp_all [Represents, ExtendedMantissa.shiftRightOne] <;> grind

theorem shiftRight (represents : Represents em x) (n : Nat) :
    Represents (em >>> n) (x / 2 ^ n) := by
  change Represents (n.repeat ExtendedMantissa.shiftRightOne em) (x / 2 ^ n)
  induction n with
  | zero =>
      rw [pow_zero, div_one]
      exact represents
  | succ n ih =>
      rw [pow_succ, ← div_div]
      exact ih.shiftRightOne

end Represents

/-! ## The number that a float stands for -/

def signed (s : Sign) (x : ℝ) : ℝ :=
  match s with
  | .negative => -x
  | .positive => x

/-- The number that a finite float stands for.  The others stand for none and get zero. -/
noncomputable def realOf : UnpackedFloat → ℝ
  | .finite s m e _ => signed s (m * 2 ^ e)
  | _ => 0

/-- A finite canonical float that is nearest to a number. -/
structure Rounded (format : Format) (v : ℝ) (u : UnpackedFloat) : Prop where
  isFinite : u.isFinite = true
  canonical : Canonical format u
  nearest : Nearest format v (realOf u)

theorem abs_signed (s : Sign) (x : ℝ) : |signed s x| = |x| := by
  cases s with
  | negative => exact abs_neg x
  | positive => rfl

theorem signed_mul (s s' : Sign) (x y : ℝ) : signed s x * signed s' y = signed (s * s') (x * y) := by
  cases s with
  | negative =>
      cases s' with
      | negative => exact neg_mul_neg x y
      | positive => exact neg_mul x y
  | positive =>
      cases s' with
      | negative => exact mul_neg x y
      | positive => rfl

theorem signed_neg (s : Sign) (x : ℝ) : signed (-s) x = -signed s x := by
  cases s with
  | negative => exact (neg_neg x).symm
  | positive => rfl

theorem cast_apply (s : Sign) (n : Int) : ((s.apply n : Int) : ℝ) = signed s n := by
  cases s with
  | negative => exact Int.cast_neg n
  | positive => rfl

variable {format : Format}

theorem Nearest.signed {v w : ℝ} (nearest : Nearest format v w) (s : Sign) :
    Nearest format (signed s v) (signed s w) := by
  cases s with
  | negative => exact nearest.neg
  | positive => exact nearest

theorem nearest_of_onGrid {v : ℝ} (grid : OnGrid format v) : Nearest format v v where
  grid := grid
  closest := by
    intro g _
    rw [sub_self, abs_zero]
    exact abs_nonneg _

theorem Canonical.onGrid {u : UnpackedFloat} (canonical : Canonical format u) :
    OnGrid format (realOf u) := by
  cases u with
  | finite s m e positive =>
      have magnitude : OnGrid format (m * 2 ^ e) := by
        refine ⟨m, e, ?_, canonical.above, by rw [Int.cast_natCast]⟩
        have := canonical.lt
        rw [Nat.abs_cast]
        exact_mod_cast this
      exact ((nearest_of_onGrid magnitude).signed s).grid
  | infinity s => exact onGrid_zero
  | notANumber => exact onGrid_zero
  | zero s => exact onGrid_zero

theorem Canonical.rounded {u : UnpackedFloat} (canonical : Canonical format u)
    (isFinite : u.isFinite = true) : Rounded format (realOf u) u :=
  ⟨isFinite, canonical, nearest_of_onGrid canonical.onGrid⟩

theorem rounded_zero (s : Sign) : Rounded format 0 (.zero s) :=
  Canonical.rounded (u := .zero s) trivial rfl

/-! ## Rounding -/

theorem shiftToExponent_eq {m : Nat} {e t : Int} {acc : Accuracy} (le : e ≤ t) :
    shiftToExponent m e acc t = (ExtendedMantissa.ofMantissaAndAccuracy m acc >>> (t - e).toNat, t) := by
  rw [shiftToExponent]
  congr 1
  omega

theorem shiftToExponent_of_le {m : Nat} {e t : Int} (le : t ≤ e) :
    shiftToExponent m e .exact t = (⟨m, false, false⟩, e) := by
  have none : (t - e).toNat = 0 := by omega
  rw [shiftToExponent, none]
  congr 1
  omega

/-- A rounded mantissa of at most one bit too many is shifted into its place. -/
theorem shift_again {r : Nat} {t : Int} (above : format.minExponent ≤ t)
    (bounded : r ≤ 2 ^ format.mantissaBits)
    (full : 2 ^ format.mantissaBitsWithoutImplicit ≤ r ∨ t = format.minExponent) :
    ∃ (m : Nat) (e : Int) (residue : Bool × Bool),
      shiftToTargetExponent format r t .exact = (⟨m, residue.1, residue.2⟩, e) ∧
        (m : ℝ) * 2 ^ e = r * 2 ^ t ∧ IsCanonical format m e := by
  have double := two_pow_mantissaBits format
  have bits : format.mantissaBits = 1 + format.mantissaBitsWithoutImplicit := rfl
  rcases Nat.lt_or_eq_of_le bounded with less | rfl
  · refine ⟨r, t, (false, false), ?_, rfl, less, above, full⟩
    have small : r.log2 + 1 ≤ format.mantissaBits := by
      rcases Nat.eq_zero_or_pos r with rfl | positive
      · rw [Nat.log2_zero]
        omega
      · exact (Nat.log2_lt positive.ne').mpr less
    apply shiftToExponent_of_le
    rw [Format.targetExponent, totalExponent]
    omega
  · refine ⟨2 ^ format.mantissaBits / 2, t + 1, (2 ^ format.mantissaBits % 2 != 0, false), ?_, ?_, ?_⟩
    · have target : format.targetExponent (totalExponent (2 ^ format.mantissaBits) t) = t + 1 := by
        rw [Format.targetExponent, totalExponent, Nat.log2_two_pow]
        omega
      rw [shiftToTargetExponent, target, shiftToExponent_eq (by omega), add_sub_cancel_left]
      rfl
    · have half : 2 ^ format.mantissaBits / 2 = 2 ^ format.mantissaBitsWithoutImplicit := by omega
      rw [half, double, zpow_add_one₀ two_ne_zero]
      push_cast
      ring
    · refine ⟨?_, by omega, Or.inl (by omega)⟩
      have positive : 0 < 2 ^ format.mantissaBitsWithoutImplicit := Nat.two_pow_pos _
      omega

/-- The exponent that the format has for a number leaves it just the bits of the format. -/
theorem target_bounds {m : Nat} {e t : Int} {x : ℝ} (low : m ≤ x) (high : x < m + 1)
    (t_eq : t = format.targetExponent (totalExponent m e)) (le : e ≤ t) :
    x / 2 ^ (t - e).toNat < 2 ^ format.mantissaBits ∧
      (t = format.minExponent ∨ 2 ^ format.mantissaBitsWithoutImplicit ≤ x / 2 ^ (t - e).toNat) := by
  have unit : (0 : ℝ) < 2 ^ (t - e).toNat := by positivity
  rw [Format.targetExponent, totalExponent] at t_eq
  have bits : format.mantissaBits = 1 + format.mantissaBitsWithoutImplicit := rfl
  constructor
  · rw [div_lt_iff₀ unit, ← pow_add]
    have digits : m + 1 ≤ 2 ^ (m.log2 + 1) := Nat.lt_log2_self
    have order : 2 ^ (m.log2 + 1) ≤ 2 ^ (format.mantissaBits + (t - e).toNat) :=
      Nat.pow_le_pow_right two_pos (by omega)
    have cast : ((m + 1 : Nat) : ℝ) ≤ (2 ^ (format.mantissaBits + (t - e).toNat) : Nat) := by
      exact_mod_cast digits.trans order
    push_cast at cast
    linarith
  · by_cases least : t = format.minExponent
    · exact Or.inl least
    · right
      rw [le_div_iff₀ unit, ← pow_add]
      have some_bits : m ≠ 0 := by
        rintro rfl
        have hm := format.hm
        rw [Nat.log2_zero] at t_eq
        omega
      have digits : 2 ^ m.log2 ≤ m := Nat.log2_self_le some_bits
      have exponent : format.mantissaBitsWithoutImplicit + (t - e).toNat = m.log2 := by omega
      have cast : ((2 ^ m.log2 : Nat) : ℝ) ≤ m := by exact_mod_cast digits
      rw [exponent]
      push_cast at cast
      linarith

theorem shiftToTargetExponent_spec {m : Nat} {e : Int} {acc : Accuracy} {x : ℝ}
    (represents : Represents (.ofMantissaAndAccuracy m acc) x)
    (le : e ≤ format.targetExponent (totalExponent m e)) :
    ∃ (em : ExtendedMantissa) (t : Int) (y : ℝ),
      shiftToTargetExponent format m e acc = (em, t) ∧ Represents em y ∧
        y * 2 ^ t = x * 2 ^ e ∧ format.minExponent ≤ t ∧ y < 2 ^ format.mantissaBits ∧
        (t = format.minExponent ∨ 2 ^ format.mantissaBitsWithoutImplicit ≤ y) := by
  obtain ⟨t, t_eq⟩ : ∃ t, t = format.targetExponent (totalExponent m e) := ⟨_, rfl⟩
  have mantissa : (ExtendedMantissa.ofMantissaAndAccuracy m acc).mantissa = m := by
    unfold ExtendedMantissa.ofMantissaAndAccuracy
    split <;> rfl
  have low := represents.le
  have high := represents.lt
  rw [mantissa] at low high
  rw [← t_eq] at le
  obtain ⟨less, fits⟩ := target_bounds low high t_eq le
  refine ⟨_, t, _, ?_, represents.shiftRight (t - e).toNat, ?_, ?_, less, fits⟩
  · rw [shiftToTargetExponent, ← t_eq, shiftToExponent_eq le]
  · have split : (2 : ℝ) ^ t = 2 ^ (t - e).toNat * 2 ^ e := by
      rw [← zpow_natCast, ← zpow_add₀ two_ne_zero]
      congr 1
      omega
    rw [split, ← mul_assoc, div_mul_cancel₀ _ (by positivity)]
  · rw [t_eq, Format.targetExponent]
    exact le_max_right _ _

/-- Rounding gives a nearest value, when bits are only dropped. -/
theorem roundWithAccuracy_rounded {s : Sign} {m : Nat} {e : Int} {acc : Accuracy} {x : ℝ}
    (represents : Represents (.ofMantissaAndAccuracy m acc) x)
    (le : e ≤ format.targetExponent (totalExponent m e)) :
    Rounded format (signed s (x * 2 ^ e)) (roundWithAccuracy format s m e acc) ∧
      (roundWithAccuracy format s m e acc = .zero s ∨ ∃ m' e' positive,
        roundWithAccuracy format s m e acc = .finite s m' e' positive) := by
  obtain ⟨em, t, y, first, shifted, exact_value, above, less, fits⟩ :=
    shiftToTargetExponent_spec represents le
  have bounded : em.roundedMantissa ≤ 2 ^ format.mantissaBits :=
    shifted.roundedMantissa_le (by push_cast; exact less.le)
  have full : 2 ^ format.mantissaBitsWithoutImplicit ≤ em.roundedMantissa ∨
      t = format.minExponent := by
    rcases fits with least | many
    · exact Or.inr least
    · exact Or.inl (shifted.le_roundedMantissa (by push_cast; exact many))
  obtain ⟨m', e', residue, second, same, canonical⟩ := shift_again above bounded full
  have nearest : Nearest format (x * 2 ^ e) (m' * 2 ^ e') := by
    have bits : format.mantissaBits - 1 = format.mantissaBitsWithoutImplicit :=
      Nat.add_sub_cancel_left ..
    have rounded : Nearest format (y * 2 ^ t) ((em.roundedMantissa : Int) * 2 ^ t) :=
      nearest_of_units above
      (by rw [Nat.abs_cast]; exact_mod_cast bounded) (by rw [Int.cast_natCast]; exact shifted.close)
      (fits.imp_right fun many => bits ▸ many.trans (le_abs_self y))
    rwa [exact_value, Int.cast_natCast, ← same] at rounded
  have result : roundWithAccuracy format s m e acc =
      if h : m' = 0 then .zero s else .finite s m' e' (Nat.pos_of_ne_zero h) := by
    rw [roundWithAccuracy, first]
    simp only
    rw [second]
  rw [result]
  split
  · next zero =>
      rw [zero, Nat.cast_zero, zero_mul] at nearest
      refine ⟨⟨rfl, trivial, ?_⟩, Or.inl rfl⟩
      have with_sign := nearest.signed s
      have none : signed s 0 = 0 := abs_eq_zero.mp ((abs_signed s 0).trans abs_zero)
      rwa [none] at with_sign
  · next many =>
      exact ⟨⟨rfl, canonical, nearest.signed s⟩, Or.inr ⟨m', e', Nat.pos_of_ne_zero many, rfl⟩⟩

theorem decreaseExponent_real (m : Nat) (e t : Int) :
    ((decreaseExponent m e t).1 : ℝ) * 2 ^ (decreaseExponent m e t).2 = m * 2 ^ e := by
  rw [decreaseExponent]
  dsimp only
  rw [Nat.shiftLeft_eq, zpow_sub₀ two_ne_zero, zpow_natCast]
  push_cast
  field_simp

theorem decreaseExponent_snd {m : Nat} {e t : Int} (le : t ≤ e) : (decreaseExponent m e t).2 = t := by
  rw [decreaseExponent]
  dsimp only
  omega

theorem log2_shiftLeft {m : Nat} (positive : 0 < m) (k : Nat) : (m <<< k).log2 = m.log2 + k := by
  induction k with
  | zero => rfl
  | succ k ih =>
      have nonzero : m <<< k ≠ 0 := by
        rw [Nat.shiftLeft_eq]
        positivity
      rw [Nat.shiftLeft_succ, Nat.log2_two_mul nonzero, ih, Nat.add_assoc]

theorem round_rounded {s : Sign} {m : Nat} {e : Int} (positive : 0 < m) :
    Rounded format (signed s (m * 2 ^ e)) (round format s m e) := by
  have same := decreaseExponent_real m e (format.targetExponent (totalExponent m e))
  -- More places in front do not change where the number begins.
  have total : totalExponent (decreaseExponent m e (format.targetExponent (totalExponent m e))).1
      (decreaseExponent m e (format.targetExponent (totalExponent m e))).2 = totalExponent m e := by
    rw [decreaseExponent]
    simp only [totalExponent, log2_shiftLeft positive]
    push_cast
    ring
  have le : (decreaseExponent m e (format.targetExponent (totalExponent m e))).2 ≤
      format.targetExponent (totalExponent m e) := by
    rw [decreaseExponent]
    dsimp only
    omega
  rw [← same]
  exact (roundWithAccuracy_rounded (represents_exact _) (by rw [total]; exact le)).1

theorem normalize_rounded (format : Format) (n : Int) (e : Int) (zeroSign : Sign) :
    Rounded format (n * 2 ^ e) (UnpackedFloat.normalize format n e zeroSign) := by
  rcases lt_trichotomy n 0 with negative | rfl | positive
  · have rounded : Rounded format (signed .negative ((-n).toNat * 2 ^ e))
        (round format .negative (-n).toNat e) := round_rounded (by omega)
    have cast : ((-n).toNat : ℝ) = -n := by exact_mod_cast Int.toNat_of_nonneg (by omega)
    rw [UnpackedFloat.normalize, compare_lt_iff_lt.mpr negative]
    rwa [cast, neg_mul, signed, neg_neg] at rounded
  · rw [Int.cast_zero, zero_mul]
    exact rounded_zero zeroSign
  · have rounded : Rounded format (signed .positive (n.toNat * 2 ^ e))
        (round format .positive n.toNat e) := round_rounded (by omega)
    have cast : (n.toNat : ℝ) = n := by exact_mod_cast Int.toNat_of_nonneg positive.le
    rw [UnpackedFloat.normalize, compare_gt_iff_gt.mpr positive]
    rwa [cast] at rounded

/-! ## Operations -/

theorem minExponent_nonpos (format : Format) : format.minExponent ≤ 0 := by
  have hm := format.hm
  rw [minExponent_eq]
  omega

/-- A product has at least the bits of either factor, so rounding it only drops bits. -/
theorem IsCanonical.mul_le {m m' : Nat} {e e' : Int} (left : IsCanonical format m e)
    (right : IsCanonical format m' e') (positive : 0 < m) (positive' : 0 < m') :
    e + e' ≤ format.targetExponent (totalExponent (m * m') (e + e')) := by
  have least := minExponent_nonpos format
  have product : m * m' ≠ 0 := (Nat.mul_pos positive positive').ne'
  have bits : format.mantissaBits = 1 + format.mantissaBitsWithoutImplicit := rfl
  have enough : ∀ n, 2 ^ format.mantissaBitsWithoutImplicit ≤ n → n ≤ m * m' →
      e + e' ≤ format.targetExponent (totalExponent (m * m') (e + e')) := by
    intro n full le
    have digits := (Nat.le_log2 product).mpr (full.trans le)
    rw [Format.targetExponent, totalExponent]
    omega
  rcases left.full with full | small
  · exact enough m full (Nat.le_mul_of_pos_right m positive')
  · rcases right.full with full' | small'
    · exact enough m' full' (Nat.le_mul_of_pos_left m' positive)
    · rw [Format.targetExponent]
      omega

theorem mul_rounded {a b : UnpackedFloat} (left : Canonical format a) (right : Canonical format b)
    (finite : a.isFinite = true) (finite' : b.isFinite = true) :
    Rounded format (realOf a * realOf b) (mul format a b) := by
  cases a with
  | infinity s => exact nomatch finite
  | notANumber => exact nomatch finite
  | zero s =>
      have none : realOf (.zero s) = 0 := rfl
      rw [none, zero_mul]
      cases b with
      | infinity s' => exact nomatch finite'
      | notANumber => exact nomatch finite'
      | zero s' => exact rounded_zero _
      | finite s' m' e' positive' => exact rounded_zero _
  | finite s m e positive =>
      cases b with
      | infinity s' => exact nomatch finite'
      | notANumber => exact nomatch finite'
      | zero s' =>
          have none : realOf (.zero s') = 0 := rfl
          rw [none, mul_zero]
          exact rounded_zero _
      | finite s' m' e' positive' =>
          have exact_product : realOf (.finite s m e positive) * realOf (.finite s' m' e' positive') =
              signed (s * s') ((m * m' : Nat) * 2 ^ (e + e')) := by
            rw [realOf, realOf, signed_mul, zpow_add₀ two_ne_zero]
            push_cast
            ring_nf
          rw [exact_product]
          exact (roundWithAccuracy_rounded (represents_exact _)
            (IsCanonical.mul_le left right positive positive')).1

theorem apply_decreaseExponent (s : Sign) (m : Nat) {e t : Int} (le : t ≤ e) :
    ((s.apply (decreaseExponent m e t).1 : Int) : ℝ) * 2 ^ t = signed s (m * 2 ^ e) := by
  have same := decreaseExponent_real m e t
  rw [decreaseExponent_snd le] at same
  rw [cast_apply, ← same]
  cases s with
  | negative => exact neg_mul _ _
  | positive => rfl

theorem add_rounded {a b : UnpackedFloat} (left : Canonical format a) (right : Canonical format b)
    (finite : a.isFinite = true) (finite' : b.isFinite = true) :
    Rounded format (realOf a + realOf b) (add format a b) := by
  cases a with
  | infinity s => exact nomatch finite
  | notANumber => exact nomatch finite
  | zero s =>
      have none : realOf (.zero s) = 0 := rfl
      rw [none, zero_add]
      cases b with
      | infinity s' => exact nomatch finite'
      | notANumber => exact nomatch finite'
      | zero s' =>
          rw [add]
          split <;> exact rounded_zero _
      | finite s' m' e' positive' => exact right.rounded rfl
  | finite s m e positive =>
      cases b with
      | infinity s' => exact nomatch finite'
      | notANumber => exact nomatch finite'
      | zero s' =>
          have none : realOf (.zero s') = 0 := rfl
          rw [none, add_zero]
          exact left.rounded rfl
      | finite s' m' e' positive' =>
          have sum := normalize_rounded format
            (s.apply (decreaseExponent m e (min e e')).1 +
              s'.apply (decreaseExponent m' e' (min e e')).1) (min e e') .positive
          rwa [Int.cast_add, add_mul, apply_decreaseExponent s m (min_le_left e e'),
            apply_decreaseExponent s' m' (min_le_right e e')] at sum

theorem sub_rounded {a b : UnpackedFloat} (left : Canonical format a) (right : Canonical format b)
    (finite : a.isFinite = true) (finite' : b.isFinite = true) :
    Rounded format (realOf a - realOf b) (sub format a b) := by
  cases a with
  | infinity s => exact nomatch finite
  | notANumber => exact nomatch finite
  | zero s =>
      have none : realOf (.zero s) = 0 := rfl
      rw [none, zero_sub]
      cases b with
      | infinity s' => exact nomatch finite'
      | notANumber => exact nomatch finite'
      | zero s' =>
          have none : realOf (.zero s') = 0 := rfl
          rw [none, neg_zero, sub]
          split <;> exact rounded_zero _
      | finite s' m' e' positive' =>
          have opposite : Rounded format (realOf (.finite (-s') m' e' positive'))
              (.finite (-s') m' e' positive') := Canonical.rounded right rfl
          rwa [realOf, signed_neg] at opposite
  | finite s m e positive =>
      cases b with
      | infinity s' => exact nomatch finite'
      | notANumber => exact nomatch finite'
      | zero s' =>
          have none : realOf (.zero s') = 0 := rfl
          rw [none, sub_zero]
          exact left.rounded rfl
      | finite s' m' e' positive' =>
          have difference := normalize_rounded format
            (s.apply (decreaseExponent m e (min e e')).1 -
              s'.apply (decreaseExponent m' e' (min e e')).1) (min e e') .positive
          rwa [Int.cast_sub, sub_mul, apply_decreaseExponent s m (min_le_left e e'),
            apply_decreaseExponent s' m' (min_le_right e e')] at difference

theorem Canonical.overflow_eq (wide : 0 < format.exponentBias) {u : UnpackedFloat}
    (canonical : Canonical format u)
    (small : |realOf u| < 2 ^ (format.mantissaBits + maxExponent format)) :
    overflow format u = u := by
  cases u with
  | infinity s => rfl
  | notANumber => rfl
  | zero s => rfl
  | finite s m e positive =>
      rw [overflow, if_neg]
      intro large
      have least := minExponent_eq format
      have full : 2 ^ format.mantissaBitsWithoutImplicit ≤ m := by
        apply canonical.full.resolve_right
        rw [maxExponent] at large
        omega
      have cast : (2 : ℝ) ^ format.mantissaBitsWithoutImplicit ≤ m := by exact_mod_cast full
      have magnitude : (2 : ℝ) ^ (format.mantissaBits + maxExponent format) ≤ m * 2 ^ e := by
        have bits : (format.mantissaBits : Int) + maxExponent format =
            format.mantissaBitsWithoutImplicit + (maxExponent format + 1) := by
          rw [Format.mantissaBits]
          push_cast
          ring
        rw [bits, zpow_add₀ two_ne_zero, zpow_natCast]
        exact mul_le_mul cast (zpow_le_zpow_right₀ one_le_two large) (by positivity) (by positivity)
      rw [realOf, abs_signed, abs_of_nonneg (by positivity)] at small
      linarith

end Arbor.Number
