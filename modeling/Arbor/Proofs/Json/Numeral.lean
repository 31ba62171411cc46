import Arbor.Json.Decode
import Arbor.Proofs.Json.Text
import Arbor.Proofs.Number.Double

/-!
# Numbers that are read again

Whole numbers are read digit by digit.  When a single-precision value is written with all its digits,
they can be more than a word holds: the reader cuts them off, scales what is left in double precision
and rounds to single precision.  It makes four errors on the way, and together they are far less than
the distance to the next value, so the value that was written is the one that is read.

Of the fewest digits this cannot be said in general.  `Numeral.Faithful` is what is asked of a way to
write values; the one of this library looks whether its short digits are read back.
-/

set_option autoImplicit false

namespace Arbor

open Number
open Text (digitValue ofDigits)

/-! ## Digits -/

theorem head?_digits_ne {n : ℕ} (positive : 0 < n) :
    (Number.Decimal.digits n).head? ≠ some '0' := by
  induction n using Nat.strong_induction_on with
  | h n ih =>
      have digits := Nat.toDigits_eq_if (b := 10) (n := n) (by decide)
      rw [Number.Decimal.digits, digits]
      rcases lt_or_ge n 10 with small | large
      · rw [if_pos small]
        interval_cases n <;> decide
      · have front : Nat.toDigits 10 (n / 10) ≠ [] := Json.digits_ne_nil (n / 10)
        rw [if_neg (not_lt.mpr large), List.head?_append_of_ne_nil _ front]
        exact ih (n / 10) (by omega) (by omega)

theorem Numeral.plain_digits (negative : Bool) (n : ℕ) (e : Option ℤ) :
    Numeral.Plain ⟨negative, Number.Decimal.digits n, none, e⟩ where
  whole := fun _ mem => Json.isDigit_of_mem_digits mem
  whole_ne := Json.digits_ne_nil n
  needed zero := by
    rcases Nat.eq_zero_or_pos n with rfl | positive
    · rfl
    · exact absurd zero (head?_digits_ne positive)
  fraction := nofun

theorem Json.plain_ofNat (n : ℕ) : (Json.ofNat n).Plain := Numeral.plain_digits false n none

/-! ## Numerals with a point -/

theorem isDigit_of_mem_zeros {n : ℕ} {c : Char} (mem : c ∈ List.replicate n '0') :
    c.isDigit = true := by
  rw [List.eq_of_mem_replicate mem]
  rfl

theorem Numeral.plain_point (negative : Bool) {whole fraction : List Char} (e : Option ℤ)
    (before : ∀ c ∈ whole, c.isDigit = true) (before_ne : whole ≠ [])
    (needed : whole.head? = some '0' → whole.length = 1)
    (behind : ∀ c ∈ fraction, c.isDigit = true) (behind_ne : fraction ≠ []) :
    Plain ⟨negative, whole, some fraction, e⟩ where
  whole := before
  whole_ne := before_ne
  needed := needed
  fraction := by
    rintro _ ⟨⟩
    exact ⟨behind_ne, behind⟩

theorem Numeral.plain_split (negative : Bool) {ds : List Char} (e : Option ℤ)
    (digits : ∀ c ∈ ds, c.isDigit = true) (leading : ds.head? ≠ some '0') {n : ℕ} (some_before : 0 < n)
    (some_behind : n < ds.length) : Plain ⟨negative, ds.take n, some (ds.drop n), e⟩ := by
  apply plain_point
  · exact fun c mem => digits c (List.mem_of_mem_take mem)
  · rw [← List.length_pos_iff, List.length_take]
    omega
  · intro zero
    rw [List.head?_take, if_neg (Nat.ne_of_gt some_before)] at zero
    exact absurd zero leading
  · exact fun c mem => digits c (List.mem_of_mem_drop mem)
  · rw [← List.length_pos_iff, List.length_drop]
    omega

theorem Numeral.plain_pointed (d : Decimal) : (pointed d).Plain := by
  have digits : ∀ c ∈ Decimal.digits d.coefficient, c.isDigit = true :=
    fun _ mem => Json.isDigit_of_mem_digits mem
  have some_digit := Json.digits_ne_nil d.coefficient
  have zero_digit : ∀ c ∈ ['0'], c.isDigit = true := List.forall_mem_singleton.mpr rfl
  rw [pointed]
  split
  · exact plain_point _ _ zero_digit (by decide) (by decide) zero_digit (by decide)
  next nonzero =>
  have leading := head?_digits_ne (Nat.pos_of_ne_zero nonzero)
  split
  · next whole =>
      refine plain_point _ _ ?_ (List.append_ne_nil_of_left_ne_nil some_digit _) ?_ zero_digit
        (by decide)
      · intro c mem
        exact (List.mem_append.mp mem).elim (digits c) isDigit_of_mem_zeros
      · intro zero
        rw [List.head?_append_of_ne_nil _ some_digit] at zero
        exact absurd zero leading
  split
  · next within => exact plain_split _ _ digits leading (by omega) (by omega)
  split
  · refine plain_point _ _ zero_digit (by decide) (by decide) ?_
      (List.append_ne_nil_of_right_ne_nil _ some_digit)
    intro c mem
    exact (List.mem_append.mp mem).elim isDigit_of_mem_zeros (digits c)
  split
  · exact plain_digits _ _ _
  · next several =>
      have length := List.length_pos_iff.mpr some_digit
      exact plain_split _ _ digits leading Nat.one_pos (by omega)

/-! ## Whole numbers -/

theorem Json.natBelow?_ofNat {bound n : ℕ} (less : n < bound) (word : bound ≤ 2 ^ 64) :
    natBelow? bound (.ofNat n) = some n := by
  have small : n < Numeral.wordValues := less.trans_le word
  have read : (Numeral.ofNat n).word? = some (.ofNat n) := by
    simp [Numeral.word?, Numeral.ofNat, ofDigits_digits, small]
  rw [ofNat, natBelow?, read]
  exact if_pos less

/-! ## Digits that are kept -/

theorem digitValue_lt {c : Char} (digit : c.isDigit = true) : digitValue c < 10 := by
  rw [Char.isDigit, Bool.and_eq_true, decide_eq_true_eq, decide_eq_true_eq] at digit
  have last : c.toNat ≤ 57 := UInt32.le_iff_toNat_le.mp digit.2
  have zero : '0'.toNat = 48 := rfl
  rw [digitValue, zero]
  omega

theorem foldl_digits_bounds (cs : List Char) (digits : ∀ c ∈ cs, c.isDigit = true) (m : ℕ) :
    m * 10 ^ cs.length ≤ cs.foldl (fun n c => 10 * n + digitValue c) m ∧
      cs.foldl (fun n c => 10 * n + digitValue c) m < (m + 1) * 10 ^ cs.length := by
  induction cs generalizing m with
  | nil => simp
  | cons c cs ih =>
      have value := digitValue_lt (digits c List.mem_cons_self)
      obtain ⟨low, high⟩ := ih (fun d mem => digits d (List.mem_cons_of_mem c mem))
        (10 * m + digitValue c)
      rw [List.foldl_cons, List.length_cons, pow_succ']
      constructor
      · calc m * (10 * 10 ^ cs.length) = 10 * m * 10 ^ cs.length := by ring
          _ ≤ (10 * m + digitValue c) * 10 ^ cs.length := Nat.mul_le_mul_right _ (by omega)
          _ ≤ _ := low
      · calc _ < (10 * m + digitValue c + 1) * 10 ^ cs.length := high
          _ ≤ 10 * (m + 1) * 10 ^ cs.length := Nat.mul_le_mul_right _ (by omega)
          _ = (m + 1) * (10 * 10 ^ cs.length) := by ring

theorem Numeral.takeDigits_spec (cs : List Char) (digits : ∀ c ∈ cs, c.isDigit = true) {m : ℕ}
    (word : m < wordValues) :
    ∃ k rest, takeDigits m cs = (k, rest) ∧ k < wordValues ∧
      k * 10 ^ rest.length ≤ cs.foldl (fun n c => 10 * n + digitValue c) m ∧
      cs.foldl (fun n c => 10 * n + digitValue c) m < (k + 1) * 10 ^ rest.length ∧
      (rest = [] ∨ wordValues ≤ 10 * k + 9) := by
  induction cs generalizing m with
  | nil => exact ⟨m, [], rfl, word, by simp, by simp, Or.inl rfl⟩
  | cons c cs ih =>
      rw [takeDigits]
      split
      · next fits => exact ih (fun d mem => digits d (List.mem_cons_of_mem c mem)) fits
      · next full =>
          obtain ⟨low, high⟩ := foldl_digits_bounds (c :: cs) digits m
          have value := digitValue_lt (digits c List.mem_cons_self)
          exact ⟨m, c :: cs, rfl, word, low, high, Or.inr (by omega)⟩

/-! ## Scaling -/

theorem Numeral.tenTo_approx {n : ℕ} (low : n ≤ 150) : Approx (2 / 2 ^ 53) (10 ^ n) (tenTo n) := by
  have approx := Approx.decimal Nat.one_pos (by norm_num) low
  rwa [Nat.cast_one, one_mul] at approx

theorem Numeral.scale_approx {k : ℕ} (positive : 0 < k) (word : k < wordValues) {e : ℤ}
    (low : -150 ≤ e) (high : e ≤ 150) :
    Approx (1 / 2 ^ 50) (k * 10 ^ e) (scale (Number.Decimal.toDouble ⟨false, k, 0⟩) e) := by
  have digits : Approx (2 / 2 ^ 53) k (Number.Decimal.toDouble ⟨false, k, 0⟩) := by
    have approx := Approx.decimal positive (le_of_lt word) (k := 0) (by norm_num)
    rwa [pow_zero, mul_one] at approx
  have one_le : (1 : ℝ) ≤ k := by exact_mod_cast positive
  have few : (k : ℝ) ≤ 2 ^ 64 := by exact_mod_cast (le_of_lt word : k ≤ 2 ^ 64)
  have not_over : ¬ maxPower < e := by
    rw [maxPower]
    omega
  rw [scale, digits.beq_zero, if_neg Bool.false_ne_true, if_neg not_over]
  rcases le_or_gt 0 e with above | below
  · obtain ⟨n, rfl⟩ := Int.eq_ofNat_of_zero_le above
    rw [if_pos above, Int.toNat_natCast, zpow_natCast]
    obtain ⟨large, small⟩ := mul_ten_pow_mem one_le few (k := n) (by omega)
    exact digits.mul (tenTo_approx (by omega)) large small
  · obtain ⟨n, rfl⟩ : ∃ n : ℕ, e = -n := ⟨(-e).toNat, by omega⟩
    rw [if_neg (not_le.mpr below), if_pos (by rw [maxPower]; omega), neg_neg, Int.toNat_natCast,
      zpow_neg, zpow_natCast, ← div_eq_mul_inv]
    obtain ⟨large, small⟩ := div_ten_pow_mem one_le few (k := n) (by omega)
    exact digits.div (tenTo_approx (by omega)) large small

/-! ## Decimals -/

/-- What is cut off the digits of a decimal is a very small part of it. -/
theorem Numeral.significand_ofDecimal (d : Decimal) (positive : 0 < d.coefficient) :
    ∃ k r : ℕ, (ofDecimal d).significand = (k, d.exponent + r) ∧ 0 < k ∧ k < wordValues ∧
      k * 10 ^ r ≤ d.coefficient ∧ 2 ^ 60 * (d.coefficient - k * 10 ^ r) ≤ d.coefficient := by
  obtain ⟨k, rest, taken, word, low, high, cut⟩ := takeDigits_spec (Decimal.digits d.coefficient)
    (fun _ mem => Json.isDigit_of_mem_digits mem) (by decide : 0 < wordValues)
  have value : (Decimal.digits d.coefficient).foldl (fun n c => 10 * n + digitValue c) 0 =
      d.coefficient := Json.ofDigits_digits d.coefficient
  rw [value] at low high
  have some_digits : wordValues ≤ 10 * k + 9 → 2 ^ 60 ≤ k := by
    have word_eq : wordValues = 18446744073709551616 := rfl
    omega
  refine ⟨k, rest.length, ?_, ?_, word, low, ?_⟩
  · rw [significand, ofDecimal]
    simp [taken, takeDigits]
  · rcases cut with rfl | full
    · rw [List.length_nil, pow_zero] at high
      omega
    · have := some_digits full
      omega
  · rcases cut with rfl | full
    · rw [List.length_nil, pow_zero] at low high ⊢
      have all : d.coefficient = k := by omega
      rw [all, mul_one, Nat.sub_self]
      exact Nat.zero_le _
    · calc 2 ^ 60 * (d.coefficient - k * 10 ^ rest.length)
          ≤ k * 10 ^ rest.length := Nat.mul_le_mul (some_digits full) (by rw [add_mul] at high; omega)
        _ ≤ d.coefficient := low

theorem exponent_le_of_lt {k : ℕ} (positive : 0 < k) {e : ℤ}
    (small : (k : ℝ) * 10 ^ e < 2 ^ (128 : ℤ)) : e ≤ 150 := by
  by_contra large
  have one_le : (1 : ℝ) ≤ k := by exact_mod_cast positive
  have power : (0 : ℝ) < 10 ^ e := zpow_pos (by norm_num) e
  have order : (10 : ℝ) ^ (150 : ℤ) ≤ 10 ^ e := zpow_le_zpow_right₀ (by norm_num) (by omega)
  have most : (2 : ℝ) ^ (128 : ℤ) ≤ 10 ^ (150 : ℤ) := by norm_num
  have least := le_mul_of_one_le_left power.le one_le
  linarith

theorem Numeral.toDouble_ofDecimal {d : Decimal} (positive : 0 < d.coefficient)
    (low : -150 ≤ d.exponent) (high : d.exponent ≤ 0)
    (small : (d.coefficient : ℝ) * 10 ^ d.exponent < 2 ^ (128 : ℤ)) :
    (ofDecimal d).toDouble.isFinite = true ∧
      |doubleReal (ofDecimal d).toDouble -
          (if d.negative then -(d.coefficient * 10 ^ d.exponent : ℝ)
            else d.coefficient * 10 ^ d.exponent)| ≤ d.coefficient * 10 ^ d.exponent / 2 ^ 48 := by
  obtain ⟨k, r, kept, some_kept, word, le, cut⟩ := significand_ofDecimal d positive
  have unit : (0 : ℝ) < 10 ^ d.exponent := zpow_pos (by norm_num) _
  -- What is kept stands for a number that is no larger, and only a little smaller.
  have split : (k : ℝ) * 10 ^ (d.exponent + r) = k * 10 ^ r * 10 ^ d.exponent := by
    rw [zpow_add₀ (by norm_num), zpow_natCast]
    ring
  have below : (k : ℝ) * 10 ^ (d.exponent + r) ≤ d.coefficient * 10 ^ d.exponent := by
    rw [split]
    exact mul_le_mul_of_nonneg_right (by exact_mod_cast le) unit.le
  have near : (2 : ℝ) ^ 60 * (d.coefficient - k * 10 ^ r) ≤ d.coefficient := by
    have cast : ((d.coefficient - k * 10 ^ r : ℕ) : ℝ) = d.coefficient - k * 10 ^ r := by
      rw [Nat.cast_sub le]
      push_cast
      ring
    rw [← cast]
    exact_mod_cast cut
  have lost := mul_le_mul_of_nonneg_right near unit.le
  have place : d.exponent + r ≤ 150 := exponent_le_of_lt some_kept (below.trans_lt small)
  have approx := scale_approx some_kept word (by omega) place
  obtain ⟨y, y_eq⟩ : ∃ y, y = scale (Decimal.toDouble ⟨false, k, 0⟩) (d.exponent + r) := ⟨_, rfl⟩
  rw [← y_eq] at approx
  have close : |doubleReal y - d.coefficient * 10 ^ d.exponent| ≤
      d.coefficient * 10 ^ d.exponent / 2 ^ 48 := by
    obtain ⟨least, most⟩ := abs_le.mp approx.close
    rw [split] at least most below
    rw [abs_le]
    norm_num at lost least most ⊢
    constructor <;> linarith
  have read : (ofDecimal d).toDouble = if d.negative then -y else y := by
    rw [toDouble, kept, y_eq]
    rfl
  rw [read]
  split
  · rw [isFinite_neg_double, doubleReal_neg, ← neg_add', abs_neg, add_comm, ← sub_eq_neg_add]
    exact ⟨approx.isFinite, close⟩
  · exact ⟨approx.isFinite, close⟩

/-! ## Single-precision values -/

theorem Number.Decimal.ofBinary_spec (negative : Bool) {m : ℕ} (positive : 0 < m) (e : ℤ) :
    (ofBinary negative m e).negative = negative ∧ 0 < (ofBinary negative m e).coefficient ∧
      (ofBinary negative m e).exponent = min e 0 ∧
      ((ofBinary negative m e).coefficient : ℝ) * 10 ^ (ofBinary negative m e).exponent =
        m * 2 ^ e := by
  rw [ofBinary]
  split
  · next above =>
      obtain ⟨n, rfl⟩ := Int.eq_ofNat_of_zero_le above
      refine ⟨rfl, ?_, (min_eq_right above).symm, ?_⟩
      · simp only [Int.toNat_natCast, Nat.shiftLeft_eq]
        positivity
      · simp only [Int.toNat_natCast, Nat.shiftLeft_eq, zpow_zero, mul_one, zpow_natCast]
        push_cast
        ring
  · next below =>
      obtain ⟨n, rfl⟩ : ∃ n : ℕ, e = -n := ⟨(-e).toNat, by omega⟩
      have least : -(n : ℤ) = min (-(n : ℤ)) 0 := by omega
      refine ⟨rfl, ?_, least, ?_⟩
      · simp only [neg_neg, Int.toNat_natCast]
        exact Nat.mul_pos positive (Nat.pow_pos (by decide))
      · simp only [neg_neg, Int.toNat_natCast, zpow_neg, zpow_natCast, Nat.pow_eq]
        have ten : (10 : ℝ) ^ n = 5 ^ n * 2 ^ n := by
          rw [← mul_pow]
          norm_num
        rw [ten]
        push_cast
        field_simp

theorem Numeral.toSingle?_exact {x : Float32} (finite : x.isFinite = true) :
    (ofDecimal ((Decimal.exact x.toModel.unpack).getD ⟨false, 0, 0⟩)).toSingle? = some x := by
  change x.toModel.unpack.isFinite = true at finite
  cases unpacked : x.toModel.unpack with
  | infinity s =>
      rw [unpacked] at finite
      exact nomatch finite
  | notANumber =>
      rw [unpacked] at finite
      exact nomatch finite
  | zero s =>
      have same : x = .ofModel (.pack (.zero s)) := by rw [← unpacked, ofModel_pack_unpack]
      rw [same]
      cases s <;> decide +kernel
  | finite s m e positive =>
      have canonical := canonical_unpack x
      rw [unpacked] at canonical
      have above : -149 ≤ e := canonical.above
      have real_eq := real_of_unpack unpacked
      have magnitude : |real x| = m * 2 ^ e := by
        rw [real_eq, abs_signed, abs_of_pos (by positivity)]
      obtain ⟨sign, some_digits, place, value⟩ := Decimal.ofBinary_spec (s == .negative) positive e
      obtain ⟨finite, close⟩ := Numeral.toDouble_ofDecimal some_digits (by omega) (by omega)
        (by rw [value, ← magnitude]; exact abs_real_lt x)
      have same : (if (s == .negative) = true then -((m : ℝ) * 2 ^ e) else m * 2 ^ e) = real x := by
        rw [real_eq]
        cases s <;> rfl
      rw [sign, value, same, ← magnitude] at close
      have nonzero : real x ≠ 0 := by
        rw [← abs_pos, magnitude]
        positivity
      have part : (ofDecimal (Decimal.ofBinary (s == .negative) m e)).word? = none := rfl
      change (ofDecimal (Decimal.ofBinary (s == .negative) m e)).toSingle? = some x
      rw [toSingle?, part]
      change (if _ then _ else _) = some x
      rw [if_pos finite, narrow_eq_of_close finite nonzero close]

namespace Numeral

/-- What is written of a finite value is a number that is read as this value. -/
structure Faithful (print : Float32 → Numeral) : Prop where
  plain : ∀ x : Float32, x.isFinite = true → (print x).Plain
  toSingle?_eq : ∀ x : Float32, x.isFinite = true → (print x).toSingle? = some x

theorem faithful_ofSingle : Faithful ofSingle where
  plain x _ := by
    rw [ofSingle]
    split
    · exact plain_pointed _
    · exact plain_digits _ _ _
  toSingle?_eq x finite := by
    rw [ofSingle]
    split
    · next read => exact read
    · exact toSingle?_exact finite

end Numeral

section Printing
variable {print : Float32 → Numeral} (faithful : Numeral.Faithful print)

include faithful

theorem Json.plain_ofSingle (x : Float32) : (Json.ofSingle print x).Plain := by
  rw [ofSingle]
  split
  · next finite => exact faithful.plain x finite
  · trivial

theorem Json.single?_ofSingle (x : Float32) :
    single? (ofSingle print x) = if x.isFinite = true then some x else none := by
  rw [ofSingle]
  split
  · next finite => exact faithful.toSingle?_eq x finite
  · rfl

end Printing

end Arbor
