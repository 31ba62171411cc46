import Arbor.Json.Reader
import Mathlib.Data.Option.Basic
import Mathlib.Tactic.Common

/-!
# What is written is read again

A value whose numerals have digits where digits must be is read from its text as it was.  Each reader
takes what its writer wrote and leaves what stands behind it, provided that a number ends there: behind
a value stands nothing, a comma or a closing bracket.
-/

set_option autoImplicit false

namespace Arbor

open Text (splitDigits ofDigits)

/-- Digits stand before the point and behind it, and no needless zero in front. -/
structure Numeral.Plain (n : Numeral) : Prop where
  whole : ∀ c ∈ n.whole, c.isDigit = true
  whole_ne : n.whole ≠ []
  needed : n.whole.head? = some '0' → n.whole.length = 1
  fraction : ∀ ds, n.fraction = some ds → ds ≠ [] ∧ ∀ c ∈ ds, c.isDigit = true

namespace Json

mutual

def Plain : Json → Prop
  | number n => n.Plain
  | array vs => PlainElements vs
  | object ms => PlainMembers ms
  | _ => True

def PlainElements : List Json → Prop
  | [] => True
  | v :: vs => v.Plain ∧ PlainElements vs

def PlainMembers : List (Option String × Json) → Prop
  | [] => True
  | (_, v) :: ms => v.Plain ∧ PlainMembers ms

end

/-- What may stand behind a value. -/
def Ends : List Char → Prop
  | [] => True
  | c :: _ => c = ',' ∨ c = ']' ∨ c = '\x7d'

/-! ## Strings -/

theorem hexValue?_hexDigit {n : ℕ} (small : n < 16) : hexValue? (hexDigit n) = some n := by
  revert n
  decide

theorem codeUnit?_control {n : ℕ} (small : n < 32) :
    codeUnit? '0' '0' (hexDigit (n / 16)) (hexDigit (n % 16)) = some n := by
  have zero : hexValue? '0' = some 0 := by decide
  rw [codeUnit?, zero, hexValue?_hexDigit (by omega), hexValue?_hexDigit (by omega)]
  simp only [bind, Option.bind, pure]
  congr 1
  omega

theorem joinPieces_unit {n : ℕ} (small : n < 0xD800) (ps : List Piece) :
    joinPieces (.unit n :: ps) = (joinPieces ps).map (Char.ofNat n :: ·) := by
  rw [joinPieces.eq_def]
  exact if_pos (Or.inl small)

theorem readPieces_printed {c : Char} (not_quote : c ≠ '"') (not_slash : c ≠ '\\')
    (printed : 32 ≤ c.toNat) (cs : List Char) :
    readPieces (c :: cs) = (readPieces cs).bind fun (ps, rest) => some (.char c :: ps, rest) := by
  rw [readPieces.eq_def]
  split
  · next same => exact absurd (List.cons.inj same).1 not_quote
  · next same => exact absurd (List.cons.inj same).1 not_slash
  · next same => exact absurd (List.cons.inj same).1 not_slash
  · next same =>
      obtain ⟨rfl, rfl⟩ := List.cons.inj same
      rw [guard, if_pos printed]
      rfl
  · next same => exact nomatch same

theorem readPieces_letter {c e : Char} (letter : letter? c = some e) (cs : List Char) :
    readPieces ('\\' :: e :: cs) =
      (readPieces cs).bind fun (ps, rest) => some (.char c :: ps, rest) := by
  unfold letter? at letter
  split at letter <;> cases letter <;> rfl

/-- However a character is written, it is read as one piece that stands for it. -/
theorem readPieces_escape (c : Char) (cs : List Char) :
    ∃ p, (∀ ps, joinPieces (p :: ps) = (joinPieces ps).map (c :: ·)) ∧
      readPieces (escape c ++ cs) = (readPieces cs).bind fun (ps, rest) => some (p :: ps, rest) := by
  unfold escape
  cases letter : letter? c with
  | some e => exact ⟨.char c, fun _ => rfl, readPieces_letter letter cs⟩
  | none =>
      dsimp only
      split
      · next control =>
          refine ⟨.unit c.toNat, fun ps => ?_, ?_⟩
          · rw [joinPieces_unit (by omega), Char.ofNat_toNat]
          · simp only [List.cons_append, List.nil_append, readPieces, codeUnit?_control control]
            rfl
      · next printed =>
          have not_quote : c ≠ '"' := by rintro rfl; exact nomatch letter
          have not_slash : c ≠ '\\' := by rintro rfl; exact nomatch letter
          exact ⟨.char c, fun _ => rfl,
            readPieces_printed not_quote not_slash (Nat.not_lt.mp printed) cs⟩

theorem readPieces_flatMap (cs rest : List Char) :
    ∃ ps, readPieces (cs.flatMap escape ++ '"' :: rest) = some (ps, rest) ∧
      joinPieces ps = some cs := by
  induction cs with
  | nil => exact ⟨[], rfl, rfl⟩
  | cons c cs ih =>
      obtain ⟨ps, read, joined⟩ := ih
      obtain ⟨p, join, step⟩ := readPieces_escape c (cs.flatMap escape ++ '"' :: rest)
      refine ⟨p :: ps, ?_, ?_⟩
      · rw [List.flatMap_cons, List.append_assoc, step, read]
        rfl
      · rw [join, joined]
        rfl

theorem stringText_none : stringText none = ['"', '\\', 'u', 'd', '8', '0', '0', '"'] := by
  change "\"\\ud800\"".toList = _
  decide

/-- A string is read from what stands behind its opening quote. -/
theorem exists_stringText (s : Option String) :
    ∃ cs, stringText s = '"' :: cs ∧ ∀ rest, readString (cs ++ rest) = some (s, rest) := by
  cases s with
  | none =>
      have half : codeUnit? 'd' '8' '0' '0' = some 0xD800 := by decide
      refine ⟨_, stringText_none, fun rest => ?_⟩
      rw [readString]
      change (readPieces ('\\' :: 'u' :: 'd' :: '8' :: '0' :: '0' :: '"' :: rest)).bind _ = _
      rw [readPieces, half, readPieces]
      rfl
  | some s =>
      refine ⟨s.toList.flatMap escape ++ ['"'], rfl, fun rest => ?_⟩
      obtain ⟨ps, read, joined⟩ := readPieces_flatMap s.toList rest
      rw [List.append_assoc, readString]
      change (readPieces (s.toList.flatMap escape ++ '"' :: rest)).bind _ = _
      simp only [read, Option.bind_some, joined, Option.map_some, String.ofList_toList,
        Option.pure_def]

theorem readName_stringText (name : Option String) (rest : List Char) :
    readName (stringText name ++ ':' :: rest) = some (name, rest) := by
  obtain ⟨cs, written, read⟩ := exists_stringText name
  rw [written, readName]
  simp [skipBlanks, isBlank, read]

/-! ## Numbers -/

theorem splitDigits_append {ds cs : List Char} (digits : ∀ c ∈ ds, c.isDigit = true)
    (stop : ∀ c ∈ cs.head?, c.isDigit = false) : splitDigits (ds ++ cs) = (ds, cs) := by
  have none : cs.takeWhile Char.isDigit = [] ∧ cs.dropWhile Char.isDigit = cs := by
    cases cs with
    | nil => exact ⟨rfl, rfl⟩
    | cons c cs => simp [stop c rfl]
  rw [splitDigits, List.takeWhile_append_of_pos digits, List.dropWhile_append_of_pos digits, none.1,
    none.2, List.append_nil]

theorem ofDigits_digits (n : ℕ) : ofDigits (Number.Decimal.digits n) = n :=
  Nat.ofDigitChars_eq_foldl.symm.trans Nat.ofDigitChars_ten_toDigits

theorem isDigit_of_mem_digits {n : ℕ} {c : Char} (mem : c ∈ Number.Decimal.digits n) :
    c.isDigit = true :=
  Nat.isDigit_of_mem_toDigits (by decide) (by decide) mem

theorem digits_ne_nil (n : ℕ) : Number.Decimal.digits n ≠ [] := Nat.toDigits_ne_nil

theorem Ends.head? {cs : List Char} (ends : Ends cs) :
    ∀ c ∈ cs.head?, c.isDigit = false ∧ c ≠ '.' ∧ c ≠ 'e' ∧ c ≠ 'E' := by
  intro c mem
  cases cs with
  | nil => exact nomatch mem
  | cons d cs =>
      cases mem
      rcases ends with rfl | rfl | rfl <;> decide

theorem ne_sign_of_isDigit {c : Char} (digit : c.isDigit = true) : c ≠ '-' ∧ c ≠ '+' := by
  constructor <;> (rintro rfl; exact nomatch digit)

def exponentText : Option Int → List Char
  | some e => 'e' :: ((if e < 0 then ['-'] else []) ++ Number.Decimal.digits e.natAbs)
  | none => []

def behindWhole (n : Numeral) : List Char :=
  (match n.fraction with
    | some ds => '.' :: ds
    | none => []) ++ exponentText n.exponent

theorem numberText_eq (n : Numeral) :
    numberText n = (if n.negative then ['-'] else []) ++ (n.whole ++ behindWhole n) := by
  unfold numberText behindWhole exponentText
  cases n.fraction <;> cases n.exponent <;> simp

theorem splitSign_digits (negative : Bool) {ds : List Char} (digits : ∀ c ∈ ds, c.isDigit = true)
    (some_digit : ds ≠ []) (rest : List Char) :
    Text.splitSign ((if negative then ['-'] else []) ++ ds ++ rest) = (negative, ds ++ rest) := by
  obtain ⟨d, ds, rfl⟩ := List.exists_cons_of_ne_nil some_digit
  obtain ⟨not_minus, not_plus⟩ := ne_sign_of_isDigit (digits d List.mem_cons_self)
  cases negative with
  | true => rfl
  | false =>
      change Text.splitSign (d :: (ds ++ rest)) = _
      rw [Text.splitSign.eq_def]
      split <;> simp_all

theorem readExponent_exponentText (e : Option Int) {rest : List Char} (ends : Ends rest) :
    readExponent (exponentText e ++ rest) = some (e, rest) := by
  cases e with
  | none =>
      cases rest with
      | nil => rfl
      | cons c rest =>
          obtain ⟨_, _, lower, upper⟩ := ends.head? c rfl
          change readExponent (c :: rest) = _
          rw [readExponent, if_neg (not_or.mpr ⟨lower, upper⟩)]
  | some e =>
      have digits : ∀ c ∈ Number.Decimal.digits e.natAbs, c.isDigit = true :=
        fun c mem => isDigit_of_mem_digits mem
      have sign := splitSign_digits (e < 0) digits (digits_ne_nil _) rest
      have split := splitDigits_append digits fun c mem => (ends.head? c mem).1
      have value : Text.signed (decide (e < 0)) e.natAbs = e := by
        rw [Text.signed]
        by_cases negative : e < 0
        · rw [if_pos (decide_eq_true negative)]
          omega
        · rw [if_neg (ne_true_of_eq_false (decide_eq_false negative))]
          omega
      simp only [decide_eq_true_eq] at sign
      change readExponent ('e' :: (_ ++ rest)) = _
      rw [readExponent, if_pos (Or.inl rfl), sign]
      simp only [split, if_neg (digits_ne_nil e.natAbs), ofDigits_digits, value]

def readMagnitude (negative : Bool) (cs : List Char) : Option (Json × List Char) := do
  let (whole, cs) := splitDigits cs
  guard (whole ≠ [] ∧ (whole.head? = some '0' → whole.length = 1))
  let (fraction, cs) ← readFraction cs
  let (exponent, cs) ← readExponent cs
  return (number { negative, whole, fraction, exponent }, cs)

theorem readNumber_eq (negative : Bool) {ds : List Char} (digits : ∀ c ∈ ds, c.isDigit = true)
    (some_digit : ds ≠ []) (rest : List Char) :
    readNumber ((if negative then ['-'] else []) ++ (ds ++ rest)) =
      readMagnitude negative (ds ++ rest) := by
  obtain ⟨d, ds, rfl⟩ := List.exists_cons_of_ne_nil some_digit
  obtain ⟨not_minus, _⟩ := ne_sign_of_isDigit (digits d List.mem_cons_self)
  cases negative with
  | true => rfl
  | false =>
      change readNumber (d :: (ds ++ rest)) = _
      rw [readNumber]
      · rfl
      · intro cs same
        exact not_minus (List.cons.inj same).1

theorem head?_exponentText (e : Option Int) {rest : List Char} (ends : Ends rest) :
    ∀ c ∈ (exponentText e ++ rest).head?, c.isDigit = false ∧ c ≠ '.' := by
  intro c mem
  cases e with
  | none =>
      obtain ⟨digit, point, _⟩ := ends.head? c mem
      exact ⟨digit, point⟩
  | some e =>
      cases mem
      decide

theorem readFraction_behindWhole {n : Numeral} (plain : n.Plain) {rest : List Char}
    (ends : Ends rest) :
    readFraction (behindWhole n ++ rest) = some (n.fraction, exponentText n.exponent ++ rest) ∧
      ∀ c ∈ (behindWhole n ++ rest).head?, c.isDigit = false := by
  have stop := head?_exponentText n.exponent ends
  unfold behindWhole
  cases point : n.fraction with
  | none =>
      refine ⟨?_, fun c mem => (stop c mem).1⟩
      rw [List.nil_append, readFraction.eq_def]
      split
      · next starts => exact absurd rfl (stop '.' (by rw [starts]; rfl)).2
      · rfl
  | some ds =>
      obtain ⟨some_digit, digits⟩ := plain.fraction ds point
      refine ⟨?_, fun c mem => by cases mem; decide⟩
      change readFraction ('.' :: (ds ++ exponentText n.exponent ++ rest)) = _
      rw [readFraction, List.append_assoc, splitDigits_append digits fun c mem => (stop c mem).1]
      exact if_neg some_digit

theorem readNumber_numberText {n : Numeral} (plain : n.Plain) {rest : List Char} (ends : Ends rest) :
    readNumber (numberText n ++ rest) = some (number n, rest) := by
  rw [numberText_eq, List.append_assoc, List.append_assoc,
    readNumber_eq _ plain.whole plain.whole_ne]
  obtain ⟨fraction, stop⟩ := readFraction_behindWhole plain ends
  rw [readMagnitude, splitDigits_append plain.whole stop]
  dsimp only
  rw [guard, if_pos ⟨plain.whole_ne, plain.needed⟩, fraction]
  simp only [Option.pure_def, Option.bind_eq_bind, Option.bind_some,
    readExponent_exponentText n.exponent ends]

/-! ## Values -/

theorem skipBlanks_of_not_blank {c : Char} (seen : isBlank c = false) (cs : List Char) :
    skipBlanks (c :: cs) = c :: cs := by
  rw [skipBlanks, List.dropWhile_cons, seen, if_neg Bool.false_ne_true]

def StartsNumber (c : Char) : Prop := c = '-' ∨ c.isDigit = true

theorem StartsNumber.isBlank {c : Char} (starts : StartsNumber c) : isBlank c = false := by
  cases blank : Json.isBlank c with
  | false => rfl
  | true =>
      simp only [Json.isBlank, Bool.or_eq_true, decide_eq_true_eq] at blank
      obtain ((rfl | rfl) | rfl) | rfl := blank <;>
        exact absurd starts (by unfold StartsNumber; decide)

theorem readValue_number {c : Char} (starts : StartsNumber c) (fuel : ℕ) (cs : List Char) :
    readValue (fuel + 1) (c :: cs) = readNumber (c :: cs) := by
  rw [readValue, skipBlanks_of_not_blank starts.isBlank]
  split
  case h_7 => rfl
  -- Nothing else that is read starts like a number.
  all_goals
    next same =>
      obtain ⟨rfl, _⟩ := List.cons.inj same
      exact absurd starts (by unfold StartsNumber; decide)

theorem exists_numberText {n : Numeral} (plain : n.Plain) :
    ∃ c cs, numberText n = c :: cs ∧ StartsNumber c := by
  rw [numberText_eq]
  cases n.negative with
  | true => exact ⟨_, _, rfl, Or.inl rfl⟩
  | false =>
      obtain ⟨d, ds, whole⟩ := List.exists_cons_of_ne_nil plain.whole_ne
      rw [whole]
      exact ⟨_, _, rfl, Or.inr (plain.whole d (whole ▸ List.mem_cons_self))⟩

/-- A value is read again, whatever ends it. -/
def Reads (v : Json) : Prop :=
  ∀ fuel rest, v.chars.length ≤ fuel → Ends rest → readValue fuel (v.chars ++ rest) = some (v, rest)

theorem ends_elementChars (vs : List Json) (rest : List Char) : Ends (elementChars vs ++ rest) := by
  cases vs with
  | nil => exact Or.inr (Or.inl rfl)
  | cons v vs => exact Or.inl rfl

theorem ends_memberChars (ms : List (Option String × Json)) (rest : List Char) :
    Ends (memberChars ms ++ rest) := by
  cases ms with
  | nil => exact Or.inr (Or.inr rfl)
  | cons m ms => exact Or.inl rfl

theorem readElements_chars {v : Json} (reads : Reads v) (vs : List Json) (all : ∀ w ∈ vs, Reads w)
    (fuel : ℕ) (rest : List Char) (enough : v.chars.length + (elementChars vs).length ≤ fuel) :
    readElements fuel (v.chars ++ (elementChars vs ++ rest)) = some (v :: vs, rest) := by
  induction vs generalizing v fuel with
  | nil =>
      simp only [elementChars, List.length_singleton] at enough
      obtain ⟨fuel, rfl⟩ : ∃ n, fuel = n + 1 := Nat.exists_eq_add_one.mpr (by omega)
      rw [readElements, reads fuel _ (by omega) (ends_elementChars [] rest)]
      rfl
  | cons w vs ih =>
      simp only [elementChars, List.length_cons, List.length_append] at enough
      obtain ⟨fuel, rfl⟩ : ∃ n, fuel = n + 1 := Nat.exists_eq_add_one.mpr (by omega)
      have later := ih (all w List.mem_cons_self) (fun u mem => all u (List.mem_cons_of_mem w mem))
        fuel (by omega)
      have behind : elementChars (w :: vs) ++ rest = ',' :: (w.chars ++ (elementChars vs ++ rest)) := by
        simp [elementChars]
      have first := reads fuel _ (by omega) (ends_elementChars (w :: vs) rest)
      rw [behind] at first ⊢
      rw [readElements, first]
      simp only [Option.bind_eq_bind, Option.bind_some, skipBlanks_of_not_blank (c := ',') rfl, later]
      rfl

theorem readMembers_chars {name : Option String} {v : Json} (reads : Reads v)
    (ms : List (Option String × Json)) (all : ∀ m ∈ ms, Reads m.2) (fuel : ℕ) (rest : List Char)
    (enough : v.chars.length + (memberChars ms).length ≤ fuel) :
    readMembers fuel (stringText name ++ ':' :: (v.chars ++ (memberChars ms ++ rest))) =
      some ((name, v) :: ms, rest) := by
  induction ms generalizing name v fuel with
  | nil =>
      simp only [memberChars, List.length_singleton] at enough
      obtain ⟨fuel, rfl⟩ : ∃ n, fuel = n + 1 := Nat.exists_eq_add_one.mpr (by omega)
      rw [readMembers, readName_stringText]
      simp only [Option.bind_eq_bind, Option.bind_some,
        reads fuel _ (by omega) (ends_memberChars [] rest)]
      rfl
  | cons m ms ih =>
      obtain ⟨name', w⟩ := m
      simp only [memberChars, List.length_cons, List.length_append] at enough
      obtain ⟨fuel, rfl⟩ : ∃ n, fuel = n + 1 := Nat.exists_eq_add_one.mpr (by omega)
      have later : readMembers fuel
          (stringText name' ++ ':' :: (w.chars ++ (memberChars ms ++ rest))) =
          some ((name', w) :: ms, rest) :=
        ih (v := w) (all _ List.mem_cons_self) (fun u mem => all u (List.mem_cons_of_mem _ mem)) fuel
          (by omega)
      have behind : memberChars ((name', w) :: ms) ++ rest =
          ',' :: (stringText name' ++ ':' :: (w.chars ++ (memberChars ms ++ rest))) := by
        simp [memberChars]
      have first := reads fuel _ (by omega) (ends_memberChars ((name', w) :: ms) rest)
      rw [behind] at first ⊢
      rw [readMembers, readName_stringText]
      simp only [Option.bind_eq_bind, Option.bind_some, first,
        skipBlanks_of_not_blank (c := ',') rfl, later]
      rfl

theorem reads_of_chars {v : Json} {c : Char} {cs : List Char} (written : v.chars = c :: cs)
    (read : ∀ fuel rest, cs.length ≤ fuel → Ends rest →
      readValue (fuel + 1) (c :: (cs ++ rest)) = some (v, rest)) : Reads v := by
  intro fuel rest enough ends
  rw [written] at enough ⊢
  cases fuel with
  | zero => exact nomatch enough
  | succ fuel => exact read fuel rest (Nat.le_of_succ_le_succ enough) ends

theorem reads_string (s : Option String) : Reads (string s) := by
  obtain ⟨cs, written, read⟩ := exists_stringText s
  refine reads_of_chars (v := string s) written fun fuel rest _ _ => ?_
  rw [readValue, skipBlanks_of_not_blank (c := '"') rfl]
  simp only [read, Option.bind_eq_bind, Option.bind_some, Option.pure_def]

theorem reads_number {n : Numeral} (plain : n.Plain) : Reads (number n) := by
  obtain ⟨c, cs, written, starts⟩ := exists_numberText plain
  refine reads_of_chars (v := number n) written fun fuel rest _ ends => ?_
  have read := readNumber_numberText plain ends
  rw [written] at read
  rw [readValue_number starts]
  exact read

theorem exists_chars {v : Json} (plain : v.Plain) :
    ∃ c cs, v.chars = c :: cs ∧ isBlank c = false ∧ c ≠ ']' := by
  cases v with
  | null => exact ⟨'n', _, by rw [chars]; rfl, by decide, by decide⟩
  | bool value =>
      cases value with
      | true => exact ⟨'t', _, by rw [chars]; rfl, by decide, by decide⟩
      | false => exact ⟨'f', _, by rw [chars]; rfl, by decide, by decide⟩
  | number n =>
      obtain ⟨c, cs, written, starts⟩ := exists_numberText plain
      refine ⟨c, cs, written, starts.isBlank, ?_⟩
      rintro rfl
      exact absurd starts (by unfold StartsNumber; decide)
  | string s =>
      obtain ⟨cs, written, _⟩ := exists_stringText s
      exact ⟨'"', cs, written, by decide, by decide⟩
  | array vs =>
      cases vs with
      | nil => exact ⟨'[', _, by rw [chars]; rfl, by decide, by decide⟩
      | cons v vs => exact ⟨'[', _, by rw [chars], by decide, by decide⟩
  | object ms =>
      cases ms with
      | nil => exact ⟨'\x7b', _, by rw [chars]; rfl, by decide, by decide⟩
      | cons m ms => exact ⟨'\x7b', _, by rw [chars], by decide, by decide⟩

theorem reads_array {v : Json} {vs : List Json} (first : Reads v) (plain : v.Plain)
    (all : ∀ w ∈ vs, Reads w) : Reads (array (v :: vs)) := by
  refine reads_of_chars (by rw [chars]) fun fuel rest enough ends => ?_
  rw [List.length_append] at enough
  have read := readElements_chars first vs all fuel rest enough
  obtain ⟨c, cs, written, seen, not_closing⟩ := exists_chars plain
  rw [← List.append_assoc, written] at read
  rw [readValue, skipBlanks_of_not_blank (c := '[') rfl, written]
  simp only [List.cons_append, skipBlanks_of_not_blank seen] at read ⊢
  split
  · next same => exact absurd (List.cons.inj same).1 not_closing
  · rw [read]
    rfl

theorem reads_object {name : Option String} {v : Json} {ms : List (Option String × Json)}
    (first : Reads v) (all : ∀ m ∈ ms, Reads m.2) : Reads (object ((name, v) :: ms)) := by
  refine reads_of_chars (by rw [chars]) fun fuel rest enough ends => ?_
  simp only [List.length_append, List.length_cons] at enough
  obtain ⟨cs, written, _⟩ := exists_stringText name
  have read : readMembers fuel (stringText name ++ ':' :: (v.chars ++ (memberChars ms ++ rest))) =
      some ((name, v) :: ms, rest) := readMembers_chars first ms all fuel rest (by omega)
  rw [written] at read
  rw [readValue, skipBlanks_of_not_blank (c := '\x7b') rfl, written]
  simp only [List.cons_append, List.append_assoc, skipBlanks_of_not_blank (c := '"') rfl] at read ⊢
  split
  · next same => exact absurd (List.cons.inj same).1 (by decide)
  · rw [read]
    rfl

mutual

theorem Plain.reads : (v : Json) → v.Plain → Reads v
  | null, _ => reads_of_chars (by rw [chars]; rfl) fun _ _ _ _ => rfl
  | bool true, _ => reads_of_chars (by rw [chars]; rfl) fun _ _ _ _ => rfl
  | bool false, _ => reads_of_chars (by rw [chars]; rfl) fun _ _ _ _ => rfl
  | number n, plain => reads_number plain
  | string s, _ => reads_string s
  | array [], _ => reads_of_chars (by rw [chars]; rfl) fun _ _ _ _ => rfl
  | array (v :: vs), plain =>
      reads_array (Plain.reads v plain.1) plain.1 (PlainElements.reads vs plain.2)
  | object [], _ => reads_of_chars (by rw [chars]; rfl) fun _ _ _ _ => rfl
  | object ((_, v) :: ms), plain =>
      reads_object (Plain.reads v plain.1) (PlainMembers.reads ms plain.2)

theorem PlainElements.reads : (vs : List Json) → PlainElements vs → ∀ v ∈ vs, Reads v
  | [], _ => nofun
  | v :: vs, plain => List.forall_mem_cons.mpr ⟨Plain.reads v plain.1, PlainElements.reads vs plain.2⟩

theorem PlainMembers.reads :
    (ms : List (Option String × Json)) → PlainMembers ms → ∀ m ∈ ms, Reads m.2
  | [], _ => nofun
  | (_, v) :: ms, plain =>
      List.forall_mem_cons.mpr ⟨Plain.reads v plain.1, PlainMembers.reads ms plain.2⟩

end

theorem ofText?_text {v : Json} (plain : v.Plain) : ofText? v.text = some v := by
  have read := Plain.reads v plain (2 * v.chars.length + 2) [] (by omega) trivial
  rw [List.append_nil] at read
  rw [ofText?, text, String.toList_ofList, read]
  rfl

end Json

end Arbor
