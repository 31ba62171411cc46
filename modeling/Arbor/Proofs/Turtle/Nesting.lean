import Arbor.Proofs.Turtle.Groups

/-!
# How deep brackets are nested

A turtle that refuses stray closes has as many cursors saved as brackets are open.  So what stops it
at a bracket tells how deep the word is nested there: a close where nothing is open takes the
nesting below zero, which does not happen in a balanced word, and an overflow is the first place at
which the nesting exceeds the depth of the stack.
-/

set_option autoImplicit false

namespace Arbor.Turtle

/-- By how much a name changes the number of open brackets. -/
def rise (name : String) : Int := if name = "[" then 1 else if name = "]" then -1 else 0

def nesting : List String → Int
  | [] => 0
  | name :: word => rise name + nesting word

/-- At the index, and nowhere before, more than `depth` brackets are open. -/
structure Exceeds (word : List String) (depth index : Nat) : Prop where
  earlier : ∀ j ≤ index, nesting (word.take j) ≤ depth
  reached : nesting (word.take (index + 1)) = depth + 1

theorem nesting_nil : nesting [] = 0 := rfl

theorem nesting_cons (name : String) (word : List String) :
    nesting (name :: word) = rise name + nesting word := rfl

theorem nesting_append (word rest : List String) :
    nesting (word ++ rest) = nesting word + nesting rest := by
  induction word with
  | nil => exact (Int.zero_add _).symm
  | cons name word ih => rw [List.cons_append, nesting_cons, nesting_cons, ih, Int.add_assoc]

theorem rise_open : rise "[" = 1 := rfl

theorem rise_close : rise "]" = -1 := rfl

theorem rise_plain {name : String} (unopened : name ≠ "[") (unclosed : name ≠ "]") :
    rise name = 0 := by
  rw [rise, if_neg unopened, if_neg unclosed]

theorem Balanced.nesting_eq_zero {word : List String} (balanced : Balanced word) :
    nesting word = 0 := by
  induction balanced with
  | nil => rfl
  | plain name rest unopened unclosed _ ih =>
      rw [nesting_cons, rise_plain unopened unclosed, ih]
      rfl
  | group inner rest _ _ ih_inner ih_rest =>
      rw [List.cons_append, nesting_cons, nesting_append, nesting_cons, rise_open, rise_close,
        ih_inner, ih_rest]
      rfl

theorem Balanced.nesting_take_nonneg {word : List String} (balanced : Balanced word) (j : Nat) :
    0 ≤ nesting (word.take j) := by
  induction balanced generalizing j with
  | nil => rw [List.take_nil]; exact Int.le_refl 0
  | plain name rest unopened unclosed _ ih =>
      cases j with
      | zero => exact Int.le_refl 0
      | succ j =>
          rw [List.take_succ_cons, nesting_cons, rise_plain unopened unclosed]
          have := ih j
          omega
  | group inner rest balanced_inner _ ih_inner ih_rest =>
      cases j with
      | zero => exact Int.le_refl 0
      | succ j =>
          rw [List.cons_append, List.take_succ_cons, nesting_cons, rise_open, List.take_append,
            nesting_append]
          rcases Nat.lt_or_ge inner.length j with beyond | within
          · obtain ⟨k, rfl⟩ := Nat.exists_eq_add_of_lt beyond
            have behind : inner.length + k + 1 - inner.length = k + 1 := by omega
            have rest_nonneg := ih_rest k
            rw [behind, List.take_of_length_le (by omega), balanced_inner.nesting_eq_zero,
              List.take_succ_cons, nesting_cons, rise_close]
            omega
          · have inner_nonneg := ih_inner j
            rw [Nat.sub_eq_zero_of_le within, List.take_zero, nesting_nil]
            omega

namespace Interpreter

/-! ## One module -/

theorem walk_index {i : Interpreter} {p q : Progress} {m : Module} {draws : Bool}
    (walked : i.walk p m draws = .ok q) : q.index = p.index := by
  unfold walk at walked
  split at walked
  · exact nomatch walked
  · cases walked
    rfl

theorem walk_error {i : Interpreter} {p : Progress} {m : Module} {draws : Bool}
    {e : InterpretError} (failed : i.walk p m draws = .error e) :
    e = .degenerateSegment p.index := by
  unfold walk at failed
  split at failed
  · exact (Except.error.inj failed).symm
  · exact nomatch failed

theorem perform_index {i : Interpreter} {p q : Progress} {m : Module} {op : Operation}
    (performed : i.perform p m op = .ok q) : q.index = p.index := by
  cases op with
  | draw => exact walk_index performed
  | move => exact walk_index performed
  | yaw sign => cases performed; rfl
  | pitch sign => cases performed; rfl
  | push => rw [perform_push performed]
  | pop =>
      cases saved : p.saved with
      | nil => rw [perform_stray saved performed]
      | cons cursor saved' => rw [perform_pop saved performed]
  | ignore => cases performed; rfl

theorem perform_push_fits {i : Interpreter} {p q : Progress} {m : Module}
    (performed : i.perform p m .push = .ok q) :
    p.saved.length < i.settings.maxStackDepth.toNat := by
  unfold perform at performed
  dsimp only at performed
  split at performed
  · exact nomatch performed
  · next fits => exact Nat.lt_of_not_le fits

/-- What can stop a turtle at a module. -/
inductive Stop (i : Interpreter) (p : Progress) : Operation → InterpretError → Prop where
  | draw : Stop i p .draw (.degenerateSegment p.index)
  | move : Stop i p .move (.degenerateSegment p.index)
  | push : i.settings.maxStackDepth.toNat ≤ p.saved.length →
      Stop i p .push (.stackOverflow p.index i.settings.maxStackDepth.toNat)
  | pop : p.saved = [] → i.settings.underflow = .reject → Stop i p .pop (.unbalancedBranch p.index)

theorem perform_error {i : Interpreter} {p : Progress} {m : Module} {op : Operation}
    {e : InterpretError} (failed : i.perform p m op = .error e) : Stop i p op e := by
  cases op with
  | draw => rw [walk_error failed]; exact .draw
  | move => rw [walk_error failed]; exact .move
  | yaw sign => exact nomatch failed
  | pitch sign => exact nomatch failed
  | push =>
      unfold perform at failed
      dsimp only at failed
      split at failed
      · next full => cases failed; exact .push full
      · exact nomatch failed
  | pop =>
      unfold perform at failed
      dsimp only at failed
      split at failed
      · exact nomatch failed
      · next empty reject => cases failed; exact .pop empty reject
      · exact nomatch failed
  | ignore => exact nomatch failed

theorem step_error {i : Interpreter} {p : Progress} {m : Module} {e : InterpretError}
    (failed : i.step p m = .error e) : Stop i p (i.table.get m.symbol) e := by
  unfold step at failed
  cases performed : i.perform p m (i.table.get m.symbol) with
  | error e' =>
      rw [performed] at failed
      cases failed
      exact perform_error performed
  | ok q =>
      rw [performed] at failed
      exact nomatch failed

theorem replay_error {i : Interpreter} {p q : Progress} {ms : List Module} {e : InterpretError}
    (failed : i.replay p ms = (q, some e)) :
    ∃ before m after, ms = before ++ m :: after ∧ i.replay p before = (q, none) ∧
      i.step q m = .error e := by
  induction ms generalizing p with
  | nil => exact nomatch failed
  | cons m ms ih =>
      rw [replay] at failed
      split at failed
      · next r stepped =>
          obtain ⟨before, m', after, rfl, replayed, stopped⟩ := ih failed
          refine ⟨m :: before, m', after, rfl, ?_, stopped⟩
          rw [replay, stepped]
          exact replayed
      · next e' stopped =>
          cases failed
          exact ⟨[], m, ms, rfl, rfl, stopped⟩

/-! ## Cursors and brackets -/

section Counting
variable {i : Interpreter} {symbols : SymbolTable} (reads : i.Reads symbols)
  (reject : i.settings.underflow = .reject)
include reads reject

theorem step_nesting {p q : Progress} {m : Module} (stepped : i.step p m = .ok q)
    (fits : p.saved.length ≤ i.settings.maxStackDepth.toNat) :
    q.index = p.index + 1 ∧ (q.saved.length : Int) = p.saved.length + rise (symbols.name m.symbol) ∧
      q.saved.length ≤ i.settings.maxStackDepth.toNat := by
  obtain ⟨r, performed, rfl⟩ := exists_of_step_eq_ok stepped
  have index := congrArg (· + 1) (perform_index performed)
  rw [reads] at performed
  refine ⟨index, ?_⟩
  by_cases opens : symbols.name m.symbol = "["
  · rw [(Operation.standard_eq_push _).mpr opens] at performed
    have room := perform_push_fits performed
    rw [perform_push performed, opens, rise_open]
    exact ⟨rfl, room⟩
  by_cases closes : symbols.name m.symbol = "]"
  · rw [(Operation.standard_eq_pop _).mpr closes] at performed
    rw [closes, rise_close]
    cases saved : p.saved with
    | nil =>
        -- The turtle does not pass a stray close.
        unfold perform at performed
        rw [saved, reject] at performed
        exact nomatch performed
    | cons cursor saved' =>
        rw [saved, List.length_cons] at fits
        rw [perform_pop saved performed, List.length_cons]
        exact ⟨by dsimp only; omega, Nat.le_of_succ_le fits⟩
  · obtain ⟨saved, _⟩ := perform_plain performed (mt (Operation.standard_eq_push _).mp opens)
      (mt (Operation.standard_eq_pop _).mp closes)
    rw [rise_plain opens closes]
    dsimp only
    rw [saved]
    exact ⟨(Int.add_zero _).symm, fits⟩

theorem replay_nesting {ms : List Module} {p q : Progress} (replayed : i.replay p ms = (q, none))
    (fits : p.saved.length ≤ i.settings.maxStackDepth.toNat) :
    q.index = p.index + ms.length ∧
      (q.saved.length : Int) = p.saved.length + nesting (symbols.spelling ms) ∧
      q.saved.length ≤ i.settings.maxStackDepth.toNat := by
  induction ms generalizing p with
  | nil =>
      cases replayed
      exact ⟨rfl, (Int.add_zero _).symm, fits⟩
  | cons m ms ih =>
      obtain ⟨r, stepped, replayed⟩ := replay_cons_eq replayed
      obtain ⟨index, saved, fits'⟩ := step_nesting reads reject stepped fits
      obtain ⟨index', saved', fits''⟩ := ih replayed fits'
      refine ⟨?_, ?_, fits''⟩
      · rw [index', index, List.length_cons]
        omega
      · rw [saved', saved, SymbolTable.spelling_cons, nesting_cons, Int.add_assoc]

/-- A turtle that starts with nothing saved has a cursor saved for every open bracket. -/
theorem run_nesting {sentence : List Module} {q : Progress} (passed : i.run sentence = (q, none)) :
    q.index = sentence.length ∧ (q.saved.length : Int) = nesting (symbols.spelling sentence) ∧
      q.saved.length ≤ i.settings.maxStackDepth.toNat := by
  obtain ⟨index, saved, fits⟩ := replay_nesting reads reject passed (Nat.zero_le _)
  exact ⟨index.trans (Nat.zero_add _), saved.trans (Int.zero_add _), fits⟩

theorem nesting_take_le {sentence : List Module} {q : Progress}
    (passed : i.run sentence = (q, none)) (j : Nat) :
    nesting ((symbols.spelling sentence).take j) ≤ i.settings.maxStackDepth.toNat := by
  rw [← List.take_append_drop j sentence] at passed
  obtain ⟨r, replayed, _⟩ := replay_append_eq passed
  obtain ⟨_, saved, fits⟩ := run_nesting reads reject replayed
  rw [← SymbolTable.spelling_take, ← saved]
  exact Int.ofNat_le.mpr fits

/-- In a balanced word a turtle meets no stray close, and its stack overflows only where the word
is nested deeper than the stack for the first time. -/
theorem run_error_of_balanced {sentence : List Module} {q : Progress} {e : InterpretError}
    (balanced : Balanced (symbols.spelling sentence)) (failed : i.run sentence = (q, some e)) :
    (∀ index, e ≠ .unbalancedBranch index) ∧
      ∀ index depth, e = .stackOverflow index depth →
        depth = i.settings.maxStackDepth.toNat ∧
          Exceeds (symbols.spelling sentence) depth index := by
  obtain ⟨before, m, after, rfl, replayed, stopped⟩ := replay_error failed
  obtain ⟨index, saved, fits⟩ := run_nesting reads reject replayed
  have reached : nesting ((symbols.spelling (before ++ m :: after)).take (q.index + 1)) =
      q.saved.length + rise (symbols.name m.symbol) := by
    rw [index, ← SymbolTable.spelling_take, List.take_length_add_append, List.take_succ_cons,
      List.take_zero, SymbolTable.spelling_append, nesting_append, saved, SymbolTable.spelling_cons,
      nesting_cons]
    exact congrArg _ (Int.add_zero _)
  have stop := step_error stopped
  rw [reads] at stop
  generalize op_eq : Operation.standard (symbols.name m.symbol) = op at stop
  cases stop with
  | draw => exact ⟨nofun, nofun⟩
  | move => exact ⟨nofun, nofun⟩
  | push full =>
      refine ⟨nofun, ?_⟩
      rintro index depth ⟨⟩
      rw [(Operation.standard_eq_push _).mp op_eq, rise_open] at reached
      refine ⟨rfl, ?_, ?_⟩
      · intro j le
        rw [← SymbolTable.spelling_take, List.take_append_of_le_length (index ▸ le),
          SymbolTable.spelling_take]
        exact nesting_take_le reads reject replayed j
      · rw [reached]
        omega
  | pop empty _ =>
      exfalso
      rw [(Operation.standard_eq_pop _).mp op_eq, rise_close, empty] at reached
      have nonneg := balanced.nesting_take_nonneg (q.index + 1)
      rw [reached] at nonneg
      exact absurd nonneg (by decide)

end Counting

end Interpreter

end Arbor.Turtle
