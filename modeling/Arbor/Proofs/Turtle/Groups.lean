import Arbor.Turtle.Interpreter
import Mathlib.Data.List.Infix

/-!
# Bracket groups

A balanced word closes every bracket that it opens and no other; `[`, a balanced word and `]` make a
group.  Replaying a balanced word leaves the saved cursors as they were, and replaying groups leaves
the cursor as it was, too.  So a turtle that meets groups among its modules steers as if they were
not there, and draws what it would have drawn, with more in between: it stays within the other.
-/

set_option autoImplicit false

namespace Arbor

/-- The names of the modules of a sentence. -/
def SymbolTable.spelling (symbols : SymbolTable) (ms : List Module) : List String :=
  ms.map fun m => symbols.name m.symbol

theorem SymbolTable.spelling_cons (symbols : SymbolTable) (m : Module) (ms : List Module) :
    symbols.spelling (m :: ms) = symbols.name m.symbol :: symbols.spelling ms := rfl

theorem SymbolTable.spelling_append (symbols : SymbolTable) (ms ns : List Module) :
    symbols.spelling (ms ++ ns) = symbols.spelling ms ++ symbols.spelling ns := List.map_append

theorem SymbolTable.spelling_take (symbols : SymbolTable) (ms : List Module) (j : Nat) :
    symbols.spelling (ms.take j) = (symbols.spelling ms).take j := List.map_take

namespace Turtle

inductive Balanced : List String → Prop where
  | nil : Balanced []
  | plain (name : String) (rest : List String) : name ≠ "[" → name ≠ "]" → Balanced rest →
      Balanced (name :: rest)
  | group (inner rest : List String) : Balanced inner → Balanced rest →
      Balanced ("[" :: inner ++ "]" :: rest)

/-- Groups, and nothing between them. -/
inductive Groups : List String → Prop where
  | nil : Groups []
  | cons (inner rest : List String) : Balanced inner → Groups rest →
      Groups ("[" :: inner ++ "]" :: rest)

/-- The module, and groups after it. -/
def Sprouted (symbols : SymbolTable) (m : Module) (part : List Module) : Prop :=
  ∃ groups, part = m :: groups ∧ Groups (symbols.spelling groups)

/-- Two turtles at one place, of which the second has drawn all that the first has. -/
structure Within (p p' : Progress) : Prop where
  cursor_eq : p'.cursor = p.cursor
  saved_eq : p'.saved = p.saved
  sublist : List.Sublist p.segments p'.segments

def Interpreter.Reads (i : Interpreter) (symbols : SymbolTable) : Prop :=
  ∀ symbol, i.table.get symbol = Operation.standard (symbols.name symbol)

theorem Operation.standard_eq_push (name : String) : standard name = .push ↔ name = "[" := by
  unfold standard
  split <;> simp_all

theorem Operation.standard_eq_pop (name : String) : standard name = .pop ↔ name = "]" := by
  unfold standard
  split <;> simp_all

namespace Interpreter

/-! ## One module -/

theorem exists_of_step_eq_ok {i : Interpreter} {p q : Progress} {m : Module}
    (stepped : i.step p m = .ok q) :
    ∃ r, i.perform p m (i.table.get m.symbol) = .ok r ∧ q = { r with index := r.index + 1 } := by
  unfold step at stepped
  cases performed : i.perform p m (i.table.get m.symbol) with
  | error e =>
      rw [performed] at stepped
      exact nomatch stepped
  | ok r =>
      rw [performed] at stepped
      cases stepped
      exact ⟨r, rfl, rfl⟩

theorem walk_spec {i : Interpreter} {p q : Progress} {m : Module} {draws : Bool}
    (walked : i.walk p m draws = .ok q) :
    q.saved = p.saved ∧ p.segments <:+ q.segments := by
  unfold walk at walked
  split at walked
  · exact nomatch walked
  · cases walked
    refine ⟨rfl, ?_⟩
    cases draws with
    | false => exact List.suffix_refl _
    | true => exact List.suffix_cons _ _

theorem perform_plain {i : Interpreter} {p q : Progress} {m : Module} {op : Operation}
    (performed : i.perform p m op = .ok q) (unopened : op ≠ .push) (unclosed : op ≠ .pop) :
    q.saved = p.saved ∧ p.segments <:+ q.segments := by
  cases op with
  | draw => exact walk_spec performed
  | move => exact walk_spec performed
  | yaw sign => cases performed; exact ⟨rfl, List.suffix_refl _⟩
  | pitch sign => cases performed; exact ⟨rfl, List.suffix_refl _⟩
  | push => exact absurd rfl unopened
  | pop => exact absurd rfl unclosed
  | ignore => cases performed; exact ⟨rfl, List.suffix_refl _⟩

theorem perform_push {i : Interpreter} {p q : Progress} {m : Module}
    (performed : i.perform p m .push = .ok q) : q = { p with saved := p.cursor :: p.saved } := by
  unfold perform at performed
  dsimp only at performed
  split at performed
  · exact nomatch performed
  · exact (Except.ok.inj performed).symm

theorem perform_pop {i : Interpreter} {p q : Progress} {m : Module} {cursor : Cursor}
    {saved : List Cursor} (open_group : p.saved = cursor :: saved)
    (performed : i.perform p m .pop = .ok q) : q = { p with cursor, saved } := by
  unfold perform at performed
  rw [open_group] at performed
  exact (Except.ok.inj performed).symm

theorem perform_stray {i : Interpreter} {p q : Progress} {m : Module} (none_open : p.saved = [])
    (performed : i.perform p m .pop = .ok q) :
    q = { p with strayCloses := p.index :: p.strayCloses } := by
  unfold perform at performed
  rw [none_open] at performed
  cases policy : i.settings.underflow with
  | reject =>
      simp only [policy] at performed
      exact nomatch performed
  | ignore =>
      simp only [policy] at performed
      rw [← Except.ok.inj performed, none_open]

section Named
variable {i : Interpreter} {symbols : SymbolTable} (reads : i.Reads symbols)
  {p q : Progress} {m : Module} (stepped : i.step p m = .ok q)
include reads stepped

theorem step_plain (unopened : symbols.name m.symbol ≠ "[")
    (unclosed : symbols.name m.symbol ≠ "]") :
    q.saved = p.saved ∧ p.segments <:+ q.segments := by
  obtain ⟨r, performed, rfl⟩ := exists_of_step_eq_ok stepped
  rw [reads] at performed
  have kept := perform_plain performed (mt (Operation.standard_eq_push _).mp unopened)
    (mt (Operation.standard_eq_pop _).mp unclosed)
  exact kept

theorem step_open (opens : symbols.name m.symbol = "[") :
    q.cursor = p.cursor ∧ q.saved = p.cursor :: p.saved ∧ q.segments = p.segments := by
  obtain ⟨r, performed, rfl⟩ := exists_of_step_eq_ok stepped
  rw [reads, (Operation.standard_eq_push _).mpr opens] at performed
  rw [perform_push performed]
  exact ⟨rfl, rfl, rfl⟩

theorem step_close (closes : symbols.name m.symbol = "]") {cursor : Cursor}
    {saved : List Cursor} (open_group : p.saved = cursor :: saved) :
    q.cursor = cursor ∧ q.saved = saved ∧ q.segments = p.segments := by
  obtain ⟨r, performed, rfl⟩ := exists_of_step_eq_ok stepped
  rw [reads, (Operation.standard_eq_pop _).mpr closes] at performed
  rw [perform_pop open_group performed]
  exact ⟨rfl, rfl, rfl⟩

end Named

/-! ## Words -/

theorem replay_cons_eq {i : Interpreter} {p q : Progress} {m : Module} {ms : List Module}
    (replayed : i.replay p (m :: ms) = (q, none)) :
    ∃ r, i.step p m = .ok r ∧ i.replay r ms = (q, none) := by
  rw [replay] at replayed
  split at replayed
  · next r stepped => exact ⟨r, stepped, replayed⟩
  · cases replayed

theorem replay_append_eq {i : Interpreter} {p q : Progress} {ms ns : List Module}
    (replayed : i.replay p (ms ++ ns) = (q, none)) :
    ∃ r, i.replay p ms = (r, none) ∧ i.replay r ns = (q, none) := by
  rw [replay_append] at replayed
  split at replayed
  · next r first => exact ⟨r, first, replayed⟩
  · cases replayed

section Words
variable {i : Interpreter} {symbols : SymbolTable} (reads : i.Reads symbols)
include reads

theorem replay_group {inner rest : List String}
    (keeps : ∀ (ms : List Module) (p q : Progress), symbols.spelling ms = inner →
      i.replay p ms = (q, none) → q.saved = p.saved ∧ p.segments <:+ q.segments)
    {ms : List Module} {p q : Progress}
    (spelled : symbols.spelling ms = "[" :: inner ++ "]" :: rest)
    (replayed : i.replay p ms = (q, none)) :
    ∃ (ns : List Module) (r : Progress), symbols.spelling ns = rest ∧ r.cursor = p.cursor ∧
      r.saved = p.saved ∧ p.segments <:+ r.segments ∧ i.replay r ns = (q, none) := by
  rw [List.cons_append] at spelled
  obtain ⟨opening, ms, rfl, opens, spelled⟩ := List.map_eq_cons_iff.mp spelled
  obtain ⟨word, ms, rfl, spelled_word, spelled⟩ := List.map_eq_append_iff.mp spelled
  obtain ⟨closing, ns, rfl, closes, spelled⟩ := List.map_eq_cons_iff.mp spelled
  obtain ⟨a, opened, replayed⟩ := replay_cons_eq replayed
  obtain ⟨b, replayed_word, replayed⟩ := replay_append_eq replayed
  obtain ⟨r, closed, replayed⟩ := replay_cons_eq replayed
  obtain ⟨_, saved, segments⟩ := step_open reads opened opens
  obtain ⟨kept, drawn⟩ := keeps word a b spelled_word replayed_word
  obtain ⟨cursor', saved', segments'⟩ := step_close reads closed closes (kept.trans saved)
  refine ⟨ns, r, spelled, cursor', saved', ?_, replayed⟩
  rw [segments', ← segments]
  exact drawn

theorem replay_balanced {word : List String} (balanced : Balanced word) (ms : List Module)
    (p q : Progress) (spelled : symbols.spelling ms = word)
    (replayed : i.replay p ms = (q, none)) :
    q.saved = p.saved ∧ p.segments <:+ q.segments := by
  induction balanced generalizing ms p q with
  | nil =>
      obtain rfl : ms = [] := List.map_eq_nil_iff.mp spelled
      cases replayed
      exact ⟨rfl, List.suffix_refl _⟩
  | plain name rest unopened unclosed _ ih =>
      obtain ⟨m, ms, rfl, named, spelled_rest⟩ := List.map_eq_cons_iff.mp spelled
      subst named
      obtain ⟨r, stepped, replayed⟩ := replay_cons_eq replayed
      obtain ⟨saved, drawn⟩ := step_plain reads stepped unopened unclosed
      obtain ⟨saved', drawn'⟩ := ih ms r q spelled_rest replayed
      exact ⟨saved'.trans saved, drawn.trans drawn'⟩
  | group inner rest _ _ ih_inner ih_rest =>
      obtain ⟨ns, r, spelled, _, saved, drawn, replayed⟩ :=
        replay_group reads ih_inner spelled replayed
      obtain ⟨saved', drawn'⟩ := ih_rest ns r q spelled replayed
      exact ⟨saved'.trans saved, drawn.trans drawn'⟩

theorem replay_groups {word : List String} (groups : Groups word) (ms : List Module)
    (p q : Progress) (spelled : symbols.spelling ms = word)
    (replayed : i.replay p ms = (q, none)) :
    q.cursor = p.cursor ∧ q.saved = p.saved ∧ p.segments <:+ q.segments := by
  induction groups generalizing ms p q with
  | nil =>
      obtain rfl : ms = [] := List.map_eq_nil_iff.mp spelled
      cases replayed
      exact ⟨rfl, rfl, List.suffix_refl _⟩
  | cons inner rest balanced _ ih =>
      obtain ⟨ns, r, spelled, cursor, saved, drawn, replayed⟩ :=
        replay_group reads (replay_balanced reads balanced) spelled replayed
      obtain ⟨cursor', saved', drawn'⟩ := ih ns r q spelled replayed
      exact ⟨cursor'.trans cursor, saved'.trans saved, drawn.trans drawn'⟩

end Words

/-! ## Turtles that draw more -/

theorem walk_within {i : Interpreter} {p p' q q' : Progress} {m : Module} {draws : Bool}
    (within : Within p p') (walked : i.walk p m draws = .ok q)
    (walked' : i.walk p' m draws = .ok q') : Within q q' := by
  unfold walk at walked walked'
  cases lengthened : i.walkLength m with
  | none =>
      rw [lengthened] at walked
      exact nomatch walked
  | some length =>
      rw [lengthened] at walked walked'
      cases walked
      cases walked'
      obtain ⟨cursor_eq, saved_eq, sublist⟩ := within
      refine ⟨by simp only [cursor_eq], saved_eq, ?_⟩
      cases draws with
      | false => exact sublist
      | true =>
          simp only [cursor_eq]
          exact sublist.cons_cons _

theorem perform_within {i : Interpreter} {p p' q q' : Progress} {m : Module} {op : Operation}
    (within : Within p p') (performed : i.perform p m op = .ok q)
    (performed' : i.perform p' m op = .ok q') : Within q q' := by
  cases op with
  | draw => exact walk_within within performed performed'
  | move => exact walk_within within performed performed'
  | yaw sign =>
      cases performed
      cases performed'
      exact ⟨by simp only [within.cursor_eq], within.saved_eq, within.sublist⟩
  | pitch sign =>
      cases performed
      cases performed'
      exact ⟨by simp only [within.cursor_eq], within.saved_eq, within.sublist⟩
  | push =>
      rw [perform_push performed, perform_push performed']
      exact ⟨within.cursor_eq, by rw [within.cursor_eq, within.saved_eq], within.sublist⟩
  | pop =>
      cases saved : p.saved with
      | cons cursor saved' =>
          rw [perform_pop saved performed, perform_pop (within.saved_eq.trans saved) performed']
          exact ⟨rfl, rfl, within.sublist⟩
      | nil =>
          -- No group is open for either turtle, so both skip the close or both refuse it.
          rw [perform_stray saved performed, perform_stray (within.saved_eq.trans saved) performed']
          exact ⟨within.cursor_eq, within.saved_eq, within.sublist⟩
  | ignore =>
      cases performed
      cases performed'
      exact within

theorem step_within {i : Interpreter} {p p' q q' : Progress} {m : Module}
    (within : Within p p') (stepped : i.step p m = .ok q) (stepped' : i.step p' m = .ok q') :
    Within q q' := by
  obtain ⟨r, performed, rfl⟩ := exists_of_step_eq_ok stepped
  obtain ⟨r', performed', rfl⟩ := exists_of_step_eq_ok stepped'
  obtain ⟨cursor_eq, saved_eq, sublist⟩ := perform_within within performed performed'
  exact ⟨cursor_eq, saved_eq, sublist⟩

/-- Groups after the modules of a sentence leave a turtle within the one that meets them. -/
theorem replay_within {i : Interpreter} {symbols : SymbolTable} (reads : i.Reads symbols)
    {ms : List Module} {parts : List (List Module)}
    (sprouted : List.Forall₂ (Sprouted symbols) ms parts) {p p' q q' : Progress}
    (within : Within p p') (replayed : i.replay p ms = (q, none))
    (replayed' : i.replay p' parts.flatten = (q', none)) : Within q q' := by
  induction sprouted generalizing p p' with
  | nil =>
      cases replayed
      cases replayed'
      exact within
  | cons first _ ih =>
      obtain ⟨groups, rfl, spelled⟩ := first
      rw [List.flatten_cons, List.cons_append] at replayed'
      obtain ⟨r, stepped, replayed⟩ := replay_cons_eq replayed
      obtain ⟨r', stepped', replayed'⟩ := replay_cons_eq replayed'
      obtain ⟨s', passed, replayed'⟩ := replay_append_eq replayed'
      obtain ⟨cursor_eq, saved_eq, sublist⟩ := step_within within stepped stepped'
      -- Behind its groups the second turtle is where the first one stands after the module alone.
      obtain ⟨cursor, saved, drawn⟩ := replay_groups reads spelled groups r' s' rfl passed
      have later : Within r s' :=
        ⟨cursor.trans cursor_eq, saved.trans saved_eq, sublist.trans drawn.sublist⟩
      exact ih later replayed replayed'

end Interpreter

end Turtle

end Arbor
