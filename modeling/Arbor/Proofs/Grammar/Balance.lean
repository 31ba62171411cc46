import Arbor.Proofs.Grammar.Sprouting

/-!
# Grammars that keep brackets balanced

When the sentence and all successors close just the brackets that they open, and no rule replaces a
bracket, every generation is balanced: each bracket of a sentence stays where it is, and what stands
between brackets is replaced by balanced words.  In a balanced sentence every bracket has a partner,
so a derivation never fails for want of one.
-/

set_option autoImplicit false

namespace Arbor

open Turtle (Balanced)

theorem Turtle.Balanced.append {word rest : List String} (first : Balanced word)
    (second : Balanced rest) : Balanced (word ++ rest) := by
  induction first with
  | nil => exact second
  | plain name word unopened unclosed _ ih => exact .plain name _ unopened unclosed ih
  | group inner word inside _ _ ih =>
      rw [List.append_assoc, List.cons_append]
      exact .group inner _ inside ih

namespace Grammar

/-- Sentence and successors are balanced, and brackets are not replaced. -/
structure Bracketed (g : Grammar) : Prop where
  sentence : Balanced (g.symbols.spelling g.sentence)
  successors : ∀ r ∈ g.rules, Balanced (r.successors.map fun t => g.symbols.name t.symbol)
  unopened : ∀ r ∈ g.rules, g.symbols.name r.predecessor.symbol ≠ "["
  unclosed : ∀ r ∈ g.rules, g.symbols.name r.predecessor.symbol ≠ "]"

/-! ## Generations -/

/-- A bracket is kept, and any other module becomes a balanced word. -/
structure Substituted (symbols : SymbolTable) (m : Module) (part : List Module) : Prop where
  opening : symbols.name m.symbol = "[" → part = [m]
  closing : symbols.name m.symbol = "]" → part = [m]
  plain : symbols.name m.symbol ≠ "[" → symbols.name m.symbol ≠ "]" →
    Balanced (symbols.spelling part)

theorem Bracketed.substituted {g : Grammar} (bracketed : g.Bracketed) {m : Module}
    {part : List Module} (replaced : Replaced g.rules m part) : Substituted g.symbols m part := by
  rcases replaced with rfl | ⟨r, listed, symbol, _, context, made⟩
  · refine ⟨fun _ => rfl, fun _ => rfl, ?_⟩
    intro unopened unclosed
    exact .plain _ _ unopened unclosed .nil
  · have unopened := bracketed.unopened r listed
    have unclosed := bracketed.unclosed r listed
    rw [symbol] at unopened unclosed
    refine ⟨fun opens => absurd opens unopened, fun closes => absurd closes unclosed, ?_⟩
    intro _ _
    rw [spelling_instantiate g.symbols _ _ _ made]
    exact bracketed.successors r listed

theorem exists_of_forall₂_append {α β : Type} {R : α → β → Prop} {as bs : List α} {cs : List β}
    (all : List.Forall₂ R (as ++ bs) cs) :
    ∃ us vs, cs = us ++ vs ∧ List.Forall₂ R as us ∧ List.Forall₂ R bs vs :=
  ⟨cs.take as.length, cs.drop as.length, (List.take_append_drop _ cs).symm,
    (List.forall₂_take_append cs as bs all.flip).flip,
    (List.forall₂_drop_append cs as bs all.flip).flip⟩

theorem balanced_flatten {symbols : SymbolTable} {word : List String} (balanced : Balanced word)
    {ms : List Module} {parts : List (List Module)} (spelled : symbols.spelling ms = word)
    (substituted : List.Forall₂ (Substituted symbols) ms parts) :
    Balanced (symbols.spelling parts.flatten) := by
  induction balanced generalizing ms parts with
  | nil =>
      obtain rfl : ms = [] := List.map_eq_nil_iff.mp spelled
      cases substituted
      exact .nil
  | plain name rest unopened unclosed _ ih =>
      obtain ⟨m, ms, rfl, named, spelled_rest⟩ := List.map_eq_cons_iff.mp spelled
      subst named
      obtain ⟨part, parts, first, others, rfl⟩ := List.forall₂_cons_left_iff.mp substituted
      rw [List.flatten_cons, SymbolTable.spelling_append]
      exact (first.plain unopened unclosed).append (ih spelled_rest others)
  | group inner rest _ _ ih_inner ih_rest =>
      rw [List.cons_append] at spelled
      obtain ⟨opening, ms, rfl, opens, spelled⟩ := List.map_eq_cons_iff.mp spelled
      obtain ⟨inside, ms, rfl, spelled_inside, spelled⟩ := List.map_eq_append_iff.mp spelled
      obtain ⟨closing, after, rfl, closes, spelled⟩ := List.map_eq_cons_iff.mp spelled
      obtain ⟨part, parts, first, others, rfl⟩ := List.forall₂_cons_left_iff.mp substituted
      obtain ⟨within, parts, rfl, all_inside, others⟩ := exists_of_forall₂_append others
      obtain ⟨part', behind, last, all_after, rfl⟩ := List.forall₂_cons_left_iff.mp others
      obtain rfl := first.opening opens
      obtain rfl := last.closing closes
      have grown :=
        Balanced.group _ _ (ih_inner spelled_inside all_inside) (ih_rest spelled all_after)
      rw [← opens, ← closes] at grown
      simpa only [List.flatten_cons, List.flatten_append, SymbolTable.spelling_append,
        SymbolTable.spelling_cons, List.cons_append, List.nil_append] using grown

theorem Bracketed.advance {g : Grammar} (bracketed : g.Bracketed) : g.advance.1.Bracketed := by
  unfold Grammar.advance
  split
  · next generator sentence derived =>
      obtain ⟨parts, replaced, rfl⟩ := derive_replaced g.rules _ _ _ _ _ derived
      have substituted := replaced.imp fun _ _ => bracketed.substituted
      exact { bracketed with sentence := balanced_flatten bracketed.sentence rfl substituted }
  · exact { bracketed with }

/-! ## Partners -/

structure Brackets.Named (b : Brackets) (symbols : SymbolTable) : Prop where
  opening_iff : ∀ symbol, symbol = b.opening ↔ symbols.name symbol = "["
  closing_iff : ∀ symbol, symbol = b.closing ↔ symbols.name symbol = "]"

theorem Brackets.named_of_ofTable? {symbols : SymbolTable} (distinct : symbols.Distinct)
    {b : Brackets} (found : Brackets.ofTable? symbols = some b) : b.Named symbols := by
  unfold Brackets.ofTable? at found
  obtain ⟨opening, found_opening, found⟩ := Option.bind_eq_some_iff.mp found
  obtain ⟨closing, found_closing, found⟩ := Option.bind_eq_some_iff.mp found
  cases found
  have named : ∀ name symbol number, name ≠ "" → symbols.find? name = some number →
      (symbol = number ↔ symbols.name symbol = name) := by
    intro name symbol number nonempty numbered
    rw [SymbolTable.name, eq_comm, ← Option.some_inj, ← numbered, distinct.find?_eq_some_iff]
    cases symbols.names[symbol]? with
    | none => exact ⟨nofun, fun empty => absurd empty.symm nonempty⟩
    | some other => exact Option.some_inj
  exact ⟨fun symbol => named "[" symbol opening (by decide) found_opening,
    fun symbol => named "]" symbol closing (by decide) found_closing⟩

theorem Brackets.pairFrom_plain {b : Brackets} {symbol : Nat} (unopened : symbol ≠ b.opening)
    (unclosed : symbol ≠ b.closing) (index : Nat) (opened rest : List Nat) :
    b.pairFrom index opened (symbol :: rest) = b.pairFrom (index + 1) opened rest := by
  cases opened with
  | nil => rw [pairFrom, if_neg unopened, if_neg unclosed]
  | cons start opened => rw [pairFrom, if_neg unopened, if_neg unclosed]

theorem Brackets.pairFrom_opening (b : Brackets) (index : Nat) (opened rest : List Nat) :
    b.pairFrom index opened (b.opening :: rest) =
      if maxOpen ≤ opened.length then .error .tooDeep
      else b.pairFrom (index + 1) (index :: opened) rest := by
  cases opened with
  | nil => rw [pairFrom, if_pos rfl]
  | cons start opened => rw [pairFrom, if_pos rfl]

/-- The search for partners gets through a balanced word with the brackets open that were open
before: a bracket without a partner stands behind the word. -/
theorem pairFrom_balanced {b : Brackets} {symbols : SymbolTable} (named : b.Named symbols)
    {word : List String} (balanced : Balanced word) {numbers rest : List Nat}
    (spelled : numbers.map symbols.name = word) {index j : Nat} {opened : List Nat}
    (failed : b.pairFrom index opened (numbers ++ rest) = .error (.unmatched j)) :
    ∃ later, b.pairFrom later opened rest = .error (.unmatched j) := by
  induction balanced generalizing numbers rest index opened with
  | nil =>
      obtain rfl : numbers = [] := List.map_eq_nil_iff.mp spelled
      exact ⟨index, failed⟩
  | plain name word unopened unclosed _ ih =>
      obtain ⟨number, numbers, rfl, rfl, spelled_word⟩ := List.map_eq_cons_iff.mp spelled
      rw [List.cons_append, Brackets.pairFrom_plain (mt (named.opening_iff number).mp unopened)
        (mt (named.closing_iff number).mp unclosed)] at failed
      exact ih spelled_word failed
  | group inner word _ _ ih_inner ih_word =>
      rw [List.cons_append] at spelled
      obtain ⟨opening, numbers, rfl, opens, spelled⟩ := List.map_eq_cons_iff.mp spelled
      obtain ⟨inside, numbers, rfl, spelled_inside, spelled⟩ := List.map_eq_append_iff.mp spelled
      obtain ⟨closing, after, rfl, closes, spelled_word⟩ := List.map_eq_cons_iff.mp spelled
      obtain rfl := (named.opening_iff opening).mpr opens
      rw [List.cons_append, Brackets.pairFrom_opening] at failed
      split at failed
      · exact nomatch failed
      · rw [List.append_assoc, List.cons_append] at failed
        -- Behind the inner word the opening bracket is still the innermost one.
        obtain ⟨later, failed⟩ := ih_inner spelled_inside failed
        have unopened : closing ≠ b.opening := by
          intro same
          have opens := (named.opening_iff closing).mp same
          rw [closes] at opens
          exact absurd opens (by decide)
        rw [Brackets.pairFrom, if_neg unopened, if_pos ((named.closing_iff closing).mpr closes)]
          at failed
        obtain failed | ⟨_, _, failed⟩ := error_of_bind_eq_error failed
        · exact ih_word spelled_word failed
        · exact nomatch failed

theorem mark_ne_unmatched {symbols : SymbolTable} (distinct : symbols.Distinct)
    {sentence : List Module} (balanced : Balanced (symbols.spelling sentence)) (j : Nat) :
    mark (Brackets.ofTable? symbols) sentence ≠ .error (.unmatched j) := by
  intro failed
  unfold mark at failed
  split at failed
  · exact nomatch failed
  · next b found =>
      obtain failed | ⟨_, _, failed⟩ := error_of_bind_eq_error failed
      · have spelled : (sentence.map Module.symbol).map symbols.name = symbols.spelling sentence :=
          List.map_map
        rw [Brackets.pair, ← List.append_nil (sentence.map Module.symbol)] at failed
        obtain ⟨_, stray⟩ :=
          pairFrom_balanced (Brackets.named_of_ofTable? distinct found) balanced spelled failed
        exact nomatch stray
      · exact nomatch failed

/-! ## Failures of rules -/

theorem Rule.match?_error {r : Rule} {before : List MarkedModule} {m : Module}
    {after : List MarkedModule} {e : GrammarError} (failed : r.match? before m after = .error e) :
    ∃ cause, e = .condition cause := by
  unfold Rule.match? at failed
  split at failed
  · exact nomatch failed
  · exact nomatch failed
  · split at failed
    · exact nomatch failed
    · next cause _ => exact ⟨cause, (Except.error.inj failed).symm⟩

theorem matches?_error {before : List MarkedModule} {m : Module} {after : List MarkedModule}
    {rules : List Rule} {e : GrammarError} (failed : matches? before m after rules = .error e) :
    ∃ cause, e = .condition cause := by
  induction rules with
  | nil => exact nomatch failed
  | cons r rules ih =>
      rw [matches?] at failed
      obtain failed | ⟨_, _, failed⟩ := error_of_bind_eq_error failed
      · exact Rule.match?_error failed
      · obtain failed | ⟨_, _, failed⟩ := error_of_bind_eq_error failed
        · exact ih failed
        · cases failed

theorem select_error {rules : List Rule} {g g' : Generator} {before : List MarkedModule}
    {m : Module} {after : List MarkedModule} {e : GrammarError}
    (failed : select rules g before m after = (g', .error e)) : ∃ cause, e = .condition cause := by
  unfold select at failed
  split at failed
  · exact nomatch failed
  · next r _ =>
      split at failed
      · cases matched : r.match? before m after with
        | error e' =>
            rw [matched] at failed
            cases failed
            exact Rule.match?_error matched
        | ok frame =>
            rw [matched] at failed
            exact nomatch failed
      · exact nomatch failed
  · split at failed
    · next e' matched =>
        cases failed
        exact matches?_error matched
    · exact nomatch failed

theorem instantiate_error {frame : List Float} {ts : List Template} {e : GrammarError}
    (failed : instantiate frame ts = .error e) : ∃ cause, e = .parameter cause := by
  induction ts with
  | nil => exact nomatch failed
  | cons t ts ih =>
      rw [instantiate] at failed
      split at failed
      · next cause _ => exact ⟨cause, (Except.error.inj failed).symm⟩
      · obtain failed | ⟨_, _, failed⟩ := error_of_bind_eq_error failed
        · exact ih failed
        · cases failed

theorem replace_error {rules : List Rule} {g g' : Generator} {before : List MarkedModule}
    {m : Module} {after : List MarkedModule} {e : GrammarError}
    (failed : replace rules g before m after = (g', .error e)) :
    ∃ cause, e = .condition cause ∨ e = .parameter cause := by
  unfold replace at failed
  split at failed
  · next selected =>
      cases failed
      obtain ⟨cause, condition⟩ := select_error selected
      exact ⟨cause, .inl condition⟩
  · exact nomatch failed
  · obtain ⟨cause, parameter⟩ := instantiate_error (congrArg Prod.snd failed)
    exact ⟨cause, .inr parameter⟩

theorem replaceFrom_error {rules : List Rule} {after : List MarkedModule} {g g' : Generator}
    {before : List MarkedModule} {made : List Module} {e : GrammarError}
    (failed : replaceFrom rules g before made after = (g', .error e)) :
    ∃ cause, e = .condition cause ∨ e = .parameter cause := by
  induction after generalizing g before made with
  | nil => exact nomatch failed
  | cons m after ih =>
      rw [replaceFrom] at failed
      split at failed
      · next stopped =>
          cases failed
          exact replace_error stopped
      · exact ih failed

theorem derive_error_brackets {rules : List Rule} {brackets : Option Brackets} {g g' : Generator}
    {sentence : List Module} {cause : BracketError}
    (failed : derive rules brackets g sentence = (g', .error (.brackets cause))) :
    mark brackets sentence = .error cause := by
  unfold derive at failed
  split at failed
  · next unmarked =>
      cases failed
      exact unmarked
  · obtain ⟨_, condition | parameter⟩ := replaceFrom_error failed
    · exact nomatch condition
    · exact nomatch parameter

theorem Bracketed.advance_ne_unmatched {g : Grammar} (bracketed : g.Bracketed)
    (distinct : g.symbols.Distinct) {next : Grammar} {e : GrammarError}
    (failed : g.advance = (next, .error e)) (j : Nat) : e ≠ .brackets (.unmatched j) := by
  rintro rfl
  unfold Grammar.advance at failed
  split at failed
  · exact nomatch failed
  · next derived =>
      cases failed
      exact mark_ne_unmatched distinct bracketed.sentence j (derive_error_brackets derived)

end Grammar

end Arbor
