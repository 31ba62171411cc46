import Arbor.Grammar.Basic
import Mathlib.Data.List.Nodup

/-!
# Grammars as they are read

No table that a grammar builds has a name twice, so the number of a name and the name of a number
determine each other.
-/

set_option autoImplicit false

namespace Arbor

section Results
variable {ε α β : Type}

theorem exists_of_bind_eq_ok {x : Except ε α} {f : α → Except ε β} {b : β}
    (run : (x >>= f) = .ok b) : ∃ a, x = .ok a ∧ f a = .ok b := by
  cases x with
  | error e => exact nomatch run
  | ok a => exact ⟨a, rfl, run⟩

theorem error_of_bind_eq_error {x : Except ε α} {f : α → Except ε β} {e : ε}
    (run : (x >>= f) = .error e) : x = .error e ∨ ∃ a, x = .ok a ∧ f a = .error e := by
  cases x with
  | error e' =>
      cases run
      exact Or.inl rfl
  | ok a => exact Or.inr ⟨a, rfl, run⟩

theorem exists_of_isOk {x : Except ε α} (ok : x.isOk = true) : ∃ a, x = .ok a := by
  cases x with
  | error e => exact nomatch ok
  | ok a => exact ⟨a, rfl⟩

end Results

namespace SymbolTable

def Distinct (t : SymbolTable) : Prop := t.names.toList.Nodup

theorem empty_distinct : empty.Distinct := List.nodup_nil

theorem Distinct.find?_eq_some_iff {t : SymbolTable} (distinct : t.Distinct) (name : String)
    (symbol : Nat) : t.find? name = some symbol ↔ t.names[symbol]? = some name := by
  obtain ⟨⟨names⟩⟩ := t
  rw [find?, List.idxOf?_toArray, List.idxOf?_eq_some_iff, List.getElem?_toArray]
  constructor
  · rintro ⟨inside, here, _⟩
    rw [List.getElem?_eq_getElem inside, here]
  · intro found
    obtain ⟨inside, here⟩ := List.getElem?_eq_some_iff.mp found
    refine ⟨inside, here, ?_⟩
    intro earlier before there
    have same := (List.Nodup.getElem_inj_iff distinct).mp (there.trans here.symm)
    omega

theorem Distinct.intern {t : SymbolTable} (distinct : t.Distinct) (name : String) :
    (t.intern name).1.Distinct := by
  unfold SymbolTable.intern
  cases found : t.find? name with
  | some symbol => exact distinct
  | none =>
      have absent : name ∉ t.names.toList := by
        rw [find?, Array.idxOf?_eq_none_iff] at found
        simpa using found
      simp only [Distinct, Array.toList_push]
      exact List.nodup_append.mpr ⟨distinct, List.nodup_singleton name, by
        intro other member _ last same
        rw [List.mem_singleton.mp last] at same
        exact absent (same ▸ member)⟩

theorem Distinct.internAll {t : SymbolTable} (distinct : t.Distinct) (names : List String) :
    (t.internAll names).1.Distinct := by
  induction names generalizing t with
  | nil => exact distinct
  | cons name names ih => exact ih (distinct.intern name)

end SymbolTable

namespace Grammar

open SymbolTable (Distinct)

theorem Rule.pattern_distinct {symbols : SymbolTable} (distinct : symbols.Distinct)
    (m : ModuleText) : (Rule.pattern symbols m).1.Distinct :=
  distinct.intern m.name

theorem Rule.patterns_distinct {symbols : SymbolTable} (distinct : symbols.Distinct)
    (ms : List ModuleText) : (Rule.patterns symbols ms).1.Distinct := by
  induction ms generalizing symbols with
  | nil => exact distinct
  | cons m ms ih => exact ih (Rule.pattern_distinct distinct m)

/-- The symbols of a rule that is read, in the order in which they get their numbers, and where its
successors come from. -/
theorem Rule.ofText_eq_ok {symbols symbols' : SymbolTable} {t : RuleText} {r : Rule}
    (read : Rule.ofText symbols t = .ok (symbols', r)) :
    ∃ names, boundNames t = .ok names ∧
      let bound := (patterns (patterns (pattern symbols t.predecessor).1 t.left).1 t.right).1
      let made := bound.internAll (t.successors.map ModuleText.name)
      symbols' = (made.1.internAll t.ignored).1 ∧
        templates names (t.successors.zip made.2) = .ok r.successors := by
  unfold Rule.ofText at read
  obtain ⟨names, binds, read⟩ := exists_of_bind_eq_ok read
  refine ⟨names, binds, ?_⟩
  dsimp only at read ⊢
  split at read
  · obtain ⟨condition, _, read⟩ := exists_of_bind_eq_ok read
    obtain ⟨successors, templates, read⟩ := exists_of_bind_eq_ok read
    cases read
    exact ⟨rfl, templates⟩
  · obtain ⟨condition, _, read⟩ := exists_of_bind_eq_ok read
    obtain ⟨successors, templates, read⟩ := exists_of_bind_eq_ok read
    cases read
    exact ⟨rfl, templates⟩

theorem Rule.ofText_distinct {symbols symbols' : SymbolTable} (distinct : symbols.Distinct)
    (t : RuleText) (r : Rule) (read : Rule.ofText symbols t = .ok (symbols', r)) :
    symbols'.Distinct := by
  obtain ⟨names, _, rfl, _⟩ := Rule.ofText_eq_ok read
  have sides := Rule.patterns_distinct (Rule.patterns_distinct
    (Rule.pattern_distinct distinct t.predecessor) t.left) t.right
  exact (sides.internAll (t.successors.map ModuleText.name)).internAll t.ignored

theorem addRules_distinct (texts : List String) {symbols symbols' : SymbolTable}
    {rules rules' : List Rule} (distinct : symbols.Distinct)
    (added : addRules symbols rules texts = .ok (symbols', rules')) : symbols'.Distinct := by
  induction texts generalizing symbols rules with
  | nil =>
      cases added
      exact distinct
  | cons text texts ih =>
      unfold addRules at added
      split at added
      · exact nomatch added
      · next t _ =>
          obtain ⟨⟨next, r⟩, read, added⟩ := exists_of_bind_eq_ok added
          exact ih (Rule.ofText_distinct distinct t r read) added

/-- A grammar as its texts give it. -/
theorem ofTexts_eq_ok {axiomText : String} {ruleTexts : List String} {g : Grammar}
    (built : ofTexts axiomText ruleTexts = .ok g) :
    ∃ symbols ms, addRules .empty [] ruleTexts = .ok (symbols, g.rules) ∧
      axiomOfText? axiomText = some ms ∧
      axiomModules (ms.zip (symbols.internAll (ms.map ModuleText.name)).2) = .ok g.sentence ∧
      g.symbols = (symbols.internAll (ms.map ModuleText.name)).1 ∧
      g.generator = .ofSeed seed ∧ g.counter = 0 := by
  unfold ofTexts at built
  obtain ⟨⟨symbols, rules⟩, added, built⟩ := exists_of_bind_eq_ok built
  dsimp only at built
  split at built
  · cases built
  · next ms read =>
      obtain ⟨sentence, modules, built⟩ := exists_of_bind_eq_ok built
      cases built
      exact ⟨symbols, ms, added, read, modules, rfl, rfl, rfl⟩

theorem ofTexts_distinct {axiomText : String} {ruleTexts : List String} {g : Grammar}
    (built : ofTexts axiomText ruleTexts = .ok g) : g.symbols.Distinct := by
  obtain ⟨symbols, ms, added, _, _, symbols_eq, _, _⟩ := ofTexts_eq_ok built
  have distinct := addRules_distinct ruleTexts SymbolTable.empty_distinct added
  exact symbols_eq ▸ distinct.internAll (ms.map ModuleText.name)

end Grammar

end Arbor
