import Arbor.Proofs.Engine.Retention
import Arbor.Proofs.Grammar.Balance
import Arbor.Proofs.Turtle.Nesting

/-!
# Engines of balanced grammars

An engine whose grammar keeps brackets balanced has a balanced sentence whatever a host does, and no
bracket without a partner ever stops it, neither in deriving nor in drawing.  Brackets can still be
nested too deep: when the turtle's stack overflows, it does so at the first place where the sentence
that was derived has more brackets open than the stack can save cursors.
-/

set_option autoImplicit false

namespace Arbor

open Animate Growing
open Turtle (Balanced Exceeds Interpreter)

theorem Grammar.Bracketed.after {g : Grammar} (bracketed : g.Bracketed) (n : Nat) :
    (g.after n).Bracketed := by
  induction n with
  | zero => exact bracketed
  | succ n ih => exact ih.advance

namespace Grower

theorem obstacle_eq_some {g : Grower} {n : Nat} {cause : Fault} (hit : g.obstacle n = some cause) :
    (∃ next e, (g.grammar.after n).advance = (next, .error e) ∧ cause = .derive e) ∨
    (∃ next q e, (g.grammar.after n).advance = (next, .ok ()) ∧
      g.interpreter.run next.sentence = (q, some e) ∧ cause = .interpret e) := by
  unfold obstacle at hit
  split at hit
  · next next e failed => exact Or.inl ⟨next, e, failed, (Option.some.inj hit).symm⟩
  · next next derived =>
      obtain ⟨e, refused, rfl⟩ := Option.map_eq_some_iff.mp hit
      exact Or.inr ⟨next, _, e, derived, Prod.ext rfl refused, rfl⟩

theorem obstacle_of_fault {g : Grower} {k : Nat} (fresh : g.Fresh) (reach : g.Reach k) {n : Nat}
    {cause : Fault} (fault : (g.after n).fault = some cause) :
    g.obstacle (g.after n).iteration = some cause := by
  rw [after_fault fresh reach] at fault
  split at fault
  · next stopped =>
      rw [(after_grammar fresh reach n).1, Nat.min_eq_right (Nat.le_of_lt stopped.2)]
      exact fault
  · exact nomatch fault

theorem obstacle_of_bracketed {g : Grower} (reads : g.interpreter.Reads g.grammar.symbols)
    (distinct : g.grammar.symbols.Distinct) (reject : g.interpreter.settings.underflow = .reject)
    (bracketed : g.grammar.Bracketed) {n : Nat} {cause : Fault}
    (hit : g.obstacle n = some cause) :
    (∀ index, cause ≠ .derive (.brackets (.unmatched index))) ∧
    (∀ index, cause ≠ .interpret (.unbalancedBranch index)) ∧
    (∀ index depth, cause = .interpret (.stackOverflow index depth) →
      depth = g.interpreter.settings.maxStackDepth.toNat ∧
        ∃ next, (g.grammar.after n).advance = (next, .ok ()) ∧
          Exceeds (g.grammar.symbols.spelling next.sentence) depth index) := by
  have symbols := (g.grammar.after_symbols n).1
  obtain ⟨next, e, failed, rfl⟩ | ⟨next, q, e, derived, refused, rfl⟩ := obstacle_eq_some hit
  · refine ⟨?_, nofun, nofun⟩
    rintro index ⟨⟩
    exact (bracketed.after n).advance_ne_unmatched (symbols ▸ distinct) failed index rfl
  · have balanced : Balanced (g.grammar.symbols.spelling next.sentence) := by
      have later := (bracketed.after n).advance
      rw [derived] at later
      have same := (Grammar.advance_ok _ _ derived).2.1.trans symbols
      exact same ▸ later.sentence
    obtain ⟨closed, overflows⟩ := Interpreter.run_error_of_balanced reads reject balanced refused
    refine ⟨nofun, ?_, ?_⟩
    · rintro index ⟨⟩
      exact closed index rfl
    · rintro index depth ⟨⟩
      obtain ⟨depth_eq, exceeds⟩ := overflows index depth rfl
      exact ⟨depth_eq, next, derived, exceeds⟩

/-- What brackets have done to a grower that began with a grammar. -/
structure Bracketing (maxStackDepth : UInt64) (start : Grammar) (g : Grower) : Prop where
  symbols_eq : g.grammar.symbols = start.symbols
  balanced : Balanced (g.grammar.symbols.spelling g.grammar.sentence)
  partnered : ∀ index, g.fault ≠ some (.derive (.brackets (.unmatched index)))
  closed : ∀ index, g.fault ≠ some (.interpret (.unbalancedBranch index))
  /-- The sentence that overflowed the stack is the one after the grower's own. -/
  overflows : ∀ index depth, g.fault = some (.interpret (.stackOverflow index depth)) →
    depth = maxStackDepth.toNat ∧
      ∃ next, (start.after g.iteration).advance = (next, .ok ()) ∧
        Exceeds (g.grammar.symbols.spelling next.sentence) depth index

theorem Starts.bracketing {c : Config} {g : Grower} (starts : Grower.Starts c g)
    (reject : c.underflow = .reject) (bracketed : g.grammar.Bracketed) (n : Nat) :
    Bracketing c.maxStackDepth g.grammar (g.after n) := by
  have distinct := Grammar.ofTexts_distinct (Config.grammar_eq_ok starts.grammar_eq)
  have settings : g.interpreter.settings = c.settings := by rw [starts.interpreter_eq]
  have rejects : g.interpreter.settings.underflow = .reject := by rw [settings]; exact reject
  obtain ⟨k, reach⟩ := g.exists_reach
  obtain ⟨generator, grammar⟩ := after_grammar_eq starts.fresh reach n
  have symbols : (g.after n).grammar.symbols = g.grammar.symbols := by
    rw [grammar]
    exact (g.grammar.after_symbols _).1
  have obstacle : ∀ cause, (g.after n).fault = some cause → _ := fun cause fault =>
    obstacle_of_bracketed starts.reads distinct rejects bracketed
      (obstacle_of_fault starts.fresh reach fault)
  constructor
  · exact symbols
  · rw [grammar]
    exact (bracketed.after _).sentence
  · intro index fault
    exact (obstacle _ fault).1 index rfl
  · intro index fault
    exact (obstacle _ fault).2.1 index rfl
  · intro index depth fault
    obtain ⟨depth_eq, next, derived, exceeds⟩ := (obstacle _ fault).2.2 index depth rfl
    rw [settings] at depth_eq
    rw [symbols]
    exact ⟨depth_eq, next, derived, exceeds⟩

end Grower

section Calls
variable {ε σ : Type} [Growing ε] [Scene σ]

theorem bracketing_of_starts {c : Config} (start : ε) (starts : Grower.Starts c (grower start))
    (reject : c.underflow = .reject) (bracketed : (grower start).grammar.Bracketed)
    (calls : List (Call σ)) :
    Grower.Bracketing c.maxStackDepth (grower start).grammar (grower (after start calls)) := by
  rw [grower_after]
  exact starts.bracketing reject bracketed _

end Calls

/-- No host can bring the tree or the plant of a balanced grammar to a bracket without a partner,
and the stack overflows just where the refused sentence is nested too deep for the first time. -/
theorem ofConfig_bracketing (σ : Type) [Scene σ] (c : Config) (reject : c.underflow = .reject)
    (g : Grammar) (derived : c.grammar = .ok g) (bracketed : g.Bracketed) :
    (∀ (t : Tree) (notices : List Notice), Tree.ofConfig c = .ok (t, notices) →
      ∀ calls : List (Call σ), (after t calls).grower.Bracketing c.maxStackDepth g) ∧
    (∀ p : Plant, Plant.ofConfig c = .ok p →
      ∀ calls : List (Call σ), (after p calls).grower.Bracketing c.maxStackDepth g) := by
  constructor
  · intro t notices built calls
    obtain ⟨starts, _⟩ := Tree.ofConfig_eq c t notices built
    obtain rfl := Except.ok.inj (derived.symm.trans starts.grammar_eq)
    exact bracketing_of_starts t starts reject bracketed calls
  · intro p built calls
    obtain ⟨starts, _⟩ := Plant.ofConfig_eq c p built
    obtain rfl := Except.ok.inj (derived.symm.trans starts.grammar_eq)
    exact bracketing_of_starts p starts reject bracketed calls

theorem ofConfig_bracketing_shallow :
    let c := { Config.tree with rules := ["F -> F [ F ]"], maxStackDepth := 1 }
    let calls := [.tick SceneLedger.empty, .teardown SceneLedger.empty, .tick SceneLedger.empty]
    ∃ (g : Grammar) (t : Tree) (notices : List Notice), c.grammar = .ok g ∧ g.Bracketed ∧
      Tree.ofConfig c = .ok (t, notices) ∧
      (after t calls).grower.fault = some (.interpret (.stackOverflow 6 1)) ∧
      (after t calls).grower.Bracketing 1 g := by
  intro c calls
  have words : c.grammar.toOption.map (fun g =>
      (g.symbols.spelling g.sentence, g.rules.map fun r =>
        (g.symbols.name r.predecessor.symbol, r.successors.map fun t => g.symbols.name t.symbol))) =
      some (["F"], [("F", ["F", "[", "F", "]"])]) := by decide +kernel
  have stops : (Tree.ofConfig c).toOption.map (fun built => (after built.1 calls).grower.fault) =
      some (some (.interpret (.stackOverflow 6 1))) := by decide +kernel
  obtain ⟨g, derived⟩ : ∃ g, c.grammar = .ok g := exists_of_isOk (by decide +kernel)
  obtain ⟨⟨t, notices⟩, built⟩ : ∃ built, Tree.ofConfig c = .ok built :=
    exists_of_isOk (by decide +kernel)
  rw [derived] at words
  rw [built] at stops
  obtain ⟨sentence, rules⟩ := Prod.mk.inj (Option.some.inj words)
  obtain ⟨rule, only, shape⟩ := List.map_eq_singleton_iff.mp rules
  obtain ⟨predecessor, successors⟩ := Prod.mk.inj shape
  have walk : Balanced ["F"] := .plain "F" [] (by decide) (by decide) .nil
  have bracketed : g.Bracketed := by
    constructor
    · rw [sentence]
      exact walk
    · rw [only, List.forall_mem_singleton, successors]
      exact .plain "F" _ (by decide) (by decide) (.group ["F"] [] walk .nil)
    · rw [only, List.forall_mem_singleton, predecessor]
      decide
    · rw [only, List.forall_mem_singleton, predecessor]
      decide
  have bracketing := (ofConfig_bracketing SceneLedger c rfl g derived bracketed).1 t notices built
  exact ⟨g, t, notices, derived, bracketed, built, Option.some.inj stops, bracketing calls⟩

end Arbor
