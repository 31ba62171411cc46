import Arbor.Proofs.Engine.Retention
import Arbor.Proofs.Grammar.Naming

/-!
# Engines read by the standard meanings

An engine fills its table once, before its first generation.  That is enough, because no generation
has a symbol without a name in the table of its grammar: a grower is literate when all its symbols
have names and its operations are those of the names, and growing keeps it literate.
-/

set_option autoImplicit false

namespace Arbor

open Animate Growing
open Turtle (Interpreter Operation OperationTable)

namespace Grower

/-- The symbol of a module has a name, and its operation is the standard one of that name. -/
def Understands (g : Grower) (m : Module) : Prop :=
  ∃ name, g.grammar.symbols.names[m.symbol]? = some name ∧
    g.interpreter.table.get m.symbol = Operation.standard name

/-- A grower understands the sentence that it has and the one that comes next. -/
structure Reading (g : Grower) : Prop where
  current : ∀ m ∈ g.grammar.sentence, g.Understands m
  following : ∀ next, g.grammar.advance = (next, .ok ()) → ∀ m ∈ next.sentence, g.Understands m

structure Literate (g : Grower) : Prop where
  named : g.grammar.Named
  reads : g.interpreter.Reads g.grammar.symbols

theorem Literate.understands {g : Grower} (literate : g.Literate) {m : Module}
    (names : g.grammar.symbols.Names m.symbol) : g.Understands m := by
  obtain ⟨name, named⟩ := names
  refine ⟨name, named, ?_⟩
  rw [literate.reads, SymbolTable.name, named]
  rfl

theorem Literate.reading {g : Grower} (literate : g.Literate) : g.Reading where
  current m member := literate.understands (literate.named.sentence m member)
  following := by
    intro next advanced m member
    have named := (Grammar.advance_named literate.named advanced).sentence m member
    rw [(Grammar.advance_ok g.grammar next advanced).2.1] at named
    exact literate.understands named

theorem Starts.literate {c : Config} {g : Grower} (starts : Grower.Starts c g) : g.Literate :=
  ⟨Grammar.ofTexts_named (Config.grammar_eq_ok starts.grammar_eq), starts.reads⟩

theorem Literate.grow {g : Grower} (literate : g.Literate) : g.grow.1.Literate := by
  cases stopped : g.fault with
  | some cause =>
      rw [grow_halted g cause stopped]
      exact literate
  | none =>
      rcases Nat.lt_or_ge g.iteration g.maxIterations.toNat with short | settled
      · obtain ⟨next, e, failed, grown⟩ | ⟨next, p, e, _, _, grown⟩ |
          ⟨next, p, derived, _, grown⟩ := grow_cases g stopped short
        · rw [grown, Grammar.advance_error _ next e failed]
          exact ⟨⟨literate.named.sentence, literate.named.rules⟩, literate.reads⟩
        · rw [grown]
          exact ⟨⟨literate.named.sentence, literate.named.rules⟩, literate.reads⟩
        · rw [grown]
          refine ⟨Grammar.advance_named literate.named derived, ?_⟩
          dsimp only
          rw [(Grammar.advance_ok _ next derived).2.1]
          exact literate.reads
      · rw [grow_settled g stopped settled]
        exact literate

theorem Literate.after {g : Grower} (literate : g.Literate) (n : Nat) : (g.after n).Literate := by
  induction n with
  | zero => exact literate
  | succ n ih => exact ih.grow

end Grower

theorem literate_after {ε σ : Type} [Growing ε] [Scene σ] {e : ε}
    (literate : (grower e).Literate) (calls : List (Call σ)) :
    (grower (after e calls)).Literate := by
  rw [grower_after]
  exact literate.after _

/-- Trees and plants give every symbol that they meet its standard meaning, in every generation.  A
table that is changed gives every symbol what was assigned to it last, or else what it had at
first. -/
theorem standard_reading :
    (∀ c : Config, c.validate = .ok () →
      (∃ t notices, Tree.ofConfig c = .ok (t, notices) ∧
        ∀ {σ : Type} [Scene σ] (calls : List (Call σ)), (after t calls).grower.Reading) ∧
      (∃ p, Plant.ofConfig c = .ok p ∧
        ∀ {σ : Type} [Scene σ] (calls : List (Call σ)), (after p calls).grower.Reading)) ∧
    ∀ (entries : Array Operation) (changes : List OperationTable.Change) (symbol : Nat),
      (OperationTable.changeAll ⟨entries⟩ changes).get symbol =
        (OperationTable.lastAssigned? changes symbol).getD (entries[symbol]?.getD .ignore) := by
  refine ⟨?_, fun entries changes symbol => OperationTable.get_changeAll ⟨entries⟩ changes symbol⟩
  intro c valid
  obtain ⟨t, notices, p, treeBuilt, plantBuilt, _⟩ := Config.exists_engines valid
  have tree := (Tree.ofConfig_eq c t notices treeBuilt).1.literate
  have plant := (Plant.ofConfig_eq c p plantBuilt).1.literate
  constructor
  · refine ⟨t, notices, treeBuilt, ?_⟩
    intro σ _ calls
    exact (literate_after (e := t) tree calls).reading
  · refine ⟨p, plantBuilt, ?_⟩
    intro σ _ calls
    exact (literate_after (e := p) plant calls).reading

/-- Names that are met in an odd order, two of them without a meaning, and a table with gaps. -/
theorem standard_reading_unordered :
    let c : Config := { Config.tree with
      axiomText := "Q - X", rules := ["X -> F [ & f X ] Q", "Q -> ^ Q"] }
    c.validate = .ok () ∧
      (∃ t notices, Tree.ofConfig c = .ok (t, notices) ∧
        t.grower.grammar.symbols.names = #["X", "F", "[", "&", "f", "]", "Q", "^", "-"] ∧
        ∀ calls : List (Call SceneLedger), (after t calls).grower.Reading) ∧
      (OperationTable.changeAll ⟨#[.pop, .push]⟩
        [.set 4 .draw, .standard ⟨#["X", "F", "-"]⟩, .set 2 .move]).entries =
        #[.pop, .draw, .move, .ignore, .draw] ∧
      (OperationTable.changeAll ⟨#[.pop, .push]⟩
        [.set 4 .draw, .standard ⟨#["X", "F", "-"]⟩, .set 2 .move]).get 7 = .ignore := by
  intro c
  have valid : c.validate = .ok () := by decide +kernel
  obtain ⟨engines, changed⟩ := standard_reading
  obtain ⟨⟨t, notices, built, reading⟩, _⟩ := engines c valid
  have names : (Tree.ofConfig c).toOption.map (fun built =>
      built.1.grower.grammar.symbols.names) =
      some #["X", "F", "[", "&", "f", "]", "Q", "^", "-"] := by decide +kernel
  rw [built] at names
  refine ⟨valid, ⟨t, notices, built, Option.some.inj names, fun calls => reading calls⟩, ?_, ?_⟩
  · decide +kernel
  · exact (changed _ _ _).trans (by decide +kernel)

end Arbor
