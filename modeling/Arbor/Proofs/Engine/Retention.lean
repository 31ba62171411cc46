import Arbor.Proofs.Engine.Accretion
import Arbor.Proofs.Grammar.Sprouting
import Arbor.Proofs.Turtle.Meaning

/-!
# Trees that only sprout

A tree whose rules only sprout draws in each generation all that it drew in the one before.  So its
branches are those of its current sentence, and none of them is a leftover.
-/

set_option autoImplicit false

namespace Arbor

open Animate
open Turtle (Interpreter OperationTable Within)

namespace Grower

theorem Starts.reads {c : Config} {g : Grower} (starts : Grower.Starts c g) :
    g.interpreter.Reads g.grammar.symbols := by
  have distinct := Grammar.ofTexts_distinct (Config.grammar_eq_ok starts.grammar_eq)
  intro symbol
  rw [starts.interpreter_eq]
  exact OperationTable.get_standard distinct symbol

/-- Every rule of a grower only sprouts. -/
def Sprouts (g : Grower) : Prop :=
  ∀ r ∈ g.grammar.rules, ∃ head groups, r.Sprouts g.grammar.symbols head groups

section Sprouting
variable {g : Grower} (reads : g.interpreter.Reads g.grammar.symbols) (sprouts : g.Sprouts)
include reads sprouts

theorem drawing_sublist {n : Nat} (drawn : g.obstacle n = none)
    (next_drawn : g.obstacle (n + 1) = none) :
    List.Sublist (g.drawing (n + 1)) (g.drawing (n + 2)) := by
  obtain ⟨_, ran⟩ := advance_of_clear g n drawn
  obtain ⟨advanced, ran'⟩ := advance_of_clear g (n + 1) next_drawn
  obtain ⟨symbols, rules⟩ := g.grammar.after_symbols (n + 1)
  have sprout : ∀ r ∈ (g.grammar.after (n + 1)).rules,
      ∃ head groups, r.Sprouts (g.grammar.after (n + 1)).symbols head groups := by
    rw [symbols, rules]
    exact sprouts
  obtain ⟨parts, sprouted, flat⟩ := Grammar.advance_sprouted advanced sprout
  rw [symbols] at sprouted
  cases replayed : g.interpreter.run (g.grammar.after (n + 1)).sentence with
  | mk q refusal =>
      cases replayed' : g.interpreter.run (g.grammar.after (n + 2)).sentence with
      | mk q' refusal' =>
          rw [replayed] at ran
          rw [replayed'] at ran'
          subst ran ran'
          have flat' := replayed'
          rw [flat] at flat'
          have start : Within (.initial g.interpreter.settings.heading)
              (.initial g.interpreter.settings.heading) := ⟨rfl, rfl, List.Sublist.refl _⟩
          have within := Interpreter.replay_within reads sprouted start replayed flat'
          rw [drawing, drawing, replayed, replayed']
          exact within.sublist.reverse

theorem drawing_sublist_of_le {k m n : Nat} (reach : g.Reach k) (positive : 1 ≤ m) (le : m ≤ n)
    (below : n ≤ k) : List.Sublist (g.drawing m) (g.drawing n) := by
  induction n, le using Nat.le_induction with
  | base => exact List.Sublist.refl _
  | succ n le ih =>
      obtain ⟨j, rfl⟩ := Nat.exists_eq_add_of_le' (positive.trans le)
      have drawn := reach.clear j (by omega)
      have next_drawn := reach.clear (j + 1) (by omega)
      exact (ih (by omega)).trans (drawing_sublist reads sprouts drawn next_drawn)

theorem mem_sightings {k n : Nat} (reach : g.Reach k) (positive : 1 ≤ n) (below : n ≤ k)
    (key : BranchKey) : key ∈ g.sightings n ↔ key ∈ (g.drawing n).map Segment.key := by
  rw [sightings, List.mem_map, List.mem_map]
  constructor
  · rintro ⟨⟨_, s⟩, listed, rfl⟩
    obtain ⟨j, small, drawn⟩ := List.mem_flatMap.mp listed
    obtain ⟨s, member, same⟩ := List.mem_map.mp drawn
    obtain ⟨rfl, rfl⟩ := Prod.mk.inj same
    have kept := drawing_sublist_of_le reads sprouts reach (Nat.le_add_left 1 j)
      (List.mem_range.mp small) below
    exact ⟨s, kept.subset member, rfl⟩
  · rintro ⟨s, member, rfl⟩
    obtain ⟨j, rfl⟩ := Nat.exists_eq_add_of_le' positive
    refine ⟨(j + 1, s), ?_, rfl⟩
    exact List.mem_flatMap.mpr ⟨j, List.mem_range.mpr (Nat.lt_succ_self j),
      List.mem_map.mpr ⟨s, member, rfl⟩⟩

end Sprouting

end Grower

/-- A tree after some calls, of which `n` were ticks that advanced, when its generations keep what
they draw. -/
structure Retention {σ : Type} [Scene σ] (start : Tree) (calls : List (Call σ)) (n : Nat) :
    Prop where
  advances : ((ticks start calls).map Tick.outcome).countP Outcome.Advances = n
  draws : ∀ g, 1 ≤ g → g ≤ n →
    start.grower.interpreter.interpret (start.grower.grammar.after g).sentence =
      .ok (start.grower.drawing g)
  sublist : ∀ g, 1 ≤ g → g + 1 ≤ n →
    List.Sublist (start.grower.drawing g) (start.grower.drawing (g + 1))
  keys_iff : 1 ≤ n → ∀ key,
    key ∈ (after start calls).canopy.branches.toList.map (fun b => b.segment.key) ↔
      key ∈ (start.grower.drawing n).map Segment.key

/-- Under rules that only sprout, every generation draws what the one before has drawn, and the
branches of a tree are those that its current sentence draws. -/
theorem ofConfig_retention {σ : Type} [Scene σ] (c : Config) (t : Tree) (notices : List Notice)
    (built : Tree.ofConfig c = .ok (t, notices)) (sprouts : t.grower.Sprouts)
    (calls : List (Call σ)) :
    c.grammar = .ok t.grower.grammar ∧ ∃ n, Retention t calls n := by
  obtain ⟨starts, bare, _⟩ := Tree.ofConfig_eq c t notices built
  obtain ⟨k, reach⟩ := t.grower.exists_reach
  have reads := starts.reads
  have accretion := accretion_of_reach starts.fresh reach bare calls
  obtain ⟨_, _, segments⟩ := accretion_after starts.fresh reach bare calls
  refine ⟨starts.grammar_eq, min (ticks t calls).length k, ?_⟩
  constructor
  · exact accretion.advances
  · exact accretion.draws
  · intro g positive le
    exact t.grower.drawing_sublist_of_le reads sprouts reach positive (Nat.le_succ g) (by omega)
  · intro positive key
    have keys_eq : (after t calls).canopy.branches.toList.map (fun b => b.segment.key) =
        (t.grower.accretion t.factor.value (min (ticks t calls).length k)).map Segment.key := by
      rw [← segments, Canopy.segments, List.map_map]
      rfl
    rw [keys_eq, Grower.mem_keys_accretion]
    exact t.grower.mem_sightings reads sprouts reach positive (Nat.min_le_right _ _) key

theorem ofConfig_retention_preset :
    ∃ (t : Tree) (notices : List Notice), Tree.ofConfig Config.tree = .ok (t, notices) ∧
      t.grower.Sprouts ∧ Retention t [.tick SceneLedger.empty, .tick SceneLedger.empty] 2 := by
  have grammar : (Tree.ofConfig Config.tree).toOption.map (fun built =>
      (built.1.grower.grammar.symbols,
        built.1.grower.grammar.rules.map fun r => (r.predecessor, r.successors))) =
      some (⟨#["F", "[", "+", "]", "-", "^", "&"]⟩, [(⟨0, 0⟩, ⟨0, []⟩ ::
        [1, 2, 0, 3, 1, 4, 0, 3, 1, 5, 0, 3, 1, 6, 0, 3].map fun symbol => ⟨symbol, []⟩)]) := by
    decide +kernel
  have twice : (Tree.ofConfig Config.tree).toOption.map (fun built =>
      ((ticks built.1 [.tick SceneLedger.empty, .tick SceneLedger.empty]).map
        Tick.outcome).countP Outcome.Advances) = some 2 := by
    decide +kernel
  obtain ⟨⟨t, notices⟩, built⟩ : ∃ built, Tree.ofConfig Config.tree = .ok built :=
    exists_of_isOk (by decide +kernel)
  rw [built] at grammar twice
  obtain ⟨symbols, rules⟩ := Prod.mk.inj (Option.some.inj grammar)
  obtain ⟨rule, only, shape⟩ := List.map_eq_singleton_iff.mp rules
  obtain ⟨predecessor, successors⟩ := Prod.mk.inj shape
  dsimp only at symbols only
  have twig : ∀ turn, turn ≠ "[" → turn ≠ "]" → Turtle.Balanced [turn, "F"] := by
    intro turn unopened unclosed
    exact .plain turn _ unopened unclosed (.plain "F" _ (by decide) (by decide) .nil)
  have sprouts : t.grower.Sprouts := by
    intro r listed
    rw [only] at listed
    obtain rfl := List.mem_singleton.mp listed
    refine ⟨⟨0, []⟩, _, successors, by rw [predecessor], ?_, ?_⟩
    · intro frame params enough valued
      rw [predecessor] at enough ⊢
      exact Grammar.copies_of_slots 0 frame params enough valued
    · rw [symbols]
      exact .cons ["+", "F"] _ (twig "+" (by decide) (by decide))
        (.cons ["-", "F"] _ (twig "-" (by decide) (by decide))
          (.cons ["^", "F"] _ (twig "^" (by decide) (by decide))
            (.cons ["&", "F"] _ (twig "&" (by decide) (by decide)) .nil)))
  obtain ⟨_, n, retention⟩ := ofConfig_retention Config.tree t notices built sprouts
    [.tick SceneLedger.empty, .tick SceneLedger.empty]
  obtain rfl : n = 2 := retention.advances.symm.trans (Option.some.inj twice)
  exact ⟨t, notices, built, sprouts, retention⟩

end Arbor
