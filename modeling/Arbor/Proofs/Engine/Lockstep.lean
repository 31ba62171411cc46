import Arbor.Proofs.Engine.Accretion
import Arbor.Proofs.Engine.Surroundings

/-!
# Trees and plants in step

A tree and a plant of one configuration have the same grower, and all that a tick tells beyond the
count of new branches is told by the grower and the number of ticks before it.  So they keep in
step, wherever they are and whatever goes on around them; and what a tree keeps, but for its
handles, depends on that number alone.
-/

set_option autoImplicit false

namespace Arbor

open Animate Growing

theorem map_eq_map_range {α β : Type} (f : α → β) (g : Nat → β) (as : List α)
    (each : ∀ i a, as[i]? = some a → f a = g i) : as.map f = (List.range as.length).map g := by
  apply List.ext_getElem
  · rw [List.length_map, List.length_map, List.length_range]
  · intro i inside _
    rw [List.length_map] at inside
    rw [List.getElem_map, List.getElem_map, List.getElem_range]
    exact each i as[i] (List.getElem?_eq_getElem inside)

/-! ## Outcomes -/

def Outcome.common : Outcome → Outcome
  | .advanced generation segments _ => .advanced generation segments 0
  | outcome => outcome

def Grower.outcomeAt (g : Grower) (k discovered i : Nat) : Outcome :=
  if i < k then .advanced (i + 1) (g.drawing (i + 1)).length discovered
  else if k < g.maxIterations.toNat then .halted else .settled

section Reach
variable {σ : Type} [Scene σ]

theorem outcome_beyond {ε : Type} [Growing ε] {start : ε} {k : Nat} (life : Lifecycle σ start k)
    {calls : List (Call σ)} {i : Nat} {t : Tick ε σ} (found : (ticks start calls)[i]? = some t)
    (beyond : k ≤ i) (discovered : Nat) :
    t.outcome = (grower start).outcomeAt k discovered i := by
  rw [Grower.outcomeAt, if_neg (Nat.not_lt.mpr beyond)]
  rcases Nat.lt_or_eq_of_le life.reach.le with short | full
  · rw [if_pos short]
    exact life.halts calls i t found beyond short
  · rw [if_neg (Nat.not_lt.mpr (Nat.le_of_eq full.symm))]
    exact life.settles calls i t found beyond full

theorem common_outcomes {ε : Type} [Growing ε] {start : ε} {k : Nat} (life : Lifecycle σ start k)
    (calls : List (Call σ)) :
    ((ticks start calls).map Tick.outcome).map Outcome.common =
      (List.range (ticks start calls).length).map ((grower start).outcomeAt k 0) := by
  rw [List.map_map]
  apply map_eq_map_range
  intro i t found
  rcases Nat.lt_or_ge i k with before | beyond
  · obtain ⟨discovered, advanced⟩ := life.advances calls i t found before
    rw [Function.comp_apply, advanced, Grower.outcomeAt, if_pos before]
    rfl
  · rw [Function.comp_apply, outcome_beyond life found beyond 0, Grower.outcomeAt,
      if_neg (Nat.not_lt.mpr beyond)]
    split <;> rfl

theorem tree_outcomes {start : Tree} {k : Nat} (fresh : start.grower.Fresh)
    (reach : start.grower.Reach k) (bare : start.canopy = .empty) (calls : List (Call σ)) :
    (ticks start calls).map Tick.outcome = (List.range (ticks start calls).length).map fun i =>
      start.grower.outcomeAt k (start.grower.discovered i) i := by
  apply map_eq_map_range
  intro i t found
  rcases Nat.lt_or_ge i k with before | beyond
  · rw [outcome_before fresh reach bare found before, Grower.outcomeAt, if_pos before]
  · exact outcome_beyond (lifecycle_of_reach fresh reach) found beyond _

end Reach

/-! ## Two runs -/

/-- A tree and a plant keep in step, each on a scene of any kind, alone or among other engines,
while the host makes whatever calls. -/
structure Lockstep (t : Tree) (p : Plant) : Prop where
  abreast : ∀ {σ τ : Type} [Scene σ] [Scene τ] (s : Stage σ) (s' : Stage τ) (i j : Nat)
    (events events' : List Stage.Event),
    s.engines[i]? = some (.tree t) → s'.engines[j]? = some (.plant p) →
    events.count (.act (.tick i)) = events'.count (.act (.tick j)) →
      ∃ t' p', (s.happenAll events).engines[i]? = some (.tree t') ∧
        (s'.happenAll events').engines[j]? = some (.plant p') ∧
        t'.grower = t.grower.after (events.count (.act (.tick i))) ∧ p'.grower = t'.grower ∧
        (s.outcomes i events).length = events.count (.act (.tick i)) ∧
        (s'.outcomes j events').map Outcome.common = (s.outcomes i events).map Outcome.common
  /-- Two such trees have the same branches, but for the handles, and the same outcomes. -/
  secluded : ∀ {σ τ : Type} [Scene σ] [Scene τ] (s : Stage σ) (s' : Stage τ) (i j : Nat)
    (events events' : List Stage.Event),
    s.engines[i]? = some (.tree t) → s'.engines[j]? = some (.tree t) →
    events.count (.act (.tick i)) = events'.count (.act (.tick j)) →
      ∃ t' t'', (s.happenAll events).engines[i]? = some (.tree t') ∧
        (s'.happenAll events').engines[j]? = some (.tree t'') ∧
        t''.canopy.branches.toList.map (fun b => (b.id, b.segment)) =
          t'.canopy.branches.toList.map (fun b => (b.id, b.segment)) ∧
        s'.outcomes j events' = s.outcomes i events

theorem lockstep_of_starts {c : Config} {t : Tree} {p : Plant}
    (starts : Grower.Starts c t.grower) (bare : t.canopy = .empty) (same : p.grower = t.grower) :
    Lockstep t p := by
  obtain ⟨k, reach⟩ := t.grower.exists_reach
  have fresh := starts.fresh
  constructor
  · intro σ τ _ _ s s' i j events events' here there counts
    obtain ⟨stands, outcomes, ticked⟩ := Stage.happenAll_tree events here
    obtain ⟨stands', outcomes', ticked'⟩ := Stage.happenAll_plant events' there
    have grown := Tree.grower_after (s.calls i events) t
    rw [ticked] at grown
    refine ⟨_, _, stands, stands', grown, ?_, ?_, ?_⟩
    · have plant : (after p (s'.calls j events')).grower = p.grower.after _ := grower_after _ p
      rw [grown, plant, same, ticked', counts]
    · rw [outcomes, List.length_map, ticked]
    · have common : grower p = grower t := same
      have tree : Lifecycle σ t k := lifecycle_of_reach fresh reach
      have plant : Lifecycle τ p k := lifecycle_of_reach (common ▸ fresh) (common ▸ reach)
      rw [outcomes, outcomes', common_outcomes tree, common_outcomes plant, ticked, ticked',
        counts, common]
  · intro σ τ _ _ s s' i j events events' here there counts
    obtain ⟨stands, outcomes, ticked⟩ := Stage.happenAll_tree events here
    obtain ⟨stands', outcomes', ticked'⟩ := Stage.happenAll_tree events' there
    refine ⟨_, _, stands, stands', ?_, ?_⟩
    · rw [(accretion_of_reach fresh reach bare (s.calls i events)).branches_eq,
        (accretion_of_reach fresh reach bare (s'.calls j events')).branches_eq, ticked, ticked',
        counts]
    · rw [outcomes, outcomes', tree_outcomes fresh reach bare, tree_outcomes fresh reach bare,
        ticked, ticked', counts]

/-- The tree and the plant of a configuration that is accepted keep in step, also when chance
decides between rules. -/
theorem Config.lockstep (c : Config) (valid : c.validate = .ok ()) :
    ∃ t notices p, Tree.ofConfig c = .ok (t, notices) ∧ Plant.ofConfig c = .ok p ∧
      Lockstep t p := by
  obtain ⟨t, notices, p, tree, plant, same⟩ := exists_engines valid
  obtain ⟨starts, bare, _⟩ := Tree.ofConfig_eq c t notices tree
  exact ⟨t, notices, p, tree, plant, lockstep_of_starts starts bare same⟩

/-- Chance decides between two rules for the same symbol.  A tree that shares a ledger with others,
is taken down, and loses its primitives to the host does what it does alone on a blind scene. -/
theorem Config.lockstep_stochastic :
    let c : Config := { Config.tree with
      axiomText := "F", rules := ["F -> F [ + F ]", "F -> F F"], maxIterations := 3 }
    let events : List Stage.Event :=
      [.act (.tick 0), .act (.tick 1), .act (.tick 2), .dispose 2, .act (.teardown 1),
        .act (.tick 1), .place 1 .identity, .act (.teardown 2), .act (.tick 2), .act (.tick 1),
        .act (.tick 2), .act (.tick 2), .act (.tick 1)]
    c.validate = .ok () ∧
      ∃ t notices p, Tree.ofConfig c = .ok (t, notices) ∧ Plant.ofConfig c = .ok p ∧
        let s : Stage SceneLedger := ⟨[.spinner .standard, .tree t, .plant p], .empty⟩
        (∃ t' p', (s.happenAll events).engines[1]? = some (.tree t') ∧
          (s.happenAll events).engines[2]? = some (.plant p') ∧ p'.grower = t'.grower) ∧
        s.outcomes 1 events =
          [.advanced 1 2 2, .advanced 2 4 1, .advanced 3 8 5, .settled] ∧
        (s.outcomes 2 events).map Outcome.common =
          [.advanced 1 2 0, .advanced 2 4 0, .advanced 3 8 0, .settled] := by
  intro c events
  have valid : c.validate = .ok () := by decide +kernel
  have alone : (Tree.ofConfig c).toOption.map (fun built =>
      (Stage.mk [.tree built.1] BlindScene.empty).outcomes 0
        (List.replicate 4 (.act (.tick 0)))) =
      some [.advanced 1 2 2, .advanced 2 4 1, .advanced 3 8 5, .settled] := by decide +kernel
  obtain ⟨t, notices, p, tree, plant, lockstep⟩ := Config.lockstep c valid
  rw [tree] at alone
  refine ⟨valid, t, notices, p, tree, plant, ?_⟩
  intro s
  obtain ⟨t', p', stands, stands', _, grower, _, common⟩ :=
    lockstep.abreast s s 1 2 events events rfl rfl (by decide)
  obtain ⟨_, _, _, _, _, outcomes⟩ :=
    lockstep.secluded (Stage.mk [.tree t] BlindScene.empty) s 0 1
      (List.replicate 4 (.act (.tick 0))) events rfl rfl (by decide)
  have shared := outcomes.trans (Option.some.inj alone)
  refine ⟨⟨t', p', stands, stands', grower⟩, shared, ?_⟩
  rw [common, shared]
  rfl

end Arbor
