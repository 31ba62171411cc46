import Arbor.Proofs.Engine.Lifecycle
import Arbor.Proofs.Growth.Discovery
import Arbor.Scene.Ledger
import Mathlib.Algebra.Order.Ring.Nat
import Mathlib.Logic.Function.Iterate

/-!
# What a tree accumulates

The branches of a tree are the segments that its generations drew, each key where it came first, and
each branch grown once by the generation that discovered it and once by every later one.  `history`
lists what the generations draw, `discoveries` keeps the firsts, and `accretion` lets them grow; the
canopy of a tree is the accretion of the generations that it has reached.
-/

set_option autoImplicit false

namespace Arbor

open Animate Growing

/-! ## Growth in closed form -/

def Segment.grown (s : Segment) (factor : Float32) (times : Nat) : Segment :=
  { s with
    length := (fun size => size * factor)^[times] s.length
    thickness := (fun size => size * factor)^[times] s.thickness }

theorem Segment.scale_grown (s : Segment) (factor : Float32) (times : Nat) :
    (s.grown factor times).scale factor = s.grown factor (times + 1) := by
  simp only [grown, scale, Function.iterate_succ_apply']

theorem unseenBy_congr {α κ : Type} [DecidableEq κ] (key : α → κ) {known known' : List κ}
    (same : ∀ k, k ∈ known ↔ k ∈ known') (as : List α) :
    unseenBy key known as = unseenBy key known' as := by
  apply List.filter_congr
  intro a _
  simp only [same]

namespace Grower

def history (g : Grower) (n : Nat) : List (Nat × Segment) :=
  (List.range n).flatMap fun j => (g.drawing (j + 1)).map fun s => (j + 1, s)

def sightings (g : Grower) (n : Nat) : List BranchKey := (g.history n).map fun p => p.2.key

def discoveries (g : Grower) (n : Nat) : List (Nat × Segment) :=
  firstsBy (fun p => p.2.key) (g.history n)

def discovered (g : Grower) (n : Nat) : Nat :=
  (((g.drawing (n + 1)).map Segment.key).toFinset \ (g.sightings n).toFinset).card

/-- The discoveries of the first generations, grown ever since. -/
def accretion (g : Grower) (factor : Float32) (n : Nat) : List Segment :=
  (g.discoveries n).map fun p => p.2.grown factor (n + 1 - p.1)

theorem history_succ (g : Grower) (n : Nat) :
    g.history (n + 1) = g.history n ++ (g.drawing (n + 1)).map fun s => (n + 1, s) := by
  rw [history, List.range_succ, List.flatMap_append, List.flatMap_singleton]
  rfl

theorem discoveries_succ (g : Grower) (n : Nat) :
    g.discoveries (n + 1) = g.discoveries n ++
      (unseenBy Segment.key (g.sightings n) (g.drawing (n + 1))).map fun s => (n + 1, s) := by
  rw [discoveries, history_succ, firstsBy_append, unseenBy, firstsBy_map, List.filter_map]
  rfl

theorem length_discoveries (g : Grower) (n : Nat) :
    (g.discoveries n).length = ((List.range n).map g.discovered).sum := by
  induction n with
  | zero => rfl
  | succ n ih =>
      rw [discoveries_succ, List.length_append, List.length_map, length_unseenBy, ih,
        List.range_succ, List.map_append, List.sum_append, List.map_singleton, List.sum_singleton]
      rfl

theorem generation_le_of_mem_discoveries (g : Grower) (n : Nat) (p : Nat × Segment)
    (member : p ∈ g.discoveries n) : p.1 ≤ n := by
  have listed := mem_of_mem_firstsBy _ _ p member
  obtain ⟨j, small, drawn⟩ := List.mem_flatMap.mp listed
  obtain ⟨s, _, rfl⟩ := List.mem_map.mp drawn
  exact List.mem_range.mp small

theorem mem_keys_accretion (g : Grower) (factor : Float32) (n : Nat) (key : BranchKey) :
    key ∈ (g.accretion factor n).map Segment.key ↔ key ∈ g.sightings n := by
  rw [accretion, List.map_map]
  exact mem_map_firstsBy (fun p : Nat × Segment => p.2.key) (g.history n) key

/-- The order of a tick: first the new branches, then growth, of the new ones too. -/
theorem accretion_succ (g : Grower) (factor : Float32) (n : Nat) :
    g.accretion factor (n + 1) =
      (g.accretion factor n ++ unseenBy Segment.key ((g.accretion factor n).map Segment.key)
        (g.drawing (n + 1))).map fun s => s.scale factor := by
  have older : (g.discoveries n).map (fun p => p.2.grown factor (n + 1 + 1 - p.1)) =
      (g.accretion factor n).map fun s => s.scale factor := by
    rw [accretion, List.map_map]
    apply List.map_congr_left
    intro p member
    have le := generation_le_of_mem_discoveries g n p member
    have times : n + 1 + 1 - p.1 = n + 1 - p.1 + 1 := by omega
    rw [Function.comp_apply, Segment.scale_grown, times]
  rw [accretion, discoveries_succ, List.map_append, older, List.map_append,
    unseenBy_congr _ (mem_keys_accretion g factor n), List.map_map]
  congr 2
  funext s
  simp [Segment.grown, Segment.scale]

end Grower

/-! ## Ticks and runs -/

def Outcome.Advances : Outcome → Prop
  | .advanced .. => True
  | _ => False

instance : DecidablePred Outcome.Advances
  | .advanced .. => inferInstanceAs (Decidable True)
  | .settled => inferInstanceAs (Decidable False)
  | .halted => inferInstanceAs (Decidable False)
  | .moved => inferInstanceAs (Decidable False)

def Outcome.discovered : Outcome → Nat
  | .advanced _ _ discovered => discovered
  | _ => 0

theorem Outcome.sum_discovered (outcomes : List Outcome) :
    (outcomes.map discovered).sum = ((outcomes.filter Advances).map discovered).sum := by
  induction outcomes with
  | nil => rfl
  | cons outcome outcomes ih =>
      by_cases advances : outcome.Advances
      · rw [List.filter_cons_of_pos (by simpa using advances), List.map_cons, List.map_cons,
          List.sum_cons, List.sum_cons, ih]
      · have nothing : outcome.discovered = 0 := by
          cases outcome with
          | advanced => exact absurd trivial advances
          | settled => rfl
          | halted => rfl
          | moved => rfl
        rw [List.filter_cons_of_neg (by simpa using advances), List.map_cons, List.sum_cons, ih,
          nothing, Nat.zero_add]

section Trees
variable {σ : Type} [Scene σ]

theorem Tree.tick_factor (t : Tree) (scene : σ) : (t.tick scene).engine.factor = t.factor := by
  unfold Tree.tick
  split <;> rfl

theorem Tree.grower_after (calls : List (Call σ)) (t : Tree) :
    (after t calls).grower = t.grower.after (ticks t calls).length :=
  Arbor.grower_after calls t

theorem Tree.tick_grown {t : Tree} (coherent : t.canopy.Coherent) (scene : σ)
    {segments : List Segment} {strays : List Nat}
    (grown : t.grower.grow.2 = .grown segments strays) :
    (t.tick scene).engine.canopy.Coherent ∧
      (t.tick scene).engine.canopy.segments =
        (t.canopy.segments ++ unseenBy Segment.key t.canopy.keys segments).map
          (fun s => s.scale t.factor.value) ∧
      (t.tick scene).outcome = .advanced t.grower.grow.1.iteration segments.length
        ((segments.map Segment.key).toFinset \ t.canopy.keys.toFinset).card := by
  obtain ⟨absorbed, added, count⟩ := Canopy.absorb_spec coherent segments
  obtain ⟨larger, scaled⟩ := Canopy.grow_spec absorbed t.factor
  obtain ⟨redrawn, same⟩ := Canopy.refresh_spec larger scene
  rw [scaled, added] at same
  unfold Tree.tick
  cases attempt : t.grower.grow with
  | mk grower growth =>
      rw [attempt] at grown
      cases grown
      refine ⟨redrawn, same, ?_⟩
      dsimp only
      rw [count]

section Run
variable {start : Tree} {k : Nat} (fresh : start.grower.Fresh) (reach : start.grower.Reach k)
  (bare : start.canopy = .empty)
include fresh reach bare

theorem accretion_after (calls : List (Call σ)) :
    (after start calls).factor = start.factor ∧ (after start calls).canopy.Coherent ∧
      (after start calls).canopy.segments =
        start.grower.accretion start.factor.value (min (ticks start calls).length k) := by
  induction calls using List.reverseRecOn with
  | nil =>
      refine ⟨rfl, ?_, ?_⟩
      · rw [after, bare]
        exact Canopy.empty_coherent
      · rw [after, bare, ticks, List.length_nil, Nat.zero_min]
        rfl
  | append_singleton calls call ih =>
      obtain ⟨factor, coherent, segments⟩ := ih
      rw [after_append, ticks_append]
      cases call with
      | teardown scene =>
          obtain ⟨cleared, same⟩ := Canopy.clear_spec coherent scene
          rw [ticks, ticks, List.append_nil, ← segments]
          exact ⟨factor, cleared, same⟩
      | tick scene =>
          have grower_eq := Tree.grower_after calls start
          rw [ticks, ticks, List.length_append, List.length_singleton]
          refine ⟨(Tree.tick_factor _ scene).trans factor, ?_⟩
          rcases Nat.lt_or_ge (ticks start calls).length k with before | le
          · obtain ⟨strays, grown⟩ := Grower.growth_before fresh reach before
            rw [← grower_eq] at grown
            obtain ⟨ticked, added, _⟩ := Tree.tick_grown coherent scene grown
            -- What the canopy knows are the sightings so far: growing leaves keys alone.
            rw [Canopy.keys, segments, factor, Nat.min_eq_left (Nat.le_of_lt before),
              ← Grower.accretion_succ] at added
            rw [Nat.min_eq_left before]
            exact ⟨ticked, added⟩
          · have still := Grower.growth_beyond fresh reach le
            rw [← grower_eq] at still
            have same : (tick (after start calls) scene).engine.canopy = (after start calls).canopy :=
              (tick_still (after start calls) scene still).2
            rw [Nat.min_eq_right le] at segments
            rw [Nat.min_eq_right (Nat.le_succ_of_le le), after, after, same]
            exact ⟨coherent, segments⟩

theorem outcome_before {calls : List (Call σ)} {i : Nat} {t : Tick Tree σ}
    (found : (ticks start calls)[i]? = some t) (before : i < k) :
    t.outcome = .advanced (i + 1) (start.grower.drawing (i + 1)).length
      (start.grower.discovered i) := by
  obtain ⟨earlier, scene, rfl, rfl⟩ := exists_of_getElem?_ticks calls start i t found
  have grower_eq := Tree.grower_after earlier start
  obtain ⟨_, coherent, segments⟩ := accretion_after fresh reach bare earlier
  obtain ⟨strays, grown⟩ := Grower.growth_before fresh reach before
  rw [← grower_eq] at grown
  obtain ⟨_, _, outcome⟩ := Tree.tick_grown coherent scene grown
  have generation := (Grower.after_grammar fresh reach ((ticks start earlier).length + 1)).1
  rw [Nat.min_eq_left before, Grower.after, ← grower_eq] at generation
  have known : (after start earlier).canopy.keys.toFinset =
      (start.grower.sightings (ticks start earlier).length).toFinset := by
    ext key
    rw [List.mem_toFinset, List.mem_toFinset, Canopy.keys, segments,
      Nat.min_eq_left (Nat.le_of_lt before), Grower.mem_keys_accretion]
  rw [known, generation] at outcome
  exact outcome

theorem filter_outcomes (calls : List (Call σ)) :
    ((ticks start calls).map Tick.outcome).filter Outcome.Advances =
      (List.range (min (ticks start calls).length k)).map fun j =>
        .advanced (j + 1) (start.grower.drawing (j + 1)).length (start.grower.discovered j) := by
  induction calls using List.reverseRecOn with
  | nil => rw [ticks, List.length_nil, Nat.zero_min]; rfl
  | append_singleton calls call ih =>
      cases call with
      | teardown scene => rw [ticks_append, ticks, ticks, List.append_nil, ih]
      | tick scene =>
          have found : (ticks start (calls ++ [.tick scene]))[(ticks start calls).length]? =
              some (tick (after start calls) scene) := by
            rw [ticks_append]
            simp [ticks]
          rw [ticks_append, ticks, ticks, List.map_append, List.filter_append, ih,
            List.length_append, List.length_singleton]
          rcases Nat.lt_or_ge (ticks start calls).length k with before | le
          · have outcome := outcome_before fresh reach bare found before
            rw [Nat.min_eq_left (Nat.le_of_lt before), Nat.min_eq_left before, List.map_singleton,
              outcome, List.range_succ, List.map_append]
            rfl
          · have life : Lifecycle σ start k := lifecycle_of_reach fresh reach
            have stays : ¬ (tick (after start calls) scene).outcome.Advances := by
              rcases Nat.lt_or_eq_of_le reach.le with short | full
              · rw [life.halts _ _ _ found le short]
                exact id
              · rw [life.settles _ _ _ found le full]
                exact id
            rw [Nat.min_eq_right le, Nat.min_eq_right (Nat.le_succ_of_le le), List.map_singleton,
              List.filter_cons_of_neg (by simpa using stays), List.filter_nil, List.append_nil]

end Run

/-- The closed form of a tree after some calls, of which `n` were ticks that advanced. -/
structure Accretion (start : Tree) (calls : List (Call σ)) (n : Nat) : Prop where
  advances : ((ticks start calls).map Tick.outcome).countP Outcome.Advances = n
  draws : ∀ g, 1 ≤ g → g ≤ n →
    start.grower.interpreter.interpret (start.grower.grammar.after g).sentence =
      .ok (start.grower.drawing g)
  sentence_eq : (after start calls).grower.grammar.sentence = (start.grower.grammar.after n).sentence
  branches_eq : (after start calls).canopy.branches.toList.map (fun b => (b.id, b.segment)) =
    (firstsBy (fun p => p.2.key) (start.grower.history n)).mapIdx fun i p =>
      (i, p.2.grown start.factor.value (n + 1 - p.1))
  outcomes_eq : ((ticks start calls).map Tick.outcome).filter Outcome.Advances =
    (List.range n).map fun j =>
      .advanced (j + 1) (start.grower.drawing (j + 1)).length
        (((start.grower.drawing (j + 1)).map Segment.key).toFinset \
          ((start.grower.history j).map fun p => p.2.key).toFinset).card
  discovered_eq : (((ticks start calls).map Tick.outcome).map Outcome.discovered).sum =
    (after start calls).canopy.size

theorem accretion_of_reach {start : Tree} {k : Nat} (fresh : start.grower.Fresh)
    (reach : start.grower.Reach k) (bare : start.canopy = .empty) (calls : List (Call σ)) :
    Accretion start calls (min (ticks start calls).length k) := by
  obtain ⟨_, coherent, segments⟩ := accretion_after fresh reach bare calls
  have outcomes := filter_outcomes fresh reach bare calls
  constructor
  · rw [List.countP_eq_length_filter, outcomes, List.length_map, List.length_range]
  · intro g positive le
    obtain ⟨n, rfl⟩ := Nat.exists_eq_add_of_le' positive
    exact start.grower.interpret_of_clear n (reach.clear n (by omega))
  · have grammar := (Grower.after_grammar fresh reach (ticks start calls).length).2
    rw [Tree.grower_after, grammar]
  · symm
    rw [List.mapIdx_eq_iff]
    intro i
    have branch := congrArg (fun branches : List (Nat × Segment) => branches[i]?)
      coherent.substance_eq
    simp only [List.getElem?_mapIdx, segments, Grower.accretion, List.getElem?_map,
      Option.map_map] at branch
    rw [List.getElem?_map]
    exact branch
  · exact outcomes
  · rw [Outcome.sum_discovered, outcomes, List.map_map, ← Canopy.length_segments, segments,
      Grower.accretion, List.length_map, Grower.length_discoveries]
    rfl

/-- A tree has the first occurrences of all that its generations drew, each grown since it was
discovered. -/
theorem ofConfig_accretion (c : Config) (t : Tree) (notices : List Notice)
    (built : Tree.ofConfig c = .ok (t, notices)) (calls : List (Call σ)) :
    c.grammar = .ok t.grower.grammar ∧ t.factor.value = c.growthFactor ∧
      ∃ n, Accretion t calls n := by
  obtain ⟨starts, bare, factor⟩ := Tree.ofConfig_eq c t notices built
  obtain ⟨k, reach⟩ := t.grower.exists_reach
  exact ⟨starts.grammar_eq, GrowthFactor.value_of_ofValue factor, _,
    accretion_of_reach starts.fresh reach bare calls⟩

end Trees

theorem ofConfig_accretion_preset :
    ∃ (t : Tree) (notices : List Notice), Tree.ofConfig Config.tree = .ok (t, notices) ∧
      Accretion t [.tick SceneLedger.empty, .teardown SceneLedger.empty, .tick SceneLedger.empty]
        2 := by
  have twice : (Tree.ofConfig Config.tree).toOption.map (fun built =>
      ((ticks built.1 [.tick SceneLedger.empty, .teardown SceneLedger.empty,
        .tick SceneLedger.empty]).map Tick.outcome).countP Outcome.Advances) = some 2 := by
    decide +kernel
  obtain ⟨⟨t, notices⟩, built⟩ : ∃ built, Tree.ofConfig Config.tree = .ok built :=
    exists_of_isOk (by decide +kernel)
  rw [built] at twice
  obtain ⟨_, _, n, accretion⟩ := ofConfig_accretion Config.tree t notices built
    [.tick SceneLedger.empty, .teardown SceneLedger.empty, .tick SceneLedger.empty]
  obtain rfl : n = 2 := accretion.advances.symm.trans (Option.some.inj twice)
  exact ⟨t, notices, built, accretion⟩

end Arbor
