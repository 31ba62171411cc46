import Arbor.Proofs.Engine.Building
import Arbor.Proofs.Engine.Reach
import Arbor.Proofs.Engine.Run
import Arbor.Scene.Ledger

/-!
# The life of a growing engine

A tree or a plant has a generation `k` at which it stops.  Its first `k` ticks advance, one
generation each; all later ones settle when `k` is the last generation and halt when it is not.
`Lifecycle` states this together with the fault, the records and all that a tick without an advance
leaves alone.  Of a run only the number of its ticks counts, because taking an engine down does not
touch its grower.
-/

set_option autoImplicit false

namespace Arbor

open Animate Growing

/-! ## Growers after some attempts -/

namespace Grower

theorem after_succ (g : Grower) (n : Nat) : g.after (n + 1) = g.grow.1.after n := by
  induction n with
  | zero => rfl
  | succ n ih => rw [after, ih, after]

section Attempts
variable {g : Grower} {k : Nat} (fresh : g.Fresh) (reach : g.Reach k)
include fresh reach

theorem growth_before {n : Nat} (before : n < k) :
    ∃ strays, (g.after n).grow.2 = .grown (g.drawing (n + 1)) strays := by
  obtain ⟨strays, grown⟩ := grow_standing fresh reach before
  exact ⟨strays, by rw [after_eq_standing fresh reach (Nat.le_of_lt before), grown]⟩

theorem growth_settled (full : k = g.maxIterations.toNat) {n : Nat} (le : k ≤ n) :
    (g.after n).grow.2 = .settled := by
  rw [after_settled fresh reach full le, settled_at_reach fresh reach full]

theorem growth_failed (short : k < g.maxIterations.toNat) :
    ∃ cause strays, g.obstacle k = some cause ∧ (g.after k).grow.2 = .failed cause strays := by
  obtain ⟨generator, cause, strays, hit, failed⟩ := fails_at_reach fresh reach short
  exact ⟨cause, strays, hit, by rw [after_eq_standing fresh reach (Nat.le_refl k), failed]⟩

theorem growth_halted (short : k < g.maxIterations.toNat) {n : Nat} (later : k < n) :
    (g.after n).grow.2 = .halted := by
  obtain ⟨generator, stopped⟩ := after_stopped fresh reach short
  rw [stopped n later, halted_after_reach reach generator short]

theorem growth_cases (n : Nat) :
    (n < k ∧ ∃ strays, (g.after n).grow.2 = .grown (g.drawing (n + 1)) strays) ∨
    (n = k ∧ k < g.maxIterations.toNat ∧
      ∃ cause strays, g.obstacle k = some cause ∧ (g.after n).grow.2 = .failed cause strays) ∨
    (k < n ∧ k < g.maxIterations.toNat ∧ (g.after n).grow.2 = .halted) ∨
    (k ≤ n ∧ k = g.maxIterations.toNat ∧ (g.after n).grow.2 = .settled) := by
  rcases Nat.lt_or_ge n k with before | le
  · exact Or.inl ⟨before, growth_before fresh reach before⟩
  · rcases Nat.lt_or_eq_of_le reach.le with short | full
    · rcases Nat.lt_or_eq_of_le le with later | rfl
      · exact Or.inr (Or.inr (Or.inl ⟨later, short, growth_halted fresh reach short later⟩))
      · exact Or.inr (Or.inl ⟨rfl, short, growth_failed fresh reach short⟩)
    · exact Or.inr (Or.inr (Or.inr ⟨le, full, growth_settled fresh reach full le⟩))

theorem growth_beyond {n : Nat} (le : k ≤ n) :
    ∀ segments strays, (g.after n).grow.2 ≠ .grown segments strays := by
  intro segments strays grown
  obtain ⟨before, _⟩ | ⟨_, _, cause, strays, _, failed⟩ | ⟨_, _, halted⟩ | ⟨_, _, settled⟩ :=
    growth_cases fresh reach n
  · omega
  · exact nomatch failed.symm.trans grown
  · exact nomatch halted.symm.trans grown
  · exact nomatch settled.symm.trans grown

/-- A grower has the grammar of its generation, but for the generator. -/
theorem after_grammar_eq (n : Nat) :
    ∃ generator, (g.after n).grammar = { g.grammar.after (min n k) with generator } := by
  rcases Nat.lt_or_ge k n with later | le
  · rw [Nat.min_eq_right (Nat.le_of_lt later)]
    rcases Nat.lt_or_eq_of_le reach.le with short | full
    · obtain ⟨generator, stopped⟩ := after_stopped fresh reach short
      exact ⟨generator, by rw [stopped n later]; rfl⟩
    · exact ⟨(g.grammar.after k).generator,
        by rw [after_settled fresh reach full (Nat.le_of_lt later)]; rfl⟩
  · rw [Nat.min_eq_left le, after_eq_standing fresh reach le]
    exact ⟨(g.grammar.after n).generator, rfl⟩

/-- Past its reach a grower keeps the generation and the sentence of its reach. -/
theorem after_grammar (n : Nat) :
    (g.after n).iteration = min n k ∧
      (g.after n).grammar.sentence = (g.grammar.after (min n k)).sentence := by
  obtain ⟨generator, grammar⟩ := after_grammar_eq fresh reach n
  rw [iteration, grammar]
  exact ⟨generation_after fresh reach (Nat.min_le_right n k), rfl⟩

theorem after_fault (n : Nat) :
    (g.after n).fault = if k < g.maxIterations.toNat ∧ k < n then g.obstacle k else none := by
  rcases Nat.lt_or_ge k n with later | le
  · rcases Nat.lt_or_eq_of_le reach.le with short | full
    · obtain ⟨generator, stopped⟩ := after_stopped fresh reach short
      rw [stopped n later, if_pos ⟨short, later⟩]
      rfl
    · rw [after_settled fresh reach full (Nat.le_of_lt later), if_neg (by omega)]
      exact fresh.fault_eq
  · rw [after_eq_standing fresh reach le, if_neg (by omega)]
    exact fresh.fault_eq

end Attempts

theorem Starts.fresh {c : Config} {g : Grower} (starts : Grower.Starts c g) : g.Fresh :=
  ⟨starts.fault_eq, starts.generation_eq⟩

end Grower

/-! ## Ticks as attempts -/

section Runs
variable {ε σ : Type} [Growing ε] [Scene σ]

theorem grower_after (calls : List (Call σ)) (e : ε) :
    grower (after e calls) = (grower e).after (ticks e calls).length := by
  induction calls generalizing e with
  | nil => rfl
  | cons call calls ih =>
      cases call with
      | tick scene =>
          rw [after, ih, grower_tick, ticks, List.length_cons, Grower.after_succ]
      | teardown scene =>
          rw [after, ih, grower_teardown, ticks]

theorem effect_ticks (calls : List (Call σ)) (e : ε) (i : Nat) (t : Tick ε σ)
    (found : (ticks e calls)[i]? = some t) :
    ((grower e).after i).grow.2.Effect (kind ε) ((grower e).after (i + 1)) t.outcome t.notices := by
  obtain ⟨before, scene, rfl, rfl⟩ := exists_of_getElem?_ticks calls e i t found
  have effect := effect_tick (after e before) scene
  rw [grower_after] at effect
  exact effect

end Runs

/-! ## Records -/

theorem flatMap_eq_of_single {α β : Type} (f : α → List β) (j : Nat) (as : List α)
    (others : ∀ i a, as[i]? = some a → i ≠ j → f a = []) :
    as.flatMap f = as[j]?.toList.flatMap f := by
  induction as generalizing j with
  | nil => rfl
  | cons a as ih =>
      cases j with
      | zero =>
          have rest : as.flatMap f = [] := by
            apply List.flatMap_eq_nil_iff.mpr
            intro b member
            obtain ⟨i, found⟩ := List.mem_iff_getElem?.mp member
            exact others (i + 1) b found (Nat.succ_ne_zero i)
          simp [rest]
      | succ j =>
          have first : f a = [] := others 0 a rfl (Nat.zero_ne_add_one j)
          rw [List.flatMap_cons, first, List.nil_append]
          exact ih j fun i b found different => others (i + 1) b found (by omega)

def Notice.atLevel (level : Level) (notices : List Notice) : List Notice :=
  notices.filter fun notice => notice.level = level

namespace Notice

theorem atLevel_append (level : Level) (before later : List Notice) :
    atLevel level (before ++ later) = atLevel level before ++ atLevel level later :=
  List.filter_append ..

theorem atLevel_flatMap {α : Type} (level : Level) (as : List α) (f : α → List Notice) :
    atLevel level (as.flatMap f) = as.flatMap fun a => atLevel level (f a) :=
  List.filter_flatMap ..

theorem atLevel_singleton (level : Level) (notice : Notice) :
    atLevel level [notice] = if notice.level = level then [notice] else [] := by
  by_cases same : notice.level = level <;> simp [atLevel, same]

theorem atLevel_strayCloses (level : Level) (different : level ≠ .warn) (strays : List Nat) :
    atLevel level (strays.map .strayClose) = [] := by
  apply List.filter_eq_nil_iff.mpr
  intro notice member
  obtain ⟨index, _, rfl⟩ := List.mem_map.mp member
  exact fun same => different (of_decide_eq_true same).symm

end Notice

theorem Grower.atLevel_faultNotices (g : Grower) (kind : EngineKind) (cause : Fault)
    (strays : List Nat) (level : Level) (different : level ≠ .warn) :
    Notice.atLevel level (g.faultNotices kind cause strays) =
      if level = .error then [.halted kind (g.iteration + 1) cause] else [] := by
  rw [faultNotices, Notice.atLevel_append, Notice.atLevel_strayCloses level different,
    Notice.atLevel_singleton, List.nil_append]
  simp only [Notice.level, eq_comm]

theorem Grower.atLevel_grownNotices (g : Grower) (kind : EngineKind) (strays : List Nat)
    (report : Notice) (debug : report.level = .debug) (count : Nat) (level : Level)
    (different : level ≠ .warn) (above : level ≠ .debug) :
    Notice.atLevel level (g.grownNotices kind strays report count) =
      if level = .info ∧ g.IsSettled then [.fullyGrown kind count] else [] := by
  rw [grownNotices, Notice.atLevel_append, Notice.atLevel_append,
    Notice.atLevel_strayCloses level different, Notice.atLevel_singleton, debug,
    if_neg (Ne.symm above), List.nil_append, List.nil_append]
  by_cases last : g.IsSettled
  · rw [if_pos last, Notice.atLevel_singleton]
    simp only [Notice.level, last, and_true, eq_comm]
  · simp [last, Notice.atLevel]

/-! ## Lives -/

theorem Growth.Effect.not_grown {kind : EngineKind} {g : Grower} {growth : Growth}
    {outcome : Outcome} {notices : List Notice} (effect : growth.Effect kind g outcome notices)
    (stays : outcome = .settled ∨ outcome = .halted) :
    ∀ segments strays, growth ≠ .grown segments strays := by
  rintro segments strays rfl
  obtain ⟨⟨discovered, advanced⟩, _⟩ := effect
  rcases stays with settled | halted
  · exact nomatch advanced.symm.trans settled
  · exact nomatch advanced.symm.trans halted

section Reach
variable {ε σ : Type} [Growing ε] [Scene σ] {start : ε} {k : Nat}
  (fresh : (grower start).Fresh) (reach : (grower start).Reach k)
include fresh reach

theorem errors_tick (calls : List (Call σ)) (i : Nat) (t : Tick ε σ)
    (found : (ticks start calls)[i]? = some t) :
    Notice.atLevel .error t.notices =
      if i = k ∧ k < (grower start).maxIterations.toNat
      then (((grower start).obstacle k).map (.halted (kind ε) (k + 1))).toList else [] := by
  have effect := effect_ticks calls start i t found
  obtain ⟨before, strays, grown⟩ | ⟨rfl, short, cause, strays, hit, failed⟩ | ⟨later, _, halted⟩ |
    ⟨_, full, settled⟩ := Grower.growth_cases fresh reach i
  · rw [grown] at effect
    obtain ⟨_, report, count, debug, notices⟩ := effect
    rw [notices, Grower.atLevel_grownNotices _ _ _ _ debug _ .error (by decide) (by decide),
      if_neg (by simp), if_neg (by omega)]
  · rw [failed] at effect
    have generation := (Grower.after_grammar fresh reach (i + 1)).1
    rw [Nat.min_eq_right (Nat.le_succ i)] at generation
    rw [effect.2, Grower.atLevel_faultNotices _ _ _ _ .error (by decide), if_pos rfl, generation,
      if_pos ⟨rfl, short⟩, hit]
    rfl
  · rw [halted] at effect
    rw [effect.2, if_neg (by omega)]
    rfl
  · rw [settled] at effect
    rw [effect.2, if_neg (by omega)]
    rfl

theorem infos_tick (calls : List (Call σ)) (i : Nat) (t : Tick ε σ)
    (found : (ticks start calls)[i]? = some t) :
    ∃ count, Notice.atLevel .info t.notices =
      if i + 1 = k ∧ k = (grower start).maxIterations.toNat
      then [.fullyGrown (kind ε) count] else [] := by
  have effect := effect_ticks calls start i t found
  obtain ⟨before, strays, grown⟩ | ⟨rfl, _, cause, strays, _, failed⟩ | ⟨later, _, halted⟩ |
    ⟨le, _, settled⟩ := Grower.growth_cases fresh reach i
  · rw [grown] at effect
    obtain ⟨_, report, count, debug, notices⟩ := effect
    have generation := (Grower.after_grammar fresh reach (i + 1)).1
    rw [Nat.min_eq_left before] at generation
    have last : ((grower start).after (i + 1)).IsSettled ↔
        i + 1 = k ∧ k = (grower start).maxIterations.toNat := by
      have le := reach.le
      rw [Grower.IsSettled, generation, Grower.maxIterations_after]
      omega
    refine ⟨count, ?_⟩
    rw [notices, Grower.atLevel_grownNotices _ _ _ _ debug _ .info (by decide) (by decide)]
    simp only [true_and, last]
  · rw [failed] at effect
    refine ⟨0, ?_⟩
    rw [effect.2, Grower.atLevel_faultNotices _ _ _ _ .info (by decide), if_neg (by decide),
      if_neg (by omega)]
  · rw [halted] at effect
    refine ⟨0, ?_⟩
    rw [effect.2, if_neg (by omega)]
    rfl
  · rw [settled] at effect
    refine ⟨0, ?_⟩
    rw [effect.2, if_neg (by omega)]
    rfl

theorem errors_ticks (calls : List (Call σ)) :
    Notice.atLevel .error ((ticks start calls).flatMap Tick.notices) =
      ((grower (after start calls)).fault.map (.halted (kind ε) (k + 1))).toList := by
  have ticked := errors_tick fresh reach calls
  -- Only the tick that finds the obstacle has an error to report.
  rw [Notice.atLevel_flatMap, grower_after, Grower.after_fault fresh reach,
    flatMap_eq_of_single _ k _ fun i t found different => by
      rw [ticked i t found, if_neg fun both => different both.1]]
  cases found : (ticks start calls)[k]? with
  | none =>
      have short := List.getElem?_eq_none_iff.mp found
      rw [if_neg (by omega)]
      rfl
  | some t =>
      have long := (List.getElem?_eq_some_iff.mp found).1
      rw [Option.toList_some, List.flatMap_singleton, ticked k t found]
      by_cases short : k < (grower start).maxIterations.toNat
      · rw [if_pos ⟨rfl, short⟩, if_pos ⟨short, long⟩]
      · rw [if_neg fun both => short both.2, if_neg fun both => short both.1]
        rfl

theorem infos_ticks (calls : List (Call σ)) :
    ∃ count, Notice.atLevel .info ((ticks start calls).flatMap Tick.notices) =
      if k = (grower start).maxIterations.toNat ∧ 1 ≤ k ∧ k ≤ (ticks start calls).length
      then [.fullyGrown (kind ε) count] else [] := by
  have ticked := infos_tick fresh reach calls
  have single : ∀ i t, (ticks start calls)[i]? = some t → i ≠ k - 1 →
      Notice.atLevel .info t.notices = [] := by
    intro i t found different
    obtain ⟨count, infos⟩ := ticked i t found
    rw [infos, if_neg (by omega)]
  rw [Notice.atLevel_flatMap, flatMap_eq_of_single _ (k - 1) _ single]
  cases found : (ticks start calls)[k - 1]? with
  | none =>
      have short := List.getElem?_eq_none_iff.mp found
      refine ⟨0, ?_⟩
      rw [if_neg (by omega)]
      rfl
  | some t =>
      have long := (List.getElem?_eq_some_iff.mp found).1
      obtain ⟨count, infos⟩ := ticked (k - 1) t found
      refine ⟨count, ?_⟩
      rw [Option.toList_some, List.flatMap_singleton, infos]
      by_cases last : k - 1 + 1 = k ∧ k = (grower start).maxIterations.toNat
      · rw [if_pos last, if_pos (by omega)]
      · rw [if_neg last, if_neg (by omega)]

end Reach

section Lives
variable {ε : Type} [Growing ε] (σ : Type) [Scene σ]

/-- The life of an engine that stops at generation `k`, whatever a host does with it. -/
structure Lifecycle (start : ε) (k : Nat) : Prop where
  reach : (grower start).Reach k
  /-- The first `k` ticks advance. -/
  advances : ∀ (calls : List (Call σ)) (i : Nat) (t : Tick ε σ),
    (ticks start calls)[i]? = some t → i < k →
      ∃ discovered, t.outcome =
        .advanced (i + 1) ((grower start).drawing (i + 1)).length discovered
  settles : ∀ (calls : List (Call σ)) (i : Nat) (t : Tick ε σ),
    (ticks start calls)[i]? = some t → k ≤ i → k = (grower start).maxIterations.toNat →
      t.outcome = .settled
  halts : ∀ (calls : List (Call σ)) (i : Nat) (t : Tick ε σ),
    (ticks start calls)[i]? = some t → k ≤ i → k < (grower start).maxIterations.toNat →
      t.outcome = .halted
  /-- A tick that does not advance changes neither the scene nor what the engine has grown. -/
  still : ∀ (calls : List (Call σ)) (scene : σ),
    let e := after start calls
    let t := tick e scene
    (t.outcome = .settled ∨ t.outcome = .halted) →
      t.scene = scene ∧ content t.engine = content e ∧
        (grower t.engine).grammar.sentence = (grower e).grammar.sentence ∧
        (grower t.engine).iteration = (grower e).iteration
  iteration : ∀ calls : List (Call σ),
    (grower (after start calls)).iteration = min (ticks start calls).length k
  fault : ∀ calls : List (Call σ),
    (grower (after start calls)).fault =
      if k < (grower start).maxIterations.toNat ∧ k < (ticks start calls).length
      then (grower start).obstacle k else none
  /-- An engine halts once on the record, with the fault that it keeps. -/
  errors : ∀ calls : List (Call σ),
    Notice.atLevel .error ((ticks start calls).flatMap Tick.notices) =
      ((grower (after start calls)).fault.map (.halted (kind ε) (k + 1))).toList
  /-- An engine is fully grown once on the record. -/
  infos : ∀ calls : List (Call σ), ∃ count,
    Notice.atLevel .info ((ticks start calls).flatMap Tick.notices) =
      if k = (grower start).maxIterations.toNat ∧ 1 ≤ k ∧ k ≤ (ticks start calls).length
      then [.fullyGrown (kind ε) count] else []
  /-- Where a generation is still to be derived, its number is a 32-bit word. -/
  counts : ∀ calls : List (Call σ),
    (grower (after start calls)).iteration ≤ (grower start).maxIterations.toNat ∧
      (¬ (grower (after start calls)).IsSettled →
        (grower (after start calls)).iteration + 1 < UInt32.size)

variable {σ}

theorem lifecycle_of_reach {start : ε} {k : Nat} (fresh : (grower start).Fresh)
    (reach : (grower start).Reach k) : Lifecycle σ start k where
  reach := reach
  advances := by
    intro calls i t found before
    have effect := effect_ticks calls start i t found
    obtain ⟨strays, grown⟩ := Grower.growth_before fresh reach before
    rw [grown] at effect
    obtain ⟨⟨discovered, advanced⟩, _⟩ := effect
    rw [(Grower.after_grammar fresh reach (i + 1)).1, Nat.min_eq_left before] at advanced
    exact ⟨discovered, advanced⟩
  settles := by
    intro calls i t found le full
    have effect := effect_ticks calls start i t found
    rw [Grower.growth_settled fresh reach full le] at effect
    exact effect.1
  halts := by
    intro calls i t found le short
    have effect := effect_ticks calls start i t found
    rcases Nat.lt_or_eq_of_le le with later | rfl
    · rw [Grower.growth_halted fresh reach short later] at effect
      exact effect.1
    · obtain ⟨cause, strays, _, failed⟩ := Grower.growth_failed fresh reach short
      rw [failed] at effect
      exact effect.1
  still := by
    intro calls scene e t stays
    have still := (effect_tick e scene).not_grown stays
    have kept := Grower.grow_still (grower e) still
    rw [← grower_tick e scene] at kept
    obtain ⟨scene_eq, content_eq⟩ := tick_still e scene still
    exact ⟨scene_eq, content_eq, kept⟩
  iteration := by
    intro calls
    rw [grower_after]
    exact (Grower.after_grammar fresh reach _).1
  fault := by
    intro calls
    rw [grower_after]
    exact Grower.after_fault fresh reach _
  errors := errors_ticks fresh reach
  infos := infos_ticks fresh reach
  counts := by
    intro calls
    have small : (grower start).maxIterations.toNat < UInt32.size :=
      (grower start).maxIterations.toNat_lt
    have le := reach.le
    rw [Grower.IsSettled, grower_after, Grower.maxIterations_after,
      (Grower.after_grammar fresh reach _).1]
    omega

end Lives

/-- The tree and the plant of a configuration stop at some generation, and where they stop tells
all that a host gets to see of them. -/
theorem ofConfig_lifecycle (σ : Type) [Scene σ] (c : Config) :
    (∀ (t : Tree) (notices : List Notice), Tree.ofConfig c = .ok (t, notices) →
      c.grammar = .ok t.grower.grammar ∧ t.grower.maxIterations = c.maxIterations ∧
        ∃ k, Lifecycle σ t k) ∧
    (∀ p : Plant, Plant.ofConfig c = .ok p →
      c.grammar = .ok p.grower.grammar ∧ p.grower.maxIterations = c.maxIterations ∧
        ∃ k, Lifecycle σ p k) := by
  constructor
  · intro t notices built
    obtain ⟨starts, _⟩ := Tree.ofConfig_eq c t notices built
    obtain ⟨k, reach⟩ := t.grower.exists_reach
    exact ⟨starts.grammar_eq, starts.maxIterations_eq, k, lifecycle_of_reach starts.fresh reach⟩
  · intro p built
    obtain ⟨starts, _⟩ := Plant.ofConfig_eq c p built
    obtain ⟨k, reach⟩ := p.grower.exists_reach
    exact ⟨starts.grammar_eq, starts.maxIterations_eq, k, lifecycle_of_reach starts.fresh reach⟩

theorem ofConfig_lifecycle_unbalanced :
    let c := { Config.tree with axiomText := "A", rules := ["A -> F B", "B -> ]"] }
    ∃ (t : Tree) (notices : List Notice), Tree.ofConfig c = .ok (t, notices) ∧
      t.grower.obstacle 1 = some (.interpret (.unbalancedBranch 1)) ∧ Lifecycle SceneLedger t 1 := by
  intro c
  have stops : (Tree.ofConfig c).toOption.map (fun built =>
      (built.1.grower.obstacle 0, built.1.grower.obstacle 1)) =
        some (none, some (.interpret (.unbalancedBranch 1))) := by decide +kernel
  obtain ⟨⟨t, notices⟩, built⟩ : ∃ built, Tree.ofConfig c = .ok built :=
    exists_of_isOk (by decide +kernel)
  rw [built] at stops
  obtain ⟨first, second⟩ := Prod.mk.inj (Option.some.inj stops)
  dsimp only at first second
  obtain ⟨_, maxIterations_eq, k, life⟩ := (ofConfig_lifecycle SceneLedger c).1 t notices built
  have reach : t.grower.Reach k := life.reach
  have up : 0 < k := by
    rw [Nat.pos_iff_ne_zero]
    rintro rfl
    have blocked := reach.blocked (by rw [maxIterations_eq]; decide)
    rw [first] at blocked
    exact nomatch blocked
  have down : k ≤ 1 := by
    by_contra above
    have clear := reach.clear 1 (by omega)
    exact nomatch second.symm.trans clear
  obtain rfl : k = 1 := by omega
  exact ⟨t, notices, built, second, life⟩

end Arbor
