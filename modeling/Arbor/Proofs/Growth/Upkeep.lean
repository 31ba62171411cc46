import Arbor.Proofs.Growth.Discovery

/-!
# A canopy in use

A host absorbs segments into a canopy, grows it, redraws it and clears it, in any order, and the
canopy is all that its ledger ever shows.  `Upkeep` collects what holds at every moment: the index
and the branches agree, the live handles are those of the branches, a branch that is not stale is
shown as it is, and a redraw does what is due and nothing twice.  Besides, branches are only ever
added: what identifies a branch never changes.
-/

set_option autoImplicit false

namespace Arbor

def Branch.identity (b : Branch) : Nat × Geometry.Vec3 × Geometry.Vec3 :=
  (b.id, b.segment.start, b.segment.direction)

namespace Canopy

def identities (c : Canopy) : List (Nat × Geometry.Vec3 × Geometry.Vec3) :=
  c.branches.toList.map Branch.identity

def handles (c : Canopy) : List Handle := c.branches.toList.filterMap Branch.handle

inductive Task where
  | absorb (segments : List Segment)
  | grow (factor : GrowthFactor)
  | refresh
  | clear

def perform (state : Canopy × SceneLedger) : Task → Canopy × SceneLedger
  | .absorb segments => ((state.1.absorb segments).1, state.2)
  | .grow factor => (state.1.grow factor, state.2)
  | .refresh => ((state.1.refresh state.2).1, (state.1.refresh state.2).2.1)
  | .clear => state.1.clear state.2

def performAll (state : Canopy × SceneLedger) (tasks : List Task) : Canopy × SceneLedger :=
  tasks.foldl perform state

/-! ## Redrawing on any scene -/

section Redrawing
variable {σ : Type} [Scene σ]

theorem foldl_next_rebuilt (bs : List Branch) (r : Redraw σ) :
    (bs.foldl Redraw.next r).rebuilt = r.rebuilt + bs.countP Branch.stale := by
  induction bs generalizing r with
  | nil => rfl
  | cons b bs ih =>
      rw [List.foldl_cons, ih, List.countP_cons, Redraw.next]
      cases b.stale with
      | true =>
          change r.rebuilt + 1 + _ = r.rebuilt + (_ + 1)
          omega
      | false => rfl

theorem foldl_next_stale (bs : List Branch) (r : Redraw σ)
    (done : ∀ b ∈ r.branches.toList, b.stale = false) :
    ∀ b ∈ (bs.foldl Redraw.next r).branches.toList, b.stale = false := by
  induction bs generalizing r with
  | nil => exact done
  | cons b bs ih =>
      apply ih
      intro other member
      unfold Redraw.next at member
      split at member
      · rw [Array.toList_push, List.mem_append, List.mem_singleton] at member
        rcases member with old | rfl
        · exact done other old
        · rfl
      · next fresh =>
          rw [Array.toList_push, List.mem_append, List.mem_singleton] at member
          rcases member with old | rfl
          · exact done other old
          · simpa using fresh

theorem foldl_next_fresh (bs : List Branch) (fresh : ∀ b ∈ bs, b.stale = false) (r : Redraw σ) :
    bs.foldl Redraw.next r = { r with branches := r.branches ++ bs } := by
  induction bs generalizing r with
  | nil => simp
  | cons b bs ih =>
      have first : b.stale = false := fresh b List.mem_cons_self
      have stays : r.next b = { r with branches := r.branches.push b } := by
        simp [Redraw.next, first]
      rw [List.foldl_cons, ih (fun other member => fresh other (List.mem_cons_of_mem b member)),
        stays]
      simp

theorem refresh_count (c : Canopy) (scene : σ) :
    (c.refresh scene).2.2 = c.branches.toList.countP Branch.stale := by
  simp only [refresh, ← Array.foldl_toList]
  rw [foldl_next_rebuilt, Nat.zero_add]

theorem refresh_stale (c : Canopy) (scene : σ) :
    ∀ b ∈ (c.refresh scene).1.branches.toList, b.stale = false := by
  simp only [refresh, ← Array.foldl_toList]
  exact foldl_next_stale _ _ (by simp)

theorem refresh_of_fresh (c : Canopy) (fresh : ∀ b ∈ c.branches.toList, b.stale = false)
    (scene : σ) : c.refresh scene = (c, scene, 0) := by
  simp only [refresh, ← Array.foldl_toList]
  rw [foldl_next_fresh _ fresh]
  simp

end Redrawing

/-! ## Identities -/

theorem Coherent.identities_eq {c : Canopy} (coherent : c.Coherent) :
    c.identities = c.segments.mapIdx fun i s => (i, s.start, s.direction) := by
  have substance := congrArg
    (List.map fun p : Nat × Segment => (p.1, p.2.start, p.2.direction)) coherent.substance_eq
  rw [List.map_map, List.mapIdx_eq_zipIdx_map, List.map_map] at substance
  rw [List.mapIdx_eq_zipIdx_map]
  exact substance

theorem Coherent.nodup_keys {c : Canopy} (coherent : c.Coherent) : c.keys.Nodup := by
  rw [List.nodup_iff_getElem?_ne_getElem?]
  intro i j less inside same
  have found : c.keys[j]? = some c.keys[j] := List.getElem?_eq_getElem inside
  -- One key is found at one place only.
  have first := (coherent.index_iff _ i).mpr (same.trans found)
  have second := (coherent.index_iff _ j).mpr found
  have equal : i = j := Option.some.inj (first.symm.trans second)
  omega

theorem perform_identities {c : Canopy} (coherent : c.Coherent) (s : SceneLedger) (task : Task) :
    (perform (c, s) task).1.Coherent ∧
      c.identities <+: (perform (c, s) task).1.identities := by
  cases task with
  | absorb segments =>
      obtain ⟨after, added, _⟩ := absorb_spec coherent segments
      refine ⟨after, ?_⟩
      rw [perform, after.identities_eq, added, coherent.identities_eq, List.mapIdx_append]
      exact List.prefix_append _ _
  | grow factor =>
      have same : (c.grow factor).identities = c.identities := by
        simp [identities, grow, Branch.identity, Branch.grow, Segment.scale, Function.comp_def]
      refine ⟨(grow_spec coherent factor).1, ?_⟩
      rw [perform, same]
  | refresh =>
      obtain ⟨after, same⟩ := refresh_spec coherent s
      refine ⟨after, ?_⟩
      rw [perform, after.identities_eq, same, coherent.identities_eq]
  | clear =>
      obtain ⟨after, same⟩ := clear_spec coherent s
      refine ⟨after, ?_⟩
      rw [perform, after.identities_eq, same, coherent.identities_eq]

theorem performAll_identities (tasks : List Task) {c : Canopy} (coherent : c.Coherent)
    (s : SceneLedger) :
    (performAll (c, s) tasks).1.Coherent ∧
      c.identities <+: (performAll (c, s) tasks).1.identities := by
  induction tasks generalizing c s with
  | nil => exact ⟨coherent, List.prefix_refl _⟩
  | cons task tasks ih =>
      obtain ⟨after, kept⟩ := perform_identities coherent s task
      obtain ⟨ended, later⟩ := ih after (perform (c, s) task).2
      exact ⟨ended, kept.trans later⟩

/-! ## Visuals -/

theorem perform_displays {c : Canopy} {s : SceneLedger} (displays : c.Displays s [])
    (task : Task) : (perform (c, s) task).1.Displays (perform (c, s) task).2 [] := by
  cases task with
  | absorb segments => exact absorb_displays displays segments
  | grow factor => exact grow_displays displays factor
  | refresh =>
      obtain ⟨tidy, shows⟩ := refresh_shows displays
      exact tidy.displays shows
  | clear =>
      obtain ⟨tidy, shows⟩ := clear_shows displays
      exact tidy.displays shows

theorem performAll_displays (tasks : List Task) {c : Canopy} {s : SceneLedger}
    (displays : c.Displays s []) :
    (performAll (c, s) tasks).1.Displays (performAll (c, s) tasks).2 [] := by
  induction tasks generalizing c s with
  | nil => exact displays
  | cons task tasks ih => exact ih (perform_displays displays task)

theorem empty_displays : empty.Displays SceneLedger.empty [] :=
  ⟨[], .nil, SceneLedger.Shows.empty⟩

theorem map_fst_reduceOption {bs : List Branch} {vs : List (Option (Handle × Primitive))}
    (visuals : List.Forall₂ Branch.Visual bs vs) :
    vs.reduceOption.map Prod.fst = bs.filterMap Branch.handle := by
  induction visuals with
  | nil => rfl
  | @cons b v bs vs visual _ ih =>
      rw [List.filterMap_cons, visual.handle_eq, ← ih]
      cases v <;> rfl

theorem exists_visual {bs : List Branch} {vs : List (Option (Handle × Primitive))}
    (visuals : List.Forall₂ Branch.Visual bs vs) {b : Branch} (member : b ∈ bs) :
    ∃ v ∈ vs, b.Visual v := by
  induction visuals with
  | nil => exact nomatch member
  | @cons b' v bs vs visual _ ih =>
      rcases List.mem_cons.mp member with rfl | member
      · exact ⟨v, List.mem_cons_self, visual⟩
      · obtain ⟨v', listed, visual'⟩ := ih member
        exact ⟨v', List.mem_cons_of_mem v listed, visual'⟩

/-- What holds of a canopy and its ledger at every moment. -/
structure Upkeep (c : Canopy) (s : SceneLedger) : Prop where
  id_eq : ∀ (i : Nat) (b : Branch), c.get? i = some b → b.id = i
  nodup_keys : c.keys.Nodup
  index_iff : ∀ (key : BranchKey) (i : Nat),
    c.index[key]? = some i ↔ ∃ b, c.get? i = some b ∧ b.segment.key = key
  nodup_handles : c.handles.Nodup
  live_iff : ∀ h, (s.get? h).isSome ↔ h ∈ c.handles
  no_stray : s.stray = 0
  /-- A branch that is not stale is shown at its size. -/
  current : ∀ b ∈ c.branches.toList, b.stale = false →
    ∃ h, b.handle = some h ∧ s.get? h = some b.primitive
  rebuilt_eq : (c.refresh s).2.2 = c.branches.toList.countP Branch.stale
  refreshed : ∀ b ∈ (c.refresh s).1.branches.toList, b.stale = false
  /-- No scene of any kind gets a call from a second redraw. -/
  refresh_again : ∀ {σ : Type} [Scene σ] (scene : σ),
    (c.refresh s).1.refresh scene = ((c.refresh s).1, scene, 0)

theorem Coherent.id_eq {c : Canopy} (coherent : c.Coherent) {i : Nat} {b : Branch}
    (found : c.get? i = some b) : b.id = i := by
  have listed : c.branches.toList[i]? = some b := by simpa [get?] using found
  have inside : i < c.size := (List.getElem?_eq_some_iff.mp listed).1
  have id_eq : (c.branches.toList.map Branch.id)[i]? = some i := by
    rw [coherent.ids_eq, List.getElem?_range inside]
  rw [List.getElem?_map, listed, Option.map_some] at id_eq
  exact Option.some.inj id_eq

theorem getElem?_keys (c : Canopy) (i : Nat) :
    c.keys[i]? = (c.get? i).map fun b => b.segment.key := by
  simp [keys, segments, get?, Function.comp_def]

theorem Coherent.upkeep {c : Canopy} {s : SceneLedger} (coherent : c.Coherent)
    (displays : c.Displays s []) : c.Upkeep s := by
  obtain ⟨vs, visuals, shows⟩ := displays
  rw [List.append_nil] at shows
  have handles_eq : vs.reduceOption.map Prod.fst = c.handles := map_fst_reduceOption visuals
  constructor
  · exact fun i b found => coherent.id_eq found
  · exact coherent.nodup_keys
  · intro key i
    rw [coherent.index_iff, getElem?_keys, Option.map_eq_some_iff]
  · exact handles_eq ▸ shows.distinct
  · intro h
    rw [← handles_eq, List.mem_map, Option.isSome_iff_exists]
    constructor
    · rintro ⟨p, found⟩
      exact ⟨(h, p), (shows.get?_eq_some h p).mp found, rfl⟩
    · rintro ⟨⟨_, p⟩, held, rfl⟩
      exact ⟨p, (shows.get?_eq_some _ p).mpr held⟩
  · exact shows.stray_eq
  · intro b member fresh
    obtain ⟨v, listed, visual⟩ := exists_visual visuals member
    obtain ⟨⟨h, p⟩, rfl, described⟩ := Option.map_eq_some_iff.mp (visual.current fresh)
    obtain rfl : p = b.primitive := described
    exact ⟨h, visual.handle_eq, (shows.get?_eq_some h _).mpr (List.reduceOption_mem_iff.mpr listed)⟩
  · exact refresh_count c s
  · exact refresh_stale c s
  · exact fun scene => refresh_of_fresh _ (refresh_stale c s) scene

/-- A canopy that is alone on its ledger is in order whatever its host does, and what it has once
kept it keeps as it is. -/
theorem performAll_upkeep (tasks : List Task) :
    let state := performAll (empty, SceneLedger.empty) tasks
    state.1.Upkeep state.2 ∧
      ∀ later : List Task, state.1.identities <+: (performAll state later).1.identities := by
  intro state
  have coherent := (performAll_identities tasks empty_coherent SceneLedger.empty).1
  have displays := performAll_displays tasks empty_displays
  exact ⟨coherent.upkeep displays, fun later => (performAll_identities later coherent _).2⟩

end Canopy

end Arbor
