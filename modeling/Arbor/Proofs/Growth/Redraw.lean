import Arbor.Growth.Canopy
import Arbor.Proofs.Scene.Showing
import Mathlib.Data.List.Forall2
import Mathlib.Data.List.ReduceOption

/-!
# Redrawing a canopy

`Branch.Visual b v` says that `v` is what a scene has of a branch, which may be out of date while
the branch is stale.  `Canopy.Displays c s rest` says that a ledger shows the visuals of a canopy
and, besides them, `rest`.  Growing makes visuals out of date, redrawing replaces those of stale
branches, clearing takes them all away; none of them touches `rest`.

On any scene at all, redrawing and clearing leave the identity and the size of branches alone.
-/

set_option autoImplicit false

namespace Arbor

/-! ## Branches -/

namespace Branch

/-- What a branch is, apart from what shows it. -/
def substance (b : Branch) : Nat × Segment := (b.id, b.segment)

def shown (b : Branch) : Option (Handle × Primitive) := b.handle.map fun h => (h, b.primitive)

/-- `v` is the handle of a branch and the primitive under it; unless the branch is stale there is
one, and it describes the branch as it is. -/
structure Visual (b : Branch) (v : Option (Handle × Primitive)) : Prop where
  handle_eq : b.handle = v.map Prod.fst
  current : b.stale = false → v.map Prod.snd = some b.primitive

def Tidy (b : Branch) : Prop := b.stale = b.handle.isNone

theorem Visual.eq_shown {b : Branch} {v : Option (Handle × Primitive)} (visual : b.Visual v)
    (fresh : b.stale = false) : v = b.shown := by
  have current := visual.current fresh
  cases v with
  | none => exact nomatch current
  | some hp =>
      obtain ⟨h, p⟩ := hp
      rw [shown, visual.handle_eq]
      simpa using current

theorem Visual.tidy {b : Branch} {v : Option (Handle × Primitive)} (visual : b.Visual v)
    (fresh : b.stale = false) : b.Tidy := by
  have current := visual.current fresh
  cases v with
  | none => exact nomatch current
  | some hp => rw [Tidy, fresh, visual.handle_eq]; rfl

theorem Tidy.visual {b : Branch} (tidy : b.Tidy) : b.Visual b.shown where
  handle_eq := by simp [shown, Function.comp_def]
  current := by
    intro fresh
    rw [Tidy, fresh] at tidy
    cases held : b.handle with
    | none => simp [held] at tidy
    | some h => simp [shown, held]

theorem new_visual (id : Nat) (s : Segment) : (new id s).Visual none where
  handle_eq := rfl
  current := by simp [new]

theorem grow_visual (factor : GrowthFactor) {b : Branch} {v : Option (Handle × Primitive)}
    (visual : b.Visual v) : (b.grow factor).Visual v where
  handle_eq := visual.handle_eq
  current := by simp [grow]

theorem dispose_shows (b : Branch) (v : Option (Handle × Primitive)) (s : SceneLedger)
    (rest : List (Handle × Primitive)) (visual : b.Visual v) (shows : s.Shows (v.toList ++ rest)) :
    (b.dispose s).2.Shows rest := by
  have held := visual.handle_eq
  cases v with
  | none =>
      simp only [dispose, held, Option.map_none]
      exact shows
  | some hp =>
      simp only [dispose, held, Option.map_some]
      exact SceneLedger.Shows.dispose shows

theorem rematerialize_shows (b : Branch) (v : Option (Handle × Primitive)) (s : SceneLedger)
    (rest : List (Handle × Primitive)) (visual : b.Visual v) (shows : s.Shows (v.toList ++ rest)) :
    ∃ h, (b.rematerialize s).1 = { b with handle := some h, stale := false } ∧
      (b.rematerialize s).2.Shows ((h, b.primitive) :: rest) :=
  ⟨_, rfl, (b.dispose_shows v s rest visual shows).materialize b.primitive⟩

end Branch

/-! ## Canopies on any scene -/

namespace Canopy

section AnyScene
variable {σ : Type} [Scene σ]

omit [Scene σ] in
theorem foldl_substance (pass : Redraw σ → Branch → Redraw σ)
    (replaces : ∀ r b, ∃ b', (pass r b).branches = r.branches.push b' ∧
      b'.substance = b.substance) :
    ∀ (bs : List Branch) (r : Redraw σ),
      (bs.foldl pass r).branches.toList.map Branch.substance =
        r.branches.toList.map Branch.substance ++ bs.map Branch.substance := by
  intro bs
  induction bs with
  | nil => intro r; simp
  | cons b bs ih =>
      intro r
      obtain ⟨b', pushed, same⟩ := replaces r b
      rw [List.foldl_cons, ih, pushed]
      simp [same]

theorem refresh_substance (c : Canopy) (scene : σ) :
    (c.refresh scene).1.branches.toList.map Branch.substance =
      c.branches.toList.map Branch.substance := by
  have replaces : ∀ (r : Redraw σ) (b : Branch), ∃ b', (r.next b).branches = r.branches.push b' ∧
      b'.substance = b.substance := by
    intro r b
    unfold Redraw.next
    split
    · exact ⟨_, rfl, rfl⟩
    · exact ⟨b, rfl, rfl⟩
  simp only [refresh, ← Array.foldl_toList]
  rw [foldl_substance Redraw.next replaces]
  simp

theorem clear_substance (c : Canopy) (scene : σ) :
    (c.clear scene).1.branches.toList.map Branch.substance =
      c.branches.toList.map Branch.substance := by
  simp only [clear, ← Array.foldl_toList]
  rw [foldl_substance Redraw.drop fun r b => ⟨_, rfl, rfl⟩]
  simp

end AnyScene

/-! ## Canopies on a ledger -/

def shown (c : Canopy) : List (Handle × Primitive) := c.branches.toList.filterMap Branch.shown

/-- The ledger shows visuals of the branches, and `rest`. -/
def Displays (c : Canopy) (s : SceneLedger) (rest : List (Handle × Primitive)) : Prop :=
  ∃ vs, List.Forall₂ Branch.Visual c.branches.toList vs ∧ s.Shows (vs.reduceOption ++ rest)

def Tidy (c : Canopy) : Prop := ∀ b ∈ c.branches.toList, b.Tidy

theorem Tidy.displays {c : Canopy} {s : SceneLedger} {rest : List (Handle × Primitive)}
    (tidy : c.Tidy) (shows : s.Shows (c.shown ++ rest)) : c.Displays s rest := by
  refine ⟨c.branches.toList.map Branch.shown, ?_, ?_⟩
  · exact List.forall₂_map_right_iff.mpr (List.forall₂_same.mpr fun b member => (tidy b member).visual)
  · simpa [shown, List.reduceOption, List.filterMap_map] using shows

theorem absorb_displays {c : Canopy} {s : SceneLedger} {rest : List (Handle × Primitive)}
    (displays : c.Displays s rest) (segments : List Segment) :
    (c.absorb segments).1.Displays s rest := by
  simp only [absorb]
  induction segments generalizing c with
  | nil => exact displays
  | cons segment segments ih =>
      apply ih
      obtain ⟨vs, visuals, shows⟩ := displays
      rcases c.retain_branches segment with pushed | same
      · refine ⟨vs ++ [none], ?_, ?_⟩
        · rw [pushed, Array.toList_push]
          exact List.rel_append visuals (.cons (Branch.new_visual _ _) .nil)
        · simpa [List.reduceOption_append] using shows
      · exact ⟨vs, same ▸ visuals, shows⟩

theorem grow_displays {c : Canopy} {s : SceneLedger} {rest : List (Handle × Primitive)}
    (displays : c.Displays s rest) (factor : GrowthFactor) : (c.grow factor).Displays s rest := by
  obtain ⟨vs, visuals, shows⟩ := displays
  refine ⟨vs, ?_, shows⟩
  rw [grow, Array.toList_map]
  exact List.forall₂_map_left_iff.mpr (visuals.imp fun b v visual => b.grow_visual factor visual)

/-- One redrawn branch: its old visual is replaced by one that is up to date. -/
theorem next_shows (r : Redraw SceneLedger) (b : Branch) (v : Option (Handle × Primitive))
    (rest : List (Handle × Primitive)) (visual : b.Visual v)
    (shows : r.scene.Shows (v.toList ++ rest)) :
    ∃ b', (r.next b).branches = r.branches.push b' ∧ b'.stale = false ∧ b'.Tidy ∧
      (r.next b).scene.Shows (b'.shown.toList ++ rest) := by
  unfold Redraw.next
  split
  · obtain ⟨h, result, after⟩ := b.rematerialize_shows v r.scene rest visual shows
    refine ⟨_, rfl, rfl, ?_, ?_⟩
    · rw [result]; rfl
    · rw [result]; exact after
  · next stale =>
      have fresh : b.stale = false := by simpa using stale
      rw [visual.eq_shown fresh] at shows
      exact ⟨b, rfl, fresh, visual.tidy fresh, shows⟩

/-- The branches that wait for a redraw hold `vs`, and those that are done moved to the rest. -/
theorem foldl_next_shows : ∀ (bs : List Branch) (vs : List (Option (Handle × Primitive))),
    List.Forall₂ Branch.Visual bs vs →
      ∀ (r : Redraw SceneLedger) (rest : List (Handle × Primitive)),
        r.scene.Shows (vs.reduceOption ++ rest) →
          ∃ done, (bs.foldl Redraw.next r).branches.toList = r.branches.toList ++ done ∧
            (∀ b ∈ done, b.stale = false ∧ b.Tidy) ∧
            (bs.foldl Redraw.next r).scene.Shows (done.filterMap Branch.shown ++ rest) := by
  intro bs vs visuals
  induction visuals with
  | nil =>
      intro r rest shows
      exact ⟨[], by simp, by simp, shows⟩
  | @cons b v bs vs visual _ ih =>
      intro r rest shows
      have first : r.scene.Shows (v.toList ++ (vs.reduceOption ++ rest)) := by
        cases v <;> exact shows
      obtain ⟨b', pushed, fresh, tidy, drawn⟩ := next_shows r b v _ visual first
      have later : (r.next b).scene.Shows (vs.reduceOption ++ (b'.shown.toList ++ rest)) :=
        drawn.perm (List.perm_append_comm_assoc ..)
      obtain ⟨done, branches, redrawn, shown⟩ := ih (r.next b) _ later
      refine ⟨b' :: done, ?_, ?_, ?_⟩
      · rw [List.foldl_cons, branches, pushed]
        simp
      · intro other member
        rcases List.mem_cons.mp member with rfl | member
        · exact ⟨fresh, tidy⟩
        · exact redrawn other member
      · have moved := shown.perm (List.perm_append_comm_assoc ..)
        cases held : b'.shown <;> simpa [held] using moved

theorem refresh_shows {c : Canopy} {s : SceneLedger} {rest : List (Handle × Primitive)}
    (displays : c.Displays s rest) :
    (c.refresh s).1.Tidy ∧ (c.refresh s).2.1.Shows ((c.refresh s).1.shown ++ rest) := by
  obtain ⟨vs, visuals, shows⟩ := displays
  obtain ⟨done, branches, redrawn, drawn⟩ :=
    foldl_next_shows _ vs visuals ⟨s, #[], 0⟩ rest shows
  simp only [List.nil_append] at branches
  simp only [Array.foldl_toList] at branches drawn
  refine ⟨?_, ?_⟩
  · intro b member
    simp only [refresh, branches] at member
    exact (redrawn b member).2
  · simp only [refresh, Canopy.shown, branches]
    exact drawn

theorem foldl_drop_shows : ∀ (bs : List Branch) (vs : List (Option (Handle × Primitive))),
    List.Forall₂ Branch.Visual bs vs →
      ∀ (r : Redraw SceneLedger) (rest : List (Handle × Primitive)),
        r.scene.Shows (vs.reduceOption ++ rest) →
          (bs.foldl Redraw.drop r).scene.Shows rest ∧
          (bs.foldl Redraw.drop r).branches.toList =
            r.branches.toList ++ bs.map fun b => { b with handle := none, stale := true } := by
  intro bs vs visuals
  induction visuals with
  | nil =>
      intro r rest shows
      exact ⟨shows, by simp⟩
  | @cons b v bs vs visual _ ih =>
      intro r rest shows
      have first : r.scene.Shows (v.toList ++ (vs.reduceOption ++ rest)) := by
        cases v <;> exact shows
      have dropped := b.dispose_shows v r.scene _ visual first
      obtain ⟨after, branches⟩ := ih (r.drop b) rest dropped
      refine ⟨after, ?_⟩
      rw [List.foldl_cons, branches]
      simp [Redraw.drop, Branch.dispose]

theorem clear_shows {c : Canopy} {s : SceneLedger} {rest : List (Handle × Primitive)}
    (displays : c.Displays s rest) :
    (c.clear s).1.Tidy ∧ (c.clear s).2.Shows ((c.clear s).1.shown ++ rest) := by
  obtain ⟨vs, visuals, shows⟩ := displays
  obtain ⟨after, branches⟩ := foldl_drop_shows _ vs visuals ⟨s, #[], 0⟩ rest shows
  simp only [List.nil_append] at branches
  simp only [Array.foldl_toList] at branches after
  refine ⟨?_, ?_⟩
  · intro b member
    simp only [clear, branches] at member
    obtain ⟨old, _, rfl⟩ := List.mem_map.mp member
    rfl
  · simp only [clear, shown, branches, List.filterMap_map]
    simpa [Branch.shown, Function.comp_def] using after

end Canopy

end Arbor
