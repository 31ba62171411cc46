import Arbor.Proofs.Engine.Building
import Arbor.Proofs.Growth.Redraw

/-!
# Engines that share a ledger

Whatever the engines on a stage do and in whatever order, the ledger shows exactly what they hold,
each handle with the primitive that its engine describes.  The argument is local: one action of one
engine turns `e.shown ++ rest` into `e'.shown ++ rest` for any `rest`, and what the other engines
hold is such a rest.
-/

set_option autoImplicit false

namespace Arbor

open SceneLedger (Shows)

/-! ## Trees -/

namespace Tree

theorem tick_shows (t : Tree) (s : SceneLedger) (rest : List (Handle × Primitive))
    (tidy : t.canopy.Tidy) (shows : s.Shows (t.canopy.shown ++ rest)) :
    (t.tick s).engine.canopy.Tidy ∧
      (t.tick s).scene.Shows ((t.tick s).engine.canopy.shown ++ rest) := by
  unfold tick
  split
  · exact ⟨tidy, shows⟩
  · exact ⟨tidy, shows⟩
  · exact ⟨tidy, shows⟩
  · next segments strays _ =>
      have displays := Canopy.absorb_displays (tidy.displays shows) segments
      exact Canopy.refresh_shows (Canopy.grow_displays displays t.factor)

theorem teardown_shows (t : Tree) (s : SceneLedger) (rest : List (Handle × Primitive))
    (tidy : t.canopy.Tidy) (shows : s.Shows (t.canopy.shown ++ rest)) :
    (t.teardown s).1.canopy.Tidy ∧
      (t.teardown s).2.Shows ((t.teardown s).1.canopy.shown ++ rest) :=
  Canopy.clear_shows (tidy.displays shows)

end Tree

/-! ## Plants -/

namespace Plant

def shown (p : Plant) : List (Handle × Primitive) :=
  p.handles.zip (p.segments.map Primitive.lineOfSegment)

/-- A plant holds a handle for every segment, or none at all. -/
def Tidy (p : Plant) : Prop := p.handles = [] ∨ p.handles.length = p.segments.length

theorem foldl_dispose_shows : ∀ (held : List (Handle × Primitive)) (s : SceneLedger)
    (rest : List (Handle × Primitive)), s.Shows (held ++ rest) →
      ((held.map Prod.fst).foldl Scene.dispose s).Shows rest := by
  intro held
  induction held with
  | nil => intro s rest shows; exact shows
  | cons hp held ih =>
      intro s rest shows
      exact ih _ rest (Shows.dispose shows)

theorem foldl_materialize_shows : ∀ (segments : List Segment) (s : SceneLedger)
    (drawn : List Handle) (rest : List (Handle × Primitive)), s.Shows rest →
      ∃ (s' : SceneLedger) (new : List Handle), segments.foldl (fun (scene, handles) segment =>
          let (scene, h) := Scene.materialize scene (.lineOfSegment segment)
          (scene, h :: handles)) (s, drawn) = (s', new.reverse ++ drawn) ∧
        new.length = segments.length ∧
        s'.Shows (new.zip (segments.map Primitive.lineOfSegment) ++ rest) := by
  intro segments
  induction segments with
  | nil =>
      intro s drawn rest shows
      exact ⟨s, [], rfl, rfl, shows⟩
  | cons segment segments ih =>
      intro s drawn rest shows
      have first := shows.materialize (.lineOfSegment segment)
      obtain ⟨s', new, result, length, after⟩ :=
        ih _ ((s.issued + 1) :: drawn) _ first
      refine ⟨s', (s.issued + 1) :: new, ?_, ?_, ?_⟩
      · rw [List.reverse_cons, List.append_assoc]
        exact result
      · rw [List.length_cons, List.length_cons, length]
      · exact after.perm List.perm_middle

theorem drawLines_shows (segments : List Segment) (s : SceneLedger)
    (rest : List (Handle × Primitive)) (shows : s.Shows rest) :
    (drawLines s segments).2.length = segments.length ∧
      (drawLines s segments).1.Shows
        ((drawLines s segments).2.zip (segments.map Primitive.lineOfSegment) ++ rest) := by
  obtain ⟨s', new, result, length, after⟩ := foldl_materialize_shows segments s [] rest shows
  simp only [List.append_nil] at result
  simp only [drawLines, result, List.reverse_reverse]
  exact ⟨length, after⟩

theorem Tidy.map_shown {p : Plant} (tidy : p.Tidy) : p.shown.map Prod.fst = p.handles := by
  unfold shown
  rcases tidy with none | all
  · simp [none]
  · exact List.map_fst_zip (by simp [all])

theorem clear_shows (p : Plant) (s : SceneLedger) (rest : List (Handle × Primitive))
    (tidy : p.Tidy) (shows : s.Shows (p.shown ++ rest)) :
    (p.clear s).1.Tidy ∧ (p.clear s).2.Shows ((p.clear s).1.shown ++ rest) := by
  refine ⟨Or.inl rfl, ?_⟩
  have disposed := foldl_dispose_shows p.shown s rest shows
  rw [tidy.map_shown] at disposed
  exact disposed

theorem tick_shows (p : Plant) (s : SceneLedger) (rest : List (Handle × Primitive))
    (tidy : p.Tidy) (shows : s.Shows (p.shown ++ rest)) :
    (p.tick s).engine.Tidy ∧ (p.tick s).scene.Shows ((p.tick s).engine.shown ++ rest) := by
  unfold tick
  split
  · exact ⟨tidy, shows⟩
  · exact ⟨tidy, shows⟩
  · exact ⟨tidy, shows⟩
  · next segments strays _ =>
      obtain ⟨_, cleared⟩ := p.clear_shows s rest tidy shows
      obtain ⟨length, drawn⟩ := drawLines_shows segments (p.clear s).2 rest cleared
      exact ⟨Or.inr length, drawn⟩

end Plant

/-! ## Spinners -/

namespace Spinner

def shown (s : Spinner) : List (Handle × Primitive) := (s.handle.map fun h => (h, s.primitive)).toList

theorem tick_shows (spinner : Spinner) (s : SceneLedger) (rest : List (Handle × Primitive))
    (shows : s.Shows (spinner.shown ++ rest)) :
    (spinner.tick s).scene.Shows ((spinner.tick s).engine.shown ++ rest) := by
  cases held : spinner.handle with
  | none =>
      simp only [shown, held] at shows
      simp only [tick, held]
      exact Shows.materialize shows _
  | some h =>
      simp only [shown, held] at shows
      simp only [tick, held]
      exact Shows.place shows _

theorem teardown_shows (spinner : Spinner) (s : SceneLedger) (rest : List (Handle × Primitive))
    (shows : s.Shows (spinner.shown ++ rest)) :
    (spinner.teardown s).2.Shows ((spinner.teardown s).1.shown ++ rest) := by
  cases held : spinner.handle with
  | none =>
      simp only [teardown, held]
      exact shows
  | some h =>
      simp only [shown, held] at shows
      simp only [teardown, held]
      exact Shows.dispose shows

end Spinner

/-! ## Engines -/

namespace Engine

inductive IsNew : Engine → Prop where
  | tree (c : Config) (t : Tree) (notices : List Notice)
      (built : Tree.ofConfig c = .ok (t, notices)) : IsNew (.tree t)
  | plant (c : Config) (p : Plant) (built : Plant.ofConfig c = .ok p) : IsNew (.plant p)
  | spinner (radius step : Float32) (s : Spinner) (built : Spinner.new radius step = .ok s) :
      IsNew (.spinner s)

def handles : Engine → List Handle
  | tree t => t.canopy.branches.toList.filterMap Branch.handle
  | plant p => p.handles
  | spinner s => s.handle.toList

/-- The handles that an engine holds, each with the primitive that describes what it is for. -/
def shown : Engine → List (Handle × Primitive)
  | tree t => t.canopy.shown
  | plant p => p.shown
  | spinner s => s.shown

def Tidy : Engine → Prop
  | tree t => t.canopy.Tidy
  | plant p => p.Tidy
  | spinner _ => True

theorem Tidy.map_shown {e : Engine} (tidy : e.Tidy) : e.shown.map Prod.fst = e.handles := by
  cases e with
  | tree t => simp [shown, handles, Canopy.shown, Branch.shown, List.map_filterMap, Function.comp_def]
  | plant p => exact Plant.Tidy.map_shown tidy
  | spinner s => cases held : s.handle <;> simp [shown, handles, Spinner.shown, held]

theorem IsNew.tidy {e : Engine} (new : e.IsNew) : e.Tidy ∧ e.shown = [] := by
  cases new with
  | tree c t notices built =>
      obtain ⟨_, bare, _⟩ := Tree.ofConfig_eq c t notices built
      simp [Tidy, shown, Canopy.Tidy, Canopy.shown, bare, Canopy.empty]
  | plant c p built =>
      obtain ⟨_, _, bare⟩ := Plant.ofConfig_eq c p built
      simp [Tidy, shown, Plant.Tidy, Plant.shown, bare]
  | spinner radius step s built =>
      rw [Spinner.new_eq radius step s built]
      exact ⟨trivial, rfl⟩

theorem tick_shows (e : Engine) (s : SceneLedger) (rest : List (Handle × Primitive))
    (tidy : e.Tidy) (shows : s.Shows (e.shown ++ rest)) :
    (e.tick s).engine.Tidy ∧ (e.tick s).scene.Shows ((e.tick s).engine.shown ++ rest) := by
  cases e with
  | tree t => exact t.tick_shows s rest tidy shows
  | plant p => exact p.tick_shows s rest tidy shows
  | spinner spinner => exact ⟨trivial, spinner.tick_shows s rest shows⟩

theorem teardown_shows (e : Engine) (s : SceneLedger) (rest : List (Handle × Primitive))
    (tidy : e.Tidy) (shows : s.Shows (e.shown ++ rest)) :
    (e.teardown s).1.Tidy ∧ (e.teardown s).2.Shows ((e.teardown s).1.shown ++ rest) := by
  cases e with
  | tree t => exact t.teardown_shows s rest tidy shows
  | plant p => exact p.clear_shows s rest tidy shows
  | spinner spinner => exact ⟨trivial, spinner.teardown_shows s rest shows⟩

end Engine

/-! ## Stages -/

namespace Stage

/-- The ledger shows what the engines hold, and nothing else. -/
structure Orderly (s : Stage SceneLedger) : Prop where
  tidy : ∀ e ∈ s.engines, e.Tidy
  shows : s.scene.Shows (s.engines.flatMap Engine.shown)

/-- One engine acts while the others hold on to what they have. -/
theorem Orderly.set {s : Stage SceneLedger} (orderly : s.Orderly) (place : Nat) (e e' : Engine)
    (scene' : SceneLedger) (found : s.engines[place]? = some e)
    (acts : ∀ rest, s.scene.Shows (e.shown ++ rest) → e'.Tidy ∧ scene'.Shows (e'.shown ++ rest)) :
    Orderly ⟨s.engines.set place e', scene'⟩ := by
  obtain ⟨inside, at_place⟩ := List.getElem?_eq_some_iff.mp found
  obtain ⟨before, after, split, _, result⟩ :
      ∃ before after, s.engines = before ++ s.engines[place] :: after ∧ before.length = place ∧
        s.engines.set place e' = before ++ e' :: after := List.exists_of_set inside
  rw [at_place] at split
  have shows := orderly.shows
  rw [split, List.flatMap_append, List.flatMap_cons] at shows
  have own : s.scene.Shows (e.shown ++ (before.flatMap Engine.shown ++ after.flatMap Engine.shown)) :=
    shows.perm (List.perm_append_comm_assoc ..)
  obtain ⟨tidy, acted⟩ := acts _ own
  refine ⟨?_, ?_⟩
  · intro other member
    rcases List.mem_or_eq_of_mem_set member with old | rfl
    · exact orderly.tidy other old
    · exact tidy
  · rw [result, List.flatMap_append, List.flatMap_cons]
    exact acted.perm (List.perm_append_comm_assoc ..)

theorem Orderly.perform {s : Stage SceneLedger} (orderly : s.Orderly) (action : Action) :
    (s.perform action).Orderly := by
  cases action with
  | tick place =>
      cases found : s.engines[place]? with
      | none => simpa [Stage.perform, tick, found] using orderly
      | some e =>
          have tidy := orderly.tidy e (List.mem_of_getElem? found)
          simp only [Stage.perform, tick, found]
          exact orderly.set place e _ _ found fun rest => e.tick_shows s.scene rest tidy
  | teardown place =>
      cases found : s.engines[place]? with
      | none => simpa [Stage.perform, teardown, found] using orderly
      | some e =>
          have tidy := orderly.tidy e (List.mem_of_getElem? found)
          simp only [Stage.perform, teardown, found]
          exact orderly.set place e _ _ found fun rest => e.teardown_shows s.scene rest tidy

theorem Orderly.performAll {s : Stage SceneLedger} (orderly : s.Orderly) (actions : List Action) :
    (s.performAll actions).Orderly := by
  induction actions generalizing s with
  | nil => exact orderly
  | cons action actions ih => exact ih (orderly.perform action)

def Action.place : Action → Nat
  | .tick place => place
  | .teardown place => place

theorem perform_other {σ : Type} [Scene σ] (s : Stage σ) (action : Action) (other : Nat)
    (different : other ≠ action.place) :
    (s.perform action).engines[other]? = s.engines[other]? := by
  cases action with
  | tick place =>
      simp only [perform, tick]
      split
      · rfl
      · exact List.getElem?_set_ne (Ne.symm different)
  | teardown place =>
      simp only [perform, teardown]
      split
      · rfl
      · exact List.getElem?_set_ne (Ne.symm different)

theorem Orderly.map_shown {s : Stage SceneLedger} (orderly : s.Orderly) :
    (s.engines.flatMap Engine.shown).map Prod.fst = s.engines.flatMap Engine.handles := by
  rw [List.map_flatMap]
  exact List.flatMap_congr fun e member => (orderly.tidy e member).map_shown

end Stage

end Arbor
