import Arbor.Proofs.Engine.Custody
import Arbor.Proofs.Engine.Run

/-!
# An engine among others

On a stage much happens that is no business of one engine: the others act, and the host may call the
scene itself.  All of it reaches the engine only through the scene that its own calls are given.
`Stage.calls` lists these calls; the engine at a place, and the outcomes of its ticks, are those of
a run of these calls alone.
-/

set_option autoImplicit false

namespace Arbor

open Animate

instance : Animate Engine := ⟨Engine.tick, Engine.teardown⟩

namespace Animate

/-- Engines of one kind, seen as engines of another kind, do what they did before. -/
structure Embeds {ε ε' : Type} [Animate ε] [Animate ε'] (f : ε → ε') : Prop where
  tick_eq : ∀ {σ : Type} [Scene σ] (e : ε) (scene : σ), tick (f e) scene = (tick e scene).map f
  teardown_eq : ∀ {σ : Type} [Scene σ] (e : ε) (scene : σ),
    (teardown (f e) scene).1 = f (teardown e scene).1

section Embedding
variable {ε ε' σ : Type} [Animate ε] [Animate ε'] [Scene σ] {f : ε → ε'} (embeds : Embeds f)
include embeds

theorem Embeds.after_eq (calls : List (Call σ)) (e : ε) :
    after (f e) calls = f (after e calls) := by
  induction calls generalizing e with
  | nil => rfl
  | cons call calls ih =>
      cases call with
      | tick scene =>
          rw [after, embeds.tick_eq]
          exact ih _
      | teardown scene =>
          rw [after, embeds.teardown_eq]
          exact ih _

theorem Embeds.ticks_eq (calls : List (Call σ)) (e : ε) :
    ticks (f e) calls = (ticks e calls).map (Tick.map f) := by
  induction calls generalizing e with
  | nil => rfl
  | cons call calls ih =>
      cases call with
      | tick scene =>
          rw [ticks, embeds.tick_eq, ticks, List.map_cons, ← ih]
          rfl
      | teardown scene =>
          rw [ticks, embeds.teardown_eq]
          exact ih _

end Embedding

end Animate

theorem Engine.tree_embeds : Embeds Engine.tree := ⟨fun _ _ => rfl, fun _ _ => rfl⟩

theorem Engine.plant_embeds : Embeds Engine.plant := ⟨fun _ _ => rfl, fun _ _ => rfl⟩

namespace Stage

/-- What can happen on a stage: an engine acts, or the host makes a call of the scene. -/
inductive Event where
  | act (action : Action)
  | materialize (p : Primitive)
  | dispose (h : Handle)
  | place (h : Handle) (placement : Placement)
deriving DecidableEq, Repr

section Events
variable {σ : Type} [Scene σ]

def happen (s : Stage σ) : Event → Stage σ
  | .act action => s.perform action
  | .materialize p => { s with scene := (Scene.materialize s.scene p).1 }
  | .dispose h => { s with scene := Scene.dispose s.scene h }
  | .place h placement => { s with scene := Scene.place s.scene h placement }

def happenAll (s : Stage σ) (events : List Event) : Stage σ := events.foldl happen s

def outcome? (s : Stage σ) (place : Nat) : Event → Option Outcome
  | .act (.tick other) => if other = place then (s.tick other).2.map Prod.fst else none
  | _ => none

def outcomes (s : Stage σ) (place : Nat) : List Event → List Outcome
  | [] => []
  | event :: events => (s.outcome? place event).toList ++ (s.happen event).outcomes place events

def call? (s : Stage σ) (place : Nat) : Event → Option (Call σ)
  | .act (.tick other) => if other = place then some (.tick s.scene) else none
  | .act (.teardown other) => if other = place then some (.teardown s.scene) else none
  | _ => none

/-- The calls of the engine at a place. -/
def calls (s : Stage σ) (place : Nat) : List Event → List (Call σ)
  | [] => []
  | event :: events => (s.call? place event).toList ++ (s.happen event).calls place events

theorem happen_engine {s : Stage σ} {place : Nat} {e : Engine} (there : s.engines[place]? = some e)
    (event : Event) :
    (s.happen event).engines[place]? = some (after e (s.call? place event).toList) ∧
      (s.outcome? place event).toList =
        (ticks e (s.call? place event).toList).map Tick.outcome ∧
      (ticks e (s.call? place event).toList).length =
        if event = .act (.tick place) then 1 else 0 := by
  have inside := (List.getElem?_eq_some_iff.mp there).1
  cases event with
  | act action =>
      cases action with
      | tick other =>
          by_cases same : other = place
          · subst same
            simp only [call?, outcome?, if_true, happen, perform, Stage.tick, there,
              Option.map_some, Option.toList_some]
            exact ⟨List.getElem?_set_self inside, rfl, rfl⟩
          · have stays := perform_other s (.tick other) place (Ne.symm same)
            simp only [call?, outcome?, if_neg same, happen]
            exact ⟨stays.trans there, rfl, by simp [ticks, same]⟩
      | teardown other =>
          by_cases same : other = place
          · subst same
            simp only [call?, if_true, happen, perform, Stage.teardown, there, Option.toList_some]
            exact ⟨List.getElem?_set_self inside, rfl, rfl⟩
          · have stays := perform_other s (.teardown other) place (Ne.symm same)
            simp only [call?, if_neg same, happen]
            exact ⟨stays.trans there, rfl, rfl⟩
  | materialize p => exact ⟨there, rfl, rfl⟩
  | dispose h => exact ⟨there, rfl, rfl⟩
  | place h placement => exact ⟨there, rfl, rfl⟩

/-- The engine at a place after some events is the engine after its calls, which tick it as often
as the events do. -/
theorem happenAll_engine (events : List Event) {s : Stage σ} {place : Nat} {e : Engine}
    (there : s.engines[place]? = some e) :
    (s.happenAll events).engines[place]? = some (after e (s.calls place events)) ∧
      s.outcomes place events = (ticks e (s.calls place events)).map Tick.outcome ∧
      (ticks e (s.calls place events)).length = events.count (.act (.tick place)) := by
  induction events generalizing s e with
  | nil => exact ⟨there, rfl, rfl⟩
  | cons event events ih =>
      obtain ⟨stands, outcome, count⟩ := happen_engine there event
      obtain ⟨ends, outcomes, counts⟩ := ih stands
      rw [Stage.outcomes, calls, after_append, ticks_append, outcome, outcomes, List.map_append,
        List.length_append, count, counts, List.count_cons]
      refine ⟨ends, rfl, ?_⟩
      simp only [beq_iff_eq]
      exact Nat.add_comm _ _

theorem happenAll_tree (events : List Event) {s : Stage σ} {place : Nat} {t : Tree}
    (there : s.engines[place]? = some (.tree t)) :
    (s.happenAll events).engines[place]? = some (.tree (after t (s.calls place events))) ∧
      s.outcomes place events = (ticks t (s.calls place events)).map Tick.outcome ∧
      (ticks t (s.calls place events)).length = events.count (.act (.tick place)) := by
  have run := happenAll_engine events there
  rw [Engine.tree_embeds.after_eq, Engine.tree_embeds.ticks_eq, List.map_map,
    List.length_map] at run
  exact run

theorem happenAll_plant (events : List Event) {s : Stage σ} {place : Nat} {p : Plant}
    (there : s.engines[place]? = some (.plant p)) :
    (s.happenAll events).engines[place]? = some (.plant (after p (s.calls place events))) ∧
      s.outcomes place events = (ticks p (s.calls place events)).map Tick.outcome ∧
      (ticks p (s.calls place events)).length = events.count (.act (.tick place)) := by
  have run := happenAll_engine events there
  rw [Engine.plant_embeds.after_eq, Engine.plant_embeds.ticks_eq, List.map_map,
    List.length_map] at run
  exact run

end Events

end Stage

end Arbor
