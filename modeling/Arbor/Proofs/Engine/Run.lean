import Arbor.Engine.Stage

/-!
# Runs of one engine

A host ticks an engine and takes it down in any order, each time on a scene of its choice.
`ticks` lists what the ticks of such a run leave, and `after` is the engine at its end.

Trees and plants grow alike: a tick of either is one attempt of its grower, and only an attempt that
succeeds touches anything else.  `Growing` says so; what follows from it holds of both.
-/

set_option autoImplicit false

namespace Arbor

class Animate (ε : Type) where
  tick {σ : Type} [Scene σ] (e : ε) (scene : σ) : Tick ε σ
  teardown {σ : Type} [Scene σ] (e : ε) (scene : σ) : ε × σ

instance : Animate Tree := ⟨Tree.tick, Tree.teardown⟩

instance : Animate Plant := ⟨Plant.tick, Plant.clear⟩

instance : Animate Spinner := ⟨Spinner.tick, Spinner.teardown⟩

inductive Call (σ : Type) where
  | tick (scene : σ)
  | teardown (scene : σ)

namespace Animate

section Runs
variable {ε σ : Type} [Animate ε] [Scene σ]

def ticks (e : ε) : List (Call σ) → List (Tick ε σ)
  | [] => []
  | .tick scene :: calls => tick e scene :: ticks (tick e scene).engine calls
  | .teardown scene :: calls => ticks (teardown e scene).1 calls

def after (e : ε) : List (Call σ) → ε
  | [] => e
  | .tick scene :: calls => after (tick e scene).engine calls
  | .teardown scene :: calls => after (teardown e scene).1 calls

theorem after_append (e : ε) (calls later : List (Call σ)) :
    after e (calls ++ later) = after (after e calls) later := by
  induction calls generalizing e with
  | nil => rfl
  | cons call calls ih => cases call <;> exact ih _

theorem ticks_append (e : ε) (calls later : List (Call σ)) :
    ticks e (calls ++ later) = ticks e calls ++ ticks (after e calls) later := by
  induction calls generalizing e with
  | nil => rfl
  | cons call calls ih =>
      cases call with
      | tick scene => exact congrArg _ (ih _)
      | teardown scene => exact ih _

theorem exists_of_getElem?_ticks (calls : List (Call σ)) (e : ε) (i : Nat) (t : Tick ε σ)
    (found : (ticks e calls)[i]? = some t) :
    ∃ (before : List (Call σ)) (scene : σ),
      t = tick (after e before) scene ∧ (ticks e before).length = i := by
  induction calls generalizing e i with
  | nil => exact nomatch found
  | cons call calls ih =>
      cases call with
      | tick first =>
          cases i with
          | zero =>
              cases found
              exact ⟨[], first, rfl, rfl⟩
          | succ i =>
              obtain ⟨before, scene, made, count⟩ := ih (tick e first).engine i found
              exact ⟨.tick first :: before, scene, made, congrArg Nat.succ count⟩
      | teardown first =>
          obtain ⟨before, scene, made, count⟩ := ih (teardown e first).1 i found
          exact ⟨.teardown first :: before, scene, made, count⟩

end Runs

end Animate

/-! ## Growing engines -/

/-- The outcome and the notices of a tick, given the growth it brought and the grower it left. -/
def Growth.Effect (kind : EngineKind) (g : Grower) : Growth → Outcome → List Notice → Prop
  | .settled, outcome, notices => outcome = .settled ∧ notices = []
  | .halted, outcome, notices => outcome = .halted ∧ notices = []
  | .failed cause strays, outcome, notices =>
    outcome = .halted ∧ notices = g.faultNotices kind cause strays
  | .grown segments strays, outcome, notices =>
    (∃ discovered, outcome = .advanced g.iteration segments.length discovered) ∧
      ∃ report count, report.level = .debug ∧ notices = g.grownNotices kind strays report count

/-- An engine whose ticks are attempts of a grower.  `content` is what it keeps of the generations:
the branches of a tree, the segments and lines of a plant. -/
class Growing (ε : Type) extends Animate ε where
  kind : EngineKind
  grower : ε → Grower
  Content : Type
  content : ε → Content
  grower_tick {σ : Type} [Scene σ] (e : ε) (scene : σ) :
    grower (tick e scene).engine = (grower e).grow.1
  effect_tick {σ : Type} [Scene σ] (e : ε) (scene : σ) :
    (grower e).grow.2.Effect kind (grower e).grow.1 (tick e scene).outcome (tick e scene).notices
  tick_still {σ : Type} [Scene σ] (e : ε) (scene : σ)
    (still : ∀ segments strays, (grower e).grow.2 ≠ .grown segments strays) :
    (tick e scene).scene = scene ∧ content (tick e scene).engine = content e
  grower_teardown {σ : Type} [Scene σ] (e : ε) (scene : σ) :
    grower (teardown e scene).1 = grower e

instance : Growing Tree where
  kind := .tree
  grower := Tree.grower
  Content := Canopy
  content := Tree.canopy
  grower_tick t scene := by
    simp only [Animate.tick, Tree.tick]
    split <;> simp_all
  effect_tick t scene := by
    simp only [Animate.tick, Tree.tick]
    split
    · next grown => rw [grown]; exact ⟨rfl, rfl⟩
    · next grown => rw [grown]; exact ⟨rfl, rfl⟩
    · next grown => rw [grown]; exact ⟨rfl, rfl⟩
    · next grown => rw [grown]; exact ⟨⟨_, rfl⟩, _, _, rfl, rfl⟩
  tick_still t scene still := by
    simp only [Animate.tick, Tree.tick]
    split <;> simp_all
  grower_teardown _ _ := rfl

instance : Growing Plant where
  kind := .plant
  grower := Plant.grower
  Content := List Segment × List Handle
  content p := (p.segments, p.handles)
  grower_tick p scene := by
    simp only [Animate.tick, Plant.tick]
    split <;> simp_all
  effect_tick p scene := by
    simp only [Animate.tick, Plant.tick]
    split
    · next grown => rw [grown]; exact ⟨rfl, rfl⟩
    · next grown => rw [grown]; exact ⟨rfl, rfl⟩
    · next grown => rw [grown]; exact ⟨rfl, rfl⟩
    · next grown => rw [grown]; exact ⟨⟨_, rfl⟩, _, _, rfl, rfl⟩
  tick_still p scene still := by
    simp only [Animate.tick, Plant.tick]
    split <;> simp_all
  grower_teardown _ _ := rfl

end Arbor
