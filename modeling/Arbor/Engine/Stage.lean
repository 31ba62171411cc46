import Arbor.Engine.Plant
import Arbor.Engine.Spinner
import Arbor.Engine.Tree

/-!
# Stages

A stage is several engines on one scene.  An engine is addressed by its place on the stage.
-/
set_option autoImplicit false

namespace Arbor

inductive Engine where
  | tree (t : Tree)
  | plant (p : Plant)
  | spinner (s : Spinner)

namespace Engine

variable {σ : Type} [Scene σ]

def tick (e : Engine) (scene : σ) : Tick Engine σ :=
  match e with
  | tree t => (t.tick scene).map tree
  | plant p => (p.tick scene).map plant
  | spinner s => (s.tick scene).map spinner

def teardown (e : Engine) (scene : σ) : Engine × σ :=
  match e with
  | tree t => let (t, scene) := t.teardown scene; (tree t, scene)
  | plant p => let (p, scene) := p.clear scene; (plant p, scene)
  | spinner s => let (s, scene) := s.teardown scene; (spinner s, scene)

end Engine

structure Stage (σ : Type) where
  engines : List Engine
  scene : σ

namespace Stage

variable {σ : Type} [Scene σ]

def tick (s : Stage σ) (place : Nat) : Stage σ × Option (Outcome × List Notice) :=
  match s.engines[place]? with
  | none => (s, none)
  | some e =>
    let t := e.tick s.scene
    (⟨s.engines.set place t.engine, t.scene⟩, some (t.outcome, t.notices))

def teardown (s : Stage σ) (place : Nat) : Stage σ :=
  match s.engines[place]? with
  | none => s
  | some e =>
    let (e, scene) := e.teardown s.scene
    ⟨s.engines.set place e, scene⟩

inductive Action where
  | tick (place : Nat)
  | teardown (place : Nat)
deriving DecidableEq, Repr

def perform (s : Stage σ) : Action → Stage σ
  | .tick place => (s.tick place).1
  | .teardown place => s.teardown place

def performAll (s : Stage σ) (actions : List Action) : Stage σ := actions.foldl perform s

end Stage

end Arbor
