import Arbor.Engine.Notice
import Arbor.Scene.Basic

/-!
# Ticks

A tick is one step of an engine on a scene.  It leaves an engine and a scene, tells what it did, and
may report.
-/
set_option autoImplicit false

namespace Arbor

inductive Outcome where
  /-- The engine reached a generation, which has some segments; some branches are new. -/
  | advanced (generation segments discovered : Nat)
  | settled
  | halted
  | moved
deriving DecidableEq, Repr

structure Tick (ε σ : Type) where
  engine : ε
  scene : σ
  outcome : Outcome
  notices : List Notice

def Tick.map {ε ε' σ : Type} (f : ε → ε') (t : Tick ε σ) : Tick ε' σ :=
  ⟨f t.engine, t.scene, t.outcome, t.notices⟩

end Arbor
