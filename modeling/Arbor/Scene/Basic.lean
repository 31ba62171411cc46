import Arbor.Scene.Primitive

/-!
# Scenes

A scene is whatever can show primitives: it gives each one a handle, by which it is moved and taken
away again.  `BlindScene` shows nothing and only hands out handles.
-/
set_option autoImplicit false

namespace Arbor

abbrev Handle := Nat

class Scene (σ : Type) where
  materialize : σ → Primitive → σ × Handle
  dispose : σ → Handle → σ
  place : σ → Handle → Placement → σ

/-- A scene that shows nothing.  Its handles are counted up from one. -/
structure BlindScene where
  issued : Nat
deriving DecidableEq, Repr

def BlindScene.empty : BlindScene := ⟨0⟩

instance : Scene BlindScene where
  materialize s _ := (⟨s.issued + 1⟩, s.issued + 1)
  dispose s _ := s
  place s _ _ := s

end Arbor
