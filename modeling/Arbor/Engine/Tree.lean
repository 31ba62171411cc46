import Arbor.Engine.Grower
import Arbor.Engine.Tick
import Arbor.Growth.Canopy

/-!
# Trees

A tree keeps every branch that any of its generations drew.  A tick that reaches a generation first
keeps the new branches, then grows all of them, the new ones too, and then redraws what has changed.
-/
set_option autoImplicit false

namespace Arbor

structure Tree where
  grower : Grower
  canopy : Canopy
  factor : GrowthFactor

namespace Tree

def ofConfig (c : Config) : Except ConfigError (Tree × List Notice) := do
  let grower ← Grower.ofConfig c
  let factor ← GrowthFactor.ofValue c.growthFactor
  let notices := if c.growthFactor ≤ 1 then [.noGrowth c.growthFactor] else []
  return ({ grower, canopy := .empty, factor }, notices)

variable {σ : Type} [Scene σ]

def tick (t : Tree) (scene : σ) : Tick Tree σ :=
  match t.grower.grow with
  | (grower, .halted) => ⟨{ t with grower }, scene, .halted, []⟩
  | (grower, .settled) => ⟨{ t with grower }, scene, .settled, []⟩
  | (grower, .failed cause strays) =>
    ⟨{ t with grower }, scene, .halted, grower.faultNotices .tree cause strays⟩
  | (grower, .grown segments strays) =>
    let (canopy, discovered) := t.canopy.absorb segments
    let (canopy, scene, _) := (canopy.grow t.factor).refresh scene
    let report := .treeAdvanced grower.iteration grower.grammar.sentence.length segments.length
      discovered canopy.size
    ⟨{ t with grower, canopy }, scene, .advanced grower.iteration segments.length discovered,
      grower.grownNotices .tree strays report canopy.size⟩

def teardown (t : Tree) (scene : σ) : Tree × σ :=
  let (canopy, scene) := t.canopy.clear scene
  ({ t with canopy }, scene)

end Tree

end Arbor
