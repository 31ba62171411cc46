import Arbor.Engine.Grower
import Arbor.Engine.Tick

/-!
# Plants

A plant shows its current generation only, as lines.  A tick that reaches a generation takes the old
lines away and draws the new ones in the order of the segments.
-/
set_option autoImplicit false

namespace Arbor

structure Plant where
  grower : Grower
  segments : List Segment
  /-- The lines shown, in the order of the segments. -/
  handles : List Handle
deriving DecidableEq, Repr

namespace Plant

def ofConfig (c : Config) : Except ConfigError Plant := do
  let grower ← Grower.ofConfig c
  return { grower, segments := [], handles := [] }

variable {σ : Type} [Scene σ]

def clear (p : Plant) (scene : σ) : Plant × σ :=
  ({ p with handles := [] }, p.handles.foldl Scene.dispose scene)

def drawLines (scene : σ) (segments : List Segment) : σ × List Handle :=
  let (scene, handles) := segments.foldl
    (fun (scene, handles) s =>
      let (scene, h) := Scene.materialize scene (.lineOfSegment s)
      (scene, h :: handles))
    (scene, [])
  (scene, handles.reverse)

def tick (p : Plant) (scene : σ) : Tick Plant σ :=
  match p.grower.grow with
  | (grower, .halted) => ⟨{ p with grower }, scene, .halted, []⟩
  | (grower, .settled) => ⟨{ p with grower }, scene, .settled, []⟩
  | (grower, .failed cause strays) =>
    ⟨{ p with grower }, scene, .halted, grower.faultNotices .plant cause strays⟩
  | (grower, .grown segments strays) =>
    let (p, scene) := p.clear scene
    let (scene, handles) := drawLines scene segments
    let report := .plantRedrawn grower.iteration grower.grammar.sentence.length segments.length
    ⟨{ p with grower, segments, handles }, scene, .advanced grower.iteration segments.length 0,
      grower.grownNotices .plant strays report segments.length⟩

end Plant

end Arbor
