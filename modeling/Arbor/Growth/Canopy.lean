import Arbor.Growth.Branch
import Std.Data.TreeMap

/-!
# The canopy

A canopy keeps every branch it was ever given, in the order of their discovery; the place of a
branch is its id.  A segment whose key is already known adds nothing.  `index` finds the branch of
a key.
-/
set_option autoImplicit false

namespace Arbor

structure Canopy where
  branches : Array Branch
  /-- The id of each key. -/
  index : Std.TreeMap BranchKey Nat

namespace Canopy

def empty : Canopy := ⟨#[], ∅⟩

def size (c : Canopy) : Nat := c.branches.size

def get? (c : Canopy) (id : Nat) : Option Branch := c.branches[id]?

/-- The id of a key, and the index that has it: an unknown key is given the next id. -/
def identify (index : Std.TreeMap BranchKey Nat) (key : BranchKey) (next : Nat) :
    Nat × Std.TreeMap BranchKey Nat :=
  match index[key]? with
  | some id => (id, index)
  | none => (next, index.insert key next)

def retain (c : Canopy) (s : Segment) : Canopy :=
  let (id, index) := identify c.index s.key c.branches.size
  if id = c.branches.size then ⟨c.branches.push (.new id s), index⟩ else { c with index }

theorem retain_branches (c : Canopy) (s : Segment) :
    (c.retain s).branches = c.branches.push (.new c.size s) ∨
      (c.retain s).branches = c.branches := by
  unfold retain
  split
  next id index _ =>
    split
    · next fresh => exact Or.inl (by rw [fresh, size])
    · exact Or.inr rfl

/-- Keeps every segment whose key is not known yet, and tells how many those were. -/
def absorb (c : Canopy) (segments : List Segment) : Canopy × Nat :=
  let d := segments.foldl retain c
  (d, d.size - c.size)

def grow (c : Canopy) (factor : GrowthFactor) : Canopy :=
  { c with branches := c.branches.map (Branch.grow factor) }

variable {σ : Type} [Scene σ]

/-- A scene, the branches redrawn on it so far, and how many of them were stale. -/
structure Redraw (σ : Type) where
  scene : σ
  branches : Array Branch
  rebuilt : Nat

def Redraw.next (r : Redraw σ) (b : Branch) : Redraw σ :=
  if b.stale then
    let (b, scene) := b.rematerialize r.scene
    ⟨scene, r.branches.push b, r.rebuilt + 1⟩
  else { r with branches := r.branches.push b }

def refresh (c : Canopy) (scene : σ) : Canopy × σ × Nat :=
  let r := c.branches.foldl Redraw.next ⟨scene, #[], 0⟩
  ({ c with branches := r.branches }, r.scene, r.rebuilt)

def Redraw.drop (r : Redraw σ) (b : Branch) : Redraw σ :=
  let (b, scene) := b.dispose r.scene
  ⟨scene, r.branches.push b, r.rebuilt⟩

def clear (c : Canopy) (scene : σ) : Canopy × σ :=
  let r := c.branches.foldl Redraw.drop ⟨scene, #[], 0⟩
  ({ c with branches := r.branches }, r.scene)

end Canopy

end Arbor
