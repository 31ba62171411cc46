import Arbor.Proofs.Growth.Discovery

/-!
# Absorbing as a union

A canopy is reachable if it comes from the empty one by absorbing, growing, redrawing and clearing,
on scenes of any kind.  To such a canopy absorbing adds, at the end and in order, the segments that
come first with a key that it does not have; the branches it has stay as they are.  So what is
absorbed in two portions might as well be absorbed in one, and what is absorbed once is known for
good.
-/

set_option autoImplicit false

namespace Arbor

namespace Canopy

/-- The canopies that a host can come to, whatever its scenes do. -/
inductive Reachable : Canopy → Prop where
  | empty : Reachable empty
  | absorb {c : Canopy} (segments : List Segment) : Reachable c → Reachable (c.absorb segments).1
  | grow {c : Canopy} (factor : GrowthFactor) : Reachable c → Reachable (c.grow factor)
  | refresh {c : Canopy} {σ : Type} [Scene σ] (scene : σ) :
      Reachable c → Reachable (c.refresh scene).1
  | clear {c : Canopy} {σ : Type} [Scene σ] (scene : σ) : Reachable c → Reachable (c.clear scene).1

theorem Reachable.coherent {c : Canopy} (reachable : c.Reachable) : c.Coherent := by
  induction reachable with
  | empty => exact empty_coherent
  | absorb segments _ ih => exact (absorb_spec ih segments).1
  | grow factor _ ih => exact (grow_spec ih factor).1
  | refresh scene _ ih => exact (refresh_spec ih scene).1
  | clear scene _ ih => exact (clear_spec ih scene).1

/-! ## What is added -/

theorem exists_foldl_retain (segments : List Segment) :
    ∀ c : Canopy, ∃ added : List Segment,
      (segments.foldl retain c).branches.toList =
        c.branches.toList ++ added.mapIdx fun k s => .new (c.size + k) s := by
  induction segments with
  | nil =>
      intro c
      exact ⟨[], by simp⟩
  | cons s segments ih =>
      intro c
      obtain ⟨added, branches⟩ := ih (c.retain s)
      rcases c.retain_branches s with pushed | same
      · have size : (c.retain s).size = c.size + 1 := by
          rw [Canopy.size, pushed, Array.size_push]
          rfl
        refine ⟨s :: added, ?_⟩
        rw [List.foldl_cons, branches, pushed, size, Array.toList_push, List.append_assoc,
          List.mapIdx_cons, List.singleton_append]
        simp only [Nat.add_zero, Nat.add_assoc, Nat.add_comm 1]
      · have size : (c.retain s).size = c.size := congrArg Array.size same
        exact ⟨added, by rw [List.foldl_cons, branches, same, size]⟩

section Absorbing
variable {c : Canopy} (coherent : c.Coherent) (segments : List Segment)
include coherent

theorem absorb_branches :
    (c.absorb segments).1.branches.toList = c.branches.toList ++
      (unseenBy Segment.key c.keys segments).mapIdx fun k s => .new (c.size + k) s := by
  obtain ⟨added, branches⟩ := exists_foldl_retain segments c
  obtain ⟨_, added_eq, _⟩ := absorb_spec coherent segments
  have copied : (added.mapIdx fun k s => Branch.new (c.size + k) s).map Branch.segment = added := by
    rw [List.mapIdx_eq_zipIdx_map, List.map_map]
    exact List.zipIdx_map_fst 0 added
  have same : c.segments ++ added = c.segments ++ unseenBy Segment.key c.keys segments := by
    rw [← added_eq, Canopy.segments, Canopy.segments, absorb, branches, List.map_append, copied]
  rw [← List.append_cancel_left same]
  exact branches

theorem absorb_count : (c.absorb segments).2 = (unseenBy Segment.key c.keys segments).length := by
  rw [(absorb_spec coherent segments).2.2, length_unseenBy]

theorem absorb_size : (c.absorb segments).1.size = c.size + (c.absorb segments).2 := by
  rw [absorb_count coherent, ← length_segments, (absorb_spec coherent segments).2.1,
    List.length_append, length_segments]

theorem mem_keys_absorb (key : BranchKey) :
    key ∈ (c.absorb segments).1.keys ↔ key ∈ c.keys ∨ key ∈ segments.map Segment.key := by
  rw [keys, (absorb_spec coherent segments).2.1, List.map_append, List.mem_append,
    mem_map_unseenBy, ← keys]
  by_cases known : key ∈ c.keys <;> simp [known]

theorem foldl_retain_known (known : ∀ s ∈ segments, s.key ∈ c.keys) :
    segments.foldl retain c = c := by
  induction segments with
  | nil => rfl
  | cons s segments ih =>
      obtain ⟨first, rest⟩ := List.forall_mem_cons.mp known
      rw [List.foldl_cons, retain_known coherent s first, ih rest]

end Absorbing

/-! ## The union -/

/-- What absorbing does to a canopy, for any segments `a` and `b`. -/
structure Union (c : Canopy) (a b : List Segment) : Prop where
  /-- New branches are numbered onwards; they are not shown yet, and stale. -/
  branches_eq : (c.absorb a).1.branches.toList = c.branches.toList ++
    (unseenBy Segment.key c.keys a).mapIdx fun k s => ⟨c.size + k, s, none, true⟩
  count_eq : (c.absorb a).2 = (unseenBy Segment.key c.keys a).length
  kept : ∀ (id : Nat) (branch : Branch), c.get? id = some branch →
    (c.absorb a).1.get? id = some branch
  append_eq : c.absorb (a ++ b) =
    (((c.absorb a).1.absorb b).1, (c.absorb a).2 + ((c.absorb a).1.absorb b).2)
  again_eq : (c.absorb a).1.absorb a = ((c.absorb a).1, 0)
  perm : ∀ a' : List Segment, a'.Perm a → (c.absorb a').2 = (c.absorb a).2 ∧
    ∀ key, key ∈ (c.absorb a').1.keys ↔ key ∈ (c.absorb a).1.keys

theorem Reachable.union {c : Canopy} (reachable : c.Reachable) (a b : List Segment) :
    c.Union a b where
  branches_eq := absorb_branches reachable.coherent a
  count_eq := absorb_count reachable.coherent a
  kept := by
    intro id branch found
    have inside : id < c.branches.toList.length := by
      rw [Array.length_toList]
      exact (Array.getElem?_eq_some_iff.mp found).1
    rw [get?, ← Array.getElem?_toList] at found ⊢
    rw [absorb_branches reachable.coherent a, List.getElem?_append_left inside]
    exact found
  append_eq := by
    have coherent := reachable.coherent
    have after := (absorb_spec coherent a).1
    have same : (c.absorb (a ++ b)).1 = ((c.absorb a).1.absorb b).1 := List.foldl_append ..
    have total := absorb_size coherent (a ++ b)
    rw [same, absorb_size after, absorb_size coherent, Nat.add_assoc] at total
    exact Prod.ext same (Nat.add_left_cancel total).symm
  again_eq := by
    have after := (absorb_spec reachable.coherent a).1
    have known : ∀ s ∈ a, s.key ∈ (c.absorb a).1.keys := by
      intro s member
      exact (mem_keys_absorb reachable.coherent a s.key).mpr (Or.inr (List.mem_map_of_mem member))
    have same : ((c.absorb a).1.absorb a).1 = (c.absorb a).1 := foldl_retain_known after a known
    have size := absorb_size after a
    rw [same] at size
    exact Prod.ext same (by omega)
  perm := by
    intro a' perm
    have coherent := reachable.coherent
    have keys : (a'.map Segment.key).Perm (a.map Segment.key) := perm.map Segment.key
    constructor
    · rw [(absorb_spec coherent a').2.2, (absorb_spec coherent a).2.2,
        List.toFinset_eq_of_perm _ _ keys]
    · intro key
      rw [mem_keys_absorb coherent, mem_keys_absorb coherent, keys.mem_iff]

/-- A canopy of two branches that have grown and are shown absorbs one that it has, and a new one
twice. -/
theorem Reachable.union_grown :
    let trunk : Segment := ⟨⟨0, 0, 0⟩, ⟨0, 1, 0⟩, 0.5, 0.02⟩
    let twig : Segment := ⟨⟨0, 1, 0⟩, ⟨1, 0, 0⟩, 0.5, 0.02⟩
    let leaf : Segment := ⟨⟨0, 1, 0⟩, ⟨0, 0, 1⟩, 0.25, 0.01⟩
    let old : Canopy := (Canopy.empty.absorb [trunk, twig]).1.grow ⟨2, by decide⟩
    let c : Canopy := (old.refresh SceneLedger.empty).1
    c.Reachable ∧ c.Union [leaf, twig, leaf] [trunk, leaf] ∧
      (c.absorb [leaf, twig, leaf]).2 = 1 ∧
      (c.absorb [leaf, twig, leaf]).1.branches.toList.map (fun b => (b.id, b.handle, b.stale)) =
        [(0, some 1, false), (1, some 2, false), (2, none, true)] := by
  intro trunk twig leaf old c
  have reachable : c.Reachable :=
    .refresh SceneLedger.empty (.grow ⟨2, by decide⟩ (.absorb [trunk, twig] .empty))
  exact ⟨reachable, reachable.union [leaf, twig, leaf] [trunk, leaf], by decide +kernel,
    by decide +kernel⟩

end Canopy

end Arbor
