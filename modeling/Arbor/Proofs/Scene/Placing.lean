import Arbor.Proofs.Scene.History

/-!
# Placing a primitive again and again

A solid takes a placement as its own, so only the last one counts.  A line has no placement to take:
its ends are carried along by each one in turn, and what a placement does to it depends on those
before.  Either way nothing else on the ledger changes.
-/

set_option autoImplicit false

namespace Arbor

open Arbor.Geometry (Vec3 Rotation)

namespace Primitive

/-- Branches and spheres have a placement of their own. -/
def IsSolid : Primitive → Prop
  | branch _ _ => True
  | line _ _ => False
  | sphere _ _ => True

theorem place_place {p : Primitive} (solid : p.IsSolid) (q r : Placement) :
    (p.place q).place r = p.place r := by
  cases p with
  | branch frustum placement => rfl
  | line start stop => exact False.elim solid
  | sphere radius placement => rfl

theorem IsSolid.place {p : Primitive} (solid : p.IsSolid) (q : Placement) :
    (p.place q).IsSolid := by
  cases p with
  | branch frustum placement => trivial
  | line start stop => exact False.elim solid
  | sphere radius placement => trivial

end Primitive

def Placement.carry (qs : List Placement) (v : Vec3) : Vec3 := qs.foldl (fun v q => q.apply v) v

namespace SceneLedger

def placeAll (s : SceneLedger) (h : Handle) (qs : List Placement) : SceneLedger :=
  qs.foldl (fun s q => s.place h q) s

/-- What placements leave behind: the primitive that they have moved, and all else as it was. -/
structure Placed (s s' : SceneLedger) (h : Handle) (p' : Primitive) : Prop where
  get?_eq : ∀ k, s'.get? k = if k = h then some p' else s.get? k
  issued_eq : s'.issued = s.issued
  materialized_eq : s'.materialized = s.materialized
  disposed_eq : s'.disposed = s.disposed
  stray_eq : s'.stray = s.stray

theorem place_placed {s : SceneLedger} {h : Handle} {p : Primitive} (live : s.get? h = some p)
    (q : Placement) : Placed s (s.place h q) h (p.place q) := by
  have moved : ∀ k, (s.place h q).get? k = if k = h then some (p.place q) else s.get? k := by
    intro k
    rw [get?_place, live, Option.map_some]
  rw [place_of_live s live] at moved ⊢
  exact ⟨moved, rfl, rfl, rfl, rfl⟩

theorem placed_self {s : SceneLedger} {h : Handle} {p : Primitive} (live : s.get? h = some p) :
    Placed s s h p := by
  refine ⟨?_, rfl, rfl, rfl, rfl⟩
  intro k
  split
  · next same => rw [same, live]
  · rfl

theorem Placed.trans {s s' s'' : SceneLedger} {h : Handle} {p' p'' : Primitive}
    (first : Placed s s' h p') (second : Placed s' s'' h p'') : Placed s s'' h p'' where
  get?_eq k := by
    rw [second.get?_eq, first.get?_eq]
    split <;> rfl
  issued_eq := second.issued_eq.trans first.issued_eq
  materialized_eq := second.materialized_eq.trans first.materialized_eq
  disposed_eq := second.disposed_eq.trans first.disposed_eq
  stray_eq := second.stray_eq.trans first.stray_eq

theorem Placed.eq_iff {s s' s'' : SceneLedger} {h : Handle} {p' p'' : Primitive}
    (placed : Placed s s' h p') (placed' : Placed s s'' h p'') : s' = s'' ↔ p' = p'' := by
  constructor
  · intro same
    have left := placed.get?_eq h
    have right := placed'.get?_eq h
    rw [if_pos rfl] at left right
    rw [same, right] at left
    exact (Option.some.inj left).symm
  · rintro rfl
    have shown : s'.shown = s''.shown := by
      apply Std.ExtTreeMap.ext_getElem?
      intro k
      exact (placed.get?_eq k).trans (placed'.get?_eq k).symm
    cases s'
    cases s''
    obtain ⟨_, rfl, rfl, rfl, rfl⟩ := placed
    obtain ⟨_, rfl, rfl, rfl, rfl⟩ := placed'
    cases shown
    rfl

theorem placeAll_placed {s : SceneLedger} {h : Handle} {p : Primitive} (live : s.get? h = some p)
    (qs : List Placement) :
    Placed s (s.placeAll h qs) h (qs.foldl (fun p q => p.place q) p) := by
  induction qs generalizing s p with
  | nil => exact placed_self live
  | cons q qs ih =>
      have first := place_placed live q
      have moved : (s.place h q).get? h = some (p.place q) := by
        rw [first.get?_eq h, if_pos rfl]
      exact first.trans (ih moved)

end SceneLedger

namespace Primitive

theorem foldl_place_solid {p : Primitive} (solid : p.IsSolid) (qs : List Placement)
    (q : Placement) : (qs.foldl (fun p q => p.place q) p).place q = p.place q := by
  induction qs generalizing p with
  | nil => rfl
  | cons first qs ih =>
      rw [List.foldl_cons, ih (solid.place first), place_place solid]

theorem foldl_place_line (a b : Vec3) (qs : List Placement) :
    qs.foldl (fun p q => p.place q) (line a b) = line (Placement.carry qs a) (Placement.carry qs b) := by
  induction qs generalizing a b with
  | nil => rfl
  | cons q qs ih => exact ih (q.apply a) (q.apply b)

end Primitive

namespace SceneLedger

open Placement (carry)

/-- A solid ends where its last placement puts it.  A line ends where all its placements carry it,
one after the other, which is where the last one alone puts it only if that one does not tell the
carried ends from the first ones.  Nothing but the primitive placed changes. -/
theorem placeAll_settles (s : SceneLedger) (h : Handle) (p : Primitive) (live : s.get? h = some p)
    (qs : List Placement) (q : Placement) :
    (p.IsSolid → s.placeAll h (qs ++ [q]) = s.place h q) ∧
      (∀ a b, p = .line a b →
        (s.placeAll h qs).get? h = some (.line (carry qs a) (carry qs b)) ∧
          (s.placeAll h (qs ++ [q]) = s.place h q ↔
            q.apply (carry qs a) = q.apply a ∧ q.apply (carry qs b) = q.apply b)) ∧
      (∀ k, k ≠ h → (s.placeAll h qs).get? k = s.get? k) ∧
      (s.placeAll h qs).materialized = s.materialized ∧
      (s.placeAll h qs).disposed = s.disposed ∧ (s.placeAll h qs).stray = s.stray := by
  have before := placeAll_placed live qs
  have after := placeAll_placed live (qs ++ [q])
  rw [List.foldl_append, List.foldl_cons, List.foldl_nil] at after
  have agree := after.eq_iff (place_placed live q)
  refine ⟨?_, ?_, ?_, before.materialized_eq, before.disposed_eq, before.stray_eq⟩
  · exact fun solid => agree.mpr (Primitive.foldl_place_solid solid qs q)
  · rintro a b rfl
    rw [Primitive.foldl_place_line] at before agree
    refine ⟨?_, ?_⟩
    · rw [before.get?_eq h, if_pos rfl]
    · rw [agree]
      exact Primitive.line.injEq _ _ _ _ ▸ Iff.rfl
  · intro k other
    rw [before.get?_eq k, if_neg other]

theorem placeAll_settles_lifted :
    let ball : Primitive := .sphere 1 .identity
    let s := (SceneCall.makeAll empty [.materialize (.line Vec3.zero Vec3.unitX), .materialize ball]).1
    let lift : Placement := ⟨Vec3.unitY, Rotation.aboutVertical 1⟩
    s.get? 2 = some ball ∧ ball.IsSolid ∧
      s.placeAll 2 [lift, lift, .identity] = s.place 2 .identity ∧
      (s.placeAll 2 [lift, lift]).get? 1 = some (.line Vec3.zero Vec3.unitX) := by
  intro ball s lift
  have live : s.get? 2 = some ball := by decide +kernel
  have first : s.get? 1 = some (.line Vec3.zero Vec3.unitX) := by decide +kernel
  obtain ⟨solid, _, others, _⟩ := placeAll_settles s 2 ball live [lift, lift] .identity
  exact ⟨live, trivial, solid trivial, (others 1 (by decide)).trans first⟩

/-- A line that is placed twice at the same place goes twice as far. -/
theorem place_line_again_ne :
    let s := (SceneCall.makeAll empty [.materialize (.line Vec3.zero Vec3.unitX)]).1
    let shift : Placement := ⟨Vec3.unitX, Rotation.identity⟩
    s.get? 1 = some (.line Vec3.zero Vec3.unitX) ∧ shift.position.IsFinite ∧
      (s.place 1 shift).get? 1 = some (.line ⟨1, 0, 0⟩ ⟨2, 0, 0⟩) ∧
      ((s.place 1 shift).place 1 shift).get? 1 = some (.line ⟨2, 0, 0⟩ ⟨3, 0, 0⟩) ∧
      (s.place 1 shift).place 1 shift ≠ s.place 1 shift := by
  decide +kernel

end SceneLedger

end Arbor
