import Arbor.Scene.Basic
import Std.Data.ExtTreeMap

/-!
# The scene ledger

A ledger is a scene that remembers every primitive and counts the calls.  It gives out handles one
after the other and keeps what it shows by handle, so that going through its map is going through the
primitives in the order of their creation.
-/
set_option autoImplicit false

namespace Arbor

structure SceneLedger where
  /-- The last handle given out. -/
  issued : Handle
  shown : Std.ExtTreeMap Handle Primitive
  materialized : Nat
  disposed : Nat
  /-- How many calls named a handle that was not live. -/
  stray : Nat
deriving DecidableEq, Repr

namespace SceneLedger

def empty : SceneLedger := ⟨0, ∅, 0, 0, 0⟩

def get? (s : SceneLedger) (h : Handle) : Option Primitive := s.shown[h]?

def primitives (s : SceneLedger) : List Primitive := s.shown.toList.map Prod.snd

def live (s : SceneLedger) : Nat := s.shown.size

def materialize (s : SceneLedger) (p : Primitive) : SceneLedger × Handle :=
  let h := s.issued + 1
  ({ s with issued := h, shown := s.shown.insert h p, materialized := s.materialized + 1 }, h)

def dispose (s : SceneLedger) (h : Handle) : SceneLedger :=
  match s.get? h with
  | some _ => { s with shown := s.shown.erase h, disposed := s.disposed + 1 }
  | none => { s with stray := s.stray + 1 }

def place (s : SceneLedger) (h : Handle) (placement : Placement) : SceneLedger :=
  match s.get? h with
  | some _ => { s with shown := s.shown.modify h (Primitive.place placement) }
  | none => { s with stray := s.stray + 1 }

section Calls
variable (s : SceneLedger) {h : Handle}

theorem dispose_of_live {p : Primitive} (live : s.get? h = some p) :
    s.dispose h = { s with shown := s.shown.erase h, disposed := s.disposed + 1 } := by
  rw [dispose, live]

theorem dispose_of_stray (stray : s.get? h = none) :
    s.dispose h = { s with stray := s.stray + 1 } := by
  rw [dispose, stray]

theorem place_of_live {p : Primitive} (live : s.get? h = some p) (q : Placement) :
    s.place h q = { s with shown := s.shown.modify h (Primitive.place q) } := by
  rw [place, live]

theorem place_of_stray (stray : s.get? h = none) (q : Placement) :
    s.place h q = { s with stray := s.stray + 1 } := by
  rw [place, stray]

@[simp] theorem get?_empty (h : Handle) : empty.get? h = none := by
  simp [get?, empty]

theorem get?_materialize (p : Primitive) (k : Handle) :
    (s.materialize p).1.get? k = if k = s.issued + 1 then some p else s.get? k := by
  simp only [get?, materialize, Std.ExtTreeMap.getElem?_insert, Std.compare_eq_iff_eq,
    @eq_comm _ k]

theorem get?_dispose (h k : Handle) :
    (s.dispose h).get? k = if k = h then none else s.get? k := by
  cases found : s.get? h with
  | none =>
    rw [dispose_of_stray s found]
    split
    · next same => rw [same]; exact found
    · rfl
  | some p =>
    rw [dispose_of_live s found]
    simp only [get?, Std.ExtTreeMap.getElem?_erase, Std.compare_eq_iff_eq, @eq_comm _ k]

theorem get?_place (h k : Handle) (q : Placement) :
    (s.place h q).get? k = if k = h then (s.get? h).map (Primitive.place q) else s.get? k := by
  cases found : s.get? h with
  | none =>
    rw [place_of_stray s found]
    split
    · next same => rw [same]; exact found
    · rfl
  | some p =>
    rw [place_of_live s found, ← found]
    simp only [get?, Std.ExtTreeMap.getElem?_modify, Std.compare_eq_iff_eq, @eq_comm _ k]

end Calls

instance : Scene SceneLedger where
  materialize := materialize
  dispose := dispose
  place := place

end SceneLedger

end Arbor
