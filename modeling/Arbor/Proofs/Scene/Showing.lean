import Arbor.Scene.Ledger
import Mathlib.Data.List.Sort

/-!
# What a ledger shows

A ledger is consistent if its map and its counts belong together: every live handle was given out,
and what was materialized is either live or disposed of.  Every call keeps that, also one with a
handle that is not live.

`SceneLedger.Shows s shown` says that the live handles of a consistent ledger are those of `shown`,
each with the primitive listed beside it, and that no call was ever stray.  Each call on the ledger
changes that list at the handle it names and leaves the rest alone, so the rest may belong to
anybody.
-/

set_option autoImplicit false

namespace Arbor.SceneLedger

structure Consistent (s : SceneLedger) : Prop where
  materialized_eq : s.materialized = s.issued
  issued_of_live : ∀ h p, s.get? h = some p → 0 < h ∧ h ≤ s.issued
  balance : s.live + s.disposed = s.materialized

/-- The list of everything that a ledger shows, in any order. -/
structure Shows (s : SceneLedger) (shown : List (Handle × Primitive)) : Prop where
  consistent : s.Consistent
  distinct : (shown.map Prod.fst).Nodup
  get?_eq_some : ∀ h p, s.get? h = some p ↔ (h, p) ∈ shown
  stray_eq : s.stray = 0
  live_eq : s.live = shown.length

/-! ## Consistent ledgers -/

theorem live_dispose (s : SceneLedger) {h : Handle} {p : Primitive} (found : s.get? h = some p) :
    (s.dispose h).live + 1 = s.live := by
  have listed : s.shown.contains h := by
    rw [Std.ExtTreeMap.contains_eq_isSome_getElem?, ← get?, found]
    rfl
  have filled : s.shown.size ≠ 0 := by
    intro none
    rw [Std.ExtTreeMap.eq_empty_iff_size_eq_zero.mpr none] at listed
    exact Std.ExtTreeMap.not_mem_empty listed
  rw [dispose_of_live s found, live, live, Std.ExtTreeMap.size_erase, if_pos listed]
  exact Nat.succ_pred_eq_of_ne_zero filled

theorem live_place (s : SceneLedger) (h : Handle) (q : Placement) :
    (s.place h q).live = s.live := by
  cases found : s.get? h with
  | none => rw [place_of_stray s found, live, live]
  | some p => rw [place_of_live s found, live, live, Std.ExtTreeMap.size_modify]

namespace Consistent

theorem empty : SceneLedger.empty.Consistent where
  materialized_eq := rfl
  issued_of_live h p found := by
    rw [get?_empty] at found
    exact nomatch found
  balance := rfl

variable {s : SceneLedger} (consistent : s.Consistent)
include consistent

theorem get?_eq_none_of_lt {h : Handle} (beyond : s.issued < h) : s.get? h = none := by
  cases found : s.get? h with
  | none => rfl
  | some p => exact absurd (consistent.issued_of_live h p found).2 (Nat.not_le.mpr beyond)

/-- The next handle is not live yet, so it does not take the place of another one. -/
theorem live_materialize (p : Primitive) : (s.materialize p).1.live = s.live + 1 := by
  have fresh : ¬ s.shown.contains (s.issued + 1) := by
    rw [Std.ExtTreeMap.contains_eq_isSome_getElem?, ← get?,
      consistent.get?_eq_none_of_lt (Nat.lt_succ_self _)]
    exact Bool.false_ne_true
  rw [materialize, live, live, Std.ExtTreeMap.size_insert, if_neg fresh]

theorem materialize (p : Primitive) : (s.materialize p).1.Consistent where
  materialized_eq := congrArg (· + 1) consistent.materialized_eq
  issued_of_live h q found := by
    rw [get?_materialize] at found
    split at found
    · next new => exact ⟨new ▸ Nat.succ_pos _, Nat.le_of_eq new⟩
    · obtain ⟨positive, le⟩ := consistent.issued_of_live h q found
      exact ⟨positive, Nat.le_succ_of_le le⟩
  balance := by
    rw [consistent.live_materialize, Nat.add_right_comm]
    exact congrArg (· + 1) consistent.balance

theorem dispose (h : Handle) : (s.dispose h).Consistent := by
  cases found : s.get? h with
  | none =>
      rw [dispose_of_stray s found]
      exact ⟨consistent.materialized_eq, consistent.issued_of_live, consistent.balance⟩
  | some p =>
      have fewer := live_dispose s found
      have taken := s.get?_dispose h
      rw [dispose_of_live s found] at fewer taken ⊢
      refine ⟨consistent.materialized_eq, ?_, ?_⟩
      · intro k q live
        rw [taken] at live
        split at live
        · exact nomatch live
        · exact consistent.issued_of_live k q live
      · have balance := consistent.balance
        rw [← fewer, Nat.add_assoc, Nat.add_comm 1] at balance
        exact balance

theorem place (h : Handle) (placement : Placement) : (s.place h placement).Consistent := by
  cases found : s.get? h with
  | none =>
      rw [place_of_stray s found]
      exact ⟨consistent.materialized_eq, consistent.issued_of_live, consistent.balance⟩
  | some p =>
      have same := s.live_place h placement
      have moved := s.get?_place h
      rw [place_of_live s found] at same
      refine ⟨?_, ?_, ?_⟩
      · rw [place_of_live s found]
        exact consistent.materialized_eq
      · intro k q live
        rw [moved] at live
        rw [place_of_live s found]
        split at live
        · next named => exact named ▸ consistent.issued_of_live h p found
        · exact consistent.issued_of_live k q live
      · rw [place_of_live s found, same]
        exact consistent.balance

/-- The map of a ledger goes through the handles in the order in which they were given out. -/
theorem toList_shown :
    s.shown.toList = (List.range' 1 s.issued).filterMap fun h => (s.get? h).map (h, ·) := by
  have sorted : s.shown.toList.Pairwise fun a b => a.1 < b.1 :=
    Std.ExtTreeMap.ordered_keys_toList.imp Nat.compare_eq_lt.mp
  have ranged : ((List.range' 1 s.issued).filterMap fun h => (s.get? h).map (h, ·)).Pairwise
      fun a b => a.1 < b.1 := by
    refine List.Pairwise.filterMap _ ?_ List.pairwise_lt_range'
    intro h k less a first b second
    obtain ⟨_, _, rfl⟩ := Option.map_eq_some_iff.mp first
    obtain ⟨_, _, rfl⟩ := Option.map_eq_some_iff.mp second
    exact less
  have : Std.Irrefl fun a b : Handle × Primitive => a.1 < b.1 := ⟨fun a => Nat.lt_irrefl a.1⟩
  have : Std.Antisymm fun a b : Handle × Primitive => a.1 < b.1 :=
    ⟨fun a b less more => absurd less (Nat.lt_asymm more)⟩
  apply sorted.eq_of_mem_iff ranged
  rintro ⟨h, p⟩
  rw [Std.ExtTreeMap.mem_toList_iff_getElem?_eq_some, List.mem_filterMap]
  constructor
  · intro found
    obtain ⟨positive, le⟩ := consistent.issued_of_live h p found
    have given : h ∈ List.range' 1 s.issued :=
      List.mem_range'_1.mpr ⟨positive, Nat.lt_one_add_iff.mpr le⟩
    exact ⟨h, given, by rw [get?, found]; rfl⟩
  · rintro ⟨k, _, listed⟩
    obtain ⟨q, found, same⟩ := Option.map_eq_some_iff.mp listed
    cases same
    exact found

theorem primitives_eq : s.primitives = (List.range' 1 s.issued).filterMap s.get? := by
  rw [primitives, consistent.toList_shown, List.map_filterMap]
  congr 1
  funext h
  rw [Option.map_map]
  exact Option.map_id' ..

theorem primitives_materialize (p : Primitive) :
    (s.materialize p).1.primitives = s.primitives ++ [p] := by
  have issued : (s.materialize p).1.issued = s.issued + 1 := rfl
  have earlier : ∀ h ∈ List.range' 1 s.issued, (s.materialize p).1.get? h = s.get? h := by
    intro h member
    have le := Nat.lt_one_add_iff.mp (List.mem_range'_1.mp member).2
    rw [get?_materialize, if_neg (Nat.ne_of_lt (Nat.lt_succ_of_le le))]
  have last : (s.materialize p).1.get? (1 + s.issued) = some p := by
    rw [get?_materialize, if_pos (Nat.add_comm ..)]
  rw [(consistent.materialize p).primitives_eq, issued, List.range'_1_concat, List.filterMap_append,
    List.filterMap_congr earlier, ← consistent.primitives_eq]
  simp [last]

end Consistent

/-! ## Calls -/

namespace Shows

variable {s : SceneLedger} {shown rest : List (Handle × Primitive)}

theorem empty : SceneLedger.empty.Shows [] where
  consistent := .empty
  distinct := List.nodup_nil
  get?_eq_some := by simp
  stray_eq := rfl
  live_eq := rfl

theorem primitives_eq_nil (shows : s.Shows []) : s.primitives = [] := by
  rw [primitives, List.map_eq_nil_iff, Std.ExtTreeMap.toList_eq_nil_iff,
    Std.ExtTreeMap.eq_empty_iff_size_eq_zero]
  exact shows.live_eq

theorem perm {other : List (Handle × Primitive)} (shows : s.Shows shown)
    (same : shown.Perm other) : s.Shows other where
  consistent := shows.consistent
  distinct := (same.map Prod.fst).nodup_iff.mp shows.distinct
  get?_eq_some := fun h p => (shows.get?_eq_some h p).trans same.mem_iff
  stray_eq := shows.stray_eq
  live_eq := shows.live_eq.trans same.length_eq

theorem materialize (shows : s.Shows rest) (p : Primitive) :
    (s.materialize p).1.Shows ((s.issued + 1, p) :: rest) := by
  have fresh : ∀ q, (s.issued + 1, q) ∉ rest := by
    intro q member
    have found := (shows.get?_eq_some _ q).mpr member
    rw [shows.consistent.get?_eq_none_of_lt (Nat.lt_succ_self _)] at found
    contradiction
  refine ⟨shows.consistent.materialize p, ?_, ?_, shows.stray_eq, ?_⟩
  · rw [List.map_cons, List.nodup_cons]
    refine ⟨?_, shows.distinct⟩
    intro member
    obtain ⟨⟨h, q⟩, held, rfl⟩ := List.mem_map.mp member
    exact fresh q held
  · intro h q
    rw [get?_materialize, List.mem_cons, Prod.mk.injEq]
    by_cases new : h = s.issued + 1
    · subst new
      simp [fresh q, eq_comm]
    · simp [new, shows.get?_eq_some h q]
  · rw [shows.consistent.live_materialize, shows.live_eq, List.length_cons]

theorem head {h : Handle} {p : Primitive} (shows : s.Shows ((h, p) :: rest)) :
    s.get? h = some p ∧ (∀ q, (h, q) ∉ rest) ∧ (rest.map Prod.fst).Nodup := by
  have distinct := shows.distinct
  rw [List.map_cons, List.nodup_cons] at distinct
  exact ⟨(shows.get?_eq_some h p).mpr (List.mem_cons_self ..),
    fun q member => distinct.1 (List.mem_map.mpr ⟨(h, q), member, rfl⟩), distinct.2⟩

theorem dispose {h : Handle} {p : Primitive} (shows : s.Shows ((h, p) :: rest)) :
    (s.dispose h).Shows rest := by
  obtain ⟨found, single, distinct⟩ := shows.head
  refine ⟨shows.consistent.dispose h, distinct, ?_, ?_, ?_⟩
  · intro k q
    rw [get?_dispose]
    by_cases same : k = h
    · subst same
      simp [single q]
    · rw [if_neg same, shows.get?_eq_some k q, List.mem_cons, Prod.mk.injEq]
      simp [same]
  · rw [dispose_of_live s found]
    exact shows.stray_eq
  · have fewer := live_dispose s found
    rw [shows.live_eq, List.length_cons] at fewer
    exact Nat.succ.inj fewer

theorem place {h : Handle} {p : Primitive} (shows : s.Shows ((h, p) :: rest))
    (placement : Placement) :
    (s.place h placement).Shows ((h, p.place placement) :: rest) := by
  obtain ⟨found, single, distinct⟩ := shows.head
  refine ⟨shows.consistent.place h placement, shows.distinct, ?_, ?_, ?_⟩
  · intro k q
    rw [get?_place, List.mem_cons, Prod.mk.injEq]
    by_cases same : k = h
    · subst same
      simp [found, single q, eq_comm]
    · rw [if_neg same, shows.get?_eq_some k q, List.mem_cons, Prod.mk.injEq]
      simp [same]
  · rw [place_of_live s found]
    exact shows.stray_eq
  · rw [live_place, shows.live_eq, List.length_cons, List.length_cons]

end Shows

end Arbor.SceneLedger
