import Arbor.Proofs.Scene.Showing
import Mathlib.Data.List.Range

/-!
# Histories of a scene

A host makes any calls of a scene, also with handles that are not live.  What a ledger has to say of
itself after such a history can be read off the history alone: which handles were given out, which of
them are live, how many disposals took something away, and how many calls were stray.

`Accounts calls s` says that a ledger tells all this as the history does.  One further call keeps it,
so it holds after every history that began with an empty ledger.
-/

set_option autoImplicit false

namespace Arbor

inductive SceneCall where
  | materialize (p : Primitive)
  | dispose (h : Handle)
  | place (h : Handle) (placement : Placement)
deriving DecidableEq, Repr

namespace SceneCall

/-- The handle that a call names. -/
def handle? : SceneCall → Option Handle
  | .materialize _ => none
  | .dispose h => some h
  | .place h _ => some h

def isDisposal : SceneCall → Bool
  | .dispose _ => true
  | _ => false

section Making
variable {σ : Type} [Scene σ]

/-- A scene after a call, and the handle that the call gave out, if it gave out one. -/
def make (s : σ) : SceneCall → σ × Option Handle
  | .materialize p => ((Scene.materialize s p).1, some (Scene.materialize s p).2)
  | .dispose h => (Scene.dispose s h, none)
  | .place h placement => (Scene.place s h placement, none)

def next (state : σ × List Handle) (call : SceneCall) : σ × List Handle :=
  ((call.make state.1).1, state.2 ++ (call.make state.1).2.toList)

def makeAll (s : σ) (calls : List SceneCall) : σ × List Handle := calls.foldl next (s, [])

theorem makeAll_concat (s : σ) (calls : List SceneCall) (call : SceneCall) :
    makeAll s (calls ++ [call]) = next (makeAll s calls) call := by
  rw [makeAll, List.foldl_append]
  rfl

end Making

/-! ## What a history says -/

def issued (calls : List SceneCall) : Nat := calls.countP fun call => call.handle?.isNone

/-- A handle was given out, and no disposal has named it since. -/
def LiveAfter (calls : List SceneCall) (h : Handle) : Prop :=
  (0 < h ∧ h ≤ issued calls) ∧
    ∀ j < calls.length, calls[j]? = some (.dispose h) → issued (calls.take j) < h

instance (calls : List SceneCall) (h : Handle) : Decidable (LiveAfter calls h) :=
  inferInstanceAs (Decidable ((0 < h ∧ h ≤ issued calls) ∧
    ∀ j < calls.length, calls[j]? = some (.dispose h) → issued (calls.take j) < h))

/-- Whether a call, made after a history, names a handle that is not live. -/
def isStray (calls : List SceneCall) (call : SceneCall) : Bool :=
  call.handle?.any fun h => !decide (LiveAfter calls h)

/-- How many calls of a history had a property at the moment when they were made. -/
def countWhen (property : List SceneCall → SceneCall → Bool) (calls : List SceneCall) : Nat :=
  (List.range calls.length).countP fun j => calls[j]?.any (property (calls.take j))

def strays (calls : List SceneCall) : Nat := countWhen isStray calls

/-- How many disposals of a history named a live handle. -/
def disposals (calls : List SceneCall) : Nat :=
  countWhen (fun before call => call.isDisposal && !isStray before call) calls

theorem issued_concat (calls : List SceneCall) (call : SceneCall) :
    issued (calls ++ [call]) = issued calls + if call.handle?.isNone then 1 else 0 := by
  rw [issued, List.countP_append, List.countP_singleton]
  rfl

theorem countWhen_concat (property : List SceneCall → SceneCall → Bool) (calls : List SceneCall)
    (call : SceneCall) :
    countWhen property (calls ++ [call]) =
      countWhen property calls + if property calls call then 1 else 0 := by
  have earlier : ∀ j ∈ List.range calls.length,
      (calls ++ [call])[j]?.any (property ((calls ++ [call]).take j)) =
        calls[j]?.any (property (calls.take j)) := by
    intro j member
    have inside : j < calls.length := List.mem_range.mp member
    rw [List.getElem?_append_left inside, List.take_append_of_le_length inside.le]
  have last : (calls ++ [call])[calls.length]?.any
      (property ((calls ++ [call]).take calls.length)) = property calls call := by
    simp
  rw [countWhen, List.length_append, List.length_singleton, List.range_succ, List.countP_append,
    List.countP_singleton, last, countWhen]
  congr 1
  exact List.countP_congr fun j member => by rw [earlier j member]

theorem issued_take_le (calls : List SceneCall) (j : Nat) : issued (calls.take j) ≤ issued calls :=
  (List.take_sublist j calls).countP_le

theorem liveAfter_concat (calls : List SceneCall) (call : SceneCall) (h : Handle) :
    LiveAfter (calls ++ [call]) h ↔
      match call with
      | .materialize _ => h = issued calls + 1 ∨ LiveAfter calls h
      | .dispose k => LiveAfter calls h ∧ h ≠ k
      | .place _ _ => LiveAfter calls h := by
  have disposals : (∀ j < (calls ++ [call]).length, (calls ++ [call])[j]? = some (.dispose h) →
        issued ((calls ++ [call]).take j) < h) ↔
      (∀ j < calls.length, calls[j]? = some (.dispose h) → issued (calls.take j) < h) ∧
        (call = .dispose h → issued calls < h) := by
    constructor
    · intro all
      constructor
      · intro j inside named
        have earlier := all j (by rw [List.length_append]; omega)
        rw [List.getElem?_append_left inside, List.take_append_of_le_length inside.le] at earlier
        exact earlier named
      · rintro rfl
        simpa using all calls.length (by simp)
    · rintro ⟨before, last⟩ j inside named
      rw [List.length_append, List.length_singleton] at inside
      rcases Nat.lt_succ_iff_lt_or_eq.mp inside with earlier | rfl
      · rw [List.getElem?_append_left earlier] at named
        rw [List.take_append_of_le_length earlier.le]
        exact before j earlier named
      · simpa using last (by simpa using named)
  rw [LiveAfter, disposals, issued_concat]
  cases call with
  | materialize p =>
      simp only [handle?, Option.isNone_none, if_true, reduceCtorEq, false_implies, and_true]
      constructor
      · rintro ⟨⟨positive, le⟩, undisposed⟩
        rcases Nat.lt_or_eq_of_le le with less | last
        · exact Or.inr ⟨⟨positive, Nat.le_of_lt_succ less⟩, undisposed⟩
        · exact Or.inl last
      · rintro (rfl | ⟨⟨positive, le⟩, undisposed⟩)
        · exact ⟨⟨Nat.succ_pos _, le_rfl⟩, fun j _ _ => Nat.lt_succ_of_le (issued_take_le calls j)⟩
        · exact ⟨⟨positive, le.trans (Nat.le_succ _)⟩, undisposed⟩
  | dispose k =>
      simp only [handle?, Option.isNone_some, Bool.false_eq_true, if_false, Nat.add_zero,
        SceneCall.dispose.injEq]
      constructor
      · rintro ⟨issued_at, undisposed, last⟩
        refine ⟨⟨issued_at, undisposed⟩, ?_⟩
        rintro rfl
        exact absurd (last rfl) (Nat.not_lt.mpr issued_at.2)
      · rintro ⟨⟨issued_at, undisposed⟩, other⟩
        exact ⟨issued_at, undisposed, fun same => absurd same.symm other⟩
  | place k q =>
      simp only [handle?, Option.isNone_some, Bool.false_eq_true, if_false, Nat.add_zero,
        reduceCtorEq, false_implies, and_true]
      rfl

section Counting
variable {σ : Type} [Scene σ] (last : σ → Nat)

/-- A scene that counts up the handles that it gives out gives out as many as the history says. -/
theorem makeAll_counted
    (counts : ∀ (s : σ) (call : SceneCall), last (call.make s).1 =
      last s + if call.handle?.isNone then 1 else 0)
    (gives : ∀ (s : σ) (call : SceneCall), (call.make s).2 =
      if call.handle?.isNone then some (last s + 1) else none)
    {s : σ} (first : last s = 0) (calls : List SceneCall) :
    last (makeAll s calls).1 = issued calls ∧
      (makeAll s calls).2 = List.range' 1 (issued calls) := by
  induction calls using List.reverseRecOn with
  | nil => exact ⟨first, rfl⟩
  | append_singleton calls call ih =>
      obtain ⟨count, handles⟩ := ih
      rw [makeAll_concat, next, handles, counts, gives, count, issued_concat]
      refine ⟨rfl, ?_⟩
      split
      · rw [List.range'_1_concat, Nat.add_comm]
        rfl
      · exact List.append_nil _

end Counting

end SceneCall

/-! ## One call of a ledger -/

namespace SceneLedger

open SceneCall (LiveAfter isStray strays disposals makeAll next)

structure Conduct (s : SceneLedger) : Prop where
  materialize_new : ∀ p, (s.materialize p).1.get? (s.materialize p).2 = some p
  materialize_other : ∀ p k, k ≠ (s.materialize p).2 → (s.materialize p).1.get? k = s.get? k
  materialize_counted : ∀ p, (s.materialize p).1.materialized = s.materialized + 1 ∧
    (s.materialize p).1.disposed = s.disposed ∧ (s.materialize p).1.stray = s.stray
  dispose_live : ∀ h p, s.get? h = some p → (s.dispose h).get? h = none ∧
    (s.dispose h).materialized = s.materialized ∧
    (s.dispose h).disposed = s.disposed + 1 ∧ (s.dispose h).stray = s.stray
  place_live : ∀ h p q, s.get? h = some p → (s.place h q).get? h = some (p.place q) ∧
    (s.place h q).materialized = s.materialized ∧
    (s.place h q).disposed = s.disposed ∧ (s.place h q).stray = s.stray
  /-- A stray call is counted, and nothing else. -/
  stray_counted : ∀ h, s.get? h = none → s.dispose h = { s with stray := s.stray + 1 } ∧
    ∀ q, s.place h q = { s with stray := s.stray + 1 }
  /-- A call leaves alone the primitives under other handles than its own. -/
  others : ∀ h k, k ≠ h → (s.dispose h).get? k = s.get? k ∧ ∀ q, (s.place h q).get? k = s.get? k

theorem conduct (s : SceneLedger) : s.Conduct where
  materialize_new p := by
    rw [get?_materialize]
    exact if_pos rfl
  materialize_other p k other := by
    rw [get?_materialize]
    exact if_neg other
  materialize_counted _ := ⟨rfl, rfl, rfl⟩
  dispose_live h p found := by
    refine ⟨?_, ?_⟩
    · rw [get?_dispose, if_pos rfl]
    · rw [dispose_of_live s found]
      exact ⟨rfl, rfl, rfl⟩
  place_live h p q found := by
    refine ⟨?_, ?_⟩
    · rw [get?_place, if_pos rfl, found, Option.map_some]
    · rw [place_of_live s found]
      exact ⟨rfl, rfl, rfl⟩
  stray_counted h missing := ⟨dispose_of_stray s missing, place_of_stray s missing⟩
  others h k other := by
    constructor
    · rw [get?_dispose, if_neg other]
    · intro q
      rw [get?_place, if_neg other]

theorem issued_dispose (s : SceneLedger) (h : Handle) : (s.dispose h).issued = s.issued := by
  unfold dispose
  split <;> rfl

theorem issued_place (s : SceneLedger) (h : Handle) (q : Placement) :
    (s.place h q).issued = s.issued := by
  unfold place
  split <;> rfl

/-! ## A history of calls -/

/-- A ledger tells of a history what the history tells of itself. -/
structure Accounts (calls : List SceneCall) (s : SceneLedger) : Prop where
  consistent : s.Consistent
  issued_eq : s.issued = SceneCall.issued calls
  live_iff : ∀ h, (s.get? h).isSome ↔ LiveAfter calls h
  disposed_eq : s.disposed = disposals calls
  stray_eq : s.stray = strays calls

theorem accounts_empty : Accounts [] empty where
  consistent := .empty
  issued_eq := rfl
  live_iff h := by
    rw [get?_empty]
    constructor
    · exact fun live => nomatch live
    · rintro ⟨⟨positive, le⟩, _⟩
      exact absurd positive (Nat.not_lt.mpr le)
  disposed_eq := rfl
  stray_eq := rfl

namespace Accounts

variable {calls : List SceneCall} {s : SceneLedger} (accounts : Accounts calls s)
include accounts

theorem isStray_eq (call : SceneCall) {h : Handle} (named : call.handle? = some h) :
    isStray calls call = (s.get? h).isNone := by
  have live := accounts.live_iff h
  rw [isStray, named, Option.any_some]
  cases found : s.get? h with
  | none =>
      rw [found] at live
      rw [decide_eq_false fun after => nomatch live.mpr after]
      rfl
  | some p =>
      rw [found] at live
      rw [decide_eq_true (live.mp rfl)]
      rfl

theorem materialize (p : Primitive) :
    Accounts (calls ++ [.materialize p]) (s.materialize p).1 where
  consistent := accounts.consistent.materialize p
  issued_eq := by
    rw [SceneCall.issued_concat, ← accounts.issued_eq]
    rfl
  live_iff h := by
    rw [SceneCall.liveAfter_concat, get?_materialize, accounts.issued_eq, ← accounts.live_iff h]
    split
    · next new => exact ⟨fun _ => Or.inl new, fun _ => rfl⟩
    · next old => exact ⟨Or.inr, fun either => either.resolve_left old⟩
  disposed_eq := by
    rw [disposals, SceneCall.countWhen_concat]
    exact accounts.disposed_eq
  stray_eq := by
    rw [strays, SceneCall.countWhen_concat]
    exact accounts.stray_eq

theorem dispose (h : Handle) : Accounts (calls ++ [.dispose h]) (s.dispose h) where
  consistent := accounts.consistent.dispose h
  issued_eq := by
    rw [SceneCall.issued_concat, issued_dispose]
    exact accounts.issued_eq
  live_iff k := by
    rw [SceneCall.liveAfter_concat, get?_dispose]
    change _ ↔ LiveAfter calls k ∧ k ≠ h
    rw [← accounts.live_iff k]
    split
    · next same => exact ⟨nofun, fun both => absurd same both.2⟩
    · next other => exact ⟨fun live => ⟨live, other⟩, And.left⟩
  disposed_eq := by
    have stray := accounts.isStray_eq (.dispose h) rfl
    rw [disposals, SceneCall.countWhen_concat, ← disposals, ← accounts.disposed_eq, stray]
    cases found : s.get? h with
    | none => rw [dispose_of_stray s found]; rfl
    | some p => rw [dispose_of_live s found]; rfl
  stray_eq := by
    have stray := accounts.isStray_eq (.dispose h) rfl
    rw [strays, SceneCall.countWhen_concat, ← strays, ← accounts.stray_eq, stray]
    cases found : s.get? h with
    | none => rw [dispose_of_stray s found]; rfl
    | some p => rw [dispose_of_live s found]; rfl

theorem place (h : Handle) (q : Placement) : Accounts (calls ++ [.place h q]) (s.place h q) where
  consistent := accounts.consistent.place h q
  issued_eq := by
    rw [SceneCall.issued_concat, issued_place]
    exact accounts.issued_eq
  live_iff k := by
    rw [SceneCall.liveAfter_concat, get?_place, ← accounts.live_iff k]
    split
    · next same => rw [same, Option.isSome_map]
    · rfl
  disposed_eq := by
    rw [disposals, SceneCall.countWhen_concat]
    cases found : s.get? h with
    | none => rw [place_of_stray s found]; exact accounts.disposed_eq
    | some p => rw [place_of_live s found]; exact accounts.disposed_eq
  stray_eq := by
    have stray := accounts.isStray_eq (.place h q) rfl
    rw [strays, SceneCall.countWhen_concat, ← strays, ← accounts.stray_eq, stray]
    cases found : s.get? h with
    | none => rw [place_of_stray s found]; rfl
    | some p => rw [place_of_live s found]; rfl

theorem make (call : SceneCall) : Accounts (calls ++ [call]) (call.make s).1 := by
  cases call with
  | materialize p => exact accounts.materialize p
  | dispose h => exact accounts.dispose h
  | place h q => exact accounts.place h q

end Accounts

theorem makeAll_accounted (calls : List SceneCall) : Accounts calls (makeAll empty calls).1 := by
  induction calls using List.reverseRecOn with
  | nil => exact accounts_empty
  | append_singleton calls call ih =>
      rw [SceneCall.makeAll_concat]
      exact ih.make call

theorem makeAll_handles (calls : List SceneCall) :
    (makeAll empty calls).2 = List.range' 1 (SceneCall.issued calls) := by
  refine (SceneCall.makeAll_counted issued ?_ ?_ rfl calls).2
  · intro s call
    cases call with
    | materialize p => rfl
    | dispose h => exact issued_dispose s h
    | place h q => exact issued_place s h q
  · intro s call
    cases call <;> rfl

end SceneLedger

theorem BlindScene.makeAll_handles (calls : List SceneCall) :
    (SceneCall.makeAll empty calls).2 = List.range' 1 (SceneCall.issued calls) := by
  refine (SceneCall.makeAll_counted issued ?_ ?_ rfl calls).2 <;>
    intro s call <;> cases call <;> rfl

/-- A ledger that began empty tells of any history of calls what the history tells of itself: the
handles are counted up from one, on a scene that shows nothing as well, the primitives are listed in
the order of their creation, and one further call does what it is for and no more. -/
theorem SceneLedger.makeAll_accounts (calls : List SceneCall) :
    let s := (SceneCall.makeAll SceneLedger.empty calls).1
    Accounts calls s ∧ s.Conduct ∧ s.materialized = SceneCall.issued calls ∧
      s.live = s.materialized - s.disposed ∧
      (SceneCall.makeAll SceneLedger.empty calls).2 = List.range' 1 (SceneCall.issued calls) ∧
      (SceneCall.makeAll BlindScene.empty calls).2 = List.range' 1 (SceneCall.issued calls) ∧
      s.primitives = (List.range' 1 (SceneCall.issued calls)).filterMap s.get? := by
  intro s
  have accounts : Accounts calls s := makeAll_accounted calls
  have materialized := accounts.consistent.materialized_eq
  have primitives := accounts.consistent.primitives_eq
  rw [accounts.issued_eq] at materialized primitives
  exact ⟨accounts, s.conduct, materialized, Nat.eq_sub_of_add_eq accounts.consistent.balance,
    makeAll_handles calls, BlindScene.makeAll_handles calls, primitives⟩

/-- A disposal that comes before its handle is given out is stray, and takes nothing away later. -/
example :
    let ball : Primitive := .sphere 1 .identity
    let calls : List SceneCall := [.dispose 1, .materialize ball, .materialize ball, .dispose 2]
    (SceneCall.LiveAfter calls 1 ∧ ¬ SceneCall.LiveAfter calls 2) ∧
      SceneCall.strays calls = 1 ∧ SceneCall.disposals calls = 1 := by
  decide

end Arbor
