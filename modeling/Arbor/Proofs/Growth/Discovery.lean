import Arbor.Proofs.Growth.Redraw
import Mathlib.Data.Finset.Card

/-!
# Discovering branches

`firstsBy key` keeps of each key the element that comes first.  A canopy is coherent when the place
of a branch is its id and the index finds exactly the branches there are; absorbing keeps it so, and
adds the firsts of the segments whose key it did not know.
-/

set_option autoImplicit false

namespace Arbor

/-! ## First occurrences -/

section Firsts
variable {α β κ : Type} [DecidableEq κ] (key : α → κ)

/-- The elements that come first with their key. -/
def firstsBy : List α → List α
  | [] => []
  | a :: as => a :: (firstsBy as).filter fun b => key b ≠ key a

/-- Those of them whose key is not known. -/
def unseenBy (known : List κ) (as : List α) : List α :=
  (firstsBy key as).filter fun a => key a ∉ known

theorem mem_of_mem_firstsBy (as : List α) : ∀ a ∈ firstsBy key as, a ∈ as := by
  induction as with
  | nil => exact nofun
  | cons a as ih =>
      intro b member
      rcases List.mem_cons.mp member with rfl | member
      · exact List.mem_cons_self
      · exact List.mem_cons_of_mem a (ih b (List.mem_filter.mp member).1)

theorem mem_map_firstsBy (as : List α) (k : κ) :
    k ∈ (firstsBy key as).map key ↔ k ∈ as.map key := by
  induction as with
  | nil => rfl
  | cons a as ih =>
      rw [firstsBy, List.map_cons, List.map_cons, List.mem_cons, List.mem_cons]
      by_cases same : k = key a
      · simp [same]
      · rw [← ih]
        simp only [same, false_or, List.mem_map, List.mem_filter, decide_eq_true_eq]
        constructor
        · rintro ⟨b, ⟨member, _⟩, rfl⟩
          exact ⟨b, member, rfl⟩
        · rintro ⟨b, member, rfl⟩
          exact ⟨b, ⟨member, same⟩, rfl⟩

theorem nodup_map_firstsBy (as : List α) : ((firstsBy key as).map key).Nodup := by
  induction as with
  | nil => exact List.nodup_nil
  | cons a as ih =>
      rw [firstsBy, List.map_cons, List.nodup_cons]
      constructor
      · intro member
        obtain ⟨b, kept, same⟩ := List.mem_map.mp member
        exact of_decide_eq_true (List.mem_filter.mp kept).2 same
      · exact ih.sublist (List.filter_sublist.map key)

/-- What comes later counts only where its key is new. -/
theorem firstsBy_append (as bs : List α) :
    firstsBy key (as ++ bs) = firstsBy key as ++ unseenBy key (as.map key) bs := by
  induction as with
  | nil => simp [firstsBy, unseenBy]
  | cons a as ih =>
      rw [List.cons_append, firstsBy, ih, firstsBy, unseenBy, unseenBy, List.filter_append,
        List.filter_filter, List.cons_append]
      congr 2
      apply List.filter_congr
      intro b _
      simp [List.mem_cons, not_or]

theorem firstsBy_map (f : β → α) (bs : List β) :
    firstsBy key (bs.map f) = (firstsBy (fun b => key (f b)) bs).map f := by
  induction bs with
  | nil => rfl
  | cons b bs ih =>
      rw [List.map_cons, firstsBy, ih, firstsBy, List.map_cons, List.filter_map]
      rfl

theorem mem_map_unseenBy (known : List κ) (as : List α) (k : κ) :
    k ∈ (unseenBy key known as).map key ↔ k ∈ as.map key ∧ k ∉ known := by
  rw [← mem_map_firstsBy key as k]
  simp only [unseenBy, List.mem_map, List.mem_filter, decide_eq_true_eq]
  constructor
  · rintro ⟨a, ⟨member, new⟩, rfl⟩
    exact ⟨⟨a, member, rfl⟩, new⟩
  · rintro ⟨⟨a, member, rfl⟩, new⟩
    exact ⟨a, ⟨member, new⟩, rfl⟩

theorem length_unseenBy (known : List κ) (as : List α) :
    (unseenBy key known as).length = ((as.map key).toFinset \ known.toFinset).card := by
  have distinct : ((unseenBy key known as).map key).Nodup :=
    (nodup_map_firstsBy key as).sublist (List.filter_sublist.map key)
  rw [← List.length_map key, ← List.toFinset_card_of_nodup distinct]
  congr 1
  ext k
  rw [Finset.mem_sdiff, List.mem_toFinset, List.mem_toFinset, List.mem_toFinset, mem_map_unseenBy]

end Firsts

theorem getElem?_concat_eq_some {α : Type} (as : List α) (a b : α) (i : Nat) :
    (as ++ [a])[i]? = some b ↔ as[i]? = some b ∨ (i = as.length ∧ a = b) := by
  rcases Nat.lt_trichotomy i as.length with inside | rfl | beyond
  · rw [List.getElem?_append_left inside]
    simp [Nat.ne_of_lt inside]
  · simp
  · have long : (as ++ [a]).length ≤ i := by
      rw [List.length_append, List.length_singleton]
      omega
    rw [List.getElem?_eq_none long, List.getElem?_eq_none (Nat.le_of_lt beyond)]
    simp [Nat.ne_of_gt beyond]

/-! ## Coherent canopies -/

namespace Canopy

def segments (c : Canopy) : List Segment := c.branches.toList.map Branch.segment

def keys (c : Canopy) : List BranchKey := c.segments.map Segment.key

/-- Branches are counted by their ids, and the index has the key of each. -/
structure Coherent (c : Canopy) : Prop where
  ids_eq : c.branches.toList.map Branch.id = List.range c.size
  index_iff : ∀ (key : BranchKey) (i : Nat), c.index[key]? = some i ↔ c.keys[i]? = some key

theorem empty_coherent : empty.Coherent where
  ids_eq := rfl
  index_iff := by
    intro key i
    constructor <;> intro found
    · rw [empty, Std.TreeMap.getElem?_emptyc] at found
      exact nomatch found
    · exact nomatch found

theorem length_segments (c : Canopy) : c.segments.length = c.size := by
  rw [segments, List.length_map, Array.length_toList, size]

theorem Coherent.substance_eq {c : Canopy} (coherent : c.Coherent) :
    c.branches.toList.map Branch.substance = c.segments.mapIdx Prod.mk := by
  apply List.ext_getElem?
  intro i
  rw [List.getElem?_map, List.getElem?_mapIdx, segments, List.getElem?_map]
  cases found : c.branches.toList[i]? with
  | none => rfl
  | some b =>
      have inside : i < c.size := (List.getElem?_eq_some_iff.mp found).1
      have id_eq : (c.branches.toList.map Branch.id)[i]? = some i := by
        rw [coherent.ids_eq, List.getElem?_range inside]
      rw [List.getElem?_map, found, Option.map_some, Option.some.injEq] at id_eq
      simp only [Option.map_some, Branch.substance, id_eq]

theorem Coherent.mem_index {c : Canopy} (coherent : c.Coherent) (key : BranchKey) :
    key ∈ c.index ↔ key ∈ c.keys := by
  rw [Std.TreeMap.mem_iff_isSome_getElem?, Option.isSome_iff_exists, List.mem_iff_getElem?]
  exact exists_congr fun i => coherent.index_iff key i

theorem Coherent.index_lt {c : Canopy} (coherent : c.Coherent) {key : BranchKey} {i : Nat}
    (listed : c.index[key]? = some i) : i < c.size := by
  have inside := (List.getElem?_eq_some_iff.mp ((coherent.index_iff key i).mp listed)).1
  simpa [keys, length_segments] using inside

/-- The id of a known key is below the size, so it is not taken for the next one. -/
theorem retain_known {c : Canopy} (coherent : c.Coherent) (s : Segment) (known : s.key ∈ c.keys) :
    c.retain s = c := by
  obtain ⟨i, place⟩ := List.mem_iff_getElem?.mp known
  have listed := (coherent.index_iff s.key i).mpr place
  have taken : i ≠ c.branches.size := Nat.ne_of_lt (coherent.index_lt listed)
  simp only [retain, identify, listed, if_neg taken]

theorem retain_new {c : Canopy} (coherent : c.Coherent) (s : Segment) (new : s.key ∉ c.keys) :
    c.retain s = ⟨c.branches.push (.new c.size s), c.index.insert s.key c.size⟩ := by
  have unlisted : c.index[s.key]? = none :=
    Std.TreeMap.getElem?_eq_none fun listed => new ((coherent.mem_index s.key).mp listed)
  simp only [retain, identify, unlisted, if_true, size]

theorem retain_segments {c : Canopy} (coherent : c.Coherent) (s : Segment)
    (new : s.key ∉ c.keys) : (c.retain s).segments = c.segments ++ [s] := by
  rw [retain_new coherent s new]
  simp [segments, Branch.new]

theorem retain_coherent {c : Canopy} (coherent : c.Coherent) (s : Segment) :
    (c.retain s).Coherent := by
  by_cases known : s.key ∈ c.keys
  · rw [retain_known coherent s known]
    exact coherent
  · have segments_eq := retain_segments coherent s known
    constructor
    · rw [retain_new coherent s known]
      simp [coherent.ids_eq, Branch.new, size, List.range_succ]
    · intro key i
      have before := coherent.index_iff key i
      have length : c.keys.length = c.size := by rw [keys, List.length_map, length_segments]
      rw [keys, segments_eq, List.map_append, List.map_singleton, retain_new coherent s known,
        Std.TreeMap.getElem?_insert]
      change _ ↔ (c.keys ++ [s.key])[i]? = some key
      rw [getElem?_concat_eq_some, length]
      by_cases same : s.key = key
      · rw [if_pos (Std.compare_eq_iff_eq.mpr same), Option.some.injEq]
        have absent : c.keys[i]? ≠ some key := by
          intro found
          rw [← same] at found
          exact known (List.mem_of_getElem? found)
        simp [absent, same, eq_comm]
      · rw [if_neg fun equal => same (Std.compare_eq_iff_eq.mp equal), before]
        simp [same]

theorem foldl_retain (segments : List Segment) :
    ∀ c : Canopy, c.Coherent → (segments.foldl retain c).Coherent ∧
      (segments.foldl retain c).segments = c.segments ++ unseenBy Segment.key c.keys segments := by
  induction segments with
  | nil =>
      intro c coherent
      exact ⟨coherent, by simp [unseenBy, firstsBy]⟩
  | cons s segments ih =>
      intro c coherent
      obtain ⟨after, added⟩ := ih (c.retain s) (retain_coherent coherent s)
      refine ⟨after, ?_⟩
      rw [List.foldl_cons, added]
      -- Both sides leave out what has the key of `s`: the right one when `s` comes first, the left
      -- one because `s` is in the canopy by then.
      by_cases known : s.key ∈ c.keys
      · rw [retain_known coherent s known, unseenBy, unseenBy, firstsBy,
          List.filter_cons_of_neg (by simpa using known), List.filter_filter]
        congr 1
        apply List.filter_congr
        intro other _
        by_cases same : other.key = s.key
        · simp [same, known]
        · simp [same]
      · rw [unseenBy, keys, retain_segments coherent s known, unseenBy, firstsBy,
          List.filter_cons_of_pos (by simpa using known), List.filter_filter, List.append_assoc,
          List.singleton_append]
        congr 2
        apply List.filter_congr
        intro other _
        simp [keys]

theorem absorb_spec {c : Canopy} (coherent : c.Coherent) (segments : List Segment) :
    (c.absorb segments).1.Coherent ∧
      (c.absorb segments).1.segments = c.segments ++ unseenBy Segment.key c.keys segments ∧
      (c.absorb segments).2 = ((segments.map Segment.key).toFinset \ c.keys.toFinset).card := by
  obtain ⟨after, added⟩ := foldl_retain segments c coherent
  refine ⟨after, added, ?_⟩
  rw [← length_unseenBy, absorb, ← length_segments, ← length_segments, added,
    List.length_append, Nat.add_sub_cancel_left]

/-! ## Growing and redrawing -/

theorem Coherent.of_eq {c d : Canopy} (coherent : c.Coherent)
    (ids : d.branches.toList.map Branch.id = c.branches.toList.map Branch.id)
    (keys : d.keys = c.keys) (index : d.index = c.index) : d.Coherent where
  ids_eq := by
    have same_size : d.size = c.size := by
      simpa [Canopy.keys, length_segments] using congrArg List.length keys
    rw [ids, coherent.ids_eq, same_size]
  index_iff := by
    rw [keys, index]
    exact coherent.index_iff

theorem Coherent.of_substance {c d : Canopy} (coherent : c.Coherent)
    (same : d.branches.toList.map Branch.substance = c.branches.toList.map Branch.substance)
    (index : d.index = c.index) : d.Coherent ∧ d.segments = c.segments := by
  have ids := congrArg (List.map Prod.fst) same
  have segments := congrArg (List.map Prod.snd) same
  rw [List.map_map, List.map_map] at ids segments
  exact ⟨coherent.of_eq ids (congrArg (List.map Segment.key) segments) index, segments⟩

theorem refresh_spec {σ : Type} [Scene σ] {c : Canopy} (coherent : c.Coherent) (scene : σ) :
    (c.refresh scene).1.Coherent ∧ (c.refresh scene).1.segments = c.segments :=
  coherent.of_substance (refresh_substance c scene) rfl

theorem clear_spec {σ : Type} [Scene σ] {c : Canopy} (coherent : c.Coherent) (scene : σ) :
    (c.clear scene).1.Coherent ∧ (c.clear scene).1.segments = c.segments :=
  coherent.of_substance (clear_substance c scene) rfl

theorem grow_spec {c : Canopy} (coherent : c.Coherent) (factor : GrowthFactor) :
    (c.grow factor).Coherent ∧
      (c.grow factor).segments = c.segments.map fun s => s.scale factor.value := by
  have segments_eq : (c.grow factor).segments = c.segments.map fun s => s.scale factor.value := by
    simp [grow, segments, Branch.grow]
  refine ⟨coherent.of_eq ?_ ?_ rfl, segments_eq⟩
  · simp [grow, Branch.grow]
  · rw [keys, segments_eq, List.map_map]
    rfl

end Canopy

end Arbor
