import Arbor.Proofs.Growth.Union
import Arbor.Proofs.Number.Whole

/-!
# What the grid tells apart

The key of a segment has its coordinates in units of a ten-thousandth, each the product of a
coordinate and ten thousand, rounded first to single precision and then to a whole number that a
64-bit integer can have.  So the same key means a distance of at most one unit, as long as half units
can be told; further out the first rounding is coarser than the grid, and beyond the range of the
integers there is one key on either side.
-/

set_option autoImplicit false

namespace Arbor

open Number

/-! ## Coordinates -/

theorem real_tenThousand : real 10000 = 10000 := by
  rw [real_of_unpack (s := .positive) (m := 10240000) (e := -10) rfl, signed]
  norm_num

/-- How far apart two coordinates can be if the grid takes them for one. -/
structure Indistinct (u v : Float32) : Prop where
  /-- Up to here there are half units among the numbers that single precision has. -/
  near : u.isFinite = true → v.isFinite = true → |real u| ≤ 838 →
    |real u - real v| ≤ 1 / 10000
  /-- Each product is off by half a unit in its last place, or is cut off at an end of the range. -/
  far : u.isFinite = true → v.isFinite = true →
    |real u - real v| ≤ 1 / 10000 + (|real u| + |real v|) / 2 ^ 24 ∨
      (92 * 10 ^ 13 ≤ real u ∧ 92 * 10 ^ 13 ≤ real v) ∨
      (real u ≤ -(92 * 10 ^ 13) ∧ real v ≤ -(92 * 10 ^ 13))

theorem abs_mul_tenThousand (x : ℝ) : |x * 10000| = |x| * 10000 := by
  rw [abs_mul, abs_of_pos (by norm_num : (0 : ℝ) < 10000)]

theorem gridUnits_eq {v : Float32} (finite : v.isFinite = true) :
    ∃ w, Nearest .binary32 (real v * 10000) w ∧
      gridUnits v = Int64.ofIntClamp (wholeOf w) := by
  have rounds : Rounds (real v * real 10000) (v * 10000) := rounds_mul finite rfl
  rw [real_tenThousand] at rounds
  exact rounds.nearestInt64_eq

section Units
variable {x y p q : ℝ} (nearest : Nearest .binary32 (x * 10000) p)
include nearest

theorem abs_wholeOf_lt (near : |x| ≤ 838) : |wholeOf p| < 2 ^ 23 := by
  have grid : OnGrid .binary32 8380000 := by
    have := onGrid_half (n := 16760000) (by decide)
    norm_num at this
    exact this
  have scaled : |x * 10000| ≤ 8380000 := by
    rw [abs_mul_tenThousand]
    linarith
  obtain ⟨low, high⟩ := abs_le.mp (nearest.abs_le_of_abs_le grid scaled)
  obtain ⟨below, above⟩ := abs_le.mp (abs_sub_wholeOf_le p)
  have cast : |(wholeOf p : ℝ)| < 2 ^ 23 := abs_lt.mpr ⟨by linarith, by linarith⟩
  exact_mod_cast cast

theorem abs_sub_le_of_far (away : 838 < |x|) : |p - x * 10000| ≤ |x| * 10000 / 2 ^ 24 := by
  have least : (2 : ℝ) ^ ((24 : ℤ) - 1 + -149) ≤ 1 :=
    zpow_le_one_of_nonpos₀ one_le_two (by norm_num)
  have normal : (2 : ℝ) ^ ((24 : ℤ) - 1 + -149) ≤ |x * 10000| := by
    rw [abs_mul_tenThousand]
    exact least.trans (by linarith)
  have error := nearest.relative_error normal
  rwa [abs_mul_tenThousand] at error

theorem le_of_saturated (large : 2 ^ 63 - 1 ≤ wholeOf p) : 92 * 10 ^ 13 ≤ x := by
  by_contra less
  rw [not_le] at less
  have grid : OnGrid .binary32 (16777215 * 2 ^ (39 : ℤ)) :=
    ⟨16777215, 39, by decide, by decide, by norm_num⟩
  have inside := nearest.le_of_le grid (by norm_num; linarith)
  have close := (abs_le.mp (abs_sub_wholeOf_le p)).1
  have cast : (2 : ℝ) ^ 63 - 1 ≤ wholeOf p := by exact_mod_cast large
  norm_num at inside cast
  linarith

theorem le_of_saturated_below (large : wholeOf p ≤ -2 ^ 63) : x ≤ -(92 * 10 ^ 13) := by
  have mirrored : Nearest .binary32 (-x * 10000) (-p) := by
    rw [neg_mul]
    exact nearest.neg
  have beyond := le_of_saturated mirrored (by rw [wholeOf_neg]; omega)
  linarith

theorem abs_sub_le_of_near (nearest' : Nearest .binary32 (y * 10000) q)
    (same : wholeOf p = wholeOf q) (near : |x| ≤ 838) : |x - y| ≤ 1 / 10000 := by
  have apart := abs_sub_le_one_of_wholeOf_eq nearest nearest' same (abs_wholeOf_lt nearest near)
  rw [← sub_mul, abs_mul_tenThousand] at apart
  linarith

theorem abs_sub_le_of_wholeOf_eq (nearest' : Nearest .binary32 (y * 10000) q)
    (same : wholeOf p = wholeOf q) : |x - y| ≤ 1 / 10000 + (|x| + |y|) / 2 ^ 24 := by
  have share : 0 ≤ (|x| + |y|) / 2 ^ 24 := by positivity
  rcases le_or_gt |x| 838 with near | away
  · have := abs_sub_le_of_near nearest nearest' same near
    linarith
  · rcases le_or_gt |y| 838 with near' | away'
    · have := abs_sub_le_of_near nearest' nearest same.symm near'
      rw [abs_sub_comm] at this
      linarith
    · obtain ⟨low, high⟩ := abs_le.mp (abs_sub_le_of_far nearest away)
      obtain ⟨low', high'⟩ := abs_le.mp (abs_sub_le_of_far nearest' away')
      obtain ⟨below, above⟩ := abs_le.mp (abs_sub_wholeOf_le p)
      obtain ⟨below', above'⟩ := abs_le.mp (abs_sub_wholeOf_le q)
      rw [same] at below above
      exact abs_le.mpr ⟨by linarith, by linarith⟩

end Units

/-- The same units are the same whole number, or both are cut off at one end of the range. -/
theorem exists_of_gridUnits_eq {u v : Float32} (finite : u.isFinite = true)
    (finite' : v.isFinite = true) (same : gridUnits u = gridUnits v) :
    ∃ p q, Nearest .binary32 (real u * 10000) p ∧ Nearest .binary32 (real v * 10000) q ∧
      (wholeOf p = wholeOf q ∨ (2 ^ 63 - 1 ≤ wholeOf p ∧ 2 ^ 63 - 1 ≤ wholeOf q) ∨
        (wholeOf p ≤ -2 ^ 63 ∧ wholeOf q ≤ -2 ^ 63)) := by
  obtain ⟨p, nearest, u_eq⟩ := gridUnits_eq finite
  obtain ⟨q, nearest', v_eq⟩ := gridUnits_eq finite'
  rw [u_eq, v_eq, ← Int64.toInt_inj, toInt_ofIntClamp, toInt_ofIntClamp] at same
  exact ⟨p, q, nearest, nearest', by omega⟩

theorem indistinct_of_gridUnits_eq {u v : Float32} (same : gridUnits u = gridUnits v) :
    Indistinct u v where
  near := by
    intro finite finite' close
    obtain ⟨p, q, nearest, nearest', either⟩ := exists_of_gridUnits_eq finite finite' same
    have within := abs_lt.mp (abs_wholeOf_lt nearest close)
    exact abs_sub_le_of_near nearest nearest' (by omega) close
  far := by
    intro finite finite'
    obtain ⟨p, q, nearest, nearest', either⟩ := exists_of_gridUnits_eq finite finite' same
    obtain whole | ⟨large, large'⟩ | ⟨small, small'⟩ := either
    · exact Or.inl (abs_sub_le_of_wholeOf_eq nearest nearest' whole)
    · exact Or.inr (Or.inl ⟨le_of_saturated nearest large, le_of_saturated nearest' large'⟩)
    · exact Or.inr (Or.inr
        ⟨le_of_saturated_below nearest small, le_of_saturated_below nearest' small'⟩)

/-! ## Keys -/

def Segment.coordinates (s : Segment) : List Float32 :=
  [s.start.x, s.start.y, s.start.z, s.direction.x, s.direction.y, s.direction.z]

theorem Segment.key_toList (s : Segment) : s.key.toList = s.coordinates.map gridUnits := rfl

theorem Segment.indistinct_of_key_eq {a b : Segment} (same : a.key = b.key) :
    List.Forall₂ Indistinct a.coordinates b.coordinates := by
  have units := congrArg Vector.toList same
  rw [key_toList, key_toList, ← List.forall₂_eq_eq_eq, List.forall₂_map_left_iff,
    List.forall₂_map_right_iff] at units
  exact units.imp fun _ _ => indistinct_of_gridUnits_eq

/-! ## Dropping a segment -/

namespace Canopy

/-- What a canopy can tell apart among segments that it absorbs. -/
structure Discernment (c : Canopy) (segments : List Segment) : Prop where
  of_key_eq : ∀ a b : Segment, a.key = b.key →
    List.Forall₂ Indistinct a.coordinates b.coordinates
  /-- Each segment becomes the next branch, unless one is there from which it is not told. -/
  each : ∀ (before : List Segment) (s : Segment) (after : List Segment),
    segments = before ++ s :: after →
    (c.absorb segments).1.get? (c.absorb before).1.size =
        some (.new (c.absorb before).1.size s) ∨
      ∃ branch ∈ (c.absorb before).1.branches,
        List.Forall₂ Indistinct s.coordinates branch.segment.coordinates

theorem Reachable.discernment {c : Canopy} (reachable : c.Reachable) (segments : List Segment) :
    c.Discernment segments where
  of_key_eq := fun _ _ => Segment.indistinct_of_key_eq
  each := by
    rintro before s after rfl
    have coherent := (reachable.absorb before).coherent
    by_cases known : s.key ∈ (c.absorb before).1.keys
    · right
      obtain ⟨_, listed, same⟩ := List.mem_map.mp known
      obtain ⟨branch, retained, rfl⟩ := List.mem_map.mp listed
      exact ⟨branch, Array.mem_def.mpr retained, Segment.indistinct_of_key_eq same.symm⟩
    · left
      obtain ⟨added, branches⟩ := exists_foldl_retain after ((c.absorb before).1.retain s)
      have same : (c.absorb (before ++ s :: after)).1 =
          after.foldl retain ((c.absorb before).1.retain s) := List.foldl_append ..
      rw [get?, ← Array.getElem?_toList, same, branches, retain_new coherent s known]
      simp [Canopy.size]

/-- A canopy that has a trunk takes a segment slightly off it for the trunk, and not one that is
five units off. -/
theorem Reachable.discernment_close :
    let trunk : Segment := ⟨⟨0, 0.5, 0⟩, ⟨0, 1, 0⟩, 0.5, 0.02⟩
    let close : Segment := ⟨⟨0.0000001, 0.5, 0⟩, ⟨-0.00000001, 1, 0⟩, 0.5, 0.02⟩
    let apart : Segment := ⟨⟨0.0005, 0.5, 0⟩, ⟨0, 1, 0⟩, 0.5, 0.02⟩
    let c : Canopy := (Canopy.empty.absorb [trunk]).1
    c.Reachable ∧ c.Discernment [close, apart] ∧ (c.absorb [close, apart]).2 = 1 := by
  intro trunk close apart c
  have reachable : c.Reachable := .absorb [trunk] .empty
  exact ⟨reachable, reachable.discernment [close, apart], by decide +kernel⟩

/-- Far from the origin a canopy loses branches that are clearly apart: in units of a ten-thousandth
the first two are beyond the bits of a mantissa, and the others beyond the integers. -/
theorem absorb_merges_apart :
    let far : Segment := ⟨⟨15000002, 0, 0⟩, ⟨0, 1, 0⟩, 0.5, 0.02⟩
    let far' : Segment := ⟨⟨15000003, 0, 0⟩, ⟨0, 1, 0⟩, 0.5, 0.02⟩
    let beyond : Segment := ⟨⟨1e15, 0, 0⟩, ⟨0, 1, 0⟩, 0.5, 0.02⟩
    let beyond' : Segment := ⟨⟨2e15, 0, 0⟩, ⟨0, 1, 0⟩, 0.5, 0.02⟩
    (∀ s ∈ [far, far', beyond, beyond'], ∀ v ∈ s.coordinates, v.isFinite = true) ∧
      far.key = far'.key ∧ real far'.start.x - real far.start.x = 1 ∧
      beyond.key = beyond'.key ∧ 10 ^ 14 < real beyond'.start.x - real beyond.start.x ∧
      (Canopy.empty.absorb [far, far', beyond, beyond']).2 = 2 := by
  intro far far' beyond beyond'
  have far_eq : real 15000002 = 15000002 := by
    rw [real_of_unpack (s := .positive) (m := 15000002) (e := 0) rfl, signed]
    norm_num
  have far_eq' : real 15000003 = 15000003 := by
    rw [real_of_unpack (s := .positive) (m := 15000003) (e := 0) rfl, signed]
    norm_num
  have beyond_eq : real 1e15 = 14901161 * 2 ^ 26 := by
    rw [real_of_unpack (s := .positive) (m := 14901161) (e := 26) rfl, signed]
    norm_num
  have beyond_eq' : real 2e15 = 14901161 * 2 ^ 27 := by
    rw [real_of_unpack (s := .positive) (m := 14901161) (e := 27) rfl, signed]
    norm_num
  refine ⟨by decide +kernel, by decide +kernel, ?_, by decide +kernel, ?_, by decide +kernel⟩
  · change real 15000003 - real 15000002 = 1
    rw [far_eq, far_eq']
    norm_num
  · change _ < real 2e15 - real 1e15
    rw [beyond_eq, beyond_eq']
    norm_num

end Canopy

end Arbor
