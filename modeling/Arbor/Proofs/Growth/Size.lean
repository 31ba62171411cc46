import Arbor.Proofs.Engine.Accretion
import Arbor.Proofs.Number.Single
import Arbor.Proofs.Turtle.Depiction

/-!
# The sizes of branches

Growing multiplies a size by the growth factor, again and again, and rounds every time.  A size never
becomes negative or undefined by that.  A factor of at least one keeps it above zero and a factor of
at most one keeps it finite, but neither does both: in the end sizes may vanish or become infinite.
As long as the exact products stay in the range of the normal values, with room for the errors of
rounding, a size remains a size.
-/

set_option autoImplicit false

namespace Arbor

open Animate Number

namespace Number

/-- The largest relative error of rounding a normal value. -/
noncomputable def unitRoundoff : ℝ := 1 / 2 ^ 24

theorem unitRoundoff_pos : 0 < unitRoundoff := by
  unfold unitRoundoff
  positivity

theorem unitRoundoff_lt_one : unitRoundoff < 1 := by
  unfold unitRoundoff
  norm_num

theorem Nearest.within_unit {v w : ℝ} (nearest : Nearest .binary32 v w)
    (normal : 2 ^ (-126 : ℤ) ≤ v) : v * (1 - unitRoundoff) ≤ w ∧ w ≤ v * (1 + unitRoundoff) := by
  have positive : 0 < v := lt_of_lt_of_le (zpow_pos two_pos _) normal
  have error : |w - v| ≤ |v| / 2 ^ 24 :=
    nearest.relative_error (by rw [abs_of_pos positive]; exact normal)
  rw [abs_of_pos positive, abs_le] at error
  unfold unitRoundoff
  constructor <;> linarith

/-! ## One multiplication -/

section Multiplication
variable {x f : Float32} (size : IsSize f)
include size

theorem mul_nonneg_of_size (above : 0 ≤ x) : 0 ≤ x * f := by
  obtain ⟨finite', positive⟩ := (isSize_iff f).mp size
  rw [nonneg_iff] at above ⊢
  rcases above with ⟨finite, above⟩ | infinite
  · have product : 0 ≤ real x * real f := mul_nonneg above positive.le
    obtain ⟨finite, nearest⟩ | ⟨w, s, nearest, large, unpacked⟩ := (rounds_mul finite finite').cases
    · exact Or.inl ⟨finite, nearest.ge_of_ge onGrid_zero product⟩
    · obtain rfl := Rounds.sign_of_infinite (nearest.ge_of_ge onGrid_zero product) large
      exact Or.inr unpacked
  · exact Or.inr (mul_infinite infinite size)

theorem mul_pos_of_one_le (one_le : 1 ≤ f) (above : 0 < x) : 0 < x * f := by
  obtain ⟨finite', positive⟩ := (isSize_iff f).mp size
  rw [le_iff_real_le rfl finite', real_one] at one_le
  rw [pos_iff] at above ⊢
  rcases above with ⟨finite, above⟩ | infinite
  · have grows : real x ≤ real x * real f := le_mul_of_one_le_right above.le one_le
    obtain ⟨finite, nearest⟩ | ⟨w, s, nearest, large, unpacked⟩ := (rounds_mul finite finite').cases
    · exact Or.inl ⟨finite, above.trans_le (nearest.ge_of_ge (onGrid_real x) grows)⟩
    · have still := nearest.ge_of_ge (onGrid_real x) grows
      obtain rfl := Rounds.sign_of_infinite (above.le.trans still) large
      exact Or.inr unpacked
  · exact Or.inr (mul_infinite infinite size)

theorem mul_finite_of_le_one (le_one : f ≤ 1) (finite : x.isFinite = true) :
    (x * f).isFinite = true := by
  obtain ⟨finite', positive⟩ := (isSize_iff f).mp size
  rw [le_iff_real_le finite' rfl, real_one] at le_one
  have shrinks : |real x * real f| ≤ |real x| := by
    rw [abs_mul, abs_of_pos positive]
    exact mul_le_of_le_one_right (abs_nonneg _) le_one
  exact ((rounds_mul finite finite').of_abs_le (onGrid_real x).abs (abs_real_lt x) shrinks).1

theorem mul_within_unit (finite : x.isFinite = true)
    (normal : 2 ^ (-126 : ℤ) ≤ real x * real f)
    (small : real x * real f * (1 + unitRoundoff) < 2 ^ (128 : ℤ)) :
    (x * f).isFinite = true ∧ real x * real f * (1 - unitRoundoff) ≤ real (x * f) ∧
      real (x * f) ≤ real x * real f * (1 + unitRoundoff) := by
  obtain ⟨finite', _⟩ := (isSize_iff f).mp size
  obtain ⟨finite, nearest⟩ | ⟨w, s, nearest, large, _⟩ := (rounds_mul finite finite').cases
  · exact ⟨finite, nearest.within_unit normal⟩
  · exfalso
    have positive : 0 < real x * real f := lt_of_lt_of_le (zpow_pos two_pos _) normal
    obtain ⟨low, high⟩ := nearest.within_unit normal
    have above : 0 ≤ w :=
      (mul_nonneg positive.le (sub_nonneg.mpr unitRoundoff_lt_one.le)).trans low
    have magnitude := le_abs_self (signed s w)
    rw [abs_signed, abs_of_nonneg above] at magnitude
    linarith

end Multiplication

/-! ## Repeated multiplication -/

/-- The exact products of a size stay normal while it grows some times, whatever the errors. -/
def Bears (factor : Float32) (times : Nat) (size : Float32) : Prop :=
  ∀ j ≤ times, 2 ^ (-126 : ℤ) ≤ real size * (real factor * (1 - unitRoundoff)) ^ j ∧
    real size * (real factor * (1 + unitRoundoff)) ^ j < 2 ^ (128 : ℤ)

section Iteration
variable {f : Float32} (size : IsSize f) (times : Nat) {x : Float32}
include size

theorem iterate_mul_nonneg (above : 0 ≤ x) : 0 ≤ (fun y => y * f)^[times] x := by
  induction times with
  | zero => exact above
  | succ times ih =>
      rw [Function.iterate_succ_apply']
      exact mul_nonneg_of_size size ih

theorem iterate_mul_pos (one_le : 1 ≤ f) (above : 0 < x) : 0 < (fun y => y * f)^[times] x := by
  induction times with
  | zero => exact above
  | succ times ih =>
      rw [Function.iterate_succ_apply']
      exact mul_pos_of_one_le size one_le ih

theorem iterate_mul_finite (le_one : f ≤ 1) (finite : x.isFinite = true) :
    ((fun y => y * f)^[times] x).isFinite = true := by
  induction times with
  | zero => exact finite
  | succ times ih =>
      rw [Function.iterate_succ_apply']
      exact mul_finite_of_le_one size le_one ih

/-- The errors of rounding compound with the factor. -/
theorem iterate_mul_bounds (start : IsSize x) (bears : Bears f times x) :
    IsSize ((fun y => y * f)^[times] x) ∧
      real x * (real f * (1 - unitRoundoff)) ^ times ≤ real ((fun y => y * f)^[times] x) ∧
      real ((fun y => y * f)^[times] x) ≤ real x * (real f * (1 + unitRoundoff)) ^ times := by
  obtain ⟨finite', positive⟩ := (isSize_iff f).mp size
  induction times with
  | zero => exact ⟨start, by simp, by simp⟩
  | succ times ih =>
      obtain ⟨sized, low, high⟩ := ih fun j le => bears j (Nat.le_succ_of_le le)
      obtain ⟨normal, small⟩ := bears (times + 1) le_rfl
      obtain ⟨finite, above⟩ := (isSize_iff _).mp sized
      obtain ⟨y, y_eq⟩ : ∃ y, y = (fun y => y * f)^[times] x := ⟨_, rfl⟩
      rw [Function.iterate_succ_apply', ← y_eq]
      rw [← y_eq] at low high finite above
      have down : 0 < 1 - unitRoundoff := sub_pos.mpr unitRoundoff_lt_one
      have up : 0 < 1 + unitRoundoff := add_pos one_pos unitRoundoff_pos
      have lower : real x * (real f * (1 - unitRoundoff)) ^ (times + 1) ≤
          real y * real f * (1 - unitRoundoff) := by
        rw [pow_succ, ← mul_assoc, mul_assoc (real y)]
        exact mul_le_mul_of_nonneg_right low (mul_pos positive down).le
      have upper : real y * real f * (1 + unitRoundoff) ≤
          real x * (real f * (1 + unitRoundoff)) ^ (times + 1) := by
        rw [pow_succ, ← mul_assoc, mul_assoc (real y)]
        exact mul_le_mul_of_nonneg_right high (mul_pos positive up).le
      have product : real y * real f * (1 - unitRoundoff) ≤ real y * real f :=
        mul_le_of_le_one_right (mul_pos above positive).le (by linarith [unitRoundoff_pos])
      obtain ⟨finite'', least, most⟩ :=
        mul_within_unit size finite ((normal.trans lower).trans product) (upper.trans_lt small)
      refine ⟨(isSize_iff _).mpr ⟨finite'', ?_⟩, lower.trans least, most.trans upper⟩
      exact lt_of_lt_of_le (zpow_pos two_pos _) ((normal.trans lower).trans least)

end Iteration

end Number

/-! ## Branches -/

theorem Number.IsSize.nonneg {x : Float32} (size : IsSize x) : 0 ≤ x := by
  obtain ⟨finite, positive⟩ := (isSize_iff x).mp size
  exact (nonneg_iff x).mpr (Or.inl ⟨finite, positive.le⟩)

def Segment.SizesSatisfy (p : Float32 → Prop) (s : Segment) : Prop := p s.length ∧ p s.thickness

section Trees
variable {σ : Type} [Scene σ]

/-- The sizes of the branches of a tree after some calls, of which `n` were ticks that advanced. -/
structure Sizes (start : Tree) (calls : List (Call σ)) (n : Nat) : Prop where
  advances : ((ticks start calls).map Tick.outcome).countP Outcome.Advances = n
  draws : ∀ g, 1 ≤ g → g ≤ n →
    start.grower.interpreter.interpret (start.grower.grammar.after g).sentence =
      .ok (start.grower.drawing g)
  /-- No size is negative or undefined. -/
  nonneg : ∀ b ∈ (after start calls).canopy.branches.toList,
    b.segment.SizesSatisfy fun x => 0 ≤ x
  pos : 1 ≤ start.factor.value → ∀ b ∈ (after start calls).canopy.branches.toList,
    b.segment.SizesSatisfy fun x => 0 < x
  finite : start.factor.value ≤ 1 → ∀ b ∈ (after start calls).canopy.branches.toList,
    b.segment.SizesSatisfy fun x => x.isFinite = true
  /-- What bears its growth keeps a size. -/
  isSize : (∀ g, 1 ≤ g → g ≤ n → ∀ s ∈ start.grower.drawing g,
      s.SizesSatisfy (Bears start.factor.value (n + 1 - g))) →
    ∀ b ∈ (after start calls).canopy.branches.toList, b.segment.SizesSatisfy IsSize

/-- A branch is a segment that was drawn by a generation and has grown since. -/
theorem Accretion.exists_grown {start : Tree} {calls : List (Call σ)} {n : Nat}
    (accretion : Accretion start calls n) {b : Branch}
    (member : b ∈ (after start calls).canopy.branches.toList) :
    ∃ g s, 1 ≤ g ∧ g ≤ n ∧ s ∈ start.grower.drawing g ∧
      b.segment = s.grown start.factor.value (n + 1 - g) := by
  have listed : (b.id, b.segment) ∈
      (after start calls).canopy.branches.toList.map fun b => (b.id, b.segment) :=
    List.mem_map_of_mem member
  rw [accretion.branches_eq] at listed
  obtain ⟨i, inside, found⟩ := List.mem_mapIdx.mp listed
  have first := mem_of_mem_firstsBy _ _ _ (List.getElem_mem inside)
  obtain ⟨j, small, drawn⟩ := List.mem_flatMap.mp first
  obtain ⟨s, drawn, pair⟩ := List.mem_map.mp drawn
  rw [← pair] at found
  exact ⟨j + 1, s, Nat.le_add_left 1 j, List.mem_range.mp small, drawn, (Prod.mk.inj found).2.symm⟩

theorem Accretion.sizes {start : Tree} {calls : List (Call σ)} {n : Nat}
    (accretion : Accretion start calls n)
    (valid : start.grower.interpreter.settings.validate = .ok ()) : Sizes start calls n := by
  obtain ⟨length, thickness⟩ := Turtle.Settings.sizes_of_validate valid
  have factor := start.factor.isSize
  -- All that is drawn has sizes, and the branches are what is drawn, grown.
  have grown : ∀ b ∈ (after start calls).canopy.branches.toList, ∃ g s, 1 ≤ g ∧ g ≤ n ∧
      s ∈ start.grower.drawing g ∧ s.SizesSatisfy IsSize ∧
      b.segment = s.grown start.factor.value (n + 1 - g) := by
    intro b member
    obtain ⟨g, s, positive, le, drawn, same⟩ := accretion.exists_grown member
    have sized := Turtle.Interpreter.sizes_of_interpret length thickness
      (accretion.draws g positive le) s drawn
    exact ⟨g, s, positive, le, drawn, sized, same⟩
  constructor
  · exact accretion.advances
  · exact accretion.draws
  · intro b member
    obtain ⟨g, s, _, _, _, sized, same⟩ := grown b member
    rw [same]
    exact ⟨iterate_mul_nonneg factor _ sized.1.nonneg, iterate_mul_nonneg factor _ sized.2.nonneg⟩
  · intro one_le b member
    obtain ⟨g, s, _, _, _, sized, same⟩ := grown b member
    rw [same]
    exact ⟨iterate_mul_pos factor _ one_le sized.1.2, iterate_mul_pos factor _ one_le sized.2.2⟩
  · intro le_one b member
    obtain ⟨g, s, _, _, _, sized, same⟩ := grown b member
    rw [same]
    exact ⟨iterate_mul_finite factor _ le_one sized.1.1, iterate_mul_finite factor _ le_one sized.2.1⟩
  · intro bears b member
    obtain ⟨g, s, positive, le, drawn, sized, same⟩ := grown b member
    obtain ⟨bears_length, bears_thickness⟩ := bears g positive le s drawn
    rw [same]
    exact ⟨(iterate_mul_bounds factor _ sized.1 bears_length).1,
      (iterate_mul_bounds factor _ sized.2 bears_thickness).1⟩

/-- The branches of a tree have sizes that are never negative or undefined, stay above zero under a
factor of at least one and finite under one of at most one, and are sizes as long as they bear their
growth. -/
theorem ofConfig_sizes (c : Config) (t : Tree) (notices : List Notice)
    (built : Tree.ofConfig c = .ok (t, notices)) (calls : List (Call σ)) :
    t.factor.value = c.growthFactor ∧ ∃ n ≤ c.maxIterations.toNat, Sizes t calls n := by
  obtain ⟨starts, bare, factor⟩ := Tree.ofConfig_eq c t notices built
  obtain ⟨k, reach⟩ := t.grower.exists_reach
  have accretion := accretion_of_reach starts.fresh reach bare calls
  have valid : t.grower.interpreter.settings.validate = .ok () := by
    rw [starts.interpreter_eq]
    exact Tree.settings_valid built
  refine ⟨GrowthFactor.value_of_ofValue factor, _, ?_, accretion.sizes valid⟩
  rw [← starts.maxIterations_eq]
  exact (Nat.min_le_right _ _).trans reach.le

end Trees

theorem ofConfig_sizes_preset :
    let calls : List (Call SceneLedger) := [.tick .empty, .teardown .empty, .tick .empty]
    ∃ (t : Tree) (notices : List Notice), Tree.ofConfig Config.tree = .ok (t, notices) ∧
      Sizes t calls 2 ∧
      ∀ b ∈ (after t calls).canopy.branches.toList, b.segment.SizesSatisfy IsSize := by
  intro calls
  have runs : (Tree.ofConfig Config.tree).toOption.map (fun built =>
      (((ticks built.1 calls).map Tick.outcome).countP Outcome.Advances, built.1.factor.value,
        (built.1.grower.drawing 1 ++ built.1.grower.drawing 2).all fun s =>
          s.length = 0.5 ∧ s.thickness = 0.02)) = some (2, 1.5, true) := by
    decide +kernel
  obtain ⟨⟨t, notices⟩, built⟩ : ∃ built, Tree.ofConfig Config.tree = .ok built :=
    exists_of_isOk (by decide +kernel)
  rw [built] at runs
  obtain ⟨advances, runs⟩ := Prod.mk.inj (Option.some.inj runs)
  obtain ⟨factor, drawn⟩ := Prod.mk.inj runs
  dsimp only at factor
  rw [List.all_eq_true] at drawn
  obtain ⟨_, n, _, sizes⟩ := ofConfig_sizes Config.tree t notices built calls
  obtain rfl : n = 2 := sizes.advances.symm.trans advances
  have real_factor : real 1.5 = 3 / 2 := by
    rw [real_of_unpack (s := .positive) (m := 12582912) (e := -23) rfl, signed]
    norm_num
  have bears : ∀ x : Float32, 1 / 64 ≤ real x → real x ≤ 1 → ∀ times ≤ 2, Bears 1.5 times x := by
    intro x low high times few j le
    have up_to : j ≤ 2 := le.trans few
    rw [real_factor]
    unfold unitRoundoff
    interval_cases j <;> constructor <;> norm_num <;> linarith
  have length : 1 / 64 ≤ real 0.5 ∧ real 0.5 ≤ 1 := by
    rw [real_half]
    norm_num
  have thickness : 1 / 64 ≤ real 0.02 ∧ real 0.02 ≤ 1 := by
    rw [real_of_unpack (s := .positive) (m := 10737418) (e := -29) rfl, signed]
    norm_num
  refine ⟨t, notices, built, sizes, sizes.isSize ?_⟩
  intro g positive le s listed
  have either : s ∈ t.grower.drawing 1 ++ t.grower.drawing 2 := by
    rw [List.mem_append]
    obtain rfl | rfl : g = 1 ∨ g = 2 := by omega
    · exact Or.inl listed
    · exact Or.inr listed
  obtain ⟨length_eq, thickness_eq⟩ := of_decide_eq_true (drawn s either)
  rw [factor, Segment.SizesSatisfy, length_eq, thickness_eq]
  exact ⟨bears _ length.1 length.2 _ (by omega), bears _ thickness.1 thickness.2 _ (by omega)⟩

/-- A growth factor that is a size can still make a branch vanish. -/
theorem growth_vanishes :
    let c := { Config.tree with segmentLength := 1e-30, growthFactor := 1e-30 }
    ∃ (t : Tree) (notices : List Notice), Tree.ofConfig c = .ok (t, notices) ∧
      ∃ b ∈ (after t [.tick SceneLedger.empty]).canopy.branches.toList,
        ¬ IsSize b.segment.length := by
  intro c
  have runs : (Tree.ofConfig c).toOption.map (fun built =>
      (after built.1 [.tick SceneLedger.empty]).canopy.branches.toList.any fun b =>
        ¬ IsSize b.segment.length) = some true := by
    decide +kernel
  obtain ⟨⟨t, notices⟩, built⟩ : ∃ built, Tree.ofConfig c = .ok built :=
    exists_of_isOk (by decide +kernel)
  rw [built] at runs
  obtain ⟨b, member, vanished⟩ := List.any_eq_true.mp (Option.some.inj runs)
  exact ⟨t, notices, built, b, member, of_decide_eq_true vanished⟩

end Arbor
