import Arbor.Geometry.Rotation
import Arbor.Proofs.Number.Circle

/-!
# Rotations barely stretch

A rotation by a finite angle is a quaternion next to length one, and what such a quaternion does to a
vector is in real numbers a rotation followed by a scaling next to one.  The error of the rounded
computation is propagated as a pair of budgets, a magnitude and an error, both in proportion to the
length of the vector: one turn stretches by less than one part in `2 ^ 17`.
-/

set_option autoImplicit false

namespace Arbor.Geometry

open Arbor.Number

/-! ## Budgets -/

/-- The value `z` stands for `v`, in units of `scale`: `v` has at most the given magnitude and `z` is
off by at most the given error. -/
structure Near (scale magnitude error v : ℝ) (z : Float32) : Prop where
  isFinite : z.isFinite = true
  bounded : |v| ≤ magnitude * scale
  close : |real z - v| ≤ error * scale

namespace Near

variable {scale A a B b v w : ℝ} {x y : Float32}

theorem abs_real_le (near : Near scale A a v x) : |real x| ≤ (A + a) * scale := by
  have way := abs_sub_abs_le_abs_sub (real x) v
  have := near.bounded
  have := near.close
  linarith

theorem exact (finite : x.isFinite = true) (bounded : |real x| ≤ A * scale) :
    Near scale A 0 (real x) x :=
  ⟨finite, bounded, by rw [sub_self, abs_zero, zero_mul]⟩

theorem abs_product_le {left_scale right_scale : ℝ} (left : Near left_scale A a v x)
    (right : Near right_scale B b w y) (scales : left_scale * right_scale = scale) :
    |v * w| ≤ A * B * scale := by
  calc |v * w| = |v| * |w| := abs_mul v w
    _ ≤ A * left_scale * (B * right_scale) :=
        mul_le_mul left.bounded right.bounded (abs_nonneg _) ((abs_nonneg _).trans left.bounded)
    _ = A * B * (left_scale * right_scale) := by ring
    _ = A * B * scale := by rw [scales]

theorem abs_sum_le (left : Near scale A a v x) (right : Near scale B b w y) :
    |v + w| ≤ (A + B) * scale := by
  rw [add_mul]
  exact (abs_add_le v w).trans (add_le_add left.bounded right.bounded)

variable (one_le : 1 ≤ scale) (small : scale ≤ 2 ^ 20)
include one_le small

theorem of_rounds {t magnitude error slack bound : ℝ} (rounds : Rounds t x)
    (bounded : |v| ≤ magnitude * scale) (off : |t - v| ≤ slack * scale)
    (large : |t| ≤ bound * scale) (fits : bound ≤ 2 ^ 40)
    (enough : slack + bound / 2 ^ 24 + 1 / 2 ^ 149 ≤ error) : Near scale magnitude error v x := by
  have positive : 0 < scale := by linarith
  have limit : bound * scale ≤ 2 ^ (100 : ℤ) := by
    calc bound * scale ≤ 2 ^ 40 * 2 ^ 20 :=
          mul_le_mul fits small positive.le (by positivity)
      _ ≤ 2 ^ (100 : ℤ) := by norm_num
  obtain ⟨finite, close⟩ := rounds.close large limit
  refine ⟨finite, bounded, ?_⟩
  have way := abs_sub_le (real x) t v
  have least : 1 / 2 ^ 149 ≤ 1 / 2 ^ 149 * scale := le_mul_of_one_le_right (by positivity) one_le
  calc |real x - v| ≤ (slack + bound / 2 ^ 24 + 1 / 2 ^ 149) * scale := by linarith
    _ ≤ error * scale := mul_le_mul_of_nonneg_right enough positive.le

theorem add (left : Near scale A a v x) (right : Near scale B b w y) {magnitude error : ℝ}
    (bounded : |v + w| ≤ magnitude * scale) (fits : magnitude + a + b ≤ 2 ^ 40)
    (enough : a + b + (magnitude + a + b) / 2 ^ 24 + 1 / 2 ^ 149 ≤ error) :
    Near scale magnitude error (v + w) (x + y) := by
  have off : |real x + real y - (v + w)| ≤ (a + b) * scale := by
    rw [add_sub_add_comm, add_mul]
    exact (abs_add_le _ _).trans (add_le_add left.close right.close)
  refine of_rounds one_le small (rounds_add left.isFinite right.isFinite) bounded off ?_ fits enough
  have way := abs_sub_abs_le_abs_sub (real x + real y) (v + w)
  linarith

theorem sub (left : Near scale A a v x) (right : Near scale B b w y) {magnitude error : ℝ}
    (bounded : |v - w| ≤ magnitude * scale) (fits : magnitude + a + b ≤ 2 ^ 40)
    (enough : a + b + (magnitude + a + b) / 2 ^ 24 + 1 / 2 ^ 149 ≤ error) :
    Near scale magnitude error (v - w) (x - y) := by
  have off : |real x - real y - (v - w)| ≤ (a + b) * scale := by
    rw [sub_sub_sub_comm, add_mul]
    exact (abs_sub _ _).trans (add_le_add left.close right.close)
  refine of_rounds one_le small (rounds_sub left.isFinite right.isFinite) bounded off ?_ fits enough
  have way := abs_sub_abs_le_abs_sub (real x - real y) (v - w)
  linarith

theorem mul {left_scale right_scale : ℝ} (left : Near left_scale A a v x)
    (right : Near right_scale B b w y) (scales : left_scale * right_scale = scale)
    {magnitude error : ℝ} (bounded : |v * w| ≤ magnitude * scale)
    (fits : (A + a) * (B + b) ≤ 2 ^ 40)
    (enough : A * b + a * (B + b) + (A + a) * (B + b) / 2 ^ 24 + 1 / 2 ^ 149 ≤ error) :
    Near scale magnitude error (v * w) (x * y) := by
  have left_bounded := left.abs_real_le
  have right_bounded := right.abs_real_le
  have split : real x * real y - v * w = v * (real y - w) + (real x - v) * real y := by ring
  have off : |real x * real y - v * w| ≤ (A * b + a * (B + b)) * scale := by
    rw [split, ← scales]
    calc |v * (real y - w) + (real x - v) * real y|
        ≤ |v| * |real y - w| + |real x - v| * |real y| := by
          rw [← abs_mul, ← abs_mul]
          exact abs_add_le _ _
      _ ≤ A * left_scale * (b * right_scale) + a * left_scale * ((B + b) * right_scale) :=
          add_le_add
            (mul_le_mul left.bounded right.close (abs_nonneg _) ((abs_nonneg _).trans left.bounded))
            (mul_le_mul left.close right_bounded (abs_nonneg _) ((abs_nonneg _).trans left.close))
      _ = (A * b + a * (B + b)) * (left_scale * right_scale) := by ring
  refine of_rounds one_le small (rounds_mul left.isFinite right.isFinite) bounded off ?_ fits enough
  calc |real x * real y| = |real x| * |real y| := abs_mul _ _
    _ ≤ (A + a) * left_scale * ((B + b) * right_scale) :=
        mul_le_mul left_bounded right_bounded (abs_nonneg _) ((abs_nonneg _).trans left_bounded)
    _ = (A + a) * (B + b) * (left_scale * right_scale) := by ring
    _ = (A + a) * (B + b) * scale := by rw [scales]

theorem double (near : Near scale A a v x) (fits : A + a ≤ 2 ^ 40) :
    Near scale (A * 2) (a * 2) (v * 2) (x * 2) := by
  have positive : 0 < scale := by linarith
  have small_value : |real x * 2| < 2 ^ (128 : ℤ) := by
    rw [abs_mul, abs_two]
    calc |real x| * 2 ≤ 2 ^ 40 * 2 ^ 20 * 2 :=
          mul_le_mul_of_nonneg_right (near.abs_real_le.trans
            (mul_le_mul fits small positive.le (by positivity))) two_pos.le
      _ < 2 ^ (128 : ℤ) := by norm_num
  have rounds := rounds_mul near.isFinite (rfl : (2 : Float32).isFinite = true)
  rw [real_two] at rounds
  obtain ⟨finite, same⟩ := rounds.of_onGrid (onGrid_real x).double small_value
  refine ⟨finite, ?_, ?_⟩
  · rw [abs_mul, abs_two, mul_right_comm]
    exact mul_le_mul_of_nonneg_right near.bounded two_pos.le
  · rw [same, ← sub_mul, abs_mul, abs_two, mul_right_comm]
    exact mul_le_mul_of_nonneg_right near.close two_pos.le

omit one_le small in
theorem mono (near : Near scale A a v x) {larger : ℝ} (magnitude : A * scale ≤ B * larger)
    (error : a * scale ≤ b * larger) : Near larger B b v x :=
  ⟨near.isFinite, near.bounded.trans magnitude, near.close.trans error⟩

end Near

/-! ## Vectors -/

structure Vec3.Within (bound : ℝ) (v : Vec3) : Prop where
  isFinite : v.IsFinite
  length : real v.x ^ 2 + real v.y ^ 2 + real v.z ^ 2 ≤ bound ^ 2

structure Rotation.NearUnit (q : Rotation) : Prop where
  axis : q.axis.IsFinite
  w : q.w.isFinite = true
  length : real q.x ^ 2 + real q.y ^ 2 + real q.z ^ 2 + real q.w ^ 2 ≤ 1 + 1 / 2 ^ 22

theorem abs_inner_le {x y z x' y' z' bound bound' : ℝ} (nonneg : 0 ≤ bound) (nonneg' : 0 ≤ bound')
    (length : x ^ 2 + y ^ 2 + z ^ 2 ≤ bound ^ 2) (length' : x' ^ 2 + y' ^ 2 + z' ^ 2 ≤ bound' ^ 2) :
    |x * x' + y * y' + z * z'| ≤ bound * bound' := by
  apply abs_le_of_sq_le_sq _ (mul_nonneg nonneg nonneg')
  calc (x * x' + y * y' + z * z') ^ 2
      ≤ (x ^ 2 + y ^ 2 + z ^ 2) * (x' ^ 2 + y' ^ 2 + z' ^ 2) := by
        nlinarith [sq_nonneg (x * y' - y * x'), sq_nonneg (x * z' - z * x'),
          sq_nonneg (y * z' - z * y')]
    _ ≤ bound ^ 2 * bound' ^ 2 := mul_le_mul length length' (by positivity) (by positivity)
    _ = (bound * bound') ^ 2 := by ring

theorem abs_inner_two_le {x y x' y' bound bound' : ℝ} (nonneg : 0 ≤ bound) (nonneg' : 0 ≤ bound')
    (length : x ^ 2 + y ^ 2 ≤ bound ^ 2) (length' : x' ^ 2 + y' ^ 2 ≤ bound' ^ 2) :
    |x * x' + y * y'| ≤ bound * bound' := by
  have inner : |x * x' + y * y' + 0 * 0| ≤ bound * bound' :=
    abs_inner_le nonneg nonneg' (by linarith) (by linarith)
  rwa [mul_zero, add_zero] at inner

theorem Vec3.Within.abs_le {bound : ℝ} {v : Vec3} (within : v.Within bound) (nonneg : 0 ≤ bound) :
    |real v.x| ≤ bound ∧ |real v.y| ≤ bound ∧ |real v.z| ≤ bound := by
  have length := within.length
  have x_square := sq_nonneg (real v.x)
  have y_square := sq_nonneg (real v.y)
  have z_square := sq_nonneg (real v.z)
  exact ⟨abs_le_of_sq_le_sq (by linarith) nonneg, abs_le_of_sq_le_sq (by linarith) nonneg,
    abs_le_of_sq_le_sq (by linarith) nonneg⟩

section
variable {scale : ℝ} (one_le : 1 ≤ scale) (small : scale ≤ 2 ^ 20)
include one_le small

theorem product_near {x y : Float32} (finite : x.isFinite = true) (finite' : y.isFinite = true)
    (bounded : |real x * real y| ≤ (1 + 1 / 2 ^ 20) * scale) :
    Near scale (1 + 1 / 2 ^ 20) (11 / 10 / 2 ^ 24) (real x * real y) (x * y) :=
  .of_rounds one_le small (rounds_mul finite finite') bounded (by rw [sub_self, abs_zero, zero_mul])
    bounded (by norm_num) (by norm_num)

theorem Vec3.dot_near {v b : Vec3} (v_within : v.Within scale)
    (b_within : b.Within (1 + 1 / 2 ^ 20)) :
    Near scale (1 + 1 / 2 ^ 20) (6 / 2 ^ 24)
      (real v.x * real b.x + real v.y * real b.y + real v.z * real b.z) (v.dot b) := by
  have nonneg : 0 ≤ scale := by linarith
  have nonneg' : (0 : ℝ) ≤ 1 + 1 / 2 ^ 20 := by positivity
  obtain ⟨x_le, y_le, z_le⟩ := v_within.abs_le nonneg
  obtain ⟨x_le', y_le', z_le'⟩ := b_within.abs_le nonneg'
  obtain ⟨x_finite, y_finite, z_finite⟩ := v_within.isFinite
  obtain ⟨x_finite', y_finite', z_finite'⟩ := b_within.isFinite
  have product : ∀ {x y : Float32}, x.isFinite = true → y.isFinite = true → |real x| ≤ scale →
      |real y| ≤ 1 + 1 / 2 ^ 20 →
      Near scale (1 + 1 / 2 ^ 20) (11 / 10 / 2 ^ 24) (real x * real y) (x * y) := by
    intro x y finite finite' le le'
    refine product_near one_le small finite finite' ?_
    rw [abs_mul, mul_comm (1 + 1 / 2 ^ 20)]
    exact mul_le_mul le le' (abs_nonneg _) nonneg
  have whole := abs_inner_le nonneg nonneg' v_within.length b_within.length
  have part : |real v.x * real b.x + real v.y * real b.y| ≤ scale * (1 + 1 / 2 ^ 20) :=
    abs_inner_two_le nonneg nonneg' (by linarith [v_within.length, sq_nonneg (real v.z)])
      (by linarith [b_within.length, sq_nonneg (real b.z)])
  rw [mul_comm scale] at whole part
  have first : Near scale (1 + 1 / 2 ^ 20) (34 / 10 / 2 ^ 24)
      (real v.x * real b.x + real v.y * real b.y) (v.x * b.x + v.y * b.y) :=
    (product x_finite x_finite' x_le x_le').add one_le small
      (product y_finite y_finite' y_le y_le') part (by norm_num) (by norm_num)
  exact first.add one_le small (product z_finite z_finite' z_le z_le') whole (by norm_num)
    (by norm_num)

theorem minor_near {b b' v v' : Float32} (finite : b.isFinite = true) (finite' : b'.isFinite = true)
    (v_finite : v.isFinite = true) (v_finite' : v'.isFinite = true)
    (b_within : real b ^ 2 + real b' ^ 2 ≤ (1 + 1 / 2 ^ 20) ^ 2)
    (v_within : real v ^ 2 + real v' ^ 2 ≤ scale ^ 2) :
    Near scale (1 + 1 / 2 ^ 20) (4 / 2 ^ 24) (real b * real v' - real v * real b')
      (b * v' - v * b') := by
  have nonneg : 0 ≤ scale := by linarith
  have nonneg' : (0 : ℝ) ≤ 1 + 1 / 2 ^ 20 := by positivity
  have b_square := sq_nonneg (real b)
  have b_square' := sq_nonneg (real b')
  have v_square := sq_nonneg (real v)
  have v_square' := sq_nonneg (real v')
  have left := product_near one_le small finite v_finite' (by
    rw [abs_mul]
    exact mul_le_mul (abs_le_of_sq_le_sq (by linarith) nonneg')
      (abs_le_of_sq_le_sq (by linarith) nonneg) (abs_nonneg _) nonneg')
  have right := product_near one_le small v_finite finite' (by
    rw [abs_mul, mul_comm (1 + 1 / 2 ^ 20)]
    exact mul_le_mul (abs_le_of_sq_le_sq (by linarith) nonneg)
      (abs_le_of_sq_le_sq (by linarith) nonneg') (abs_nonneg _) nonneg)
  have whole : |real b * real v' + -real b' * real v| ≤ (1 + 1 / 2 ^ 20) * scale :=
    abs_inner_two_le nonneg' nonneg (by linarith [neg_sq (real b')]) (by linarith)
  rw [neg_mul, ← sub_eq_add_neg, mul_comm (real b')] at whole
  exact left.sub one_le small right whole (by norm_num) (by norm_num)

namespace Rotation

theorem coordinate_near {v b k c d w : Float32} {c₀ d₀ k₀ : ℝ}
    (v_finite : v.isFinite = true) (b_finite : b.isFinite = true) (w_finite : w.isFinite = true)
    (v_bounded : |real v| ≤ scale) (b_bounded : |real b| ≤ 1 + 1 / 2 ^ 20)
    (w_bounded : |real w| ≤ 1 + 1 / 2 ^ 20) (c_near : Near 1 (1 + 1 / 2 ^ 20) (9 / 2 ^ 24) c₀ c)
    (d_near : Near scale (1 + 1 / 2 ^ 20) (6 / 2 ^ 24) d₀ d)
    (k_near : Near scale (1 + 1 / 2 ^ 20) (4 / 2 ^ 24) k₀ k) :
    Near scale 6 (47 / 2 ^ 24) (real v * c₀ + real b * (d₀ * 2) + k₀ * (real w * 2))
      (v * c + b * (d * 2) + k * (w * 2)) := by
  have v_near : Near scale 1 0 (real v) v := .exact v_finite (by linarith)
  have b_near : Near 1 (1 + 1 / 2 ^ 20) 0 (real b) b := .exact b_finite (by linarith)
  have w_near : Near 1 (1 + 1 / 2 ^ 20) 0 (real w) w := .exact w_finite (by linarith)
  have along : Near scale (1 * (1 + 1 / 2 ^ 20)) (11 / 2 ^ 24) (real v * c₀) (v * c) :=
    v_near.mul one_le small c_near (mul_one _) (v_near.abs_product_le c_near (mul_one _)) (by norm_num)
      (by norm_num)
  have d_double := d_near.double one_le small (by norm_num)
  have on_axis : Near scale ((1 + 1 / 2 ^ 20) * ((1 + 1 / 2 ^ 20) * 2)) (15 / 2 ^ 24)
      (real b * (d₀ * 2)) (b * (d * 2)) :=
    b_near.mul one_le small d_double (one_mul _) (b_near.abs_product_le d_double (one_mul _))
      (by norm_num) (by norm_num)
  have w_double := w_near.double le_rfl (by norm_num) (by norm_num)
  have across : Near scale ((1 + 1 / 2 ^ 20) * ((1 + 1 / 2 ^ 20) * 2)) (11 / 2 ^ 24)
      (k₀ * (real w * 2)) (k * (w * 2)) :=
    k_near.mul one_le small w_double (mul_one _) (k_near.abs_product_le w_double (mul_one _))
      (by norm_num) (by norm_num)
  have part : Near scale _ (30 / 2 ^ 24) _ _ :=
    along.add one_le small on_axis (along.abs_sum_le on_axis) (by norm_num) (by norm_num)
  have whole : Near scale _ (47 / 2 ^ 24) _ _ :=
    part.add one_le small across (part.abs_sum_le across) (by norm_num) (by norm_num)
  exact whole.mono (mul_le_mul_of_nonneg_right (by norm_num) (by linarith)) le_rfl

omit one_le small in
theorem NearUnit.within {q : Rotation} (unit : q.NearUnit) :
    q.axis.Within (1 + 1 / 2 ^ 20) ∧ |real q.w| ≤ 1 + 1 / 2 ^ 20 ∧
      |real q.w * real q.w -
        (real q.x * real q.x + real q.y * real q.y + real q.z * real q.z)| ≤ 1 + 1 / 2 ^ 20 := by
  have length := unit.length
  have x_square := sq_nonneg (real q.x)
  have y_square := sq_nonneg (real q.y)
  have z_square := sq_nonneg (real q.z)
  have w_square := sq_nonneg (real q.w)
  refine ⟨⟨unit.axis, ?_⟩, abs_le_of_sq_le_sq ?_ (by positivity), abs_le.mpr ⟨?_, ?_⟩⟩
  · norm_num at length ⊢
    change real q.x ^ 2 + real q.y ^ 2 + real q.z ^ 2 ≤ _
    linarith
  · norm_num at length ⊢
    linarith
  · norm_num at length ⊢
    linarith
  · norm_num at length ⊢
    linarith

omit one_le small in
theorem factor_near {q : Rotation} (unit : q.NearUnit) :
    Near 1 (1 + 1 / 2 ^ 20) (9 / 2 ^ 24)
      (real q.w * real q.w - (real q.x * real q.x + real q.y * real q.y + real q.z * real q.z))
      (q.w * q.w - q.axis.dot q.axis) := by
  obtain ⟨axis_within, _, difference⟩ := unit.within
  have length := unit.length
  have squares : Near 1 2 (62 / 10 / 2 ^ 24)
      (real q.x * real q.x + real q.y * real q.y + real q.z * real q.z) (q.axis.dot q.axis) :=
    (Vec3.dot_near (by norm_num) (by norm_num) axis_within axis_within).mono (by norm_num)
      (by norm_num)
  have square := product_near le_rfl (by norm_num) unit.w unit.w (by
    rw [abs_mul_self]
    norm_num at length ⊢
    linarith [sq_nonneg (real q.x), sq_nonneg (real q.y), sq_nonneg (real q.z)])
  exact square.sub le_rfl (by norm_num) squares (by rwa [mul_one]) (by norm_num) (by norm_num)

omit one_le small in
/-- In real numbers the length is multiplied by that of the quaternion, squared. -/
theorem length_image (x y z a b c w : ℝ) :
    (x * (w * w - (a * a + b * b + c * c)) + a * ((x * a + y * b + z * c) * 2) +
          (b * z - y * c) * (w * 2)) ^ 2 +
        (y * (w * w - (a * a + b * b + c * c)) + b * ((x * a + y * b + z * c) * 2) +
          (c * x - z * a) * (w * 2)) ^ 2 +
        (z * (w * w - (a * a + b * b + c * c)) + c * ((x * a + y * b + z * c) * 2) +
          (a * y - x * b) * (w * 2)) ^ 2 =
      (a ^ 2 + b ^ 2 + c ^ 2 + w ^ 2) ^ 2 * (x ^ 2 + y ^ 2 + z ^ 2) := by
  ring

omit one_le small in
theorem length_le_of_close {x y z x' y' z' bound error : ℝ} (nonneg : 0 ≤ bound)
    (length : x ^ 2 + y ^ 2 + z ^ 2 ≤ bound ^ 2) (x_close : |x' - x| ≤ error)
    (y_close : |y' - y| ≤ error) (z_close : |z' - z| ≤ error) :
    x' ^ 2 + y' ^ 2 + z' ^ 2 ≤ (bound + 2 * error) ^ 2 := by
  have error_nonneg : 0 ≤ error := (abs_nonneg _).trans x_close
  have sum_le : |x| + |y| + |z| ≤ 2 * bound := by
    refine abs_le_of_sq_le_sq' ?_ (by linarith) |>.2
    nlinarith [sq_nonneg (|x| - |y|), sq_nonneg (|x| - |z|), sq_nonneg (|y| - |z|), sq_abs x,
      sq_abs y, sq_abs z]
  have square_le : ∀ {t t' : ℝ}, |t' - t| ≤ error → t' ^ 2 ≤ t ^ 2 + 2 * error * |t| + error ^ 2 := by
    intro t t' close
    have way := abs_sub_abs_le_abs_sub t' t
    have squared := pow_le_pow_left₀ (abs_nonneg t') (by linarith : |t'| ≤ |t| + error) 2
    rw [sq_abs, add_sq, sq_abs] at squared
    linarith
  have x_le := square_le x_close
  have y_le := square_le y_close
  have z_le := square_le z_close
  have product := mul_le_mul_of_nonneg_left sum_le error_nonneg
  nlinarith [sq_nonneg error]

theorem apply_within {q : Rotation} {v : Vec3} (unit : q.NearUnit) (within : v.Within scale) :
    (q.apply v).Within (scale * (1 + 1 / 2 ^ 17)) := by
  have nonneg : 0 ≤ scale := by linarith
  obtain ⟨axis_within, w_bounded, _⟩ := unit.within
  obtain ⟨a_le, b_le, c_le⟩ := axis_within.abs_le (by positivity)
  obtain ⟨x_le, y_le, z_le⟩ := within.abs_le nonneg
  obtain ⟨a_finite, b_finite, c_finite⟩ := unit.axis
  obtain ⟨x_finite, y_finite, z_finite⟩ := within.isFinite
  have axis_length := axis_within.length
  have length := within.length
  have c_near := factor_near unit
  have d_near := Vec3.dot_near one_le small within axis_within
  have x_near := coordinate_near one_le small x_finite a_finite unit.w x_le a_le w_bounded c_near
    d_near (minor_near one_le small b_finite c_finite y_finite z_finite
      (by linarith [sq_nonneg (real q.axis.x)]) (by linarith [sq_nonneg (real v.x)]))
  have y_near := coordinate_near one_le small y_finite b_finite unit.w y_le b_le w_bounded c_near
    d_near (minor_near one_le small c_finite a_finite z_finite x_finite
      (by linarith [sq_nonneg (real q.axis.y)]) (by linarith [sq_nonneg (real v.y)]))
  have z_near := coordinate_near one_le small z_finite c_finite unit.w z_le c_le w_bounded c_near
    d_near (minor_near one_le small a_finite b_finite x_finite y_finite
      (by linarith [sq_nonneg (real q.axis.z)]) (by linarith [sq_nonneg (real v.z)]))
  refine ⟨⟨x_near.isFinite, y_near.isFinite, z_near.isFinite⟩, ?_⟩
  have image := length_image (real v.x) (real v.y) (real v.z) (real q.x) (real q.y) (real q.z)
    (real q.w)
  have image_length : ((real q.x ^ 2 + real q.y ^ 2 + real q.z ^ 2 + real q.w ^ 2) ^ 2 *
      (real v.x ^ 2 + real v.y ^ 2 + real v.z ^ 2)) ≤ ((1 + 1 / 2 ^ 22) * scale) ^ 2 := by
    rw [mul_pow]
    exact mul_le_mul (pow_le_pow_left₀ (by positivity) unit.length 2) length (by positivity)
      (by positivity)
  rw [← image] at image_length
  have close := length_le_of_close (by positivity) image_length x_near.close y_near.close
    z_near.close
  refine close.trans (pow_le_pow_left₀ (by positivity) ?_ 2)
  norm_num
  linarith

end Rotation

end

/-! ## Turns about the axes -/

theorem isFinite_half {x : Float32} (finite : x.isFinite = true) : (x * 0.5).isFinite = true := by
  have half : |real x * real 0.5| ≤ |real x| := by
    rw [abs_mul, real_half]
    norm_num
    linarith [abs_nonneg (real x)]
  exact ((rounds_mul finite rfl).of_abs_le (onGrid_real x).abs (abs_real_lt x) half).1

theorem exact_mul {a x : Float32} (unit : a = 0 ∨ a = 1) (finite : x.isFinite = true) :
    (a * x).isFinite = true ∧ real (a * x) = real a * real x := by
  obtain rfl | rfl := unit
  · apply (rounds_mul rfl finite).of_onGrid <;> rw [real_zero, zero_mul]
    · exact onGrid_zero
    · rw [abs_zero]
      exact zpow_pos two_pos _
  · apply (rounds_mul rfl finite).of_onGrid <;> rw [real_one, one_mul]
    · exact onGrid_real x
    · exact abs_real_lt x

theorem Rotation.about_nearUnit {axis : Vec3} {angle : Float32}
    (coordinate : axis = Vec3.unitX ∨ axis = Vec3.unitZ) (finite : angle.isFinite = true) :
    (Rotation.about axis angle).NearUnit := by
  obtain ⟨sine_finite, cosine_finite, on_circle⟩ := sin_cos_on_circle (isFinite_half finite)
  obtain ⟨zero_finite, zero_eq⟩ := exact_mul (Or.inl rfl) sine_finite
  obtain ⟨one_finite, one_eq⟩ := exact_mul (Or.inr rfl) sine_finite
  rw [real_zero, zero_mul] at zero_eq
  rw [real_one, one_mul] at one_eq
  obtain rfl | rfl := coordinate
  · refine ⟨⟨one_finite, zero_finite, zero_finite⟩, cosine_finite, ?_⟩
    change real (1 * sin (angle * 0.5)) ^ 2 + real (0 * sin (angle * 0.5)) ^ 2 +
      real (0 * sin (angle * 0.5)) ^ 2 + real (cos (angle * 0.5)) ^ 2 ≤ _
    rw [zero_eq, one_eq]
    linarith
  · refine ⟨⟨zero_finite, zero_finite, one_finite⟩, cosine_finite, ?_⟩
    change real (0 * sin (angle * 0.5)) ^ 2 + real (0 * sin (angle * 0.5)) ^ 2 +
      real (1 * sin (angle * 0.5)) ^ 2 + real (cos (angle * 0.5)) ^ 2 ≤ _
    rw [zero_eq, one_eq]
    linarith

end Arbor.Geometry
