import Arbor.Proofs.Number.Single
import Arbor.Proofs.Turtle.Lifting

/-!
# Turtles in the plane

A turtle that steers by an angle stays where the third coordinate is zero.  Its direction has a zero
there, whatever its angle has become, and a walk is by a size, so what is added to the zero is zero
times a size.  Nothing else reaches that coordinate: neither an angle that is infinite or no number
nor what it makes of the other two.  A tilt does nothing to such a turtle, and might as well not be
there.
-/

set_option autoImplicit false

namespace Arbor.Turtle

open Arbor.Geometry (Vec3)

/-! ## Operations without tilts -/

def Operation.untilted : Operation → Operation
  | .pitch _ => .ignore
  | op => op

def OperationTable.untilted (t : OperationTable) : OperationTable :=
  ⟨t.entries.map Operation.untilted⟩

theorem OperationTable.get_untilted (t : OperationTable) (symbol : Nat) :
    t.untilted.get symbol = (t.get symbol).untilted := by
  simp only [get, untilted, Array.getElem?_map]
  cases t.entries[symbol]? <;> rfl

/-! ## Flat turtles -/

def Heading.IsPlanar (h : Heading) : Prop := ∃ angle, h = .planar angle

/-- A cursor in the plane of the first two axes, that is steered in it. -/
structure Cursor.Flat (c : Cursor) : Prop where
  heading : c.heading.IsPlanar
  position : c.position.z = 0

/-- A segment in the plane of the first two axes. -/
structure Flat (s : Segment) : Prop where
  start : s.start.z = 0
  direction : s.direction.z = 0
  tip : s.tip.z = 0

structure Progress.Flat (p : Progress) : Prop where
  cursor : p.cursor.Flat
  saved : ∀ c ∈ p.saved, c.Flat
  segments : ∀ s ∈ p.segments, Turtle.Flat s

theorem Heading.IsPlanar.direction_z {h : Heading} (planar : h.IsPlanar) : h.direction.z = 0 := by
  obtain ⟨angle, rfl⟩ := planar
  rfl

theorem Heading.IsPlanar.yaw {h : Heading} (planar : h.IsPlanar) (angle : Float32) :
    (h.yaw angle).IsPlanar := by
  obtain ⟨current, rfl⟩ := planar
  exact ⟨current + angle, rfl⟩

theorem Heading.IsPlanar.pitch_eq {h : Heading} (planar : h.IsPlanar) (angle : Float32) :
    h.pitch angle = h := by
  obtain ⟨current, rfl⟩ := planar
  rfl

theorem z_add_scale {v d : Vec3} (position : v.z = 0) (direction : d.z = 0) {length : Float32}
    (size : Number.IsSize length) : (v + d.scale length).z = 0 := by
  change v.z + d.z * length = 0
  rw [position, direction, Number.zero_mul_of_isSize size]
  rfl

theorem Cursor.Flat.advance {c : Cursor} (flat : c.Flat) {length : Float32}
    (size : Number.IsSize length) : (c.advance length).Flat where
  heading := flat.heading
  position := z_add_scale flat.position flat.heading.direction_z size

theorem Cursor.Flat.pitch_eq {c : Cursor} (flat : c.Flat) (angle : Float32) :
    c.pitch angle = c := by
  rw [pitch, flat.heading.pitch_eq]

theorem Progress.initial_flat : (Progress.initial .planar).Flat where
  cursor := ⟨⟨0, rfl⟩, rfl⟩
  saved := List.forall_mem_nil _
  segments := List.forall_mem_nil _

namespace Interpreter

section Steps
variable {i : Interpreter} {p q : Progress} {m : Module}

theorem walk_flat {draws : Bool} (flat : p.Flat) (step : Number.IsSize i.settings.stepLength)
    (walked : i.walk p m draws = .ok q) : q.Flat := by
  obtain ⟨measured, cursor, saved, segments⟩ := walk_eq_ok walked
  have size := isSize_of_walkLength step measured
  have advanced := flat.cursor.advance size
  refine ⟨cursor ▸ advanced, saved ▸ flat.saved, ?_⟩
  rw [segments]
  intro s member
  rcases List.mem_append.mp member with new | old
  · cases draws with
    | true =>
        obtain rfl := List.mem_singleton.mp new
        exact ⟨flat.cursor.position, flat.cursor.heading.direction_z, advanced.position⟩
    | false => exact nomatch new
  · exact flat.segments s old

theorem step_flat (flat : p.Flat) (step : Number.IsSize i.settings.stepLength)
    (stepped : i.step p m = .ok q) : q.Flat := by
  obtain ⟨r, performed, rfl⟩ := exists_of_step_eq_ok stepped
  suffices r.Flat from ⟨this.cursor, this.saved, this.segments⟩
  generalize i.table.get m.symbol = op at performed
  cases op with
  | draw => exact walk_flat flat step performed
  | move => exact walk_flat flat step performed
  | yaw sign =>
      cases performed
      exact ⟨⟨flat.cursor.heading.yaw _, flat.cursor.position⟩, flat.saved, flat.segments⟩
  | pitch sign =>
      cases performed
      refine ⟨?_, flat.saved, flat.segments⟩
      rw [flat.cursor.pitch_eq]
      exact flat.cursor
  | push =>
      rw [perform_push performed]
      exact ⟨flat.cursor, List.forall_mem_cons.mpr ⟨flat.cursor, flat.saved⟩, flat.segments⟩
  | pop =>
      cases saved : p.saved with
      | nil =>
          rw [perform_stray saved performed]
          exact ⟨flat.cursor, flat.saved, flat.segments⟩
      | cons cursor rest =>
          rw [perform_pop saved performed]
          have all := flat.saved
          rw [saved, List.forall_mem_cons] at all
          exact ⟨all.1, all.2, flat.segments⟩
  | ignore =>
      cases performed
      exact flat

/-- A flat turtle passes over a tilt as over a module without a meaning. -/
theorem step_untilted (flat : p.Flat) :
    (i.withTable i.table.untilted).step p m = i.step p m := by
  unfold step
  rw [perform_withTable, show (i.withTable i.table.untilted).table = i.table.untilted from rfl,
    OperationTable.get_untilted]
  cases i.table.get m.symbol with
  | pitch sign =>
      simp only [Operation.untilted, perform, flat.cursor.pitch_eq]
  | draw => rfl
  | move => rfl
  | yaw sign => rfl
  | push => rfl
  | pop => rfl
  | ignore => rfl

end Steps

section Sentences
variable {i : Interpreter} {p : Progress} (step : Number.IsSize i.settings.stepLength)
include step

theorem replay_flat (flat : p.Flat) (ms : List Module) : (i.replay p ms).1.Flat := by
  induction ms generalizing p with
  | nil => exact flat
  | cons m ms ih =>
      rw [replay]
      cases stepped : i.step p m with
      | error e => exact flat
      | ok q => exact ih (step_flat flat step stepped)

theorem replay_untilted (flat : p.Flat) (ms : List Module) :
    (i.withTable i.table.untilted).replay p ms = i.replay p ms := by
  induction ms generalizing p with
  | nil => rfl
  | cons m ms ih =>
      rw [replay, replay, step_untilted flat]
      cases stepped : i.step p m with
      | error e => rfl
      | ok q => exact ih (step_flat flat step stepped)

end Sentences

end Interpreter

/-- A turtle that keeps to its plane while it draws a sentence. -/
structure Planarity (i : Interpreter) (ms : List Module) : Prop where
  /-- In front of every module, as far as the turtle comes, it and its saved cursors steer by an
  angle. -/
  headings : ∀ k, (i.run (ms.take k)).1.cursor.heading.IsPlanar ∧
    ∀ c ∈ (i.run (ms.take k)).1.saved, c.heading.IsPlanar
  flat : ∀ segments, i.interpret ms = .ok segments →
    ∀ s ∈ segments, s.start.z = 0 ∧ s.direction.z = 0 ∧ s.tip.z = 0
  untilted_eq : (i.withTable i.table.untilted).interpret ms = i.interpret ms
  strayCloses_eq : (i.withTable i.table.untilted).strayCloses ms = i.strayCloses ms

namespace Interpreter

/-- A turtle that is steered by an angle never leaves its plane, and needs no tilts. -/
theorem interpret_planarity (i : Interpreter) (valid : i.settings.validate = .ok ())
    (planar : i.settings.heading = .planar) (ms : List Module) : Planarity i ms := by
  have step := (Settings.sizes_of_validate valid).1
  have start : (Progress.initial i.settings.heading).Flat := planar ▸ Progress.initial_flat
  have run_eq : (i.withTable i.table.untilted).run ms = i.run ms := replay_untilted step start ms
  constructor
  · intro k
    have flat : (i.run (ms.take k)).1.Flat := replay_flat step start _
    exact ⟨flat.cursor.heading, fun c member => (flat.saved c member).heading⟩
  · intro segments drawn s member
    obtain ⟨q, passed, rfl⟩ := run_of_interpret drawn
    have flat := replay_flat step start ms
    rw [passed] at flat
    have level := flat.segments s (List.mem_reverse.mp member)
    exact ⟨level.start, level.direction, level.tip⟩
  · rw [interpret, interpret, run_eq]
  · rw [strayCloses, strayCloses, run_eq]

/-- In a group an angle beyond the range makes the first two coordinates no numbers; tilts stand in
the group and behind it. -/
theorem interpret_planarity_unbounded :
    let i : Interpreter := ⟨{ Settings.standard with heading := .planar },
      .standard ⟨#["F", "f", "+", "^", "[", "]"]⟩⟩
    let ms : List Module := [⟨0, []⟩, ⟨4, []⟩, ⟨2, [1e39]⟩, ⟨0, []⟩, ⟨3, [1e39]⟩, ⟨1, [2]⟩,
      ⟨0, []⟩, ⟨5, []⟩, ⟨3, []⟩, ⟨0, []⟩]
    i.settings.validate = .ok () ∧ i.settings.heading = .planar ∧ Planarity i ms ∧
      (i.interpret ms).toOption.map (List.map fun s => s.tip.x.isNaN && s.tip.y.isNaN) =
        some [false, true, true, false] := by
  intro i ms
  have valid : i.settings.validate = .ok () := by decide +kernel
  exact ⟨valid, rfl, interpret_planarity i valid rfl ms, by decide +kernel⟩

end Interpreter

end Arbor.Turtle
