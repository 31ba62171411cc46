import Arbor.Proofs.Turtle.Faults
import Mathlib.Data.Set.Insert

/-!
# Walks with the pen lifted

Two tables of operations may differ in that some symbols draw by the first and only move by the
second.  The turtle goes the same way by both: it is stopped by the same module for the same reason,
and where it is not stopped the second drawing is the first one without the segments of those
symbols.
-/

set_option autoImplicit false

namespace Arbor.Turtle

/-- By `t'` the symbols of `X` move, which draw by `t`, and all others do what they do by `t`. -/
structure OperationTable.Lifts (t t' : OperationTable) (X : Set Nat) : Prop where
  draws : ∀ symbol ∈ X, t.get symbol = .draw
  moves : ∀ symbol ∈ X, t'.get symbol = .move
  others : ∀ symbol ∉ X, t'.get symbol = t.get symbol

theorem OperationTable.lifts_set {t : OperationTable} {symbol : Nat}
    (draws : t.get symbol = .draw) : t.Lifts (t.set symbol .move) {symbol} where
  draws := by
    rintro other rfl
    exact draws
  moves := by
    rintro other rfl
    rw [get_set, if_pos rfl]
  others := by
    intro other different
    rw [get_set, if_neg (mt Set.mem_singleton_iff.mpr different)]

/-- The turtle at the same place, with other segments behind it. -/
def Progress.redrawn (p : Progress) (segments : List Segment) : Progress :=
  { p with segments := segments }

namespace Interpreter

def withTable (i : Interpreter) (t : OperationTable) : Interpreter := { i with table := t }

/-! ## One module -/

section Steps
variable (i : Interpreter) (p : Progress) (m : Module) (segments : List Segment)

/-- What was drawn before does not matter to a walk, nor does it to the way whether it draws. -/
theorem walk_redrawn (draws draws' : Bool) :
    i.walk (p.redrawn segments) m draws' = (i.walk p m draws).map fun q =>
      q.redrawn ((if draws' then [⟨p.cursor.position, p.cursor.heading.direction, i.stride m,
        i.settings.thickness⟩] else []) ++ segments) := by
  unfold walk
  rw [Progress.redrawn]
  cases measured : i.walkLength m with
  | none => rfl
  | some length =>
      rw [walkLength_eq_stride measured]
      cases draws' <;> rfl

theorem perform_redrawn {op : Operation} (idle : op ≠ .draw) :
    i.perform (p.redrawn segments) m op = (i.perform p m op).map (·.redrawn segments) := by
  cases op with
  | draw => exact absurd rfl idle
  | move => exact i.walk_redrawn p m segments false false
  | yaw sign => rfl
  | pitch sign => rfl
  | push =>
      by_cases full : i.settings.maxStackDepth.toNat ≤ p.saved.length <;>
        simp [perform, Progress.redrawn, full, Except.map]
  | pop =>
      cases saved : p.saved <;> cases policy : i.settings.underflow <;>
        simp [perform, Progress.redrawn, saved, policy, Except.map]
  | ignore => rfl

theorem perform_withTable (t : OperationTable) (op : Operation) :
    (i.withTable t).perform p m op = i.perform p m op := by
  cases op <;> rfl

variable {t : OperationTable} {X : Set Nat} [DecidablePred (· ∈ X)] (lifts : i.table.Lifts t X)
include lifts

/-- With the pen lifted a module does what it did, but for what the symbols of `X` draw. -/
theorem perform_lifted :
    i.perform (p.redrawn segments) m (t.get m.symbol) =
      (i.perform p m (i.table.get m.symbol)).map fun q =>
        q.redrawn (((i.stroke p.cursor m).filter fun d => d.1.symbol ∉ X).map Prod.snd ++
          segments) := by
  by_cases draws : i.table.get m.symbol = .draw
  · by_cases lifted : m.symbol ∈ X
    · have silent : (i.stroke p.cursor m).filter (fun d => d.1.symbol ∉ X) = [] := by
        simp [stroke, draws, lifted]
      rw [lifts.moves m.symbol lifted, draws, silent]
      exact i.walk_redrawn p m segments true false
    · have heard : (i.stroke p.cursor m).filter (fun d => d.1.symbol ∉ X) =
          i.stroke p.cursor m := by
        simp [stroke, draws, lifted]
      rw [lifts.others m.symbol lifted, draws, heard, stroke, if_pos draws]
      exact i.walk_redrawn p m segments true true
  · have unlifted : m.symbol ∉ X := mt (lifts.draws m.symbol) draws
    have silent : i.stroke p.cursor m = [] := if_neg draws
    rw [lifts.others m.symbol unlifted, silent]
    exact i.perform_redrawn p m segments draws

theorem step_lifted :
    (i.withTable t).step (p.redrawn segments) m = (i.step p m).map fun q =>
      q.redrawn (((i.stroke p.cursor m).filter fun d => d.1.symbol ∉ X).map Prod.snd ++
        segments) := by
  unfold step
  rw [perform_withTable, show (i.withTable t).table = t from rfl,
    i.perform_lifted p m segments lifts]
  cases i.perform p m (i.table.get m.symbol) <;> rfl

end Steps

/-! ## Sentences -/

theorem map_fst_stroke_reverse (i : Interpreter) (c : Cursor) (m : Module) :
    ((i.stroke c m).map Prod.fst).reverse = (i.stroke c m).map Prod.fst := by
  unfold stroke
  split <;> rfl

section Sentences
variable (i : Interpreter) {t : OperationTable} {X : Set Nat} [DecidablePred (· ∈ X)]
  (lifts : i.table.Lifts t X)
include lifts

/-- The two turtles go the same way, and the strokes of the first one, the last of them first, tell
what each of them has drawn. -/
theorem replay_lifted (ms : List Module) (p : Progress) (segments : List Segment) :
    ∃ strokes : List (Module × Segment),
      (i.replay p ms).1.segments = strokes.map Prod.snd ++ p.segments ∧
      (i.withTable t).replay (p.redrawn segments) ms =
        ((i.replay p ms).1.redrawn
          ((strokes.filter fun d => d.1.symbol ∉ X).map Prod.snd ++ segments),
          (i.replay p ms).2) ∧
      ((i.replay p ms).2 = none → strokes.map Prod.fst = (i.drawers ms).reverse) := by
  induction ms generalizing p segments with
  | nil => exact ⟨[], rfl, rfl, fun _ => rfl⟩
  | cons m ms ih =>
      have both := i.step_lifted p m segments lifts
      rw [replay, replay, both]
      cases stepped : i.step p m with
      | error e => exact ⟨[], rfl, rfl, fun passed => absurd passed (Option.some_ne_none _)⟩
      | ok r =>
          obtain ⟨strokes, drawn, replayed, drawers_eq⟩ := ih r
            (((i.stroke p.cursor m).filter fun d => d.1.symbol ∉ X).map Prod.snd ++ segments)
          refine ⟨strokes ++ i.stroke p.cursor m, ?_, ?_, ?_⟩
          · rw [drawn, step_segments stepped, List.map_append, List.append_assoc]
          · rw [List.filter_append, List.map_append, List.append_assoc]
            exact replayed
          · intro passed
            rw [List.map_append, drawers_eq passed, i.drawers_cons p.cursor, List.reverse_append,
              map_fst_stroke_reverse]

theorem run_lifted (ms : List Module) :
    ∃ strokes : List (Module × Segment),
      (i.run ms).1.segments.reverse = strokes.map Prod.snd ∧
      (i.withTable t).run ms =
        ((i.run ms).1.redrawn ((strokes.filter fun d => d.1.symbol ∉ X).map Prod.snd).reverse,
          (i.run ms).2) ∧
      ((i.run ms).2 = none → strokes.map Prod.fst = i.drawers ms) := by
  obtain ⟨strokes, drawn, replayed, drawers_eq⟩ :=
    i.replay_lifted lifts ms (.initial i.settings.heading) []
  refine ⟨strokes.reverse, ?_, ?_, ?_⟩
  · rw [run, drawn, List.map_reverse]
    exact congrArg List.reverse (List.append_nil _)
  · rw [List.filter_reverse, List.map_reverse, List.reverse_reverse]
    rw [List.append_nil] at replayed
    exact replayed
  · intro passed
    rw [List.map_reverse, drawers_eq passed, List.reverse_reverse]

end Sentences

end Interpreter

/-- How the drawing by one table follows from that by another, when some symbols only move by it. -/
structure Lifting (i : Interpreter) (t : OperationTable) (X : Set Nat) [DecidablePred (· ∈ X)]
    (ms : List Module) : Prop where
  error_iff : ∀ e, (i.withTable t).interpret ms = .error e ↔ i.interpret ms = .error e
  /-- Each segment has a module that draws it, and stays if the module's symbol is not in `X`. -/
  drawn_eq : ∀ segments, i.interpret ms = .ok segments →
    segments.length = (i.drawers ms).length ∧
      (i.withTable t).interpret ms =
        .ok ((((i.drawers ms).zip segments).filter fun d => d.1.symbol ∉ X).map Prod.snd)
  /-- The module with a segment's number among those that draw is the one that draws it. -/
  beginning : ∀ (before after : List Module) (segments : List Segment), ms = before ++ after →
    i.interpret ms = .ok segments →
      i.interpret before = .ok (segments.take (i.drawers before).length)
  strayCloses_eq : (i.withTable t).strayCloses ms = i.strayCloses ms

namespace Interpreter

/-- Walks that draw and walks that do not steer the turtle alike. -/
theorem interpret_lifting (i : Interpreter) (t : OperationTable) (X : Set Nat)
    [DecidablePred (· ∈ X)] (lifts : i.table.Lifts t X) (ms : List Module) :
    Lifting i t X ms where
  error_iff := by
    intro e
    obtain ⟨_, _, ran, _⟩ := i.run_lifted lifts ms
    rw [interpret_error_iff, interpret_error_iff, ran]
    simp only [Prod.ext_iff, exists_eq_left']
  drawn_eq := by
    intro segments drawn
    refine ⟨length_of_interpret drawn, ?_⟩
    obtain ⟨strokes, strokes_eq, ran, drawers_eq⟩ := i.run_lifted lifts ms
    obtain ⟨q, passed, rfl⟩ := run_of_interpret drawn
    have passed : i.run ms = (q, none) := passed
    rw [passed] at strokes_eq ran drawers_eq
    have paired : (i.drawers ms).zip q.segments.reverse = strokes := by
      rw [strokes_eq, ← drawers_eq rfl, ← List.unzip_fst, ← List.unzip_snd, List.zip_unzip]
    rw [interpret, ran, paired]
    exact congrArg Except.ok (List.reverse_reverse _)
  beginning := by
    rintro before after segments rfl drawn
    exact interpret_beginning drawn
  strayCloses_eq := by
    obtain ⟨_, _, ran, _⟩ := i.run_lifted lifts ms
    rw [strayCloses, ran]
    rfl

theorem interpret_lifting_second :
    let i : Interpreter := ⟨{ Settings.standard with underflow := .ignore },
      (OperationTable.standard ⟨#["F", "G", "+", "[", "]"]⟩).set 1 .draw⟩
    let t := i.table.set 1 .move
    let ms : List Module := [⟨1, []⟩, ⟨4, []⟩, ⟨0, []⟩, ⟨3, []⟩, ⟨2, []⟩, ⟨1, [2]⟩, ⟨0, []⟩, ⟨4, []⟩,
      ⟨1, []⟩]
    i.table.Lifts t {1} ∧ Lifting i t {1} ms ∧
      (i.interpret ms).toOption.map List.length = some 5 ∧
      ((i.withTable t).interpret ms).toOption.map List.length = some 2 := by
  intro i t ms
  have lifts : i.table.Lifts t {1} := OperationTable.lifts_set (by decide +kernel)
  exact ⟨lifts, interpret_lifting i t {1} lifts ms, by decide +kernel, by decide +kernel⟩

end Interpreter

end Arbor.Turtle
