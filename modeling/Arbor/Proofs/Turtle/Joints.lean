import Arbor.Proofs.Turtle.Depiction
import Arbor.Proofs.Turtle.Meaning

/-!
# Where segments begin

A turtle that never walks without drawing leaves no gaps.  Wherever it stands, and wherever a saved
cursor stands, is the origin or the end of a segment that it has drawn: a walk leads to the end of
the segment that it draws, and brackets only go back to where the turtle has been.  So every segment
begins at the origin or at the end of an earlier one, in every coordinate to the last bit.
-/

set_option autoImplicit false

namespace Arbor.Turtle

open Arbor.Geometry (Vec3)

/-- The origin, or the end of one of the segments. -/
def Reached (segments : List Segment) (v : Vec3) : Prop :=
  v = Vec3.zero ∨ ∃ s ∈ segments, s.tip = v

/-- Each segment begins where those before it have led. -/
def Joined (segments : List Segment) : Prop :=
  ∀ index s, segments[index]? = some s → Reached (segments.take index) s.start

/-- The turtle, its saved cursors and its segments are where segments have led. -/
structure Progress.Anchored (p : Progress) : Prop where
  cursor : Reached p.segments p.cursor.position
  saved : ∀ c ∈ p.saved, Reached p.segments c.position
  joined : Joined p.segments.reverse

theorem Reached.mono {segments more : List Segment} {v : Vec3} (reached : Reached segments v)
    (kept : segments ⊆ more) : Reached more v := by
  rcases reached with origin | ⟨s, member, tip⟩
  · exact Or.inl origin
  · exact Or.inr ⟨s, kept member, tip⟩

theorem Joined.concat {segments : List Segment} (joined : Joined segments) {s : Segment}
    (reached : Reached segments s.start) : Joined (segments ++ [s]) := by
  intro index other found
  rcases Nat.lt_trichotomy index segments.length with inside | rfl | beyond
  · rw [List.getElem?_append_left inside] at found
    rw [List.take_append_of_le_length (Nat.le_of_lt inside)]
    exact joined index other found
  · rw [List.getElem?_concat_length] at found
    rw [List.take_left, ← Option.some.inj found]
    exact reached
  · have behind : (segments ++ [s]).length ≤ index := by
      rw [List.length_append, List.length_singleton]
      exact beyond
    rw [List.getElem?_eq_none behind] at found
    exact nomatch found

theorem Progress.initial_anchored (mode : HeadingMode) : (Progress.initial mode).Anchored where
  cursor := Or.inl rfl
  saved := List.forall_mem_nil _
  joined := fun _ _ found => nomatch found

namespace Interpreter

variable {i : Interpreter} {p q : Progress} {m : Module}

theorem draw_position (drawn : i.walk p m true = .ok q) :
    ∃ s, s.start = p.cursor.position ∧ s.tip = q.cursor.position ∧ q.saved = p.saved ∧
      q.segments = s :: p.segments := by
  obtain ⟨_, cursor, saved, segments⟩ := walk_eq_ok drawn
  refine ⟨⟨p.cursor.position, p.cursor.heading.direction, i.stride m, i.settings.thickness⟩, rfl,
    ?_, saved, segments⟩
  rw [cursor]
  rfl

theorem draw_anchored (anchored : p.Anchored) (drawn : i.walk p m true = .ok q) : q.Anchored := by
  obtain ⟨s, start, tip, saved, segments⟩ := draw_position drawn
  have kept : p.segments ⊆ q.segments := segments ▸ List.subset_cons_self s p.segments
  constructor
  · exact Or.inr ⟨s, segments ▸ List.mem_cons_self, tip⟩
  · rw [saved]
    exact fun c member => (anchored.saved c member).mono kept
  · rw [segments, List.reverse_cons]
    have reached := anchored.cursor.mono fun _ => List.mem_reverse.mpr
    exact anchored.joined.concat (start ▸ reached)

theorem step_anchored (drawing : i.table.get m.symbol ≠ .move) (anchored : p.Anchored)
    (stepped : i.step p m = .ok q) : q.Anchored := by
  obtain ⟨r, performed, rfl⟩ := exists_of_step_eq_ok stepped
  suffices r.Anchored from ⟨this.cursor, this.saved, this.joined⟩
  cases op : i.table.get m.symbol with
  | draw => rw [op] at performed; exact draw_anchored anchored performed
  | move => exact absurd op drawing
  | yaw sign =>
      rw [op] at performed
      cases performed
      exact ⟨anchored.cursor, anchored.saved, anchored.joined⟩
  | pitch sign =>
      rw [op] at performed
      cases performed
      exact ⟨anchored.cursor, anchored.saved, anchored.joined⟩
  | push =>
      rw [op] at performed
      rw [perform_push performed]
      exact ⟨anchored.cursor, List.forall_mem_cons.mpr ⟨anchored.cursor, anchored.saved⟩,
        anchored.joined⟩
  | pop =>
      rw [op] at performed
      cases saved : p.saved with
      | nil =>
          rw [perform_stray saved performed]
          exact ⟨anchored.cursor, anchored.saved, anchored.joined⟩
      | cons cursor rest =>
          rw [perform_pop saved performed]
          have all := anchored.saved
          rw [saved, List.forall_mem_cons] at all
          exact ⟨all.1, all.2, anchored.joined⟩
  | ignore => rw [op] at performed; cases performed; exact anchored

theorem replay_anchored {ms : List Module} (drawing : ∀ m ∈ ms, i.table.get m.symbol ≠ .move)
    (anchored : p.Anchored) (replayed : i.replay p ms = (q, none)) : q.Anchored := by
  induction ms generalizing p with
  | nil =>
      cases replayed
      exact anchored
  | cons m ms ih =>
      obtain ⟨r, stepped, replayed⟩ := replay_cons_eq replayed
      obtain ⟨first, rest⟩ := List.forall_mem_cons.mp drawing
      exact ih rest (step_anchored first anchored stepped) replayed

end Interpreter

structure Connected (i : Interpreter) (ms : List Module) (segments : List Segment) : Prop where
  start_eq : ∀ (index : Nat) (s : Segment), segments[index]? = some s → s.start = Vec3.zero ∨
    ∃ earlier < index, ∃ s' : Segment, segments[earlier]? = some s' ∧ s.start = s'.tip
  /-- Between any two modules the turtle and its saved cursors stand where what is drawn so far has
  led. -/
  stands : ∀ k, ∃ q, i.run (ms.take k) = (q, none) ∧ q.segments.reverse <+: segments ∧
    Reached q.segments q.cursor.position ∧ ∀ c ∈ q.saved, Reached q.segments c.position
  /-- A module that draws takes the turtle from the start of its segment to the end of it. -/
  walks : ∀ k m, ms[k]? = some m → i.table.get m.symbol = .draw →
    ∃ (p q : Progress) (s : Segment), i.run (ms.take k) = (p, none) ∧
      i.run (ms.take (k + 1)) = (q, none) ∧ q.segments = s :: p.segments ∧
      s.start = p.cursor.position ∧ s.tip = q.cursor.position

theorem Joined.start_eq {segments : List Segment} (joined : Joined segments) {index : Nat}
    {s : Segment} (found : segments[index]? = some s) : s.start = Vec3.zero ∨
      ∃ earlier < index, ∃ s' : Segment, segments[earlier]? = some s' ∧ s.start = s'.tip := by
  rcases joined index s found with origin | ⟨s', member, tip⟩
  · exact Or.inl origin
  · obtain ⟨earlier, found'⟩ := List.mem_iff_getElem?.mp member
    have before : earlier < index :=
      (List.getElem?_eq_some_iff.mp found').1.trans_le (List.length_take_le index segments)
    rw [List.getElem?_take_of_lt before] at found'
    exact Or.inr ⟨earlier, before, s', found', tip.symm⟩

namespace Interpreter

/-- What is drawn without a walk that draws nothing is connected, whatever the symbols mean
otherwise. -/
theorem interpret_connected (i : Interpreter) (drawing : ∀ symbol, i.table.get symbol ≠ .move)
    (ms : List Module) (segments : List Segment) (drawn : i.interpret ms = .ok segments) :
    Connected i ms segments where
  start_eq := by
    intro index s found
    obtain ⟨q, replayed, rfl⟩ := run_of_interpret drawn
    have anchored := replay_anchored (fun m _ => drawing m.symbol) (Progress.initial_anchored _)
      replayed
    exact anchored.joined.start_eq found
  stands := by
    intro k
    obtain ⟨q, passed, drawn_first⟩ := exists_run_take drawn k
    have anchored := replay_anchored (fun m _ => drawing m.symbol) (Progress.initial_anchored _)
      passed
    exact ⟨q, passed, drawn_first, anchored.cursor, anchored.saved⟩
  walks := by
    intro k m found draws
    obtain ⟨q, passed, _⟩ := exists_run_take drawn (k + 1)
    have split : ms.take (k + 1) = ms.take k ++ [m] := by
      rw [List.take_add_one, found, Option.toList_some]
    rw [split] at passed ⊢
    obtain ⟨p, before, last⟩ := replay_append_eq passed
    obtain ⟨r, stepped, rest⟩ := replay_cons_eq last
    cases rest
    obtain ⟨r, performed, rfl⟩ := exists_of_step_eq_ok stepped
    rw [draws] at performed
    obtain ⟨s, start, tip, _, segments_eq⟩ := draw_position performed
    exact ⟨p, _, s, before, passed, segments_eq, start, tip⟩

theorem interpret_connected_nested :
    let i : Interpreter := ⟨{ Settings.standard with heading := .planar, underflow := .ignore },
      .standard ⟨#["F", "+", "-", "[", "]"]⟩⟩
    let ms : List Module := [⟨0, []⟩, ⟨4, []⟩, ⟨3, []⟩, ⟨1, []⟩, ⟨0, [0.1]⟩, ⟨3, []⟩, ⟨2, [100]⟩,
      ⟨0, []⟩, ⟨4, []⟩, ⟨0, []⟩, ⟨4, []⟩, ⟨0, [3]⟩]
    ∃ segments, i.interpret ms = .ok segments ∧ segments.length = 5 ∧
      Connected i ms segments := by
  intro i ms
  have count : (i.interpret ms).toOption.map List.length = some 5 := by decide +kernel
  obtain ⟨segments, drawn⟩ : ∃ segments, i.interpret ms = .ok segments :=
    exists_of_isOk (by decide +kernel)
  rw [drawn] at count
  have drawing : ∀ symbol, i.table.get symbol ≠ .move :=
    OperationTable.forall_get (P := (· ≠ .move)) (by decide) (by decide +kernel)
  exact ⟨segments, drawn, Option.some.inj count, interpret_connected i drawing ms segments drawn⟩

end Interpreter

end Arbor.Turtle
