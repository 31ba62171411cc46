import Arbor.Proofs.Grammar.Symbols
import Arbor.Proofs.Turtle.Forest
import Arbor.Proofs.Turtle.Groups

/-!
# What a turtle draws

The turtle saves cursors where a forest is evaluated by recursion.  When it gets through a sentence,
and refuses closes without a partner, the sentence is a forest, and the segments drawn are those of
the forest.  The cursor on top of the saved ones is at every place the one at which the innermost
group was opened; so a group ends where it began, and a sentence without it draws the same
otherwise.
-/

set_option autoImplicit false

namespace Arbor.Turtle

/-! ## The turtle in a forest -/

/-- Two turtles at one place with the same cursors saved. -/
structure Alike (p p' : Progress) : Prop where
  cursor_eq : p'.cursor = p.cursor
  saved_eq : p'.saved = p.saved

namespace Interpreter

theorem walkLength_eq_stride {i : Interpreter} {m : Module} {length : Float32}
    (walked : i.walkLength m = some length) : length = i.stride m := by
  unfold walkLength at walked
  unfold stride
  split at walked
  · next none => rw [none, Option.getD_none, Option.some.inj walked]
  · next given =>
      split at walked
      · rw [given, Option.getD_some, Option.some.inj walked]
      · exact nomatch walked

theorem walk_eq_ok {i : Interpreter} {p q : Progress} {m : Module} {draws : Bool}
    (walked : i.walk p m draws = .ok q) :
    i.walkLength m = some (i.stride m) ∧
      q.cursor = p.cursor.advance (i.stride m) ∧ q.saved = p.saved ∧
      q.segments = (if draws then [⟨p.cursor.position, p.cursor.heading.direction, i.stride m,
        i.settings.thickness⟩] else []) ++ p.segments := by
  unfold walk at walked
  split at walked
  · exact nomatch walked
  · next length measured =>
      obtain rfl := walkLength_eq_stride measured
      cases walked
      cases draws <;> exact ⟨measured, rfl, rfl, rfl⟩

theorem step_segments {i : Interpreter} {p q : Progress} {m : Module}
    (stepped : i.step p m = .ok q) :
    q.segments = (i.stroke p.cursor m).map Prod.snd ++ p.segments := by
  obtain ⟨r, performed, rfl⟩ := exists_of_step_eq_ok stepped
  unfold stroke
  cases op : i.table.get m.symbol with
  | draw =>
      rw [op] at performed
      obtain ⟨_, _, _, segments⟩ := walk_eq_ok performed
      exact segments
  | move =>
      rw [op] at performed
      obtain ⟨_, _, _, segments⟩ := walk_eq_ok performed
      exact segments
  | yaw sign => rw [op] at performed; cases performed; rfl
  | pitch sign => rw [op] at performed; cases performed; rfl
  | push => rw [op] at performed; rw [perform_push performed]; rfl
  | pop =>
      rw [op] at performed
      cases saved : p.saved with
      | nil => rw [perform_stray saved performed]; rfl
      | cons cursor saved' => rw [perform_pop saved performed]; rfl
  | ignore => rw [op] at performed; cases performed; rfl

theorem walk_alike {i : Interpreter} {p p' q : Progress} {m : Module} {draws : Bool}
    (alike : Alike p p') (walked : i.walk p m draws = .ok q) :
    ∃ q', i.walk p' m draws = .ok q' ∧ Alike q q' := by
  obtain ⟨measured, cursor, saved, _⟩ := walk_eq_ok walked
  unfold walk
  rw [measured]
  refine ⟨_, rfl, ?_, alike.saved_eq.trans saved.symm⟩
  rw [cursor, ← alike.cursor_eq]

theorem perform_alike {i : Interpreter} {p p' q : Progress} {m : Module} {op : Operation}
    (alike : Alike p p') (performed : i.perform p m op = .ok q) :
    ∃ q', i.perform p' m op = .ok q' ∧ Alike q q' := by
  cases op with
  | draw => exact walk_alike alike performed
  | move => exact walk_alike alike performed
  | yaw sign =>
      cases performed
      exact ⟨_, rfl, by rw [alike.cursor_eq], alike.saved_eq⟩
  | pitch sign =>
      cases performed
      exact ⟨_, rfl, by rw [alike.cursor_eq], alike.saved_eq⟩
  | push =>
      unfold perform at performed ⊢
      dsimp only at performed ⊢
      split at performed
      · exact nomatch performed
      · next fits =>
          cases performed
          rw [alike.saved_eq, if_neg fits]
          exact ⟨_, rfl, alike.cursor_eq, by rw [alike.cursor_eq]⟩
  | pop =>
      simp only [perform, alike.saved_eq] at performed ⊢
      split at performed
      · cases performed
        exact ⟨_, rfl, rfl, rfl⟩
      · exact nomatch performed
      · cases performed
        exact ⟨_, rfl, alike.cursor_eq, rfl⟩
  | ignore =>
      cases performed
      exact ⟨_, rfl, alike⟩

theorem step_alike {i : Interpreter} {p p' q : Progress} {m : Module} (alike : Alike p p')
    (stepped : i.step p m = .ok q) : ∃ q', i.step p' m = .ok q' ∧ Alike q q' := by
  obtain ⟨r, performed, rfl⟩ := exists_of_step_eq_ok stepped
  obtain ⟨r', performed', alike'⟩ := perform_alike alike performed
  refine ⟨{ r' with index := r'.index + 1 }, ?_, alike'.cursor_eq, alike'.saved_eq⟩
  unfold step
  rw [performed']
  rfl

theorem replay_alike {i : Interpreter} {ms : List Module} {p p' q : Progress}
    (alike : Alike p p') (replayed : i.replay p ms = (q, none)) :
    ∃ q' drawn, i.replay p' ms = (q', none) ∧ q.segments = drawn ++ p.segments ∧
      q'.segments = drawn ++ p'.segments ∧ drawn.length = (i.drawers ms).length := by
  induction ms generalizing p p' with
  | nil =>
      cases replayed
      exact ⟨p', [], rfl, rfl, rfl, rfl⟩
  | cons m ms ih =>
      obtain ⟨r, stepped, replayed⟩ := replay_cons_eq replayed
      obtain ⟨r', stepped', alike'⟩ := step_alike alike stepped
      obtain ⟨q', drawn, replayed', segments, segments', count⟩ := ih alike' replayed
      have first := step_segments stepped
      have first' := step_segments stepped'
      rw [alike.cursor_eq] at first'
      refine ⟨q', drawn ++ (i.stroke p.cursor m).map Prod.snd, ?_, ?_, ?_, ?_⟩
      · rw [replay, stepped']
        exact replayed'
      · rw [segments, first, List.append_assoc]
      · rw [segments', first', List.append_assoc]
      · rw [List.length_append, count, drawers, drawers, List.filter_cons, stroke]
        split <;> simp_all

end Interpreter

/-! ## Drawings -/

theorem Interpreter.run_of_interpret {i : Interpreter} {ms : List Module}
    {segments : List Segment} (drawn : i.interpret ms = .ok segments) :
    ∃ p, i.replay (.initial i.settings.heading) ms = (p, none) ∧
      segments = p.segments.reverse := by
  unfold interpret at drawn
  split at drawn
  · next p ran => exact ⟨p, ran, (Except.ok.inj drawn).symm⟩
  · exact nomatch drawn

theorem Interpreter.length_of_interpret {i : Interpreter} {ms : List Module}
    {segments : List Segment} (drawn : i.interpret ms = .ok segments) :
    segments.length = (i.drawers ms).length := by
  obtain ⟨p, replayed, rfl⟩ := run_of_interpret drawn
  obtain ⟨_, new, _, added, _, count⟩ := replay_alike ⟨rfl, rfl⟩ replayed
  rw [List.length_reverse, added, List.length_append, count]
  rfl

/-- On its way through a sentence the turtle draws the sentence's segments one after the other. -/
theorem Interpreter.exists_run_take {i : Interpreter} {ms : List Module} {segments : List Segment}
    (drawn : i.interpret ms = .ok segments) (k : Nat) :
    ∃ q, i.run (ms.take k) = (q, none) ∧ q.segments.reverse <+: segments := by
  obtain ⟨q, replayed, rfl⟩ := run_of_interpret drawn
  rw [← List.take_append_drop k ms] at replayed
  obtain ⟨r, before, after⟩ := replay_append_eq replayed
  obtain ⟨_, new, _, added, _⟩ := replay_alike ⟨rfl, rfl⟩ after
  refine ⟨r, before, ?_⟩
  rw [added, List.reverse_append]
  exact List.prefix_append _ _

/-- What is drawn by the beginning of a sentence is the beginning of what is drawn, a segment for
each module that draws. -/
theorem Interpreter.interpret_beginning {i : Interpreter} {before after : List Module}
    {segments : List Segment} (drawn : i.interpret (before ++ after) = .ok segments) :
    i.interpret before = .ok (segments.take (i.drawers before).length) := by
  obtain ⟨q, passed, first⟩ := exists_run_take drawn before.length
  rw [List.take_left] at passed
  have begun : i.interpret before = .ok q.segments.reverse := by rw [interpret, passed]
  rw [← length_of_interpret begun, ← List.prefix_iff_eq_take.mp first]
  exact begun

theorem checkSize_ok {setting : Setting} {value : Float32} {u : Unit}
    (accepted : checkSize setting value = .ok u) : Number.IsSize value := by
  unfold checkSize at accepted
  split at accepted
  · next size => exact size
  · exact nomatch accepted

theorem Settings.sizes_of_validate {s : Settings} {u : Unit}
    (valid : s.validate = .ok u) : Number.IsSize s.stepLength ∧ Number.IsSize s.thickness := by
  unfold Settings.validate at valid
  obtain ⟨_, length, valid⟩ := exists_of_bind_eq_ok valid
  obtain ⟨_, thickness, _⟩ := exists_of_bind_eq_ok valid
  exact ⟨checkSize_ok length, checkSize_ok thickness⟩

theorem Interpreter.isSize_of_walkLength {i : Interpreter} {m : Module} {length : Float32}
    (step : Number.IsSize i.settings.stepLength) (walked : i.walkLength m = some length) :
    Number.IsSize length := by
  unfold walkLength at walked
  split at walked
  · exact Option.some.inj walked ▸ step
  · split at walked
    · next size => exact Option.some.inj walked ▸ size
    · exact nomatch walked

theorem Interpreter.replay_sizes {i : Interpreter} (step : Number.IsSize i.settings.stepLength)
    (thickness : Number.IsSize i.settings.thickness) {ms : List Module} {p q : Progress}
    (drawn : ∀ s ∈ p.segments, Number.IsSize s.length ∧ Number.IsSize s.thickness)
    (replayed : i.replay p ms = (q, none)) :
    ∀ s ∈ q.segments, Number.IsSize s.length ∧ Number.IsSize s.thickness := by
  induction ms generalizing p with
  | nil =>
      cases replayed
      exact drawn
  | cons m ms ih =>
      obtain ⟨r, stepped, replayed⟩ := replay_cons_eq replayed
      refine ih ?_ replayed
      rw [step_segments stepped]
      intro s member
      rcases List.mem_append.mp member with new | old
      · obtain ⟨_, performed, _⟩ := exists_of_step_eq_ok stepped
        unfold stroke at new
        split at new
        · next draws =>
            rw [draws] at performed
            obtain rfl := List.mem_singleton.mp new
            exact ⟨isSize_of_walkLength step (walk_eq_ok performed).1, thickness⟩
        · exact nomatch new
      · exact drawn s old

theorem Interpreter.sizes_of_interpret {i : Interpreter} {ms : List Module}
    {segments : List Segment} (step : Number.IsSize i.settings.stepLength)
    (thickness : Number.IsSize i.settings.thickness) (drawn : i.interpret ms = .ok segments) :
    ∀ s ∈ segments, Number.IsSize s.length ∧ Number.IsSize s.thickness := by
  obtain ⟨p, replayed, rfl⟩ := run_of_interpret drawn
  intro s member
  exact replay_sizes step thickness (List.forall_mem_nil _) replayed s (List.mem_reverse.mp member)

end Arbor.Turtle
