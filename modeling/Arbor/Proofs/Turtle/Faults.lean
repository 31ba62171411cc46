import Arbor.Proofs.Turtle.Depiction
import Arbor.Proofs.Turtle.Nesting

/-!
# The first module at fault

The depth of a place in a sentence is the number of groups that are open there; a close where none
is open changes nothing.  With the depth at hand one sees without a turtle what is wrong with a
module: `fault?` names it.  A turtle has as many cursors saved as the depth tells, so it is stopped
by the first module at fault, and by no other.
-/

set_option autoImplicit false

namespace Arbor

def InterpretError.index : InterpretError → Nat
  | .unbalancedBranch index => index
  | .stackOverflow index _ => index
  | .degenerateSegment index => index

namespace Turtle

/-! ## Depth -/

def Operation.depthAfter (depth : Nat) : Operation → Nat
  | .push => depth + 1
  | .pop => depth - 1
  | .draw | .move | .yaw _ | .pitch _ | .ignore => depth

namespace OperationTable

def depthFrom (t : OperationTable) (depth : Nat) (ms : List Module) : Nat :=
  ms.foldl (fun depth m => (t.get m.symbol).depthAfter depth) depth

def depth (t : OperationTable) (ms : List Module) : Nat := t.depthFrom 0 ms

theorem depthFrom_cons (t : OperationTable) (depth : Nat) (m : Module) (ms : List Module) :
    t.depthFrom depth (m :: ms) = t.depthFrom ((t.get m.symbol).depthAfter depth) ms := rfl

theorem depth_concat (t : OperationTable) (ms : List Module) (m : Module) :
    t.depth (ms ++ [m]) = (t.get m.symbol).depthAfter (t.depth ms) := by
  rw [depth, depthFrom, List.foldl_append]
  rfl

theorem depth_take_succ (t : OperationTable) {ms : List Module} {index : Nat} {m : Module}
    (found : ms[index]? = some m) :
    t.depth (ms.take (index + 1)) = (t.get m.symbol).depthAfter (t.depth (ms.take index)) := by
  rw [List.take_add_one, found, Option.toList_some, depth_concat]

end OperationTable

/-! ## Faults -/

/-- The first parameter of a module is no length that can be walked. -/
def Degenerate (m : Module) : Prop :=
  ∃ length, Interpreter.argument m = some length ∧ ¬ Number.IsSize length

instance (m : Module) : Decidable (Degenerate m) :=
  match given : Interpreter.argument m with
  | none => .isFalse (by rintro ⟨length, found, _⟩; rw [given] at found; exact nomatch found)
  | some length => decidable_of_iff (¬ Number.IsSize length) (by simp [Degenerate, given])

namespace Interpreter

/-- What is wrong with a module at an index, if so many groups are open there. -/
def fault? (i : Interpreter) (depth index : Nat) (m : Module) : Option InterpretError :=
  match i.table.get m.symbol with
  | .draw | .move => if Degenerate m then some (.degenerateSegment index) else none
  | .push =>
    if depth = i.settings.maxStackDepth.toNat then some (.stackOverflow index depth) else none
  | .pop =>
    if depth = 0 ∧ i.settings.underflow = .reject then some (.unbalancedBranch index) else none
  | .yaw _ | .pitch _ | .ignore => none

def faultAt? (i : Interpreter) (ms : List Module) (index : Nat) : Option InterpretError :=
  ms[index]?.bind (i.fault? (i.table.depth (ms.take index)) index)

theorem faultAt?_eq {i : Interpreter} {ms : List Module} {index : Nat} {m : Module}
    (found : ms[index]? = some m) :
    i.faultAt? ms index = i.fault? (i.table.depth (ms.take index)) index m := by
  rw [faultAt?, found, Option.bind_some]

/-! ## The turtle and the depth -/

theorem walkLength_eq_none_iff (i : Interpreter) (m : Module) :
    i.walkLength m = none ↔ Degenerate m := by
  unfold walkLength Degenerate
  cases argument m with
  | none => simp
  | some length => by_cases size : Number.IsSize length <;> simp [size]

theorem walk_error_iff (i : Interpreter) (p : Progress) (m : Module) (draws : Bool)
    (e : InterpretError) :
    i.walk p m draws = .error e ↔ Degenerate m ∧ e = .degenerateSegment p.index := by
  rw [← i.walkLength_eq_none_iff m, walk]
  cases i.walkLength m with
  | none => simp [eq_comm]
  | some length => simp

/-- A turtle that has not overflowed its stack is stopped by a module if and only if the module is
at fault. -/
theorem perform_error_iff {i : Interpreter} {p : Progress} {m : Module} (e : InterpretError)
    (fits : p.saved.length ≤ i.settings.maxStackDepth.toNat) :
    i.perform p m (i.table.get m.symbol) = .error e ↔
      i.fault? p.saved.length p.index m = some e := by
  unfold fault?
  cases i.table.get m.symbol with
  | draw => rw [perform, walk_error_iff]; simp [eq_comm]
  | move => rw [perform, walk_error_iff]; simp [eq_comm]
  | yaw sign => simp [perform]
  | pitch sign => simp [perform]
  | push =>
      by_cases full : p.saved.length = i.settings.maxStackDepth.toNat
      · simp [perform, full]
      · have room : ¬ i.settings.maxStackDepth.toNat ≤ p.saved.length := by omega
        simp [perform, full, room]
  | pop =>
      cases saved : p.saved <;> cases policy : i.settings.underflow <;>
        simp [perform, saved, policy]
  | ignore => simp [perform]

theorem step_error_iff {i : Interpreter} {p : Progress} {m : Module} (e : InterpretError)
    (fits : p.saved.length ≤ i.settings.maxStackDepth.toNat) :
    i.step p m = .error e ↔ i.fault? p.saved.length p.index m = some e := by
  rw [← perform_error_iff e fits, step]
  cases i.perform p m (i.table.get m.symbol) with
  | ok q => simp
  | error e' => rfl

theorem perform_depth {i : Interpreter} {p q : Progress} {m : Module} {op : Operation}
    (performed : i.perform p m op = .ok q) : q.saved.length = op.depthAfter p.saved.length := by
  cases op with
  | push => rw [perform_push performed]; rfl
  | pop =>
      cases saved : p.saved with
      | nil => rw [perform_stray saved performed, saved]; rfl
      | cons cursor saved' => rw [perform_pop saved performed]; rfl
  | draw => exact congrArg List.length (perform_plain performed nofun nofun).1
  | move => exact congrArg List.length (perform_plain performed nofun nofun).1
  | yaw sign => exact congrArg List.length (perform_plain performed nofun nofun).1
  | pitch sign => exact congrArg List.length (perform_plain performed nofun nofun).1
  | ignore => exact congrArg List.length (perform_plain performed nofun nofun).1

theorem step_depth {i : Interpreter} {p q : Progress} {m : Module} (stepped : i.step p m = .ok q)
    (fits : p.saved.length ≤ i.settings.maxStackDepth.toNat) :
    q.index = p.index + 1 ∧
      q.saved.length = (i.table.get m.symbol).depthAfter p.saved.length ∧
      q.saved.length ≤ i.settings.maxStackDepth.toNat := by
  obtain ⟨r, performed, rfl⟩ := exists_of_step_eq_ok stepped
  have depth := perform_depth performed
  refine ⟨congrArg (· + 1) (perform_index performed), depth, ?_⟩
  dsimp only
  rw [depth]
  cases op : i.table.get m.symbol with
  | push =>
      rw [op] at performed
      exact perform_push_fits performed
  | pop => exact (Nat.sub_le _ 1).trans fits
  | draw => exact fits
  | move => exact fits
  | yaw sign => exact fits
  | pitch sign => exact fits
  | ignore => exact fits

theorem replay_depth {i : Interpreter} {ms : List Module} {p q : Progress}
    (replayed : i.replay p ms = (q, none))
    (fits : p.saved.length ≤ i.settings.maxStackDepth.toNat) :
    q.index = p.index + ms.length ∧ q.saved.length = i.table.depthFrom p.saved.length ms ∧
      q.saved.length ≤ i.settings.maxStackDepth.toNat := by
  induction ms generalizing p with
  | nil =>
      cases replayed
      exact ⟨rfl, rfl, fits⟩
  | cons m ms ih =>
      obtain ⟨r, stepped, replayed⟩ := replay_cons_eq replayed
      obtain ⟨index, saved, fits'⟩ := step_depth stepped fits
      obtain ⟨index', saved', fits''⟩ := ih replayed fits'
      refine ⟨?_, ?_, fits''⟩
      · rw [index', index, List.length_cons]
        omega
      · rw [saved', saved, OperationTable.depthFrom_cons]

theorem run_depth {i : Interpreter} {ms : List Module} {q : Progress}
    (passed : i.run ms = (q, none)) :
    q.index = ms.length ∧ q.saved.length = i.table.depth ms ∧
      q.saved.length ≤ i.settings.maxStackDepth.toNat := by
  obtain ⟨index, saved, fits⟩ := replay_depth passed (Nat.zero_le _)
  exact ⟨index.trans (Nat.zero_add _), saved, fits⟩

/-! ## Runs -/

theorem faultAt?_of_passed {i : Interpreter} {ms : List Module} {q : Progress}
    (passed : i.run ms = (q, none)) (index : Nat) : i.faultAt? ms index = none := by
  cases found : ms[index]? with
  | none => rw [faultAt?, found, Option.bind_none]
  | some m =>
      obtain ⟨inside, here⟩ := List.getElem?_eq_some_iff.mp found
      have split : ms.take index ++ m :: ms.drop (index + 1) = ms := by
        rw [← here, List.getElem_cons_drop, List.take_append_drop]
      rw [← split] at passed
      obtain ⟨r, before, passed⟩ := replay_append_eq passed
      obtain ⟨r', stepped, _⟩ := replay_cons_eq passed
      obtain ⟨index_eq, saved, fits⟩ := run_depth before
      rw [List.length_take, Nat.min_eq_left (Nat.le_of_lt inside)] at index_eq
      rw [faultAt?_eq found, ← saved, ← index_eq, Option.eq_none_iff_forall_ne_some]
      intro e fault
      exact nomatch stepped.symm.trans ((step_error_iff e fits).mpr fault)

theorem faultAt?_of_stopped {i : Interpreter} {ms : List Module} {q : Progress}
    {e : InterpretError} (stopped : i.run ms = (q, some e)) :
    q.index < ms.length ∧ i.faultAt? ms q.index = some e ∧
      ∀ earlier < q.index, i.faultAt? ms earlier = none := by
  obtain ⟨before, m, after, rfl, passed, failed⟩ := replay_error stopped
  obtain ⟨index, saved, fits⟩ := run_depth passed
  have fault := (step_error_iff e fits).mp failed
  refine ⟨by rw [index, List.length_append, List.length_cons]; omega, ?_, ?_⟩
  · have found : (before ++ m :: after)[q.index]? = some m := by rw [index]; simp
    rw [faultAt?_eq found, index, List.take_left, ← saved, ← index]
    exact fault
  · intro earlier small
    have clear := faultAt?_of_passed passed earlier
    -- The modules before the stop are met at the same depth with or without those after it.
    rw [index] at small
    rw [faultAt?, List.getElem?_append_left small,
      List.take_append_of_le_length (Nat.le_of_lt small)]
    exact clear

theorem exists_interpret_iff (i : Interpreter) (ms : List Module) :
    (∃ segments, i.interpret ms = .ok segments) ↔ ∃ q, i.run ms = (q, none) := by
  unfold interpret
  cases i.run ms with
  | mk q refusal => cases refusal <;> simp

theorem interpret_error_iff (i : Interpreter) (ms : List Module) (e : InterpretError) :
    i.interpret ms = .error e ↔ ∃ q, i.run ms = (q, some e) := by
  unfold interpret
  cases i.run ms with
  | mk q refusal => cases refusal <;> simp

theorem passes_iff (i : Interpreter) (ms : List Module) :
    (∃ q, i.run ms = (q, none)) ↔ ∀ index, i.faultAt? ms index = none := by
  constructor
  · rintro ⟨q, passed⟩
    exact faultAt?_of_passed passed
  · intro clear
    cases ran : i.run ms with
    | mk q refusal =>
        cases refusal with
        | none => exact ⟨q, rfl⟩
        | some e => exact nomatch (clear q.index).symm.trans (faultAt?_of_stopped ran).2.1

theorem stops_iff (i : Interpreter) (ms : List Module) (e : InterpretError) :
    (∃ q, i.run ms = (q, some e)) ↔
      ∃ index, i.faultAt? ms index = some e ∧ ∀ earlier < index, i.faultAt? ms earlier = none := by
  constructor
  · rintro ⟨q, stopped⟩
    exact ⟨q.index, (faultAt?_of_stopped stopped).2⟩
  · rintro ⟨index, fault, first⟩
    cases ran : i.run ms with
    | mk q refusal =>
        cases refusal with
        | none => exact nomatch (faultAt?_of_passed ran index).symm.trans fault
        | some e' =>
            -- Of two first faults neither comes before the other.
            obtain ⟨_, fault', first'⟩ := faultAt?_of_stopped ran
            rcases Nat.lt_trichotomy q.index index with before | same | behind
            · exact nomatch (first q.index before).symm.trans fault'
            · rw [same, fault] at fault'
              obtain rfl := Option.some.inj fault'
              exact ⟨q, rfl⟩
            · exact nomatch (first' index behind).symm.trans fault

/-! ## Deeper stacks -/

/-- The interpreter with room for another number of cursors. -/
def deepened (i : Interpreter) (depth : UInt64) : Interpreter :=
  { i with settings := { i.settings with maxStackDepth := depth } }

section Deeper
variable {i : Interpreter} {depth : UInt64} (deeper : i.settings.maxStackDepth ≤ depth)
include deeper

theorem step_deepened {p q : Progress} {m : Module} (stepped : i.step p m = .ok q) :
    (i.deepened depth).step p m = .ok q := by
  obtain ⟨r, performed, rfl⟩ := exists_of_step_eq_ok stepped
  have same : (i.deepened depth).perform p m (i.table.get m.symbol) = .ok r := by
    cases op : i.table.get m.symbol with
    | push =>
        rw [op] at performed
        have fits := perform_push_fits performed
        have room : ¬ depth.toNat ≤ p.saved.length := by
          have := UInt64.le_iff_toNat_le.mp deeper
          omega
        rw [perform_push performed]
        exact if_neg room
    | draw => rw [op] at performed; exact performed
    | move => rw [op] at performed; exact performed
    | yaw sign => rw [op] at performed; exact performed
    | pitch sign => rw [op] at performed; exact performed
    | pop => rw [op] at performed; exact performed
    | ignore => rw [op] at performed; exact performed
  rw [step, show (i.deepened depth).table = i.table from rfl, same]
  rfl

theorem replay_deepened {ms : List Module} {p q : Progress}
    (replayed : i.replay p ms = (q, none)) : (i.deepened depth).replay p ms = (q, none) := by
  induction ms generalizing p with
  | nil => exact replayed
  | cons m ms ih =>
      obtain ⟨r, stepped, replayed⟩ := replay_cons_eq replayed
      rw [replay, step_deepened deeper stepped]
      exact ih replayed

end Deeper

/-! ## Nesting and room -/

/-- Where nothing but the stack can fail, what counts is that no place is deeper than the stack. -/
theorem passes_iff_depth_le {i : Interpreter} {ms : List Module}
    (walkable : ∀ m ∈ ms, i.table.get m.symbol = .draw ∨ i.table.get m.symbol = .move →
      ¬ Degenerate m)
    (matched : i.settings.underflow = .reject → ∀ index m, ms[index]? = some m →
      i.table.get m.symbol = .pop → i.table.depth (ms.take index) ≠ 0) :
    (∃ q, i.run ms = (q, none)) ↔
      ∀ index, i.table.depth (ms.take index) ≤ i.settings.maxStackDepth.toNat := by
  constructor
  · rintro ⟨q, passed⟩ index
    rw [← List.take_append_drop index ms] at passed
    obtain ⟨r, before, _⟩ := replay_append_eq passed
    obtain ⟨_, saved, fits⟩ := run_depth before
    exact saved ▸ fits
  · intro room
    rw [passes_iff]
    intro index
    cases found : ms[index]? with
    | none => rw [faultAt?, found, Option.bind_none]
    | some m =>
        have member := List.mem_of_getElem? found
        have behind := i.table.depth_take_succ found
        have after := room (index + 1)
        rw [faultAt?_eq found, fault?]
        cases op : i.table.get m.symbol with
        | draw => exact if_neg (walkable m member (Or.inl op))
        | move => exact if_neg (walkable m member (Or.inr op))
        | yaw sign => rfl
        | pitch sign => rfl
        | push =>
            rw [op, Operation.depthAfter] at behind
            exact if_neg (by omega)
        | pop => exact if_neg fun ⟨empty, reject⟩ => matched reject index m found op empty
        | ignore => rfl

end Interpreter

/-- What decides whether a sentence can be drawn, and why it cannot. -/
structure Verdict (i : Interpreter) (ms : List Module) : Prop where
  drawn_iff : (∃ segments, i.interpret ms = .ok segments) ↔
    ∀ index, i.faultAt? ms index = none
  error_iff : ∀ e, i.interpret ms = .error e ↔
    ∃ index, i.faultAt? ms index = some e ∧ ∀ earlier < index, i.faultAt? ms earlier = none
  /-- Only walks and brackets are ever at fault. -/
  blames : ∀ e, i.interpret ms = .error e → ∃ m, ms[e.index]? = some m ∧
    (i.table.get m.symbol = .draw ∨ i.table.get m.symbol = .move ∨
      i.table.get m.symbol = .push ∨ i.table.get m.symbol = .pop)
  deeper : ∀ (depth : UInt64) (segments : List Segment), i.settings.maxStackDepth ≤ depth →
    i.interpret ms = .ok segments → (i.deepened depth).interpret ms = .ok segments
  fits_iff :
    (∀ m ∈ ms, i.table.get m.symbol = .draw ∨ i.table.get m.symbol = .move → ¬ Degenerate m) →
    (i.settings.underflow = .reject → ∀ index m, ms[index]? = some m →
      i.table.get m.symbol = .pop → i.table.depth (ms.take index) ≠ 0) →
    ((∃ segments, i.interpret ms = .ok segments) ↔
      ∀ index, i.table.depth (ms.take index) ≤ i.settings.maxStackDepth.toNat)

namespace Interpreter

theorem fault?_blames {i : Interpreter} {depth index : Nat} {m : Module} {e : InterpretError}
    (fault : i.fault? depth index m = some e) : e.index = index ∧
      (i.table.get m.symbol = .draw ∨ i.table.get m.symbol = .move ∨
        i.table.get m.symbol = .push ∨ i.table.get m.symbol = .pop) := by
  unfold fault? at fault
  cases op : i.table.get m.symbol with
  | draw =>
      rw [op] at fault
      obtain ⟨_, ⟨⟩⟩ := Option.ite_none_right_eq_some.mp fault
      exact ⟨rfl, Or.inl rfl⟩
  | move =>
      rw [op] at fault
      obtain ⟨_, ⟨⟩⟩ := Option.ite_none_right_eq_some.mp fault
      exact ⟨rfl, Or.inr (Or.inl rfl)⟩
  | yaw sign => rw [op] at fault; exact nomatch fault
  | pitch sign => rw [op] at fault; exact nomatch fault
  | push =>
      rw [op] at fault
      obtain ⟨_, ⟨⟩⟩ := Option.ite_none_right_eq_some.mp fault
      exact ⟨rfl, Or.inr (Or.inr (Or.inl rfl))⟩
  | pop =>
      rw [op] at fault
      obtain ⟨_, ⟨⟩⟩ := Option.ite_none_right_eq_some.mp fault
      exact ⟨rfl, Or.inr (Or.inr (Or.inr rfl))⟩
  | ignore => rw [op] at fault; exact nomatch fault

/-- A sentence is drawn when no module of it is at fault, and otherwise the first module at fault
tells why it is not. -/
theorem interpret_verdict (i : Interpreter) (ms : List Module) : Verdict i ms where
  drawn_iff := by rw [exists_interpret_iff, passes_iff]
  error_iff := by
    intro e
    rw [interpret_error_iff, stops_iff]
  blames := by
    intro e failed
    rw [interpret_error_iff, stops_iff] at failed
    obtain ⟨index, fault, _⟩ := failed
    obtain ⟨m, found, fault⟩ := Option.bind_eq_some_iff.mp fault
    obtain ⟨rfl, blamed⟩ := fault?_blames fault
    exact ⟨m, found, blamed⟩
  deeper := by
    intro depth segments deeper drawn
    obtain ⟨q, replayed, rfl⟩ := run_of_interpret drawn
    have same : (i.deepened depth).run ms = (q, none) := replay_deepened deeper replayed
    rw [interpret, same]
  fits_iff := by
    intro walkable matched
    rw [exists_interpret_iff, passes_iff_depth_le walkable matched]

/-- A sentence that nests too deep, and then has a walk of no length and a close too many. -/
theorem interpret_verdict_overflow :
    let i : Interpreter := ⟨{ Settings.standard with maxStackDepth := 2 },
      .standard ⟨#["F", "+", "[", "]"]⟩⟩
    let ms : List Module := [⟨2, []⟩, ⟨1, [0]⟩, ⟨2, []⟩, ⟨2, []⟩, ⟨0, [-1]⟩, ⟨3, []⟩, ⟨3, []⟩,
      ⟨3, []⟩, ⟨3, []⟩]
    Verdict i ms ∧ i.interpret ms = .error (.stackOverflow 3 2) ∧
      i.faultAt? ms 4 = some (.degenerateSegment 4) ∧
      i.faultAt? ms 8 = some (.unbalancedBranch 8) ∧
      (i.deepened 3).interpret ms = .error (.degenerateSegment 4) := by
  intro i ms
  exact ⟨interpret_verdict i ms, by decide +kernel, by decide +kernel, by decide +kernel,
    by decide +kernel⟩

end Interpreter

end Turtle

end Arbor
