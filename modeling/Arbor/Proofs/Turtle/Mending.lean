import Arbor.Proofs.Turtle.Faults

/-!
# Sentences without their stray closes

A close is stray where no group is open.  A turtle that ignores stray closes draws a sentence as a
turtle that refuses them draws it without them.  `Progress.mended` takes the first turtle to the
second one: it forgets the closes that were skipped and moves the index back by their number.  Every
step but that over a stray close takes mended turtles to mended turtles; that one leaves the mended
turtle where it is.
-/

set_option autoImplicit false

namespace Arbor

def InterpretError.moved (index : Nat) : InterpretError → InterpretError
  | .unbalancedBranch _ => .unbalancedBranch index
  | .stackOverflow _ depth => .stackOverflow index depth
  | .degenerateSegment _ => .degenerateSegment index

namespace Turtle

/-! ## Stray closes -/

namespace OperationTable

/-- The module at an index closes a group where none is open. -/
def IsStray (t : OperationTable) (ms : List Module) (index : Nat) : Prop :=
  (ms[index]?.map fun m => t.get m.symbol) = some .pop ∧ t.depth (ms.take index) = 0

instance (t : OperationTable) (ms : List Module) : DecidablePred (t.IsStray ms) := fun index =>
  inferInstanceAs
    (Decidable ((ms[index]?.map fun m => t.get m.symbol) = some .pop ∧ t.depth (ms.take index) = 0))

/-- The indices of stray closes. -/
def strays (t : OperationTable) (ms : List Module) : List Nat :=
  (List.range ms.length).filter (t.IsStray ms)

def straysBefore (t : OperationTable) (ms : List Module) (index : Nat) : Nat :=
  (t.strays ms).countP (· < index)

/-- The modules that are no stray closes. -/
def mended (t : OperationTable) (ms : List Module) : List Module :=
  (ms.zipIdx.filter fun (_, index) => ¬ t.IsStray ms index).map Prod.fst

section Concat
variable (t : OperationTable) (ms : List Module) (m : Module)

theorem isStray_concat_of_lt {index : Nat} (inside : index < ms.length) :
    t.IsStray (ms ++ [m]) index ↔ t.IsStray ms index := by
  rw [IsStray, IsStray, List.getElem?_append_left inside,
    List.take_append_of_le_length (Nat.le_of_lt inside)]

theorem isStray_concat_length :
    t.IsStray (ms ++ [m]) ms.length ↔ t.get m.symbol = .pop ∧ t.depth ms = 0 := by
  simp [IsStray]

theorem strays_concat : t.strays (ms ++ [m]) =
    t.strays ms ++ if t.get m.symbol = .pop ∧ t.depth ms = 0 then [ms.length] else [] := by
  have older : (List.range ms.length).filter (t.IsStray (ms ++ [m])) = t.strays ms := by
    apply List.filter_congr
    intro index small
    rw [decide_eq_decide]
    exact t.isStray_concat_of_lt ms m (List.mem_range.mp small)
  rw [strays, List.length_append, List.length_singleton, List.range_succ, List.filter_append, older]
  simp only [List.filter_cons, List.filter_nil, decide_eq_true_eq, isStray_concat_length]

theorem mended_concat : t.mended (ms ++ [m]) =
    t.mended ms ++ if t.get m.symbol = .pop ∧ t.depth ms = 0 then [] else [m] := by
  have older : ms.zipIdx.filter (fun (_, index) => ¬ t.IsStray (ms ++ [m]) index) =
      ms.zipIdx.filter fun (_, index) => ¬ t.IsStray ms index := by
    apply List.filter_congr
    rintro ⟨other, index⟩ listed
    have inside := List.snd_lt_of_mem_zipIdx listed
    rw [decide_eq_decide, t.isStray_concat_of_lt ms m inside]
  rw [mended, List.zipIdx_append, List.filter_append, older, List.map_append, mended]
  by_cases stray : t.get m.symbol = .pop ∧ t.depth ms = 0
  · have skipped := (t.isStray_concat_length ms m).mpr stray
    simp [stray, skipped]
  · have kept := mt (t.isStray_concat_length ms m).mp stray
    simp [stray, kept]

end Concat

theorem mem_strays (t : OperationTable) (ms : List Module) (index : Nat) :
    index ∈ t.strays ms ↔ t.IsStray ms index := by
  rw [strays, List.mem_filter, List.mem_range, decide_eq_true_eq, and_iff_right_iff_imp]
  intro stray
  obtain ⟨m, found, _⟩ := Option.map_eq_some_iff.mp stray.1
  exact (List.getElem?_eq_some_iff.mp found).1

theorem strays_increasing (t : OperationTable) (ms : List Module) :
    (t.strays ms).Pairwise (· < ·) :=
  (List.pairwise_lt_range (n := ms.length)).filter _

theorem mended_of_strays_eq_nil {t : OperationTable} {ms : List Module} (none : t.strays ms = []) :
    t.mended ms = ms := by
  have kept : ∀ p ∈ ms.zipIdx, (decide ¬ t.IsStray ms p.2) = true := by
    intro p _
    rw [decide_eq_true_eq, ← mem_strays, none]
    exact List.not_mem_nil
  rw [mended, List.filter_eq_self.mpr kept, List.zipIdx_map_fst]

theorem lt_of_mem_strays {t : OperationTable} {ms : List Module} {index : Nat}
    (listed : index ∈ t.strays ms) : index < ms.length :=
  List.mem_range.mp (List.mem_filter.mp listed).1

theorem filter_strays (t : OperationTable) {ms : List Module} {bound : Nat}
    (le : ms.length ≤ bound) : (t.strays ms).filter (· < bound) = t.strays ms := by
  rw [List.filter_eq_self]
  intro index listed
  exact decide_eq_true (Nat.lt_of_lt_of_le (lt_of_mem_strays listed) le)

theorem straysBefore_length (t : OperationTable) (ms : List Module) :
    t.straysBefore ms ms.length = (t.strays ms).length := by
  rw [straysBefore, List.countP_eq_length]
  intro index listed
  exact decide_eq_true (lt_of_mem_strays listed)

theorem straysBefore_concat (t : OperationTable) (ms : List Module) (m : Module) {index : Nat}
    (le : index ≤ ms.length) : t.straysBefore (ms ++ [m]) index = t.straysBefore ms index := by
  rw [straysBefore, strays_concat, List.countP_append, straysBefore]
  split
  · rw [List.countP_singleton, if_neg (by simpa using le)]
    rfl
  · rfl

theorem length_mended (t : OperationTable) (ms : List Module) :
    (t.mended ms).length = ms.length - t.straysBefore ms ms.length := by
  induction ms using List.reverseRecOn with
  | nil => rfl
  | append_singleton ms m ih =>
      have few : (t.strays ms).length ≤ ms.length :=
        (List.length_filter_le _ _).trans_eq List.length_range
      rw [straysBefore_length] at ih ⊢
      rw [mended_concat, strays_concat, List.length_append, List.length_append, List.length_append,
        List.length_singleton, ih]
      split
      · rw [List.length_nil, List.length_singleton]
        omega
      · rw [List.length_nil, List.length_singleton]
        omega

/-- What is no stray close is found again, as many places further ahead as stray closes precede
it. -/
theorem getElem?_mended {t : OperationTable} {ms : List Module} {index : Nat}
    (inside : index < ms.length) (kept : ¬ t.IsStray ms index) :
    (t.mended ms)[index - t.straysBefore ms index]? = ms[index]? := by
  induction ms using List.reverseRecOn with
  | nil => exact nomatch inside
  | append_singleton ms m ih =>
      rw [List.length_append, List.length_singleton, Nat.lt_succ_iff_lt_or_eq] at inside
      rcases inside with earlier | rfl
      · have before := ih earlier (mt (t.isStray_concat_of_lt ms m earlier).mpr kept)
        rw [List.getElem?_eq_getElem earlier] at before
        obtain ⟨small, _⟩ := List.getElem?_eq_some_iff.mp before
        rw [t.straysBefore_concat ms m (Nat.le_of_lt earlier), mended_concat,
          List.getElem?_append_left small, before, List.getElem?_append_left earlier,
          List.getElem?_eq_getElem earlier]
      · rw [t.straysBefore_concat ms m (Nat.le_refl _), mended_concat,
          if_neg (mt (t.isStray_concat_length ms m).mpr kept), ← length_mended]
        simp

end OperationTable

/-! ## The two turtles -/

/-- Where the turtle would be if the stray closes had not been there. -/
def Progress.mended (p : Progress) : Progress :=
  { p with index := p.index - p.strayCloses.length, strayCloses := [] }

namespace Interpreter

def withPolicy (i : Interpreter) (policy : UnderflowPolicy) : Interpreter :=
  { i with settings := { i.settings with underflow := policy } }

theorem walk_mended (i : Interpreter) (p : Progress) (m : Module) (draws : Bool) :
    (i.withPolicy .reject).walk p.mended m draws =
      match (i.withPolicy .ignore).walk p m draws with
      | .ok q => .ok q.mended
      | .error e => .error (e.moved p.mended.index) := by
  have same : (i.withPolicy .reject).walkLength m = (i.withPolicy .ignore).walkLength m := rfl
  unfold walk
  rw [same]
  cases (i.withPolicy .ignore).walkLength m <;> rfl

theorem perform_mended (i : Interpreter) {p : Progress} (m : Module) {op : Operation}
    (kept : ¬ (op = .pop ∧ p.saved = [])) :
    (i.withPolicy .reject).perform p.mended m op =
      match (i.withPolicy .ignore).perform p m op with
      | .ok q => .ok q.mended
      | .error e => .error (e.moved p.mended.index) := by
  cases op with
  | draw => exact i.walk_mended p m true
  | move => exact i.walk_mended p m false
  | yaw sign => rfl
  | pitch sign => rfl
  | push =>
      by_cases full : i.settings.maxStackDepth.toNat ≤ p.saved.length <;>
        simp [perform, withPolicy, Progress.mended, full, InterpretError.moved]
  | pop =>
      cases saved : p.saved with
      | nil => exact absurd ⟨rfl, saved⟩ kept
      | cons cursor saved' => simp [perform, withPolicy, Progress.mended, saved]
  | ignore => rfl

theorem perform_strayCloses {i : Interpreter} {p q : Progress} {m : Module} {op : Operation}
    (kept : ¬ (op = .pop ∧ p.saved = [])) (performed : i.perform p m op = .ok q) :
    q.strayCloses = p.strayCloses := by
  have walked : ∀ draws, i.walk p m draws = .ok q → q.strayCloses = p.strayCloses := by
    intro draws walked
    unfold walk at walked
    split at walked
    · exact nomatch walked
    · cases walked
      rfl
  cases op with
  | draw => exact walked true performed
  | move => exact walked false performed
  | yaw sign => cases performed; rfl
  | pitch sign => cases performed; rfl
  | push => rw [perform_push performed]
  | pop =>
      cases saved : p.saved with
      | nil => exact absurd ⟨rfl, saved⟩ kept
      | cons cursor saved' => rw [perform_pop saved performed]
  | ignore => cases performed; rfl

section Steps
variable (i : Interpreter) {p : Progress} {m : Module}

/-- A step over anything but a stray close takes mended turtles to mended turtles. -/
theorem step_mended (kept : ¬ (i.table.get m.symbol = .pop ∧ p.saved = []))
    (few : p.strayCloses.length ≤ p.index) :
    (i.withPolicy .reject).step p.mended m =
      match (i.withPolicy .ignore).step p m with
      | .ok q => .ok q.mended
      | .error e => .error (e.moved p.mended.index) := by
  have performed := i.perform_mended m kept
  unfold step
  rw [show (i.withPolicy .reject).table = i.table from rfl,
    show (i.withPolicy .ignore).table = i.table from rfl, performed]
  cases lenient : (i.withPolicy .ignore).perform p m (i.table.get m.symbol) with
  | error e => rfl
  | ok q =>
      have index := perform_index lenient
      have strays := perform_strayCloses kept lenient
      have moved : q.mended.index + 1 = q.index + 1 - q.strayCloses.length := by
        rw [Progress.mended, index, strays]
        dsimp only
        omega
      change Except.ok { q.mended with index := q.mended.index + 1 } = _
      rw [moved]
      rfl

theorem step_kept {q : Progress}
    (kept : ¬ (i.table.get m.symbol = .pop ∧ p.saved = [])) (stepped : i.step p m = .ok q) :
    q.index = p.index + 1 ∧ q.strayCloses = p.strayCloses := by
  obtain ⟨r, performed, rfl⟩ := exists_of_step_eq_ok stepped
  have strayCloses := perform_strayCloses kept performed
  exact ⟨congrArg (· + 1) (perform_index performed), strayCloses⟩

theorem step_stray (closes : i.table.get m.symbol = .pop) (empty : p.saved = []) :
    ∃ q, (i.withPolicy .ignore).step p m = .ok q ∧ q.mended = p.mended ∧
      q.index = p.index + 1 ∧ q.strayCloses = p.index :: p.strayCloses := by
  refine ⟨{ p with index := p.index + 1, strayCloses := p.index :: p.strayCloses },
    ?_, ?_, rfl, rfl⟩
  · unfold step
    rw [show (i.withPolicy .ignore).table = i.table from rfl, closes]
    simp [perform, withPolicy, empty]
  · simp [Progress.mended]

end Steps

theorem run_append_stopped {i : Interpreter} {ms : List Module} {q : Progress} {e : InterpretError}
    (stopped : i.run ms = (q, some e)) (ns : List Module) : i.run (ms ++ ns) = (q, some e) := by
  rw [run, replay_append, ← run, stopped]

theorem run_concat_passed {i : Interpreter} {ms : List Module} {q : Progress}
    (passed : i.run ms = (q, none)) (m : Module) :
    i.run (ms ++ [m]) = match i.step q m with
      | .ok r => (r, none)
      | .error e => (q, some e) := by
  rw [run, replay_append, ← run, passed]
  rfl

/-- The two turtles on a sentence and on what is left of it. -/
structure RunMended (i : Interpreter) (ms : List Module) (q : Progress)
    (refusal : Option InterpretError) : Prop where
  run_eq : (i.withPolicy .reject).run (i.table.mended ms) =
    (q.mended, refusal.map (InterpretError.moved q.mended.index))
  strayCloses_eq : q.strayCloses.reverse = (i.table.strays ms).filter (· < q.index)

section Concat
variable {i : Interpreter} {ms : List Module} {p q : Progress} {m : Module}

theorem RunMended.stopped {e : InterpretError} (mended : RunMended i ms q (some e))
    (stopped : (i.withPolicy .ignore).run ms = (q, some e)) :
    RunMended i (ms ++ [m]) q (some e) := by
  obtain ⟨run_eq, strays_eq⟩ := mended
  obtain ⟨inside, _⟩ := faultAt?_of_stopped stopped
  constructor
  · rw [OperationTable.mended_concat, run_append_stopped run_eq]
    rfl
  · rw [strays_eq, OperationTable.strays_concat, List.filter_append]
    split
    · have behind : ¬ ms.length < q.index := Nat.not_lt.mpr (Nat.le_of_lt inside)
      simp [behind]
    · exact (List.append_nil _).symm

section Passed
variable (mended : RunMended i ms p none) (passed : (i.withPolicy .ignore).run ms = (p, none))
include mended passed

omit mended in
theorem stray_iff : i.table.get m.symbol = .pop ∧ i.table.depth ms = 0 ↔
    i.table.get m.symbol = .pop ∧ p.saved = [] := by
  obtain ⟨_, saved, _⟩ := run_depth passed
  rw [show (i.withPolicy .ignore).table = i.table from rfl] at saved
  rw [← saved, List.length_eq_zero_iff]

theorem RunMended.strayCloses_all : p.strayCloses.reverse = i.table.strays ms := by
  obtain ⟨index, _⟩ := run_depth passed
  rw [mended.strayCloses_eq, i.table.filter_strays (Nat.le_of_eq index.symm)]

theorem RunMended.stray (stray : i.table.get m.symbol = .pop ∧ p.saved = [])
    (mended_eq : q.mended = p.mended) (index : q.index = p.index + 1)
    (strayCloses : q.strayCloses = p.index :: p.strayCloses) : RunMended i (ms ++ [m]) q none := by
  have listed := (stray_iff passed).mpr stray
  obtain ⟨index', _⟩ := run_depth passed
  constructor
  · rw [OperationTable.mended_concat, if_pos listed, List.append_nil, mended.run_eq, mended_eq]
  · have le : (ms ++ [m]).length ≤ q.index := by
      rw [index, index', List.length_append, List.length_singleton]
    rw [i.table.filter_strays le, OperationTable.strays_concat, if_pos listed, strayCloses,
      List.reverse_cons, mended.strayCloses_all passed, index']

theorem RunMended.run_kept (kept : ¬ (i.table.get m.symbol = .pop ∧ p.saved = [])) :
    i.table.strays (ms ++ [m]) = i.table.strays ms ∧
      (i.withPolicy .reject).run (i.table.mended (ms ++ [m])) =
        match (i.withPolicy .ignore).step p m with
        | .ok r => (r.mended, none)
        | .error e => (p.mended, some (e.moved p.mended.index)) := by
  have unlisted := mt (stray_iff passed).mp kept
  have few : p.strayCloses.length ≤ p.index := by
    obtain ⟨index, _⟩ := run_depth passed
    rw [← List.length_reverse, mended.strayCloses_all passed, index]
    exact (List.length_filter_le _ _).trans_eq List.length_range
  constructor
  · rw [OperationTable.strays_concat, if_neg unlisted, List.append_nil]
  · rw [OperationTable.mended_concat, if_neg unlisted, run_concat_passed mended.run_eq,
      i.step_mended kept few]
    cases (i.withPolicy .ignore).step p m <;> rfl

end Passed

end Concat

theorem run_mended (i : Interpreter) (ms : List Module) {q : Progress}
    {refusal : Option InterpretError} (ran : (i.withPolicy .ignore).run ms = (q, refusal)) :
    RunMended i ms q refusal := by
  induction ms using List.reverseRecOn generalizing q refusal with
  | nil =>
      cases ran
      exact ⟨rfl, rfl⟩
  | append_singleton ms m ih =>
      cases before : (i.withPolicy .ignore).run ms with
      | mk p stop =>
          have mended := ih before
          cases stop with
          | some e =>
              rw [run_append_stopped before] at ran
              cases ran
              exact mended.stopped before
          | none =>
              rw [run_concat_passed before] at ran
              by_cases stray : i.table.get m.symbol = .pop ∧ p.saved = []
              · obtain ⟨r, stepped, mended_eq, index, strayCloses⟩ := i.step_stray stray.1 stray.2
                rw [stepped] at ran
                cases ran
                exact mended.stray before stray mended_eq index strayCloses
              · obtain ⟨strays, strict⟩ := mended.run_kept before stray
                obtain ⟨index, _⟩ := run_depth before
                cases stepped : (i.withPolicy .ignore).step p m with
                | error e =>
                    rw [stepped] at ran strict
                    cases ran
                    exact ⟨strict, by rw [strays]; exact mended.strayCloses_eq⟩
                | ok r =>
                    rw [stepped] at ran strict
                    cases ran
                    obtain ⟨index', strayCloses⟩ := step_kept (i.withPolicy .ignore) stray stepped
                    have le : ms.length ≤ q.index := by omega
                    refine ⟨strict, ?_⟩
                    rw [strays, strayCloses, mended.strayCloses_all before,
                      i.table.filter_strays le]

end Interpreter

/-! ## The two drawings -/

/-- How the drawings of a turtle that ignores stray closes follow from those of one that refuses
them. -/
structure Mending (i : Interpreter) (ms : List Module) : Prop where
  /-- Both draw the same segments, or are stopped for the same reason by the same module, which
  stands further ahead where the stray closes before it are left out. -/
  interpret_eq : (i.withPolicy .reject).interpret (i.table.mended ms) =
    ((i.withPolicy .ignore).interpret ms).mapError fun e =>
      e.moved (e.index - i.table.straysBefore ms e.index)
  corresponds : ∀ index < ms.length, ¬ i.table.IsStray ms index →
    (i.table.mended ms)[index - i.table.straysBefore ms index]? = ms[index]?
  never_unbalanced : ∀ index, (i.withPolicy .ignore).interpret ms ≠ .error (.unbalancedBranch index)
  /-- Each stray close is reported, if the turtle comes so far. -/
  reports : (i.withPolicy .ignore).strayCloses ms =
    match (i.withPolicy .ignore).interpret ms with
    | .ok _ => i.table.strays ms
    | .error e => (i.table.strays ms).filter (· < e.index)
  increasing : (i.table.strays ms).Pairwise (· < ·)
  strays_iff : ∀ index, index ∈ i.table.strays ms ↔ i.table.IsStray ms index
  agrees : ∀ segments, (i.withPolicy .reject).interpret ms = .ok segments →
    (i.withPolicy .ignore).interpret ms = .ok segments ∧ (i.withPolicy .ignore).strayCloses ms = []

namespace Interpreter

theorem index_of_stopped {i : Interpreter} {ms : List Module} {q : Progress} {e : InterpretError}
    (stopped : i.run ms = (q, some e)) : e.index = q.index := by
  obtain ⟨_, fault, _⟩ := faultAt?_of_stopped stopped
  obtain ⟨m, _, fault⟩ := Option.bind_eq_some_iff.mp fault
  exact (fault?_blames fault).1

theorem reject_of_unbalanced {i : Interpreter} {depth index place : Nat} {m : Module}
    (fault : i.fault? depth index m = some (.unbalancedBranch place)) :
    i.settings.underflow = .reject := by
  unfold fault? at fault
  split at fault
  · exact nomatch (Option.ite_none_right_eq_some.mp fault).2
  · exact nomatch (Option.ite_none_right_eq_some.mp fault).2
  · exact nomatch (Option.ite_none_right_eq_some.mp fault).2
  · exact (Option.ite_none_right_eq_some.mp fault).1.2
  · exact nomatch fault
  · exact nomatch fault
  · exact nomatch fault

theorem fault?_stray {i : Interpreter} {ms : List Module} {index : Nat}
    (stray : i.table.IsStray ms index) :
    (i.withPolicy .reject).faultAt? ms index = some (.unbalancedBranch index) := by
  obtain ⟨closes, depth⟩ := stray
  obtain ⟨m, found, op⟩ := Option.map_eq_some_iff.mp closes
  rw [faultAt?_eq found, fault?, show (i.withPolicy .reject).table = i.table from rfl, op, depth]
  rfl

theorem strays_eq_nil_of_passed {i : Interpreter} {ms : List Module} {q : Progress}
    (passed : (i.withPolicy .reject).run ms = (q, none)) : i.table.strays ms = [] := by
  rw [List.eq_nil_iff_forall_not_mem]
  intro index listed
  have fault := fault?_stray ((i.table.mem_strays ms index).mp listed)
  exact nomatch fault.symm.trans (faultAt?_of_passed passed index)

theorem interpret_mended (i : Interpreter) (ms : List Module) :
    (i.withPolicy .reject).interpret (i.table.mended ms) =
      ((i.withPolicy .ignore).interpret ms).mapError fun e =>
        e.moved (e.index - i.table.straysBefore ms e.index) := by
  cases ran : (i.withPolicy .ignore).run ms with
  | mk q refusal =>
      obtain ⟨run_eq, strays_eq⟩ := i.run_mended ms ran
      unfold interpret
      rw [ran, run_eq]
      cases refusal with
      | none => rfl
      | some e =>
          have count : q.strayCloses.length = i.table.straysBefore ms q.index := by
            rw [← List.length_reverse, strays_eq, OperationTable.straysBefore,
              List.countP_eq_length_filter]
          simp only [Option.map_some, Except.mapError, index_of_stopped ran, ← count]
          rfl

theorem strayCloses_mended (i : Interpreter) (ms : List Module) :
    (i.withPolicy .ignore).strayCloses ms =
      match (i.withPolicy .ignore).interpret ms with
      | .ok _ => i.table.strays ms
      | .error e => (i.table.strays ms).filter (· < e.index) := by
  cases ran : (i.withPolicy .ignore).run ms with
  | mk q refusal =>
      have mended := i.run_mended ms ran
      unfold interpret strayCloses
      rw [ran]
      cases refusal with
      | none => exact mended.strayCloses_all ran
      | some e =>
          dsimp only
          rw [mended.strayCloses_eq, index_of_stopped ran]

/-- A turtle that ignores stray closes draws a sentence as a turtle that refuses them draws it
without them. -/
theorem interpret_mending (i : Interpreter) (ms : List Module) : Mending i ms where
  interpret_eq := i.interpret_mended ms
  corresponds := fun _ inside kept => OperationTable.getElem?_mended inside kept
  never_unbalanced := by
    intro index failed
    rw [interpret_error_iff, stops_iff] at failed
    obtain ⟨index', fault, _⟩ := failed
    obtain ⟨m, _, fault⟩ := Option.bind_eq_some_iff.mp fault
    exact nomatch reject_of_unbalanced fault
  reports := i.strayCloses_mended ms
  increasing := i.table.strays_increasing ms
  strays_iff := i.table.mem_strays ms
  agrees := by
    intro segments drawn
    obtain ⟨q, passed, _⟩ := run_of_interpret drawn
    have none := strays_eq_nil_of_passed passed
    have same := i.interpret_mended ms
    rw [OperationTable.mended_of_strays_eq_nil none, drawn] at same
    cases lenient : (i.withPolicy .ignore).interpret ms with
    | error e =>
        rw [lenient] at same
        exact nomatch same
    | ok segments' =>
        rw [lenient] at same
        cases same
        refine ⟨rfl, ?_⟩
        rw [strayCloses_mended, lenient]
        exact none

theorem interpret_mending_stray :
    let i : Interpreter := ⟨.standard, .standard ⟨#["F", "[", "]"]⟩⟩
    let ms : List Module := [⟨2, []⟩, ⟨0, []⟩, ⟨2, []⟩, ⟨1, []⟩, ⟨0, []⟩, ⟨2, []⟩, ⟨2, []⟩,
      ⟨0, [0]⟩, ⟨2, []⟩]
    Mending i ms ∧ i.table.strays ms = [0, 2, 6, 8] ∧
      (i.withPolicy .ignore).interpret ms = .error (.degenerateSegment 7) ∧
      (i.withPolicy .ignore).strayCloses ms = [0, 2, 6] ∧
      (i.withPolicy .reject).interpret (i.table.mended ms) = .error (.degenerateSegment 4) ∧
      (i.withPolicy .reject).interpret ms = .error (.unbalancedBranch 0) := by
  intro i ms
  exact ⟨interpret_mending i ms, by decide +kernel, by decide +kernel, by decide +kernel,
    by decide +kernel, by decide +kernel⟩

end Interpreter

end Turtle

end Arbor
