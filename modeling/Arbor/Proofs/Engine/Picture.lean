import Arbor.Proofs.Engine.Accretion
import Arbor.Proofs.Engine.Custody
import Arbor.Proofs.Turtle.Depiction

/-!
# The picture of a plant

A plant that has a ledger to itself keeps the drawing of its current sentence, and the ledger holds
the lines of that drawing and nothing else, in the order of the segments.  A fault leaves the drawing
of the last good sentence.  Clearing takes all lines away until a tick advances.
-/

set_option autoImplicit false

namespace Arbor

open SceneLedger (Shows)
open Turtle (Interpreter)

namespace Plant

inductive Task where
  | tick
  | clear
deriving DecidableEq, Repr

def perform (state : Plant × SceneLedger) : Task → Plant × SceneLedger
  | .tick => ((state.1.tick state.2).engine, (state.1.tick state.2).scene)
  | .clear => state.1.clear state.2

def performAll (state : Plant × SceneLedger) (tasks : List Task) : Plant × SceneLedger :=
  tasks.foldl perform state

/-- Whether there are no lines after a task: clearing takes them away, a tick that advances draws
them anew, and any other tick leaves things as they were. -/
def bareAfter (state : Plant × SceneLedger) (bare : Bool) : Task → Bool
  | .tick => if (state.1.tick state.2).outcome.Advances then false else bare
  | .clear => true

def bareAfterAll (state : Plant × SceneLedger) (bare : Bool) : List Task → Bool
  | [] => bare
  | task :: tasks => bareAfterAll (perform state task) (bareAfter state bare task) tasks

/-! ## Ticks -/

theorem drawLines_primitives (segments : List Segment) {s : SceneLedger}
    (consistent : s.Consistent) :
    (drawLines s segments).1.primitives =
      s.primitives ++ segments.map Primitive.lineOfSegment := by
  change (segments.foldl _ (s, ([] : List Handle))).1.primitives = _
  -- The handles collected so far do not matter to the scene.
  generalize ([] : List Handle) = handles
  induction segments generalizing s handles with
  | nil => exact (List.append_nil _).symm
  | cons segment segments ih =>
      rw [List.foldl_cons, List.map_cons, ← List.singleton_append, ← List.append_assoc,
        ← consistent.primitives_materialize]
      exact ih (consistent.materialize _) _

theorem tick_grown {σ : Type} [Scene σ] (p : Plant) (scene : σ) {segments : List Segment}
    {strays : List Nat} (grown : p.grower.grow.2 = .grown segments strays) :
    (p.tick scene).engine.segments = segments ∧
      (p.tick scene).scene = (drawLines (p.clear scene).2 segments).1 ∧
      (p.tick scene).outcome.Advances := by
  unfold tick
  cases attempt : p.grower.grow with
  | mk grower growth =>
      rw [attempt] at grown
      cases grown
      exact ⟨rfl, rfl, trivial⟩

theorem tick_still {σ : Type} [Scene σ] (p : Plant) (scene : σ)
    (still : ∀ segments strays, p.grower.grow.2 ≠ .grown segments strays) :
    (p.tick scene).engine.segments = p.segments ∧ (p.tick scene).scene = scene ∧
      ¬ (p.tick scene).outcome.Advances := by
  unfold tick
  split
  · exact ⟨rfl, rfl, id⟩
  · exact ⟨rfl, rfl, id⟩
  · exact ⟨rfl, rfl, id⟩
  · next grown => exact absurd (congrArg Prod.snd grown) (still _ _)

/-! ## The picture -/

/-- What a plant keeps is the drawing of its sentence, and its ledger holds the lines of it, or none
if they are taken away. -/
structure Picture (i : Interpreter) (bare : Bool) (state : Plant × SceneLedger) : Prop where
  interpreter_eq : state.1.grower.interpreter = i
  tidy : state.1.Tidy
  shows : state.2.Shows (state.1.shown ++ [])
  unborn : state.1.grower.iteration = 0 → state.1.segments = []
  drawn : 0 < state.1.grower.iteration →
    i.interpret state.1.grower.grammar.sentence = .ok state.1.segments
  primitives_eq : state.2.primitives =
    if bare then [] else state.1.segments.map Primitive.lineOfSegment

variable {i : Interpreter} {bare : Bool} {state : Plant × SceneLedger}

theorem Picture.clear_shows (picture : Picture i bare state) :
    (state.1.clear state.2).2.Shows ((state.1.clear state.2).1.shown ++ []) :=
  (state.1.clear_shows state.2 [] picture.tidy picture.shows).2

/-- After a clear the ledger is empty, because it holds nothing but lines of the plant. -/
theorem Picture.clear_primitives (picture : Picture i bare state) :
    (state.1.clear state.2).2.primitives = [] :=
  picture.clear_shows.primitives_eq_nil

theorem Picture.tick (picture : Picture i bare state) :
    Picture i (bareAfter state bare .tick) (perform state .tick) := by
  obtain ⟨tidy, shows⟩ := state.1.tick_shows state.2 [] picture.tidy picture.shows
  have grower : (perform state .tick).1.grower = state.1.grower.grow.1 :=
    Growing.grower_tick state.1 state.2
  have interpreter := state.1.grower.interpreter_grow.trans picture.interpreter_eq
  by_cases grown : ∃ segments strays, state.1.grower.grow.2 = .grown segments strays
  · obtain ⟨segments, strays, grown⟩ := grown
    obtain ⟨kept, scene, advances⟩ := state.1.tick_grown state.2 grown
    obtain ⟨later, drawn⟩ := state.1.grower.grow_grown grown
    rw [picture.interpreter_eq] at drawn
    refine ⟨grower ▸ interpreter, tidy, shows, ?_, ?_, ?_⟩
    · intro unborn
      rw [grower, later] at unborn
      exact nomatch unborn
    · intro _
      rw [grower]
      exact drawn.trans (congrArg _ kept.symm)
    · rw [bareAfter, if_pos advances]
      change (state.1.tick state.2).scene.primitives =
        (state.1.tick state.2).engine.segments.map Primitive.lineOfSegment
      rw [scene, kept, drawLines_primitives _ picture.clear_shows.consistent,
        picture.clear_primitives, List.nil_append]
  · have still : ∀ segments strays, state.1.grower.grow.2 ≠ .grown segments strays :=
      fun segments strays grows => grown ⟨segments, strays, grows⟩
    obtain ⟨kept, scene, stays⟩ := state.1.tick_still state.2 still
    obtain ⟨sentence, iteration⟩ := state.1.grower.grow_still still
    refine ⟨grower ▸ interpreter, tidy, shows, ?_, ?_, ?_⟩
    · rw [grower, iteration]
      exact fun unborn => kept.trans (picture.unborn unborn)
    · rw [grower, iteration, sentence]
      exact fun born => (picture.drawn born).trans (congrArg _ kept.symm)
    · rw [bareAfter, if_neg stays]
      change (state.1.tick state.2).scene.primitives =
        if bare then [] else (state.1.tick state.2).engine.segments.map Primitive.lineOfSegment
      rw [scene, kept, picture.primitives_eq]

theorem Picture.clear (picture : Picture i bare state) :
    Picture i (bareAfter state bare .clear) (perform state .clear) := by
  obtain ⟨tidy, shows⟩ := state.1.clear_shows state.2 [] picture.tidy picture.shows
  exact ⟨picture.interpreter_eq, tidy, shows, picture.unborn, picture.drawn,
    picture.clear_primitives⟩

theorem Picture.performAll (tasks : List Task) (picture : Picture i bare state) :
    Picture i (bareAfterAll state bare tasks) (performAll state tasks) := by
  induction tasks generalizing bare state with
  | nil => exact picture
  | cons task tasks ih =>
      cases task with
      | tick => exact ih picture.tick
      | clear => exact ih picture.clear

theorem picture_of_starts {c : Config} {p : Plant} (starts : Grower.Starts c p.grower)
    (segments : p.segments = []) (handles : p.handles = []) :
    Picture p.grower.interpreter true (p, SceneLedger.empty) where
  interpreter_eq := rfl
  tidy := Or.inl handles
  shows := by
    rw [shown, handles, List.zip_nil_left]
    exact Shows.empty
  unborn := fun _ => segments
  drawn := by
    have unborn : p.grower.iteration = 0 := starts.generation_eq
    rw [unborn]
    exact fun born => absurd born (Nat.lt_irrefl 0)
  primitives_eq := rfl

/-- A plant on a ledger of its own always has the drawing of its sentence, a line for each module
that draws, and its ledger has these lines in order, or nothing since they were cleared. -/
theorem ofConfig_picture (c : Config) (p : Plant) (built : ofConfig c = .ok p)
    (tasks : List Task) :
    let state := performAll (p, SceneLedger.empty) tasks
    (0 < state.1.grower.iteration →
      p.grower.interpreter.interpret state.1.grower.grammar.sentence = .ok state.1.segments ∧
        state.1.segments.length =
          (p.grower.interpreter.drawers state.1.grower.grammar.sentence).length) ∧
      (state.1.grower.iteration = 0 → state.1.segments = [] ∧ state.2.primitives = []) ∧
      state.2.primitives = if bareAfterAll (p, SceneLedger.empty) true tasks then []
        else state.1.segments.map fun s => Primitive.line s.start s.tip := by
  intro state
  obtain ⟨starts, segments, handles⟩ := ofConfig_eq c p built
  have picture := (picture_of_starts starts segments handles).performAll tasks
  refine ⟨?_, ?_, picture.primitives_eq⟩
  · intro born
    exact ⟨picture.drawn born, Interpreter.length_of_interpret (picture.drawn born)⟩
  · intro unborn
    have bare := picture.unborn unborn
    refine ⟨bare, ?_⟩
    rw [picture.primitives_eq, bare, List.map_nil, ite_self]

theorem ofConfig_picture_faulty :
    let c := { Config.plant with
      axiomText := "A", rules := ["A -> F [ + F ] B", "B -> ]"], underflow := .reject }
    ∃ p : Plant, ofConfig c = .ok p ∧
      let state := performAll (p, SceneLedger.empty) [.tick, .clear, .clear, .tick]
      let state' := performAll (p, SceneLedger.empty) [.clear, .tick, .tick, .tick]
      state.2.primitives = [] ∧
        state'.1.grower.fault.isSome ∧ state'.1.segments.length = 2 ∧
        state'.2.primitives = state'.1.segments.map fun s => Primitive.line s.start s.tip := by
  intro c
  have runs : (ofConfig c).toOption.map (fun p =>
      let state' := performAll (p, SceneLedger.empty) [.clear, .tick, .tick, .tick]
      (state'.1.grower.fault.isSome, state'.1.segments.length,
        bareAfterAll (p, SceneLedger.empty) true [.tick, .clear, .clear, .tick],
        bareAfterAll (p, SceneLedger.empty) true [.clear, .tick, .tick, .tick])) =
      some (true, 2, true, false) := by
    decide +kernel
  obtain ⟨p, built⟩ : ∃ p, ofConfig c = .ok p := exists_of_isOk (by decide +kernel)
  rw [built] at runs
  obtain ⟨stopped, runs⟩ := Prod.mk.inj (Option.some.inj runs)
  obtain ⟨count, runs⟩ := Prod.mk.inj runs
  obtain ⟨bare, shown⟩ := Prod.mk.inj runs
  obtain ⟨_, _, primitives⟩ := ofConfig_picture c p built [.tick, .clear, .clear, .tick]
  obtain ⟨_, _, primitives'⟩ := ofConfig_picture c p built [.clear, .tick, .tick, .tick]
  rw [bare] at primitives
  rw [shown] at primitives'
  exact ⟨p, built, primitives, stopped, count, primitives'⟩

end Plant

end Arbor
