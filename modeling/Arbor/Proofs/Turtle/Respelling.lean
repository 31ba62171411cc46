import Arbor.Proofs.Number.Widening
import Arbor.Proofs.Turtle.Depiction

/-!
# Lengths that are spelled out

A walk without a parameter is as long as the settings tell, and the settings are checked once.  A
module may give that length itself: it is checked and narrowed there, but the check is the one that
the settings have passed, and narrowing takes back what widening did.  Of the parameters of a module
only the first one counts.  So the turtle cannot tell sentences apart that differ in such ways only.
-/

set_option autoImplicit false

namespace Arbor.Turtle

/-- The second module is the first one with its length spelled out, if it is a walk that leaves its
length to the settings, or with other parameters behind the first one. -/
inductive Respelled (i : Interpreter) : Module → Module → Prop where
  | unchanged (m : Module) : Respelled i m m
  | explicit (symbol : Nat) (more : List Float) :
      i.table.get symbol = .draw ∨ i.table.get symbol = .move →
      Respelled i ⟨symbol, []⟩ ⟨symbol, Number.widen i.settings.stepLength :: more⟩
  | behind (symbol : Nat) (first : Float) (rest more : List Float) :
      Respelled i ⟨symbol, first :: rest⟩ ⟨symbol, first :: more⟩

namespace Respelled

variable {i : Interpreter} {m m' : Module} (respelled : Respelled i m m')
include respelled

theorem symbol_eq : m'.symbol = m.symbol := by
  cases respelled <;> rfl

theorem walkLength_eq (step : Number.IsSize i.settings.stepLength) :
    i.walkLength m' = i.walkLength m := by
  cases respelled with
  | unchanged => rfl
  | explicit symbol more walks =>
      simp only [Interpreter.walkLength, Interpreter.argument, List.head?_cons, Option.map_some,
        List.head?_nil, Option.map_none, Number.narrow_widen, if_pos step]
  | behind symbol first rest more => rfl

theorem turnAngle_eq (unwalked : i.table.get m.symbol ≠ .draw ∧ i.table.get m.symbol ≠ .move) :
    i.turnAngle m' = i.turnAngle m := by
  cases respelled with
  | unchanged => rfl
  | explicit symbol more walks => exact (walks.elim unwalked.1 unwalked.2).elim
  | behind symbol first rest more => rfl

end Respelled

namespace Interpreter

variable {i : Interpreter}

theorem walk_congr {m m' : Module} (measured : i.walkLength m' = i.walkLength m) (p : Progress)
    (draws : Bool) : i.walk p m' draws = i.walk p m draws := by
  rw [walk, walk, measured]

theorem step_respelled {m m' : Module} (step : Number.IsSize i.settings.stepLength)
    (respelled : Respelled i m m') (p : Progress) : i.step p m' = i.step p m := by
  have measured := respelled.walkLength_eq step
  have turned := respelled.turnAngle_eq
  unfold Interpreter.step
  rw [respelled.symbol_eq]
  cases op : i.table.get m.symbol with
  | draw => rw [perform, perform, walk_congr measured]
  | move => rw [perform, perform, walk_congr measured]
  | yaw sign => rw [perform, perform, turned ⟨by simp [op], by simp [op]⟩]
  | pitch sign => rw [perform, perform, turned ⟨by simp [op], by simp [op]⟩]
  | push => rfl
  | pop => rfl
  | ignore => rfl

theorem replay_respelled {ms ms' : List Module} (step : Number.IsSize i.settings.stepLength)
    (respelled : List.Forall₂ (Respelled i) ms ms') (p : Progress) :
    i.replay p ms' = i.replay p ms := by
  induction respelled generalizing p with
  | nil => rfl
  | cons first _ ih =>
      rw [replay, replay, step_respelled step first]
      cases i.step p _ with
      | ok q => exact ih q
      | error e => rfl

/-- A sentence in which lengths are spelled out, or parameters added, changed or left out behind
first ones, is drawn as the sentence was, or stops the turtle at the same module for the same
reason. -/
theorem interpret_respelled (i : Interpreter) (valid : i.settings.validate = .ok ())
    (ms ms' : List Module) (respelled : List.Forall₂ (Respelled i) ms ms') :
    i.interpret ms' = i.interpret ms ∧ i.strayCloses ms' = i.strayCloses ms := by
  have step := (Settings.sizes_of_validate valid).1
  have run_eq : i.run ms' = i.run ms := replay_respelled step respelled _
  constructor
  · rw [interpret, interpret, run_eq]
  · rw [strayCloses, strayCloses, run_eq]

theorem interpret_respelled_tenth :
    let i : Interpreter := ⟨{ Settings.standard with stepLength := 0.1 },
      .standard ⟨#["F", "f", "+", "[", "]"]⟩⟩
    let ms : List Module := [⟨0, []⟩, ⟨3, []⟩, ⟨2, [30, 1]⟩, ⟨1, []⟩, ⟨0, []⟩, ⟨4, []⟩,
      ⟨0, [2]⟩, ⟨0, []⟩]
    let ms' : List Module := [⟨0, []⟩, ⟨3, []⟩, ⟨2, [30]⟩, ⟨1, [Number.widen 0.1]⟩, ⟨0, []⟩,
      ⟨4, []⟩, ⟨0, [2, 0, 7]⟩, ⟨0, [Number.widen 0.1]⟩]
    i.settings.validate = .ok () ∧ List.Forall₂ (Respelled i) ms ms' ∧
      i.interpret ms' = i.interpret ms ∧
      (i.interpret ms').toOption.map (List.map Segment.length) = some [0.1, 0.1, 2, 0.1] := by
  intro i ms ms'
  have valid : i.settings.validate = .ok () := by decide +kernel
  have respelled : List.Forall₂ (Respelled i) ms ms' :=
    .cons (.unchanged _) <| .cons (.unchanged _) <| .cons (.behind _ _ _ _) <|
    .cons (.explicit _ _ (Or.inr (by decide +kernel))) <| .cons (.unchanged _) <|
    .cons (.unchanged _) <| .cons (.behind _ _ _ _) <|
    .cons (.explicit _ _ (Or.inl (by decide +kernel))) .nil
  exact ⟨valid, respelled, (interpret_respelled i valid ms ms' respelled).1, by decide +kernel⟩

end Interpreter

end Arbor.Turtle
