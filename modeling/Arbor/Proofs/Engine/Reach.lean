import Arbor.Engine.Grower
import Mathlib.Order.Basic
import Mathlib.Data.Nat.Find

/-!
# How far a grower comes

`Grammar.after g n` derives `n` generations with nobody objecting.  A grower at its axiom reaches
generation `k` when no obstacle, of deriving or of drawing, stands on the way, and it stops there
when `k` is its last generation or an obstacle stands next.  `Grower.after g n` is the grower after
`n` attempts: what is known of it follows from how `k` compares with `n`.
-/

set_option autoImplicit false

namespace Arbor

open Turtle (Interpreter)

namespace Grammar

def after (g : Grammar) : Nat → Grammar
  | 0 => g
  | n + 1 => (g.after n).advance.1

theorem advance_ok (g next : Grammar) (derived : g.advance = (next, .ok ())) :
    next.counter = g.counter + 1 ∧ next.symbols = g.symbols ∧ next.rules = g.rules := by
  unfold advance at derived
  split at derived
  · cases derived
    exact ⟨rfl, rfl, rfl⟩
  · exact nomatch derived

theorem generation_advance {g next : Grammar} (derived : g.advance = (next, .ok ()))
    (more : g.generation + 1 < UInt32.size) : next.generation = g.generation + 1 := by
  rw [generation, (advance_ok g next derived).1, UInt32.toNat_add]
  exact Nat.mod_eq_of_lt more

theorem advance_error (g next : Grammar) (e : GrammarError)
    (failed : g.advance = (next, .error e)) : next = { g with generator := next.generator } := by
  unfold advance at failed
  split at failed
  · exact nomatch failed
  · cases failed
    rfl

theorem after_symbols (g : Grammar) (n : Nat) :
    (g.after n).symbols = g.symbols ∧ (g.after n).rules = g.rules := by
  induction n with
  | zero => exact ⟨rfl, rfl⟩
  | succ n ih =>
      rw [after]
      cases derived : (g.after n).advance with
      | mk next result =>
          cases result with
          | ok _ =>
              obtain ⟨_, symbols, rules⟩ := advance_ok _ next derived
              exact ⟨symbols.trans ih.1, rules.trans ih.2⟩
          | error e =>
              rw [advance_error _ next e derived]
              exact ih

end Grammar

namespace Grower

/-- What keeps a grower that has reached a generation from the next one. -/
def obstacle (g : Grower) (n : Nat) : Option Fault :=
  match (g.grammar.after n).advance with
  | (_, .error e) => some (.derive e)
  | (next, .ok ()) => (g.interpreter.run next.sentence).2.map .interpret

def drawing (g : Grower) (n : Nat) : List Segment :=
  (g.interpreter.run (g.grammar.after n).sentence).1.segments.reverse

def after (g : Grower) : Nat → Grower
  | 0 => g
  | n + 1 => (g.after n).grow.1

/-- `k` is the generation at which a grower stops. -/
structure Reach (g : Grower) (k : Nat) : Prop where
  le : k ≤ g.maxIterations.toNat
  clear : ∀ n < k, g.obstacle n = none
  blocked : k < g.maxIterations.toNat → (g.obstacle k).isSome

theorem exists_reach (g : Grower) : ∃ k, g.Reach k := by
  have stops : ∃ k, (g.obstacle k).isSome ∨ g.maxIterations.toNat ≤ k :=
    ⟨g.maxIterations.toNat, Or.inr (Nat.le_refl _)⟩
  refine ⟨Nat.find stops, Nat.find_min' stops (Or.inr (Nat.le_refl _)), ?_, ?_⟩
  · intro n before
    have goes := Nat.find_min stops before
    rw [not_or, Bool.not_eq_true, Option.isSome_eq_false_iff, Option.isNone_iff_eq_none] at goes
    exact goes.1
  · intro short
    exact (Nat.find_spec stops).resolve_right (Nat.not_le.mpr short)

/-! ## One attempt -/

theorem grow_halted (g : Grower) (cause : Fault) (stopped : g.fault = some cause) :
    g.grow = (g, .halted) := by
  simp [grow, stopped]

theorem grow_settled (g : Grower) (sound : g.fault = none)
    (settled : g.maxIterations.toNat ≤ g.iteration) : g.grow = (g, .settled) := by
  simp [grow, sound, IsSettled, settled]

/-- A grower that is neither stopped nor settled cannot derive the next generation, cannot draw it,
or has it. -/
theorem grow_cases (g : Grower) (sound : g.fault = none)
    (short : g.iteration < g.maxIterations.toNat) :
    (∃ next e, g.grammar.advance = (next, .error e) ∧
      g.grow = ({ g with grammar := next, fault := some (.derive e) }, .failed (.derive e) [])) ∨
    (∃ next p e, g.grammar.advance = (next, .ok ()) ∧
      g.interpreter.run next.sentence = (p, some e) ∧
      g.grow = ({ g with grammar := { g.grammar with generator := next.generator },
                         fault := some (.interpret e) },
        .failed (.interpret e) p.strayCloses.reverse)) ∨
    (∃ next p, g.grammar.advance = (next, .ok ()) ∧
      g.interpreter.run next.sentence = (p, none) ∧
      g.grow = ({ g with grammar := next }, .grown p.segments.reverse p.strayCloses.reverse)) := by
  have unsettled : ¬ g.IsSettled := Nat.not_le.mpr short
  have sound' : ¬ g.fault.isSome = true := by simp [sound]
  have attempt : g.grow = _ := (if_neg sound').trans (if_neg unsettled)
  cases derived : g.grammar.advance with
  | mk next result =>
      cases result with
      | error e =>
          refine Or.inl ⟨next, e, rfl, ?_⟩
          rw [attempt]
          simp [Grammar.advanceWith, derived]
      | ok _ =>
          cases ran : g.interpreter.run next.sentence with
          | mk p refusal =>
              cases refusal with
              | some e =>
                  refine Or.inr (Or.inl ⟨next, p, e, rfl, ran, ?_⟩)
                  rw [attempt]
                  simp [Grammar.advanceWith, derived, ran]
              | none =>
                  refine Or.inr (Or.inr ⟨next, p, rfl, ran, ?_⟩)
                  rw [attempt]
                  simp [Grammar.advanceWith, derived, ran]

theorem grow_still (g : Grower) (still : ∀ segments strays, g.grow.2 ≠ .grown segments strays) :
    g.grow.1.grammar.sentence = g.grammar.sentence ∧ g.grow.1.iteration = g.iteration := by
  cases stopped : g.fault with
  | some cause =>
      rw [grow_halted g cause stopped]
      exact ⟨rfl, rfl⟩
  | none =>
      rcases Nat.lt_or_ge g.iteration g.maxIterations.toNat with short | settled
      · obtain ⟨next, e, failed, grown⟩ | ⟨next, p, e, _, _, grown⟩ | ⟨next, p, _, _, grown⟩ :=
          grow_cases g stopped short
        · rw [grown, Grammar.advance_error _ next e failed]
          exact ⟨rfl, rfl⟩
        · rw [grown]
          exact ⟨rfl, rfl⟩
        · exact absurd (congrArg Prod.snd grown) (still _ _)
      · rw [grow_settled g stopped settled]
        exact ⟨rfl, rfl⟩

theorem maxIterations_grow (g : Grower) : g.grow.1.maxIterations = g.maxIterations := by
  unfold grow
  split
  · rfl
  · split
    · rfl
    · split <;> rfl

theorem interpreter_grow (g : Grower) : g.grow.1.interpreter = g.interpreter := by
  unfold grow
  split
  · rfl
  · split
    · rfl
    · split <;> rfl

theorem grow_grown (g : Grower) {segments : List Segment} {strays : List Nat}
    (grown : g.grow.2 = .grown segments strays) :
    g.grow.1.iteration = g.iteration + 1 ∧
      g.interpreter.interpret g.grow.1.grammar.sentence = .ok segments := by
  cases stopped : g.fault with
  | some cause =>
      rw [grow_halted g cause stopped] at grown
      exact nomatch grown
  | none =>
      rcases Nat.lt_or_ge g.iteration g.maxIterations.toNat with short | settled
      · obtain ⟨_, _, _, failed⟩ | ⟨_, _, _, _, _, failed⟩ | ⟨next, p, derived, ran, kept⟩ :=
          grow_cases g stopped short
        · rw [failed] at grown
          exact nomatch grown
        · rw [failed] at grown
          exact nomatch grown
        · rw [kept] at grown ⊢
          cases grown
          have more : g.iteration + 1 < UInt32.size :=
            Nat.lt_of_le_of_lt short g.maxIterations.toNat_lt
          refine ⟨Grammar.generation_advance derived more, ?_⟩
          rw [Interpreter.interpret, ran]
      · rw [grow_settled g stopped settled] at grown
        exact nomatch grown

/-! ## All attempts -/

/-- Nothing is derived yet, and nothing has gone wrong. -/
structure Fresh (g : Grower) : Prop where
  fault_eq : g.fault = none
  generation_eq : g.grammar.generation = 0

def standing (g : Grower) (n : Nat) : Grower := { g with grammar := g.grammar.after n }

def stopped (g : Grower) (n : Nat) (generator : Generator) : Grower :=
  { g with grammar := { g.grammar.after n with generator }, fault := g.obstacle n }

theorem advance_of_clear (g : Grower) (n : Nat) (clear : g.obstacle n = none) :
    (g.grammar.after n).advance = (g.grammar.after (n + 1), .ok ()) ∧
      (g.interpreter.run (g.grammar.after (n + 1)).sentence).2 = none := by
  unfold obstacle at clear
  simp only [Grammar.after]
  cases derived : (g.grammar.after n).advance with
  | mk next result =>
      rw [derived] at clear
      cases result with
      | error e => exact nomatch clear
      | ok _ => exact ⟨rfl, Option.map_eq_none_iff.mp clear⟩

theorem interpret_of_clear (g : Grower) (n : Nat) (clear : g.obstacle n = none) :
    g.interpreter.interpret (g.grammar.after (n + 1)).sentence = .ok (g.drawing (n + 1)) := by
  obtain ⟨_, ran⟩ := advance_of_clear g n clear
  unfold Interpreter.interpret drawing
  split
  · next p result => rw [result]
  · next e result => rw [result] at ran; exact nomatch ran

theorem Fresh.generation_after {g : Grower} (fresh : g.Fresh) (n : Nat) (word : n < UInt32.size)
    (clear : ∀ j < n, g.obstacle j = none) : (g.grammar.after n).generation = n := by
  induction n with
  | zero => exact fresh.generation_eq
  | succ n ih =>
      have before := ih (Nat.lt_of_succ_lt word) fun j small => clear j (Nat.lt_succ_of_lt small)
      obtain ⟨derived, _⟩ := advance_of_clear g n (clear n (Nat.lt_succ_self n))
      rw [Grammar.generation_advance derived (by rw [before]; exact word), before]

theorem maxIterations_after (g : Grower) (n : Nat) :
    (g.after n).maxIterations = g.maxIterations := by
  induction n with
  | zero => rfl
  | succ n ih => rw [after, maxIterations_grow, ih]

section Attempts
variable {g : Grower} {k : Nat} (fresh : g.Fresh) (reach : g.Reach k)
include fresh reach

theorem generation_after {n : Nat} (le : n ≤ k) : (g.grammar.after n).generation = n := by
  have word := Nat.lt_of_le_of_lt (le.trans reach.le) g.maxIterations.toNat_lt
  exact fresh.generation_after n word fun j small => reach.clear j (Nat.lt_of_lt_of_le small le)

theorem grow_standing {n : Nat} (before : n < k) :
    ∃ strays, (g.standing n).grow = (g.standing (n + 1), .grown (g.drawing (n + 1)) strays) := by
  obtain ⟨derived, ran⟩ := advance_of_clear g n (reach.clear n before)
  have generation := generation_after fresh reach (Nat.le_of_lt before)
  have short : (g.standing n).iteration < (g.standing n).maxIterations.toNat := by
    have le := reach.le
    simp only [iteration, standing, generation]
    omega
  obtain ⟨next, e, failed, _⟩ | ⟨next, p, e, derived', refused, _⟩ | ⟨next, p, derived', kept, grown⟩ :=
    grow_cases (g.standing n) fresh.fault_eq short
  · exact nomatch derived.symm.trans failed
  · cases derived.symm.trans derived'
    exact nomatch ran.symm.trans (congrArg Prod.snd refused)
  · -- The two derivations are one, and so are the two drawings.
    cases derived.symm.trans derived'
    have drawn : g.drawing (n + 1) = p.segments.reverse := by
      simp only [drawing]
      exact congrArg (fun r => r.1.segments.reverse) kept
    exact ⟨p.strayCloses.reverse, by rw [grown, drawn]; rfl⟩

theorem after_eq_standing {n : Nat} (le : n ≤ k) : g.after n = g.standing n := by
  induction n with
  | zero => rfl
  | succ n ih =>
      obtain ⟨strays, grown⟩ := grow_standing fresh reach le
      rw [after, ih (Nat.le_of_succ_le le), grown]

theorem settled_at_reach (full : k = g.maxIterations.toNat) :
    (g.standing k).grow = (g.standing k, .settled) := by
  have generation := generation_after fresh reach (Nat.le_refl k)
  apply grow_settled (g.standing k) fresh.fault_eq
  simp only [iteration, standing, generation]
  exact Nat.le_of_eq full.symm

theorem after_settled (full : k = g.maxIterations.toNat) {n : Nat} (le : k ≤ n) :
    g.after n = g.standing k := by
  induction n, le using Nat.le_induction with
  | base => exact after_eq_standing fresh reach (Nat.le_refl k)
  | succ n _ ih => rw [after, ih, settled_at_reach fresh reach full]

theorem fails_at_reach (short : k < g.maxIterations.toNat) :
    ∃ generator cause strays, g.obstacle k = some cause ∧
      (g.standing k).grow = (g.stopped k generator, .failed cause strays) := by
  have generation := generation_after fresh reach (Nat.le_refl k)
  have unsettled : (g.standing k).iteration < (g.standing k).maxIterations.toNat := by
    simpa only [iteration, standing, generation] using short
  have blocked := reach.blocked short
  obtain ⟨next, e, failed, grown⟩ | ⟨next, p, e, derived, refused, grown⟩ | ⟨next, p, derived, kept, _⟩ :=
    grow_cases (g.standing k) fresh.fault_eq unsettled
  · have hit : g.obstacle k = some (.derive e) := by
      simp only [obstacle]
      rw [show (g.grammar.after k).advance = (next, .error e) from failed]
    refine ⟨next.generator, .derive e, [], hit, ?_⟩
    rw [grown, stopped, hit, Grammar.advance_error _ next e failed]
    rfl
  · have hit : g.obstacle k = some (.interpret e) := by
      simp only [obstacle]
      rw [show (g.grammar.after k).advance = (next, .ok ()) from derived]
      exact congrArg (fun r => r.2.map Fault.interpret) refused
    refine ⟨next.generator, .interpret e, p.strayCloses.reverse, hit, ?_⟩
    rw [grown, stopped, hit]
    rfl
  · have free : g.obstacle k = none := by
      simp only [obstacle]
      rw [show (g.grammar.after k).advance = (next, .ok ()) from derived]
      exact congrArg (fun r => r.2.map Fault.interpret) kept
    rw [free] at blocked
    exact nomatch blocked

omit fresh in
theorem halted_after_reach (generator : Generator) (short : k < g.maxIterations.toNat) :
    (g.stopped k generator).grow = (g.stopped k generator, .halted) := by
  obtain ⟨cause, hit⟩ := Option.isSome_iff_exists.mp (reach.blocked short)
  exact grow_halted _ cause hit

theorem after_stopped (short : k < g.maxIterations.toNat) :
    ∃ generator, ∀ n, k < n → g.after n = g.stopped k generator := by
  obtain ⟨generator, cause, strays, _, failed⟩ := fails_at_reach fresh reach short
  refine ⟨generator, ?_⟩
  intro n later
  induction n, later using Nat.le_induction with
  | base => rw [after, after_eq_standing fresh reach (Nat.le_refl k), failed]
  | succ n _ ih => rw [after, ih, halted_after_reach reach generator short]

end Attempts

end Grower

end Arbor
