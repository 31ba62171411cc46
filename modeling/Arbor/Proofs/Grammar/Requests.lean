import Arbor.Proofs.Grammar.Choice

/-!
# Requests to a grammar

A grammar is asked for one generation, for several, or for one that is submitted to somebody first.
`serveAll` is the grammar after some requests and `watch` all that is seen of it on the way.

When the next sentence is a function of the sentence, so is all that a request brings: how many
generations are kept, the sentence that it leaves and the answer.  `Request.effect` gives them
without a grammar, and `serve_effect` says that a grammar does just that.
-/

set_option autoImplicit false

namespace Arbor.Grammar

inductive Request : Type 1 where
  | advance
  | advanceBy (count : Nat)
  | advanceWith {α : Type} (submit : List Module → α × Option InterpretError)

namespace Request

def Reply : Request → Type
  | advance => Except GrammarError Unit
  | advanceBy _ => Except GrammarError Unit
  | @advanceWith α _ => Except Fault α

end Request

def serve (g : Grammar) : (r : Request) → Grammar × r.Reply
  | .advance => g.advance
  | .advanceBy count => g.advanceBy count
  | .advanceWith submit => ((g.advanceWith submit).1, (g.advanceWith submit).2.result)

def serveAll (g : Grammar) : List Request → Grammar
  | [] => g
  | r :: rs => (g.serve r).1.serveAll rs

structure Sight : Type 1 where
  request : Request
  reply : request.Reply
  sentence : List Module
  generation : Nat

def watch (g : Grammar) : List Request → List Sight
  | [] => []
  | r :: rs =>
    let (next, reply) := g.serve r
    ⟨r, reply, next.sentence, next.generation⟩ :: next.watch rs

/-! ## Requests without a grammar -/

/-- A grammar's next sentence is a function of the sentence, whatever its generator. -/
def Follows (g : Grammar) (next : List Module → Except GrammarError (List Module)) : Prop :=
  ∀ generator sentence,
    (derive g.rules (Brackets.ofTable? g.symbols) generator sentence).2 = next sentence

theorem follows_of_exclusive {g : Grammar} (exclusive : Exclusive g.rules) :
    g.Follows fun sentence =>
      (derive g.rules (Brackets.ofTable? g.symbols) g.generator sentence).2 := by
  intro generator sentence
  rw [derive_of_exclusive exclusive _ generator g.generator]

structure Effect (r : Request) where
  kept : Nat
  sentence : List Module
  reply : r.Reply

section Effects
variable (next : List Module → Except GrammarError (List Module))

/-- Several generations in a row, up to the first that cannot be derived. -/
def climb : Nat → List Module → Nat × List Module × Except GrammarError Unit
  | 0, sentence => (0, sentence, .ok ())
  | count + 1, sentence =>
    match next sentence with
    | .error e => (0, sentence, .error e)
    | .ok following =>
      let (kept, sentence, reply) := climb count following
      (kept + 1, sentence, reply)

def Request.effect (sentence : List Module) : (r : Request) → Effect r
  | .advance =>
    let (kept, sentence, reply) := climb next 1 sentence
    ⟨kept, sentence, reply⟩
  | .advanceBy count =>
    let (kept, sentence, reply) := climb next count sentence
    ⟨kept, sentence, reply⟩
  | .advanceWith submit =>
    match next sentence with
    | .error e => ⟨0, sentence, .error (.derive e)⟩
    | .ok following =>
      match submit following with
      | (answer, none) => ⟨1, following, .ok answer⟩
      | (_, some e) => ⟨0, sentence, .error (.interpret e)⟩

/-- The number of generations that requests keep, one after the other. -/
def kept (sentence : List Module) : List Request → Nat
  | [] => 0
  | r :: rs =>
    let effect := r.effect next sentence
    effect.kept + kept effect.sentence rs

end Effects

/-! ## Grammars that follow a function -/

def onward (g : Grammar) (generator : Generator) (count : Nat) (sentence : List Module) : Grammar :=
  { g with generator, sentence, counter := g.counter + .ofNat count }

theorem onward_zero (g : Grammar) (generator : Generator) :
    g.onward generator 0 g.sentence = { g with generator } := by
  simp [onward]

theorem onward_onward (g : Grammar) (x y : Generator) (m n : Nat) (s t : List Module) :
    (g.onward x m s).onward y n t = g.onward y (m + n) t := by
  simp only [onward, UInt32.ofNat_add, UInt32.add_assoc]

theorem Follows.onward {g : Grammar} {next : List Module → Except GrammarError (List Module)}
    (follows : g.Follows next) (generator : Generator) (count : Nat) (sentence : List Module) :
    (g.onward generator count sentence).Follows next := follows

section Follows
variable {g : Grammar} {next : List Module → Except GrammarError (List Module)}
  (follows : g.Follows next)
include follows

theorem advance_of_ok {following : List Module} (derivable : next g.sentence = .ok following) :
    ∃ generator, g.advance = (g.onward generator 1 following, .ok ()) := by
  have derived := follows g.generator g.sentence
  rw [derivable] at derived
  unfold advance
  split
  · next generator sentence result =>
      rw [result] at derived
      cases derived
      exact ⟨generator, rfl⟩
  · next generator e result =>
      rw [result] at derived
      exact nomatch derived

theorem advance_of_error {e : GrammarError} (underivable : next g.sentence = .error e) :
    ∃ generator, g.advance = (g.onward generator 0 g.sentence, .error e) := by
  have derived := follows g.generator g.sentence
  rw [underivable] at derived
  unfold advance
  split
  · next generator sentence result =>
      rw [result] at derived
      exact nomatch derived
  · next generator e' result =>
      rw [result] at derived
      cases derived
      exact ⟨generator, by rw [onward_zero]⟩

theorem advanceWith_of_error {e : GrammarError} (underivable : next g.sentence = .error e) :
    ∃ generator, ∀ {α : Type} (submit : List Module → α × Option InterpretError),
      g.advanceWith submit = (g.onward generator 0 g.sentence, .underivable e) := by
  obtain ⟨generator, failed⟩ := advance_of_error follows underivable
  refine ⟨generator, ?_⟩
  intro α submit
  rw [advanceWith, failed]

theorem advanceWith_of_ok {following : List Module} (derivable : next g.sentence = .ok following) :
    ∃ generator, ∀ {α : Type} (submit : List Module → α × Option InterpretError),
      g.advanceWith submit = match submit following with
        | (answer, none) => (g.onward generator 1 following, .kept answer)
        | (answer, some e) => (g.onward generator 0 g.sentence, .refused answer e) := by
  obtain ⟨generator, advanced⟩ := advance_of_ok follows derivable
  refine ⟨generator, ?_⟩
  intro α submit
  rw [advanceWith, advanced, onward_zero]
  rfl

end Follows

theorem advanceBy_climb {next : List Module → Except GrammarError (List Module)} (count : Nat)
    {g : Grammar} (follows : g.Follows next) :
    ∃ generator, g.advanceBy count =
      (g.onward generator (climb next count g.sentence).1 (climb next count g.sentence).2.1,
        (climb next count g.sentence).2.2) := by
  induction count generalizing g with
  | zero => exact ⟨g.generator, by rw [climb, onward_zero, advanceBy]⟩
  | succ count ih =>
      cases derived : next g.sentence with
      | error e =>
          obtain ⟨generator, failed⟩ := advance_of_error follows derived
          refine ⟨generator, ?_⟩
          simp only [advanceBy, failed, climb, derived]
      | ok following =>
          obtain ⟨first, advanced⟩ := advance_of_ok follows derived
          obtain ⟨generator, rest⟩ := ih (follows.onward first 1 following)
          refine ⟨generator, ?_⟩
          simp only [advanceBy, advanced, climb, derived, rest, onward_onward, Nat.add_comm 1]
          rfl

/-- A grammar serves a request as the function tells; only its generator goes its own way. -/
theorem serve_effect {g : Grammar} {next : List Module → Except GrammarError (List Module)}
    (follows : g.Follows next) (r : Request) :
    ∃ generator, g.serve r = (g.onward generator (r.effect next g.sentence).kept
      (r.effect next g.sentence).sentence, (r.effect next g.sentence).reply) := by
  cases r with
  | advance =>
      obtain ⟨generator, climbed⟩ := advanceBy_climb 1 follows
      have once : g.advanceBy 1 = g.advance := by
        rw [advanceBy]
        split
        · next advanced => rw [advanced]; rfl
        · next failed => rw [failed]
      rw [once] at climbed
      exact ⟨generator, climbed⟩
  | advanceBy count => exact advanceBy_climb count follows
  | advanceWith submit =>
      cases derived : next g.sentence with
      | error e =>
          obtain ⟨generator, failed⟩ := advanceWith_of_error follows derived
          refine ⟨generator, ?_⟩
          simp only [serve, failed, Request.effect, derived]
          rfl
      | ok following =>
          obtain ⟨generator, submitted⟩ := advanceWith_of_ok follows derived
          refine ⟨generator, ?_⟩
          simp only [serve, submitted, Request.effect, derived]
          cases submit following with
          | mk answer refusal => cases refusal <;> rfl

/-- Two grammars that differ in their generators alone. -/
structure Alike (g h : Grammar) : Prop where
  symbols_eq : h.symbols = g.symbols
  rules_eq : h.rules = g.rules
  sentence_eq : h.sentence = g.sentence
  counter_eq : h.counter = g.counter

theorem Alike.onward {g h : Grammar} (alike : Alike g h) (x y : Generator) (count : Nat)
    (sentence : List Module) : Alike (g.onward x count sentence) (h.onward y count sentence) :=
  ⟨alike.symbols_eq, alike.rules_eq, rfl, congrArg (· + .ofNat count) alike.counter_eq⟩

/-- Where nothing is drawn, nobody sees in which state the generator is. -/
theorem watch_alike {g h : Grammar} {next : List Module → Except GrammarError (List Module)}
    (follows : g.Follows next) (alike : Alike g h) (requests : List Request) :
    h.watch requests = g.watch requests := by
  induction requests generalizing g h with
  | nil => rfl
  | cons r rs ih =>
      have follows' : h.Follows next := by
        unfold Follows
        rw [alike.rules_eq, alike.symbols_eq]
        exact follows
      obtain ⟨x, served⟩ := serve_effect follows r
      obtain ⟨y, served'⟩ := serve_effect follows' r
      rw [alike.sentence_eq] at served'
      generalize r.effect next g.sentence = effect at served served'
      have later := ih (follows.onward x effect.kept effect.sentence) (alike.onward x y _ _)
      simp only [watch, served, served', later]
      rw [generation, generation, onward, onward, alike.counter_eq]

end Arbor.Grammar
