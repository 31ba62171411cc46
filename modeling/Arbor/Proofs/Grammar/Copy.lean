import Arbor.Proofs.Grammar.Requests

/-!
# Copies of a grammar

A copy differs from its original in its generator alone, which is seeded anew.  So the two do the
same for as long as no number is drawn, and may part when one is.  `drawnAll` counts the numbers
that a grammar draws while it serves requests; the generator moves on once for each of them.
-/

set_option autoImplicit false

namespace Arbor.Grammar

universe u

def drawn (g : Grammar) : Nat :=
  drawnIn g.rules (Brackets.ofTable? g.symbols) g.generator g.sentence

def drawnBy (g : Grammar) : Nat → Nat
  | 0 => 0
  | n + 1 =>
    g.drawn +
      match g.advance.2 with
      | .ok () => g.advance.1.drawnBy n
      | .error _ => 0

/-- The numbers drawn to serve a request.  Whether a generation is kept makes no difference. -/
def drawnServing (g : Grammar) : Request → Nat
  | .advance => g.drawn
  | .advanceBy count => g.drawnBy count
  | .advanceWith _ => g.drawn

def drawnAll (g : Grammar) : List Request → Nat
  | [] => 0
  | r :: rs => g.drawnServing r + (g.serve r).1.drawnAll rs

def reseeded (g : Grammar) (other : Generator) : Grammar := { g with generator := other }

/-- A grammar draws so many numbers as it acts: its generator moves on once for each, and where none
is drawn it acts in the same way with any generator. -/
structure DrawsIn {α : Type u} (act : Grammar → Grammar × α) (g : Grammar) (count : Nat) :
    Prop where
  moved : (act g).1.generator = Generator.advance^[count] g.generator
  free : count = 0 → ∀ other, act (g.reseeded other) = ((act g).1.reseeded other, (act g).2)

theorem DrawsIn.done {α : Type u} (a : α) (g : Grammar) : DrawsIn (fun g => (g, a)) g 0 where
  moved := rfl
  free := fun _ _ => rfl

theorem DrawsIn.andThen {α β : Type u} {first : Grammar → Grammar × α}
    {rest whole : Grammar → Grammar × β} {g : Grammar} {m n : Nat} (drawn : DrawsIn first g m)
    (drawn' : DrawsIn rest (first g).1 n)
    (joined : ∀ h, (first h).2 = (first g).2 → whole h = rest (first h).1) :
    DrawsIn whole g (m + n) where
  moved := by
    rw [joined g rfl, drawn'.moved, drawn.moved, ← Function.iterate_add_apply, Nat.add_comm]
  free := by
    intro none other
    have same := drawn.free (by omega) other
    rw [joined g rfl, joined (g.reseeded other) (by rw [same]), same]
    exact drawn'.free (by omega) other

theorem advance_drawsIn (g : Grammar) : DrawsIn advance g g.drawn := by
  have derived := derive_draws g.rules (Brackets.ofTable? g.symbols) g.sentence g.generator
  constructor
  · rw [drawn, ← derived.moved, advance]
    cases derive g.rules (Brackets.ofTable? g.symbols) g.generator g.sentence with
    | mk generator result => cases result <;> rfl
  · intro none other
    have same := derived.free none other
    simp only [advance, reseeded, same]
    cases derive g.rules (Brackets.ofTable? g.symbols) g.generator g.sentence with
    | mk generator result => cases result <;> rfl

theorem advanceBy_succ (g : Grammar) (count : Nat) : g.advanceBy (count + 1) =
    match g.advance.2 with
    | .ok () => g.advance.1.advanceBy count
    | .error e => (g.advance.1, .error e) := by
  rw [advanceBy]
  cases g.advance with
  | mk next reply => cases reply <;> rfl

theorem advanceBy_drawsIn (count : Nat) (g : Grammar) :
    DrawsIn (fun g => g.advanceBy count) g (g.drawnBy count) := by
  induction count generalizing g with
  | zero => exact .done _ g
  | succ count ih =>
      have first := advance_drawsIn g
      rw [drawnBy]
      cases reply : g.advance.2 with
      | ok _ =>
          apply first.andThen (ih g.advance.1)
          intro h same
          simp only [advanceBy_succ, same, reply]
      | error e =>
          apply first.andThen (.done (.error e) _)
          intro h same
          simp only [advanceBy_succ, same, reply]

theorem advanceWith_drawsIn {α : Type} (submit : List Module → α × Option InterpretError)
    (g : Grammar) : DrawsIn (fun g => g.advanceWith submit) g g.drawn := by
  have first := advance_drawsIn g
  constructor
  · rw [← first.moved, advanceWith]
    cases g.advance with
    | mk next reply =>
        cases reply with
        | error e => rfl
        | ok _ =>
            dsimp only
            cases submit next.sentence with
            | mk answer refusal => cases refusal <;> rfl
  · intro none other
    have same := first.free none other
    simp only [advanceWith, same]
    cases g.advance with
    | mk next reply =>
        cases reply with
        | error e => rfl
        | ok _ =>
            dsimp only [reseeded]
            cases submit next.sentence with
            | mk answer refusal => cases refusal <;> rfl

theorem serve_drawsIn (r : Request) (g : Grammar) :
    DrawsIn (fun g => g.serve r) g (g.drawnServing r) := by
  cases r with
  | advance => exact advance_drawsIn g
  | advanceBy count => exact advanceBy_drawsIn count g
  | advanceWith submit =>
      have submitted := advanceWith_drawsIn submit g
      refine ⟨submitted.moved, ?_⟩
      intro none other
      simp only [serve, submitted.free none other]

theorem serveAll_drawsIn (requests : List Request) (g : Grammar) :
    DrawsIn (fun g => (g.serveAll requests, g.watch requests)) g (g.drawnAll requests) := by
  induction requests generalizing g with
  | nil => exact .done _ g
  | cons r rs ih =>
      have served := serve_drawsIn r g
      have rest := ih (g.serve r).1
      constructor
      · have later := rest.moved
        rw [served.moved, ← Function.iterate_add_apply, Nat.add_comm] at later
        exact later
      · intro none other
        rw [drawnAll] at none
        have first := served.free (by omega) other
        have later := rest.free (by omega) other
        dsimp only at first later ⊢
        rw [serveAll, watch, first]
        dsimp only
        rw [(Prod.mk.inj later).1, (Prod.mk.inj later).2]
        rfl

theorem watch_take (requests : List Request) (g : Grammar) (n : Nat) :
    (g.watch requests).take n = g.watch (requests.take n) := by
  induction requests generalizing g n with
  | nil => simp [watch]
  | cons r rs ih =>
      cases n with
      | zero => rfl
      | succ n => exact congrArg _ (ih (g.serve r).1 n)

/-- A grammar and its copy. -/
structure CopyAgrees (g : Grammar) : Prop where
  alike : Alike g g.copy
  /-- The generator tells how many numbers were drawn. -/
  moved : ∀ requests,
    (g.serveAll requests).generator = Generator.advance^[g.drawnAll requests] g.generator
  /-- The copy does the same up to the first request for which the original draws a number. -/
  agrees : ∀ requests n, g.drawnAll (requests.take n) = 0 →
    (g.copy.watch requests).take n = (g.watch requests).take n
  /-- Where rules leave no choice it always does. -/
  exclusive : Exclusive g.rules → ∀ requests, g.copy.watch requests = g.watch requests

-- Said of any generator, since a fork compared with its original would be worked out.
theorem reseeded_alike (g : Grammar) (other : Generator) : Alike g (g.reseeded other) :=
  ⟨rfl, rfl, rfl, rfl⟩

theorem copy_eq (g : Grammar) : g.copy = g.reseeded g.generator.fork := by
  rw [copy, reseeded]

theorem copy_agrees (g : Grammar) : CopyAgrees g where
  alike := by
    rw [copy_eq]
    exact reseeded_alike g _
  moved := fun requests => (serveAll_drawsIn requests g).moved
  agrees := by
    intro requests n none
    have same := (serveAll_drawsIn (requests.take n) g).free none g.generator.fork
    rw [watch_take, watch_take, copy_eq]
    exact congrArg Prod.snd same
  exclusive := by
    intro exclusive requests
    rw [copy_eq]
    exact watch_alike (follows_of_exclusive exclusive) (reseeded_alike g _) requests

theorem copy_agrees_chosen :
    ∃ g : Grammar, ofTexts "A" ["A -> B", "A -> C", "B -> B B", "C -> C"] = .ok g ∧
      g.drawnAll [.advance] = 1 ∧
      (g.serveAll [.advance]).copy.watch [.advance, .advanceBy 2] =
        (g.serveAll [.advance]).watch [.advance, .advanceBy 2] := by
  have facts : (ofTexts "A" ["A -> B", "A -> C", "B -> B B", "C -> C"]).toOption.map (fun g =>
      (g.drawnAll [.advance], (g.serveAll [.advance]).drawnAll [.advance, .advanceBy 2])) =
      some (1, 0) := by decide +kernel
  obtain ⟨g, built⟩ : ∃ g, ofTexts "A" ["A -> B", "A -> C", "B -> B B", "C -> C"] = .ok g :=
    exists_of_isOk (by decide +kernel)
  rw [built] at facts
  obtain ⟨chosen, settled⟩ := Prod.mk.inj (Option.some.inj facts)
  have agrees := (copy_agrees (g.serveAll [.advance])).agrees [.advance, .advanceBy 2] 2 settled
  exact ⟨g, built, chosen, agrees⟩

/-- A grammar that has chosen once and chooses again: its copy chooses otherwise. -/
theorem watch_copy_ne :
    ∃ g : Grammar, ofTexts "A" ["A -> A B", "A -> A C"] = .ok g ∧
      (g.serveAll [.advance]).copy.watch [.advance] ≠ (g.serveAll [.advance]).watch [.advance] := by
  have facts : (ofTexts "A" ["A -> A B", "A -> A C"]).toOption.map (fun g =>
      ((g.serveAll [.advance]).copy.advance.1.sentence,
        (g.serveAll [.advance]).advance.1.sentence)) =
      some ([⟨0, []⟩, ⟨2, []⟩, ⟨1, []⟩], [⟨0, []⟩, ⟨1, []⟩, ⟨1, []⟩]) := by
    decide +kernel
  obtain ⟨g, built⟩ : ∃ g, ofTexts "A" ["A -> A B", "A -> A C"] = .ok g :=
    exists_of_isOk (by decide +kernel)
  rw [built] at facts
  obtain ⟨copied, original⟩ := Prod.mk.inj (Option.some.inj facts)
  refine ⟨g, built, ?_⟩
  intro same
  have seen := congrArg (List.map Sight.sentence) same
  simp only [watch, serve, List.map_cons, List.map_nil, copied, original] at seen
  exact absurd seen (by decide)

end Arbor.Grammar
