import Arbor.Proofs.Grammar.Requests

/-!
# Generations that fail

A generation that cannot be derived, or that is refused, leaves the sentence and the generation as
they were.  The numbers that were drawn for it stay drawn.  So nobody can tell that it was tried
where rules leave no choice; where they leave one, the next attempt may choose otherwise.
-/

set_option autoImplicit false

namespace Arbor.Grammar

theorem advanceWith_failed {α : Type} {g : Grammar}
    {submit : List Module → α × Option InterpretError} {cause : Fault}
    (failed : (g.advanceWith submit).2.result = .error cause) :
    (g.advanceWith submit).1 = { g with
      generator := (derive g.rules (Brackets.ofTable? g.symbols) g.generator g.sentence).1 } := by
  unfold advanceWith advance at failed ⊢
  cases derived : derive g.rules (Brackets.ofTable? g.symbols) g.generator g.sentence with
  | mk generator result =>
      cases result with
      | error e => rfl
      | ok sentence =>
          rw [derived] at failed
          dsimp only at failed ⊢
          split at failed
          · exact nomatch failed
          · rfl

/-- A grammar after a failed generation is the one before it, but for its generator; and where the
next sentence is a function of the sentence, it does ever after what the one before would do. -/
theorem watch_after_failure {α : Type} (g : Grammar)
    (submit : List Module → α × Option InterpretError) (cause : Fault)
    (failed : (g.advanceWith submit).2.result = .error cause) :
    (g.advanceWith submit).1 = { g with
      generator := (derive g.rules (Brackets.ofTable? g.symbols) g.generator g.sentence).1 } ∧
    ∀ next, g.Follows next → ∀ requests : List Request,
      (g.advanceWith submit).1.watch requests = g.watch requests := by
  have restored := advanceWith_failed failed
  refine ⟨restored, ?_⟩
  intro next follows requests
  apply watch_alike follows
  rw [restored]
  exact ⟨rfl, rfl, rfl, rfl⟩

def accept (sentence : List Module) : Nat × Option InterpretError := (sentence.length, none)

def refuse (_ : List Module) : Unit × Option InterpretError := ((), some (.unbalancedBranch 0))

theorem watch_after_failure_unmatched :
    ∃ g : Grammar, ofTexts "F ]" ["F -> [ F"] = .ok g ∧ Exclusive g.rules ∧
      (g.advanceWith accept).2.result = .error (.derive (.brackets (.unmatched 1))) ∧
      ∀ requests : List Request, (g.advanceWith accept).1.watch requests = g.watch requests := by
  have facts : (ofTexts "F ]" ["F -> [ F"]).toOption.map (fun g =>
      (g.rules.map Rule.predecessor, (g.advanceWith accept).2.result)) =
      some ([⟨0, 0⟩], .error (.derive (.brackets (.unmatched 1)))) := by decide +kernel
  obtain ⟨g, built⟩ : ∃ g, ofTexts "F ]" ["F -> [ F"] = .ok g := exists_of_isOk (by decide +kernel)
  rw [built] at facts
  obtain ⟨predecessors, failed⟩ := Prod.mk.inj (Option.some.inj facts)
  have exclusive : Exclusive g.rules :=
    exclusive_of_nodup (by rw [predecessors]; exact List.nodup_singleton _)
  obtain ⟨_, unseen⟩ := watch_after_failure g accept _ failed
  exact ⟨g, built, exclusive, failed, unseen _ (follows_of_exclusive exclusive)⟩

/-- Two rules for one symbol: after a refusal the next attempt draws other numbers. -/
theorem watch_after_refusal_ne :
    ∃ g : Grammar, ofTexts "A A" ["A -> B", "A -> C"] = .ok g ∧
      (g.advanceWith refuse).2.result = .error (.interpret (.unbalancedBranch 0)) ∧
      (g.advanceWith refuse).1.watch [.advance] ≠ g.watch [.advance] := by
  have facts : (ofTexts "A A" ["A -> B", "A -> C"]).toOption.map (fun g =>
      ((g.advanceWith refuse).2.result, (g.advanceWith refuse).1.advance.1.sentence,
        g.advance.1.sentence)) =
      some (.error (.interpret (.unbalancedBranch 0)), [⟨2, []⟩, ⟨2, []⟩], [⟨1, []⟩, ⟨1, []⟩]) := by
    decide +kernel
  obtain ⟨g, built⟩ : ∃ g, ofTexts "A A" ["A -> B", "A -> C"] = .ok g :=
    exists_of_isOk (by decide +kernel)
  rw [built] at facts
  obtain ⟨refused, sentences⟩ := Prod.mk.inj (Option.some.inj facts)
  obtain ⟨later, first⟩ := Prod.mk.inj sentences
  refine ⟨g, built, refused, ?_⟩
  intro same
  have seen := congrArg (List.map Sight.sentence) same
  simp only [watch, serve, List.map_cons, List.map_nil, later, first] at seen
  exact absurd seen (by decide)

end Arbor.Grammar
