import Arbor.Proofs.Grammar.Symbols

/-!
# Texts that are refused

Each rule of a grammar is judged on its own, and so is the axiom.  Names that earlier rules have
numbered change the numbers in a rule, but not what is wrong with it.  So a grammar is refused for
what is wrong with its first bad rule, and for its axiom only when no rule is bad.
-/

set_option autoImplicit false

namespace Arbor

section Results
variable {ε α β : Type}

/-- Why there is no result, if there is none. -/
def refusal : Except ε α → Option ε
  | .ok _ => none
  | .error e => some e

theorem refusal_bind {x : Except ε α} {f : α → Except ε β} {later : Option ε}
    (rest : ∀ a, x = .ok a → refusal (f a) = later) : refusal (x >>= f) = (refusal x).or later := by
  cases x with
  | error e => rfl
  | ok a => exact rest a rfl

theorem refusal_bind_pure (x : Except ε α) (f : α → β) :
    refusal (x >>= fun a => pure (f a)) = refusal x := by
  cases x <;> rfl

theorem refusal_bind_congr {x : Except ε α} {f f' : α → Except ε β}
    (rest : ∀ a, refusal (f a) = refusal (f' a)) : refusal (x >>= f) = refusal (x >>= f') := by
  cases x with
  | error e => rfl
  | ok a => exact rest a

theorem refusal_then (x : Except ε α) (y : Except ε β) :
    refusal (x >>= fun _ => y) = (refusal x).or (refusal y) :=
  refusal_bind fun _ _ => rfl

theorem refusal_ite (p : Prop) [Decidable p] (x y : Except ε α) :
    refusal (if p then x else y) = if p then refusal x else refusal y :=
  apply_ite refusal p x y

theorem refusal_mapError {ε' : Type} (x : Except ε α) (f : ε → ε') :
    refusal (x.mapError f) = (refusal x).map f := by
  cases x <;> rfl

end Results

theorem SymbolTable.internAll_length (t : SymbolTable) (names : List String) :
    (t.internAll names).2.length = names.length := by
  induction names generalizing t with
  | nil => rfl
  | cons name names ih => exact congrArg (· + 1) (ih (t.intern name).1)

namespace Grammar

theorem map_fst_zip_internAll (symbols : SymbolTable) (ms : List ModuleText) :
    (ms.zip (symbols.internAll (ms.map ModuleText.name)).2).map Prod.fst = ms :=
  List.map_fst_zip (by simp [SymbolTable.internAll_length])

theorem Rule.refusal_templates (names : List String) (ms : List (ModuleText × Nat)) :
    refusal (templates names ms) = (ms.map Prod.fst).findSome? fun m =>
      refusal (compiled (Formula.ofExpressions names m.params)) := by
  induction ms with
  | nil => rfl
  | cons m ms ih =>
      have rest (params : List Formula) := (refusal_bind_pure (templates names ms)
        fun ts => Template.mk m.2 params :: ts).trans ih
      refine (refusal_bind fun params _ => rest params).trans ?_
      rw [List.map_cons, List.findSome?_cons]
      cases refusal (compiled (Formula.ofExpressions names m.1.params)) <;> rfl

theorem refusal_axiomModules (ms : List (ModuleText × Nat)) :
    refusal (axiomModules ms) = (ms.map Prod.fst).findSome? fun m =>
      refusal (constants m.params) := by
  induction ms with
  | nil => rfl
  | cons m ms ih =>
      have rest (params : List Float) := (refusal_bind_pure (axiomModules ms)
        fun rest => Module.mk m.2 params :: rest).trans ih
      refine (refusal_bind fun params _ => rest params).trans ?_
      rw [List.map_cons, List.findSome?_cons]
      cases refusal (constants m.1.params) <;> rfl

/-- What is wrong with a rule does not depend on the symbols that have numbers already. -/
theorem Rule.refusal_ofText (symbols symbols' : SymbolTable) (t : RuleText) :
    refusal (ofText symbols t) = refusal (ofText symbols' t) := by
  unfold ofText
  refine refusal_bind_congr ?_
  intro names
  dsimp only
  -- A rule without a condition has nothing to compile in its place, and is otherwise the same.
  cases t.condition
  all_goals
    refine refusal_bind_congr ?_
    intro condition
    rw [refusal_bind_pure, refusal_bind_pure, refusal_templates, refusal_templates,
      map_fst_zip_internAll, map_fst_zip_internAll]

def ruleFault? (text : String) : Option GrammarError := refusal (ofTexts "" [text])

def axiomFault? (text : String) : Option GrammarError := refusal (ofTexts text [])

theorem refusal_ofTexts_eq (axiomText : String) (ruleTexts : List String) :
    refusal (ofTexts axiomText ruleTexts) = (refusal (addRules .empty [] ruleTexts)).or
      (match axiomOfText? axiomText with
        | none => some (.unreadable axiomText)
        | some ms => ms.findSome? fun m => refusal (constants m.params)) := by
  unfold ofTexts
  refine refusal_bind ?_
  rintro ⟨symbols, rules⟩ _
  dsimp only
  cases axiomOfText? axiomText with
  | none => rfl
  | some ms =>
      dsimp only
      rw [refusal_bind_pure, refusal_axiomModules, map_fst_zip_internAll]

theorem ruleFault?_eq (text : String) :
    ruleFault? text = match RuleText.ofText? text with
      | none => some (.unreadable text)
      | some t => refusal (Rule.ofText .empty t) := by
  have empty : axiomOfText? "" = some [] := rfl
  rw [ruleFault?, refusal_ofTexts_eq, empty]
  dsimp only [List.findSome?_nil]
  rw [Option.or_none]
  unfold addRules
  cases RuleText.ofText? text with
  | none => rfl
  | some t => exact refusal_bind_pure (Rule.ofText .empty t) fun made => (made.1, [made.2])

theorem refusal_addRules (texts : List String) (symbols : SymbolTable) (rules : List Rule) :
    refusal (addRules symbols rules texts) = texts.findSome? ruleFault? := by
  induction texts generalizing symbols rules with
  | nil => rfl
  | cons text texts ih =>
      unfold addRules
      rw [List.findSome?_cons, ruleFault?_eq]
      cases RuleText.ofText? text with
      | none => rfl
      | some t =>
          dsimp only
          rw [refusal_bind fun made _ => ih made.1 (rules ++ [made.2]),
            Rule.refusal_ofText symbols .empty]
          cases refusal (Rule.ofText .empty t) <;> rfl

/-- A grammar is refused for its first bad rule, else for its axiom. -/
theorem refusal_ofTexts (axiomText : String) (ruleTexts : List String) :
    refusal (ofTexts axiomText ruleTexts) =
      (ruleTexts.findSome? ruleFault?).or (axiomFault? axiomText) := by
  rw [axiomFault?, refusal_ofTexts_eq axiomText ruleTexts, refusal_ofTexts_eq axiomText [],
    refusal_addRules]
  rfl

end Grammar

end Arbor
