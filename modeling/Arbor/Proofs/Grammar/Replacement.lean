import Arbor.Proofs.Grammar.Symbols
import Mathlib.Data.List.Forall2

/-!
# One generation

A generation replaces each module either by the module itself or by what the successors of a rule
make of it; the rule has the symbol and the number of parameters of the module, and its frame begins
with them.  Which rule is drawn, and what its contexts find, does not matter here.
-/

set_option autoImplicit false

namespace Arbor.Grammar

/-- What a rule can make of a module. -/
def Rule.Makes (r : Rule) (m : Module) (ms : List Module) : Prop :=
  r.predecessor.symbol = m.symbol ∧ r.predecessor.arity = m.params.length ∧
    ∃ context, instantiate (m.params ++ context) r.successors = .ok ms

def Replaced (rules : List Rule) (m : Module) (ms : List Module) : Prop :=
  ms = [m] ∨ ∃ r ∈ rules, r.Makes m ms

/-! ## Rules that apply -/

theorem Rule.frame?_eq_some (r : Rule) (before : List MarkedModule) (m : Module)
    (after : List MarkedModule) (frame : List Float)
    (found : r.frame? before m after = some frame) :
    r.predecessor.arity = m.params.length ∧ ∃ context, frame = m.params ++ context := by
  unfold Rule.frame? at found
  obtain ⟨_, arity, found⟩ := Option.bind_eq_some_iff.mp found
  obtain ⟨left, _, found⟩ := Option.bind_eq_some_iff.mp found
  obtain ⟨right, _, found⟩ := Option.bind_eq_some_iff.mp found
  obtain ⟨_, _, result⟩ := Option.bind_eq_some_iff.mp found
  have same : m.params.length = r.predecessor.arity := by
    by_contra different
    rw [guard, if_neg different] at arity
    cases arity
  refine ⟨same.symm, paramsOf left.reverse ++ paramsOf right, ?_⟩
  rw [← Option.some.inj result, List.append_assoc]

theorem Rule.frame?_of_match? (r : Rule) (before : List MarkedModule) (m : Module)
    (after : List MarkedModule) (frame : List Float)
    (applies : r.match? before m after = .ok (some frame)) :
    r.frame? before m after = some frame := by
  unfold Rule.match? at applies
  split at applies
  · exact nomatch applies
  · next found _ => rw [found, Option.some.inj (Except.ok.inj applies)]
  · next found _ =>
      split at applies
      · split at applies
        · rw [found, Option.some.inj (Except.ok.inj applies)]
        · exact nomatch applies
      · exact nomatch applies

theorem mem_matches? (before : List MarkedModule) (m : Module) (after : List MarkedModule)
    (rules : List Rule) (applying : List Match)
    (matched : matches? before m after rules = .ok applying) :
    ∀ found ∈ applying, found.rule ∈ rules ∧
      found.rule.match? before m after = .ok (some found.frame) := by
  induction rules generalizing applying with
  | nil =>
      cases matched
      exact nofun
  | cons r rules ih =>
      rw [matches?] at matched
      obtain ⟨frame, applied, matched⟩ := exists_of_bind_eq_ok matched
      obtain ⟨others, rest, matched⟩ := exists_of_bind_eq_ok matched
      have older : ∀ found ∈ others, found.rule ∈ r :: rules ∧
          found.rule.match? before m after = .ok (some found.frame) := by
        intro found member
        obtain ⟨listed, applies⟩ := ih others rest found member
        exact ⟨List.mem_cons_of_mem r listed, applies⟩
      cases frame with
      | none =>
          cases matched
          exact older
      | some frame =>
          cases matched
          intro found member
          rcases List.mem_cons.mp member with rfl | member
          · exact ⟨List.mem_cons_self, applied⟩
          · exact older found member

theorem pick_mem (first : Match) (rest : List Match) (point : Float) :
    pick first rest point ∈ first :: rest := by
  induction rest generalizing first point with
  | nil => exact List.mem_cons_self
  | cons next rest ih =>
      rw [pick]
      split
      · exact List.mem_cons_self
      · exact List.mem_cons_of_mem first (ih next _)

theorem choose_mem (g : Generator) (applying : List Match) (g' : Generator) (chosen : Match)
    (chose : choose g applying = (g', some chosen)) : chosen ∈ applying := by
  unfold choose at chose
  dsimp only at chose
  split at chose
  · exact nomatch chose
  · split at chose
    · exact nomatch chose
    · cases chose
      exact List.mem_cons_self
    · cases chose
      exact pick_mem _ _ _

theorem select_spec (rules : List Rule) (g : Generator) (before : List MarkedModule) (m : Module)
    (after : List MarkedModule) (g' : Generator) (found : Match)
    (selected : select rules g before m after = (g', .ok (some found))) :
    found.rule ∈ rules ∧ found.rule.predecessor.symbol = m.symbol ∧
      found.rule.match? before m after = .ok (some found.frame) := by
  have filtered : ∀ r ∈ rules.filter (fun r => r.predecessor.symbol = m.symbol),
      r ∈ rules ∧ r.predecessor.symbol = m.symbol := by
    intro r member
    obtain ⟨listed, same⟩ := List.mem_filter.mp member
    exact ⟨listed, of_decide_eq_true same⟩
  unfold select at selected
  split at selected
  · exact nomatch selected
  · next r only =>
      rw [only] at filtered
      obtain ⟨listed, same⟩ := filtered r List.mem_cons_self
      split at selected
      · obtain ⟨_, result⟩ := Prod.mk.inj selected
        cases applied : r.match? before m after with
        | error e =>
            rw [applied] at result
            exact nomatch result
        | ok frame =>
            rw [applied] at result
            cases frame with
            | none => exact nomatch result
            | some frame =>
                cases result
                exact ⟨listed, same, applied⟩
      · exact nomatch selected
  · split at selected
    · exact nomatch selected
    · next applying matched =>
        cases chose : choose g applying with
        | mk g₁ chosen =>
            rw [chose] at selected
            cases selected
            have member := choose_mem g applying _ found chose
            obtain ⟨listed, applies⟩ := mem_matches? before m after _ applying matched found member
            obtain ⟨known, same⟩ := filtered found.rule listed
            exact ⟨known, same, applies⟩

theorem replace_replaced (rules : List Rule) (g : Generator) (before : List MarkedModule)
    (m : Module) (after : List MarkedModule) (g' : Generator) (ms : List Module)
    (replaced : replace rules g before m after = (g', .ok ms)) : Replaced rules m ms := by
  unfold replace at replaced
  split at replaced
  · exact nomatch replaced
  · cases replaced
    exact Or.inl rfl
  · next g₁ found selected =>
      obtain ⟨listed, same, applies⟩ := select_spec rules g before m after g₁ found selected
      have framed := found.rule.frame?_of_match? before m after found.frame applies
      obtain ⟨arity, context, frame_eq⟩ := found.rule.frame?_eq_some before m after _ framed
      have made := congrArg Prod.snd replaced
      rw [frame_eq] at made
      exact Or.inr ⟨found.rule, listed, same, arity, context, made⟩

/-! ## Sentences -/

theorem replaceFrom_replaced (rules : List Rule) (after : List MarkedModule) (g : Generator)
    (before : List MarkedModule) (made : List Module) (g' : Generator) (next : List Module)
    (derived : replaceFrom rules g before made after = (g', .ok next)) :
    ∃ parts, List.Forall₂ (Replaced rules) (after.map MarkedModule.module) parts ∧
      next = made.reverse ++ parts.flatten := by
  induction after generalizing g before made with
  | nil =>
      cases derived
      exact ⟨[], .nil, by simp⟩
  | cons m after ih =>
      rw [replaceFrom] at derived
      split at derived
      · exact nomatch derived
      · next g₁ ms replaced =>
          obtain ⟨parts, others, result⟩ := ih g₁ _ _ derived
          have first := replace_replaced rules g before m.module after g₁ ms replaced
          refine ⟨ms :: parts, .cons first others, ?_⟩
          rw [result, List.reverseAux_eq]
          simp

theorem size_marks (length : Nat) (pairs : List (Nat × Nat)) :
    (Brackets.marks length pairs).size = length := by
  have kept : ∀ (pairs : List (Nat × Nat)) (marks : Array Mark),
      (pairs.foldl Brackets.markPair marks).size = marks.size := by
    intro pairs
    induction pairs with
    | nil => intro marks; rfl
    | cons pair pairs ih =>
        intro marks
        rw [List.foldl_cons, ih]
        simp [Brackets.markPair]
  rw [Brackets.marks, kept, Array.size_replicate]

theorem map_module_of_mark (brackets : Option Brackets) (sentence : List Module)
    (marked : List MarkedModule) (result : mark brackets sentence = .ok marked) :
    marked.map MarkedModule.module = sentence := by
  cases brackets with
  | none =>
      cases result
      simp [Function.comp_def]
  | some b =>
      obtain ⟨pairs, _, result⟩ := exists_of_bind_eq_ok result
      cases result
      have lengths : sentence.length ≤ (Brackets.marks sentence.length pairs).toList.length :=
        Nat.le_of_eq (size_marks sentence.length pairs).symm
      rw [List.map_zipWith, ← List.map_uncurry_zip_eq_zipWith]
      exact List.map_fst_zip lengths

/-- Every module of a sentence is replaced by what a rule makes of it, or copied. -/
theorem derive_replaced (rules : List Rule) (brackets : Option Brackets) (g : Generator)
    (sentence : List Module) (g' : Generator) (next : List Module)
    (derived : derive rules brackets g sentence = (g', .ok next)) :
    ∃ parts, List.Forall₂ (Replaced rules) sentence parts ∧ next = parts.flatten := by
  unfold derive at derived
  split at derived
  · exact nomatch derived
  · next marked result =>
      have same := map_module_of_mark brackets sentence marked result
      rw [← same]
      exact replaceFrom_replaced rules marked g [] [] g' next derived

end Arbor.Grammar
