import Arbor.Proofs.Grammar.Draws
import Arbor.Proofs.Grammar.Replacement

/-!
# Rules that leave no choice

A number is drawn where several rules apply to one module.  Where there is no such place, a
generation leaves the generator alone, and the next sentence is a function of the sentence.  Rules
of different predecessors are of this kind: no two of them have the symbol and the number of
parameters of one module.
-/

set_option autoImplicit false

namespace Arbor.Grammar

/-- To no module does more than one rule apply, whatever stands around it. -/
def Exclusive (rules : List Rule) : Prop :=
  ∀ (before : List MarkedModule) (m : Module) (after : List MarkedModule) (found : List Match),
    matches? before m after (rules.filter fun r => r.predecessor.symbol = m.symbol) = .ok found →
      found.length ≤ 1

section Exclusive
variable {rules : List Rule} (exclusive : Exclusive rules)
include exclusive

theorem drawnFrom_of_exclusive (g : Generator) (before after : List MarkedModule) :
    drawnFrom rules g before after = 0 := by
  induction after generalizing g before with
  | nil => rfl
  | cons m after ih =>
      rw [drawnFrom, drawnFor_eq_zero (exclusive before m.module after)]
      split
      · rfl
      · rw [ih]

theorem drawnIn_of_exclusive (brackets : Option Brackets) (g : Generator)
    (sentence : List Module) : drawnIn rules brackets g sentence = 0 := by
  unfold drawnIn
  split
  · rfl
  · exact drawnFrom_of_exclusive exclusive g [] _

theorem derive_of_exclusive (brackets : Option Brackets) (g g' : Generator)
    (sentence : List Module) :
    derive rules brackets g sentence = (g, (derive rules brackets g' sentence).2) :=
  (derive_draws rules brackets sentence g').free
    (drawnIn_of_exclusive exclusive brackets g' sentence) g

end Exclusive

theorem exclusive_of_nodup {rules : List Rule}
    (distinct : (rules.map Rule.predecessor).Nodup) : Exclusive rules := by
  intro before m after found matched
  have listed := sublist_of_matches? before m after _ found matched
  have predecessors : (found.map fun f => f.rule.predecessor).Nodup := by
    have sublist := (listed.trans List.filter_sublist).map Rule.predecessor
    rw [List.map_map] at sublist
    exact distinct.sublist sublist
  -- All that apply to the module have its symbol and its number of parameters.
  have same : ∀ f ∈ found, f.rule.predecessor = ⟨m.symbol, m.params.length⟩ := by
    intro f member
    obtain ⟨kept, applies⟩ := mem_matches? before m after _ found matched f member
    have symbol := of_decide_eq_true (List.mem_filter.mp kept).2
    have framed := f.rule.frame?_of_match? before m after f.frame applies
    have arity := (f.rule.frame?_eq_some before m after f.frame framed).1
    rw [← symbol, ← arity]
  have repeated := List.eq_replicate_of_mem (List.forall_mem_map.mpr same)
  rw [repeated, List.nodup_replicate, List.length_map] at predecessors
  exact predecessors

end Arbor.Grammar
