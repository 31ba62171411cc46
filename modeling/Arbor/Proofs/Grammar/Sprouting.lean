import Arbor.Proofs.Grammar.Replacement
import Arbor.Proofs.Turtle.Groups

/-!
# Rules that only sprout

The successors of a sprouting rule are its predecessor, with the parameters that it has, and bracket
groups after it.  Under such rules a generation keeps every module of the last one and puts groups
in between.
-/

set_option autoImplicit false

namespace Arbor.Grammar

open Turtle (Groups Sprouted)

/-- The first successor is the predecessor, whatever its parameters are, and the others are
groups. -/
structure Rule.Sprouts (symbols : SymbolTable) (r : Rule) (head : Template)
    (groups : List Template) : Prop where
  successors_eq : r.successors = head :: groups
  symbol_eq : head.symbol = r.predecessor.symbol
  copies : ∀ frame params, r.predecessor.arity ≤ frame.length →
    Formula.values frame head.params = .ok params → params = frame.take r.predecessor.arity
  spelled : Groups (groups.map fun t => symbols.name t.symbol)

theorem instantiate_cons_eq_ok {frame : List Float} {t : Template} {ts : List Template}
    {ms : List Module} (made : instantiate frame (t :: ts) = .ok ms) :
    ∃ params rest, Formula.values frame t.params = .ok params ∧
      instantiate frame ts = .ok rest ∧ ms = ⟨t.symbol, params⟩ :: rest := by
  rw [instantiate] at made
  split at made
  · exact nomatch made
  · next params valued =>
      obtain ⟨rest, instantiated, made⟩ := exists_of_bind_eq_ok made
      cases made
      exact ⟨params, rest, valued, instantiated, rfl⟩

theorem spelling_instantiate (symbols : SymbolTable) (frame : List Float) (ts : List Template)
    (ms : List Module) (made : instantiate frame ts = .ok ms) :
    symbols.spelling ms = ts.map fun t => symbols.name t.symbol := by
  induction ts generalizing ms with
  | nil =>
      cases made
      rfl
  | cons t ts ih =>
      obtain ⟨params, rest, _, instantiated, rfl⟩ := instantiate_cons_eq_ok made
      rw [SymbolTable.spelling, List.map_cons, List.map_cons, ← ih rest instantiated]
      rfl

theorem Rule.Sprouts.sprouted {symbols : SymbolTable} {r : Rule} {head : Template}
    {groups : List Template} (sprouts : r.Sprouts symbols head groups) {m : Module}
    {ms : List Module} (makes : r.Makes m ms) : Sprouted symbols m ms := by
  obtain ⟨symbol, arity, context, made⟩ := makes
  rw [sprouts.successors_eq] at made
  obtain ⟨params, rest, valued, instantiated, rfl⟩ := instantiate_cons_eq_ok made
  have framed : r.predecessor.arity ≤ (m.params ++ context).length := by
    rw [arity, List.length_append]
    omega
  have same := sprouts.copies _ params framed valued
  rw [arity, List.take_left] at same
  refine ⟨rest, ?_, ?_⟩
  · rw [same, sprouts.symbol_eq, symbol]
  · rw [spelling_instantiate symbols _ groups rest instantiated]
    exact sprouts.spelled

/-- Under rules that sprout a generation puts groups after the modules of the last one. -/
theorem advance_sprouted {g next : Grammar} (advanced : g.advance = (next, .ok ()))
    (sprouts : ∀ r ∈ g.rules, ∃ head groups, r.Sprouts g.symbols head groups) :
    ∃ parts, List.Forall₂ (Sprouted g.symbols) g.sentence parts ∧
      next.sentence = parts.flatten := by
  unfold advance at advanced
  split at advanced
  · next generator sentence derived =>
      cases advanced
      obtain ⟨parts, replaced, flat⟩ := derive_replaced g.rules _ _ _ _ _ derived
      refine ⟨parts, replaced.imp ?_, flat⟩
      intro m part replaced
      rcases replaced with rfl | ⟨r, listed, makes⟩
      · exact ⟨[], rfl, .nil⟩
      · obtain ⟨head, groups, sprout⟩ := sprouts r listed
        exact sprout.sprouted makes
  · exact nomatch advanced

/-! ## Parameters that are copied by name -/

theorem values_slots (frame : List Float) (places : List Nat) :
    Formula.values frame (places.map .slot) = .ok (places.map fun place => frame.getD place 0) := by
  induction places with
  | nil => rfl
  | cons place places ih =>
      rw [List.map_cons, Formula.values, ih]
      rfl

/-- A head that repeats the names of the predecessor copies its parameters. -/
theorem copies_of_slots (arity : Nat) (frame params : List Float) (enough : arity ≤ frame.length)
    (valued : Formula.values frame ((List.range arity).map .slot) = .ok params) :
    params = frame.take arity := by
  rw [values_slots, Except.ok.injEq] at valued
  rw [← valued]
  apply List.ext_getElem
  · rw [List.length_map, List.length_range, List.length_take, Nat.min_eq_left enough]
  · intro i small inside
    rw [List.length_map, List.length_range] at small
    rw [List.getElem_map, List.getElem_range, List.getElem_take]
    exact (List.getElem_eq_getD 0).symm

end Arbor.Grammar
