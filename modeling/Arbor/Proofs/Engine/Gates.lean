import Arbor.Config.Codec
import Arbor.Proofs.Engine.Building
import Arbor.Proofs.Grammar.Acceptance
import Arbor.Proofs.Number.Single

/-!
# Configurations that are refused

A configuration can be validated, read from its JSON, or given to a tree or a plant.  Each of these
refuses the same configurations and says the same of them: what is wrong with the first of its
values that is bad, every value being judged without the others.  Whatever passes is never refused
by a later step of building an engine.
-/

set_option autoImplicit false

namespace Arbor

open Turtle (Interpreter)

def sizeFault? (setting : Setting) (value : Float32) : Option ConfigError :=
  if ¬ value.isFinite then some (.nonFinite setting value)
  else if value ≤ 0 then some (.nonPositive setting value)
  else none

theorem refusal_checkSize (setting : Setting) (value : Float32) :
    refusal (checkSize setting value) = sizeFault? setting value := by
  rw [checkSize, sizeError, sizeFault?]
  by_cases finite : value.isFinite = true
  · have sized : Number.IsSize value ↔ ¬ value ≤ 0 := by
      rw [Number.isSize_iff, Number.le_iff_real_le finite rfl, Number.real_zero, not_le]
      exact and_iff_right finite
    by_cases above : value ≤ 0 <;> simp [sized, above, finite, refusal]
  · have unsized : ¬ Number.IsSize value := fun sized => finite sized.1
    simp [unsized, finite, refusal]

theorem Turtle.Settings.refusal_validate (s : Turtle.Settings) :
    refusal s.validate = (sizeFault? .segmentLength s.stepLength).or
      ((sizeFault? .segmentThickness s.thickness).or
        ((if s.angle.isFinite then none else some (.nonFinite .angle s.angle)).or
          (if s.maxStackDepth = 0 then some .zeroStackDepth else none))) := by
  rw [validate, refusal_then, refusal_then, refusal_then, refusal_checkSize, refusal_checkSize,
    checkFinite, refusal_ite, refusal_ite]
  rfl

theorem findSome?_id_cons {α : Type} (o : Option α) (os : List (Option α)) :
    (o :: os).findSome? id = o.or (os.findSome? id) := by
  cases o <;> rfl

namespace Config

/-- What is wrong with each value of a configuration, judged without the others, in the order in
which they are looked at. -/
def faults (c : Config) : List (Option ConfigError) :=
  [sizeFault? .segmentLength c.segmentLength,
    sizeFault? .segmentThickness c.segmentThickness,
    if c.angle.isFinite then none else some (.nonFinite .angle c.angle),
    if c.maxStackDepth = 0 then some .zeroStackDepth else none,
    sizeFault? .growthFactor c.growthFactor] ++
  c.rules.map (fun rule => (Grammar.ruleFault? rule).map .grammar) ++
  [(Grammar.axiomFault? c.axiomText).map .grammar]

def firstFault? (c : Config) : Option ConfigError := c.faults.findSome? id

theorem refusal_grammar (c : Config) :
    refusal c.grammar =
      (c.rules.findSome? fun rule => (Grammar.ruleFault? rule).map .grammar).or
        ((Grammar.axiomFault? c.axiomText).map .grammar) := by
  rw [grammar, refusal_mapError, Grammar.refusal_ofTexts, Option.map_or, List.map_findSome?]
  rfl

theorem refusal_validate (c : Config) : refusal c.validate = c.firstFault? := by
  rw [validate, refusal_then, refusal_then, refusal_bind_pure, Turtle.Settings.refusal_validate,
    refusal_checkSize, refusal_grammar]
  simp only [firstFault?, faults, List.cons_append, List.nil_append, findSome?_id_cons,
    List.findSome?_append, List.findSome?_map, List.findSome?_nil, Option.or_none, Option.or_assoc]
  rfl

theorem refusal_tree (c : Config) : refusal (Tree.ofConfig c) = refusal c.validate := by
  cases valid : c.validate with
  | error e => rw [Tree.ofConfig, Grower.ofConfig, valid]; rfl
  | ok _ =>
      obtain ⟨t, notices, _, built, _⟩ := exists_engines valid
      rw [built]
      rfl

theorem refusal_plant (c : Config) : refusal (Plant.ofConfig c) = refusal c.validate := by
  cases valid : c.validate with
  | error e => rw [Plant.ofConfig, Grower.ofConfig, valid]; rfl
  | ok _ =>
      obtain ⟨_, _, p, _, built, _⟩ := exists_engines valid
      rw [built]
      rfl

theorem validate_of_ofText {text : String} {c : Config} (read : ofText text = .ok c) :
    c.validate = .ok () := by
  unfold ofText at read
  split at read
  · exact nomatch read
  · next c' _ =>
      obtain ⟨_, valid, kept⟩ := exists_of_bind_eq_ok read
      cases kept
      exact valid

/-- The ways of accepting a configuration agree. -/
structure Gates (c : Config) : Prop where
  validate_eq : refusal c.validate = c.firstFault?
  tree_eq : refusal (Tree.ofConfig c) = c.firstFault?
  plant_eq : refusal (Plant.ofConfig c) = c.firstFault?
  /-- After validation no step of building an engine can fail. -/
  later : c.validate = .ok () → ∃ grammar interpreter factor, c.grammar = .ok grammar ∧
    Interpreter.standard c.settings grammar.symbols = .ok interpreter ∧
    GrowthFactor.ofValue c.growthFactor = .ok factor
  /-- What is read from a text can be built. -/
  read : ∀ text, ofText text = .ok c → ∃ tree notices plant,
    Tree.ofConfig c = .ok (tree, notices) ∧ Plant.ofConfig c = .ok plant

theorem gates_agree (c : Config) : Gates c where
  validate_eq := refusal_validate c
  tree_eq := (refusal_tree c).trans (refusal_validate c)
  plant_eq := (refusal_plant c).trans (refusal_validate c)
  later := by
    intro valid
    obtain ⟨_, _, _, built, _⟩ := exists_engines valid
    unfold Tree.ofConfig at built
    obtain ⟨_, grower, built⟩ := exists_of_bind_eq_ok built
    obtain ⟨factor, sized, _⟩ := exists_of_bind_eq_ok built
    unfold Grower.ofConfig at grower
    obtain ⟨_, _, grower⟩ := exists_of_bind_eq_ok grower
    obtain ⟨grammar, derived, grower⟩ := exists_of_bind_eq_ok grower
    obtain ⟨interpreter, reads, _⟩ := exists_of_bind_eq_ok grower
    exact ⟨grammar, interpreter, factor, derived, reads, sized⟩
  read := by
    intro text read
    obtain ⟨tree, notices, plant, treeBuilt, plantBuilt, _⟩ :=
      exists_engines (validate_of_ofText read)
    exact ⟨tree, notices, plant, treeBuilt, plantBuilt⟩

/-- A configuration in which all values but the first are bad. -/
def spoiled : Config where
  axiomText := "F(x)"
  rules := ["F -> G", "F(1) -> F", "F(x"]
  segmentLength := 0.5
  segmentThickness := -1
  angle := 1 / 0
  growthFactor := 0
  maxIterations := 5
  heading := .planar
  underflow := .reject
  maxStackDepth := 0

/-- A configuration with nothing in it that has a default. -/
def bareText : String :=
  "\x7b\"axiom\": \"F\", \"segment_length\": 1, \"angle\": 0, \"max_iterations\": 2\x7d"

theorem gates_agree_spoiled :
    refusal (Plant.ofConfig spoiled) = some (.nonPositive .segmentThickness (-1)) ∧
    ∃ c, ofText bareText = .ok c ∧ ∃ tree notices plant,
      Tree.ofConfig c = .ok (tree, notices) ∧ Plant.ofConfig c = .ok plant := by
  refine ⟨(gates_agree spoiled).plant_eq.trans (by decide +kernel), ?_⟩
  obtain ⟨c, read⟩ : ∃ c, ofText bareText = .ok c := exists_of_isOk (by decide +kernel)
  exact ⟨c, read, (gates_agree c).read bareText read⟩

example : refusal { tree with rules := ["F -> F", "F(x", "F ->> F"] }.validate =
    some (.grammar (.unreadable "F(x")) := by
  decide +kernel

end Config

end Arbor
