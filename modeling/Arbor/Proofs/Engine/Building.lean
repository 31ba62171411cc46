import Arbor.Engine.Stage
import Arbor.Proofs.Grammar.Symbols

/-!
# Engines as they are built

A configuration that is accepted gives a grower at its axiom: no generation is derived yet, nothing
has stopped it, and its symbols have their standard meanings.  A tree begins without branches, a
plant without lines and a spinner without its sphere.
-/

set_option autoImplicit false

namespace Arbor

theorem Config.grammar_eq_ok {c : Config} {g : Grammar} (built : c.grammar = .ok g) :
    Grammar.ofTexts c.axiomText c.rules = .ok g := by
  unfold Config.grammar at built
  cases parsed : Grammar.ofTexts c.axiomText c.rules with
  | error e =>
      rw [parsed] at built
      exact nomatch built
  | ok g' =>
      rw [parsed] at built
      cases built
      rfl

theorem Turtle.Interpreter.standard_eq (settings : Turtle.Settings) (symbols : SymbolTable)
    (i : Turtle.Interpreter) (built : Turtle.Interpreter.standard settings symbols = .ok i) :
    i = ⟨settings, Turtle.OperationTable.standard symbols⟩ := by
  unfold Turtle.Interpreter.standard Turtle.Interpreter.new at built
  obtain ⟨empty, new, built⟩ := exists_of_bind_eq_ok built
  obtain ⟨_, _, new⟩ := exists_of_bind_eq_ok new
  cases new
  cases built
  rfl

theorem Grower.settings_valid {c : Config} {g : Grower} (built : Grower.ofConfig c = .ok g) :
    c.settings.validate = .ok () := by
  unfold Grower.ofConfig at built
  obtain ⟨_, valid, _⟩ := exists_of_bind_eq_ok built
  unfold Config.validate at valid
  obtain ⟨_, settings, _⟩ := exists_of_bind_eq_ok valid
  exact settings

theorem checkFinite_ok {setting : Setting} {value : Float32} {u : Unit}
    (checked : checkFinite setting value = .ok u) : value.isFinite = true := by
  unfold checkFinite at checked
  split at checked
  · assumption
  · exact nomatch checked

theorem GrowthFactor.value_of_ofValue {value : Float32} {factor : GrowthFactor}
    (built : GrowthFactor.ofValue value = .ok factor) : factor.value = value := by
  unfold GrowthFactor.ofValue at built
  split at built
  · cases built
    rfl
  · exact nomatch built

structure Grower.Starts (c : Config) (g : Grower) : Prop where
  grammar_eq : c.grammar = .ok g.grammar
  interpreter_eq : g.interpreter =
    ⟨c.settings, Turtle.OperationTable.standard g.grammar.symbols⟩
  maxIterations_eq : g.maxIterations = c.maxIterations
  fault_eq : g.fault = none
  generation_eq : g.grammar.generation = 0

theorem Grower.ofConfig_starts (c : Config) (g : Grower) (built : Grower.ofConfig c = .ok g) :
    Grower.Starts c g := by
  unfold Grower.ofConfig at built
  obtain ⟨_, _, built⟩ := exists_of_bind_eq_ok built
  obtain ⟨grammar, derived, built⟩ := exists_of_bind_eq_ok built
  obtain ⟨interpreter, reads, built⟩ := exists_of_bind_eq_ok built
  cases built
  obtain ⟨_, _, _, _, _, _, _, counter⟩ :=
    Grammar.ofTexts_eq_ok (Config.grammar_eq_ok derived)
  exact ⟨derived, Turtle.Interpreter.standard_eq _ _ _ reads, rfl, rfl,
    congrArg UInt32.toNat counter⟩

theorem Tree.ofConfig_eq (c : Config) (t : Tree) (notices : List Notice)
    (built : Tree.ofConfig c = .ok (t, notices)) :
    Grower.Starts c t.grower ∧ t.canopy = .empty ∧
      GrowthFactor.ofValue c.growthFactor = .ok t.factor := by
  unfold Tree.ofConfig at built
  obtain ⟨grower, growerBuilt, built⟩ := exists_of_bind_eq_ok built
  obtain ⟨factor, factorBuilt, built⟩ := exists_of_bind_eq_ok built
  cases built
  exact ⟨Grower.ofConfig_starts c grower growerBuilt, rfl, factorBuilt⟩

theorem Tree.settings_valid {c : Config} {t : Tree} {notices : List Notice}
    (built : Tree.ofConfig c = .ok (t, notices)) : c.settings.validate = .ok () := by
  unfold Tree.ofConfig at built
  obtain ⟨_, growerBuilt, _⟩ := exists_of_bind_eq_ok built
  exact Grower.settings_valid growerBuilt

theorem Plant.ofConfig_eq (c : Config) (p : Plant) (built : Plant.ofConfig c = .ok p) :
    Grower.Starts c p.grower ∧ p.segments = [] ∧ p.handles = [] := by
  unfold Plant.ofConfig at built
  obtain ⟨grower, growerBuilt, built⟩ := exists_of_bind_eq_ok built
  cases built
  exact ⟨Grower.ofConfig_starts c grower growerBuilt, rfl, rfl⟩

theorem Config.exists_engines {c : Config} (valid : c.validate = .ok ()) :
    ∃ t notices p, Tree.ofConfig c = .ok (t, notices) ∧ Plant.ofConfig c = .ok p ∧
      p.grower = t.grower := by
  have checks := valid
  unfold Config.validate at checks
  obtain ⟨_, settings, checks⟩ := exists_of_bind_eq_ok checks
  obtain ⟨_, size, checks⟩ := exists_of_bind_eq_ok checks
  obtain ⟨grammar, derived, _⟩ := exists_of_bind_eq_ok checks
  have isSize : Number.IsSize c.growthFactor := by
    by_contra unsized
    rw [checkSize, if_neg unsized] at size
    exact nomatch size
  have reads : Turtle.Interpreter.standard c.settings grammar.symbols =
      .ok ⟨c.settings, .standard grammar.symbols⟩ := by
    rw [Turtle.Interpreter.standard, Turtle.Interpreter.new, settings]
    rfl
  have grower : Grower.ofConfig c =
      .ok ⟨grammar, ⟨c.settings, .standard grammar.symbols⟩, c.maxIterations, none⟩ := by
    unfold Grower.ofConfig
    rw [valid, derived]
    dsimp only [bind, Except.bind]
    rw [reads]
    rfl
  have factor : GrowthFactor.ofValue c.growthFactor = .ok ⟨c.growthFactor, isSize⟩ :=
    dif_pos isSize
  unfold Tree.ofConfig Plant.ofConfig
  rw [grower, factor]
  exact ⟨_, _, _, rfl, rfl, rfl⟩

theorem Spinner.new_eq (radius step : Float32) (s : Spinner)
    (built : Spinner.new radius step = .ok s) : s = ⟨radius, step, 0, none⟩ := by
  unfold Spinner.new at built
  obtain ⟨_, _, built⟩ := exists_of_bind_eq_ok built
  obtain ⟨_, _, built⟩ := exists_of_bind_eq_ok built
  cases built
  rfl

end Arbor
