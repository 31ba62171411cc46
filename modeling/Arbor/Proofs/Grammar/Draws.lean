import Arbor.Proofs.Grammar.Symbols
import Mathlib.Logic.Function.Iterate

/-!
# Numbers that are drawn

A number is drawn for a module to which several rules apply, unless their weights add up to nothing.
`drawnFor` says whether one is drawn for a module, `drawnIn` how many a generation draws, up to the
module at which it fails if it does.

The generator moves on once for each number, and where none is drawn the result is that of any other
generator.  `Draws` says both, and is kept when one random step follows another.
-/

set_option autoImplicit false

namespace Arbor.Grammar

/-- A random step draws so many numbers from a generator. -/
structure Draws {α : Type} (step : Generator → Generator × α) (g : Generator) (count : Nat) :
    Prop where
  moved : (step g).1 = Generator.advance^[count] g
  free : count = 0 → ∀ other, step other = (other, (step g).2)

theorem Draws.done {α : Type} (a : α) (g : Generator) : Draws (fun g => (g, a)) g 0 where
  moved := rfl
  free := fun _ _ => rfl

theorem Draws.andThen {α β : Type} {first : Generator → Generator × α}
    {rest whole : Generator → Generator × β} {g : Generator} {m n : Nat}
    (drawn : Draws first g m) (drawn' : Draws rest (first g).1 n)
    (joined : ∀ other, (first other).2 = (first g).2 → whole other = rest (first other).1) :
    Draws whole g (m + n) where
  moved := by
    rw [joined g rfl, drawn'.moved, drawn.moved, ← Function.iterate_add_apply, Nat.add_comm]
  free := by
    intro none other
    have same := drawn.free (by omega) other
    rw [joined g rfl, joined other (by rw [same]), same]
    exact drawn'.free (by omega) other

theorem Draws.map {α β : Type} {step : Generator → Generator × α} {g : Generator} {count : Nat}
    (drawn : Draws step g count) (f : α → β) :
    Draws (fun g => ((step g).1, f (step g).2)) g count where
  moved := drawn.moved
  free := by
    intro none other
    rw [drawn.free none other]

def drawnAmong (found : List Match) : Nat :=
  if totalWeight found ≤ 0 then 0
  else match found with
    | _ :: _ :: _ => 1
    | _ => 0

theorem drawnAmong_of_length_le_one {found : List Match} (few : found.length ≤ 1) :
    drawnAmong found = 0 := by
  unfold drawnAmong
  match found, few with
  | [], _ => simp
  | [_], _ => simp

def drawnFor (rules : List Rule) (before : List MarkedModule) (m : Module)
    (after : List MarkedModule) : Nat :=
  match matches? before m after (rules.filter fun r => r.predecessor.symbol = m.symbol) with
  | .error _ => 0
  | .ok found => drawnAmong found

def drawnFrom (rules : List Rule) (g : Generator) (before : List MarkedModule) :
    List MarkedModule → Nat
  | [] => 0
  | m :: after =>
    drawnFor rules before m.module after +
      match (replace rules g before m.module after).2 with
      | .error _ => 0
      | .ok _ => drawnFrom rules (replace rules g before m.module after).1 (m :: before) after

def drawnIn (rules : List Rule) (brackets : Option Brackets) (g : Generator)
    (sentence : List Module) : Nat :=
  match mark brackets sentence with
  | .error _ => 0
  | .ok marked => drawnFrom rules g [] marked

theorem choose_draws (found : List Match) (g : Generator) :
    Draws (fun g => choose g found) g (drawnAmong found) := by
  unfold choose drawnAmong
  by_cases weightless : totalWeight found ≤ 0
  · simp only [weightless, if_true]
    exact .done none g
  · simp only [weightless, if_false]
    match found with
    | [] => exact .done none g
    | [only] => exact .done (some only) g
    | first :: second :: rest => exact ⟨rfl, fun none => nomatch none⟩

theorem sublist_of_matches? (before : List MarkedModule) (m : Module) (after : List MarkedModule)
    (rules : List Rule) (found : List Match)
    (matched : matches? before m after rules = .ok found) :
    List.Sublist (found.map Match.rule) rules := by
  induction rules generalizing found with
  | nil =>
      cases matched
      exact .slnil
  | cons r rules ih =>
      rw [matches?] at matched
      obtain ⟨frame, _, matched⟩ := exists_of_bind_eq_ok matched
      obtain ⟨others, rest, matched⟩ := exists_of_bind_eq_ok matched
      cases frame with
      | none =>
          cases matched
          exact (ih others rest).cons r
      | some frame =>
          cases matched
          exact (ih others rest).cons_cons r

theorem drawnFor_eq_zero {rules : List Rule} {before : List MarkedModule} {m : Module}
    {after : List MarkedModule}
    (few : ∀ found,
      matches? before m after (rules.filter fun r => r.predecessor.symbol = m.symbol) = .ok found →
        found.length ≤ 1) : drawnFor rules before m after = 0 := by
  unfold drawnFor
  split
  · rfl
  · next found matched => exact drawnAmong_of_length_le_one (few found matched)

theorem drawnFor_of_length_le_one {rules : List Rule} {before : List MarkedModule} {m : Module}
    {after : List MarkedModule}
    (few : (rules.filter fun r => r.predecessor.symbol = m.symbol).length ≤ 1) :
    drawnFor rules before m after = 0 := by
  apply drawnFor_eq_zero
  intro found matched
  have listed := (sublist_of_matches? before m after _ found matched).length_le
  rw [List.length_map] at listed
  omega

theorem select_draws (rules : List Rule) (before : List MarkedModule) (m : Module)
    (after : List MarkedModule) (g : Generator) :
    Draws (fun g => select rules g before m after) g (drawnFor rules before m after) := by
  unfold select
  split
  · next absent =>
      rw [drawnFor_of_length_le_one (by simp [absent])]
      exact .done _ g
  · next r only =>
      rw [drawnFor_of_length_le_one (by simp [only])]
      split
      · exact .done _ g
      · exact .done _ g
  · unfold drawnFor
    cases matches? before m after (rules.filter fun r => r.predecessor.symbol = m.symbol) with
    | error e => exact .done _ g
    | ok found => exact (choose_draws found g).map Except.ok

def placed (m : Module) : Except GrammarError (Option Match) → Except GrammarError (List Module)
  | .error e => .error e
  | .ok none => .ok [m]
  | .ok (some found) => instantiate found.frame found.rule.successors

theorem replace_eq (rules : List Rule) (g : Generator) (before : List MarkedModule) (m : Module)
    (after : List MarkedModule) : replace rules g before m after =
      ((select rules g before m after).1, placed m (select rules g before m after).2) := by
  unfold replace
  cases select rules g before m after with
  | mk g chosen =>
      cases chosen with
      | error e => rfl
      | ok found => cases found <;> rfl

theorem replace_draws (rules : List Rule) (before : List MarkedModule) (m : Module)
    (after : List MarkedModule) (g : Generator) :
    Draws (fun g => replace rules g before m after) g (drawnFor rules before m after) := by
  simp only [replace_eq]
  exact (select_draws rules before m after g).map (placed m)

theorem replaceFrom_cons (rules : List Rule) (g : Generator) (before : List MarkedModule)
    (made : List Module) (m : MarkedModule) (after : List MarkedModule) :
    replaceFrom rules g before made (m :: after) =
      match (replace rules g before m.module after).2 with
      | .error e => ((replace rules g before m.module after).1, .error e)
      | .ok ms => replaceFrom rules (replace rules g before m.module after).1 (m :: before)
          (ms.reverseAux made) after := by
  rw [replaceFrom]
  cases replace rules g before m.module after with
  | mk g result => cases result <;> rfl

theorem replaceFrom_draws (rules : List Rule) (after : List MarkedModule)
    (before : List MarkedModule) (made : List Module) (g : Generator) :
    Draws (fun g => replaceFrom rules g before made after) g (drawnFrom rules g before after) := by
  induction after generalizing before made g with
  | nil => exact .done _ g
  | cons m after ih =>
      have replaced := replace_draws rules before m.module after g
      rw [drawnFrom]
      cases result : (replace rules g before m.module after).2 with
      | error e =>
          apply replaced.andThen (.done (.error e) _)
          intro other same
          simp only [replaceFrom_cons, same, result]
      | ok ms =>
          apply replaced.andThen (ih (m :: before) (ms.reverseAux made) _)
          intro other same
          simp only [replaceFrom_cons, same, result]

theorem derive_draws (rules : List Rule) (brackets : Option Brackets) (sentence : List Module)
    (g : Generator) :
    Draws (fun g => derive rules brackets g sentence) g (drawnIn rules brackets g sentence) := by
  unfold derive drawnIn
  cases mark brackets sentence with
  | error e => exact .done _ g
  | ok marked => exact replaceFrom_draws rules marked [] [] g

end Arbor.Grammar
