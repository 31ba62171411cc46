import Arbor.Grammar.Context
import Arbor.Random

/-!
# Derivation

A generation replaces every module of a sentence at once: contexts and brackets are those of the
old sentence.  A module to which no rule applies is copied.

Of several rules that apply one is drawn at random, in proportion to their weights.  A rule that is
the only one of its symbol is tried only if its weight is above zero; of several all are tried.  The
generator moves on with each draw, and stays moved on when the derivation fails later.
-/
set_option autoImplicit false

namespace Arbor.Grammar

structure Match where
  rule : Rule
  frame : List Float

def matches? (before : List MarkedModule) (m : Module) (after : List MarkedModule) :
    List Rule → Except GrammarError (List Match)
  | [] => .ok []
  | r :: rs => do
    let frame ← r.match? before m after
    let found ← matches? before m after rs
    return match frame with
      | some frame => ⟨r, frame⟩ :: found
      | none => found

/-- The rule at a point of the line on which the weights of several rules are laid end to
end.  Beyond its end it is the last one. -/
def pick : Match → List Match → (point : Float) → Match
  | found, [], _ => found
  | found, next :: rest, point =>
    if point < found.rule.weight then found else pick next rest (point - found.rule.weight)

def totalWeight (found : List Match) : Float := found.foldl (fun sum f => sum + f.rule.weight) 0

def choose (g : Generator) (found : List Match) : Generator × Option Match :=
  let total := totalWeight found
  if total ≤ 0 then (g, none)
  else match found with
    | [] => (g, none)
    | [only] => (g, some only)
    | first :: rest =>
      let (g, unit) := g.nextUnit
      (g, some (pick first rest (unit * total)))

def select (rules : List Rule) (g : Generator) (before : List MarkedModule) (m : Module)
    (after : List MarkedModule) : Generator × Except GrammarError (Option Match) :=
  match rules.filter (fun r => r.predecessor.symbol = m.symbol) with
  | [] => (g, .ok none)
  | [r] =>
    if 0 < r.weight then
      (g, (r.match? before m after).map fun frame => frame.map (Match.mk r))
    else (g, .ok none)
  | rs =>
    match matches? before m after rs with
    | .error e => (g, .error e)
    | .ok found =>
      let (g, chosen) := choose g found
      (g, .ok chosen)

def instantiate (frame : List Float) : List Template → Except GrammarError (List Module)
  | [] => .ok []
  | t :: ts =>
    match Formula.values frame t.params with
    | .error e => .error (.parameter e)
    | .ok params => do
      let ms ← instantiate frame ts
      return ⟨t.symbol, params⟩ :: ms

def replace (rules : List Rule) (g : Generator) (before : List MarkedModule) (m : Module)
    (after : List MarkedModule) : Generator × Except GrammarError (List Module) :=
  match select rules g before m after with
  | (g, .error e) => (g, .error e)
  | (g, .ok none) => (g, .ok [m])
  | (g, .ok (some found)) => (g, instantiate found.frame found.rule.successors)

/-- What becomes of the modules after some others.  `made` are the modules made so far, the last one
first. -/
def replaceFrom (rules : List Rule) (g : Generator) (before : List MarkedModule)
    (made : List Module) : List MarkedModule → Generator × Except GrammarError (List Module)
  | [] => (g, .ok made.reverse)
  | m :: after =>
    match replace rules g before m.module after with
    | (g, .error e) => (g, .error e)
    | (g, .ok ms) => replaceFrom rules g (m :: before) (ms.reverseAux made) after

def derive (rules : List Rule) (brackets : Option Brackets) (g : Generator)
    (sentence : List Module) : Generator × Except GrammarError (List Module) :=
  match mark brackets sentence with
  | .error e => (g, .error (.brackets e))
  | .ok marked => replaceFrom rules g [] [] marked

end Arbor.Grammar
