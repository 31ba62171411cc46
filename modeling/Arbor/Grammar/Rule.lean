import Arbor.Grammar.Formula
import Arbor.Grammar.RuleText
import Arbor.Sentence

/-!
# Rules

A rule as it is applied: symbols are numbers and parameters are formulas.  The frame of its formulas
holds the parameters of the predecessor, then those of the left and of the right context.

Names are numbered in the order in which they are bound.  A parameter of a context that is no name
binds none, and so takes no number either, though its value stands in the frame.
-/
set_option autoImplicit false

namespace Arbor.Grammar

structure Pattern where
  symbol : Nat
  arity : Nat
deriving DecidableEq, Repr

structure Template where
  symbol : Nat
  params : List Formula
deriving DecidableEq, Repr

structure Rule where
  predecessor : Pattern
  left : List Pattern
  right : List Pattern
  condition : Option Formula
  weight : Float
  successors : List Template
  ignored : List Nat
deriving DecidableEq, Repr

namespace Rule

/-- The names bound by the parameters of a predecessor, after others; each parameter must be one. -/
def bindPredecessor (bound : List String) : List Expression → Except GrammarError (List String)
  | [] => .ok bound
  | .name s :: es =>
    if s = ageName then .error (.meaningless (.reservedName .predecessor))
    else if s ∈ bound then .error (.meaningless (.repeatedName .predecessor s))
    else bindPredecessor (bound ++ [s]) es
  | _ :: _ => .error .predecessorParameter

def bindContext (site : BindingSite) (bound : List String) :
    List Expression → Except GrammarError (List String)
  | [] => .ok bound
  | .name s :: es =>
    if s = ageName then .error (.meaningless (.reservedName site))
    else if s ∈ bound then .error (.meaningless (.repeatedName site s))
    else bindContext site (bound ++ [s]) es
  | _ :: es => bindContext site bound es

def allParams (ms : List ModuleText) : List Expression := ms.flatMap ModuleText.params

def boundNames (t : RuleText) : Except GrammarError (List String) := do
  let names ← bindPredecessor [] t.predecessor.params
  let names ← bindContext .leftContext names (allParams t.left)
  bindContext .rightContext names (allParams t.right)

def pattern (symbols : SymbolTable) (m : ModuleText) : SymbolTable × Pattern :=
  let (symbols, symbol) := symbols.intern m.name
  (symbols, ⟨symbol, m.params.length⟩)

def patterns (symbols : SymbolTable) : List ModuleText → SymbolTable × List Pattern
  | [] => (symbols, [])
  | m :: ms =>
    let (symbols, p) := pattern symbols m
    let (symbols, ps) := patterns symbols ms
    (symbols, p :: ps)

def compiled {α : Type} : Except CompileError α → Except GrammarError α
  | .ok a => .ok a
  | .error e => .error (.meaningless e)

def templates (names : List String) : List (ModuleText × Nat) → Except GrammarError (List Template)
  | [] => .ok []
  | (m, symbol) :: ms => do
    let params ← compiled (Formula.ofExpressions names m.params)
    let ts ← templates names ms
    return ⟨symbol, params⟩ :: ts

/-- The rule that is written, with the symbols that it mentions added to the table. -/
def ofText (symbols : SymbolTable) (t : RuleText) : Except GrammarError (SymbolTable × Rule) := do
  let names ← boundNames t
  let (symbols, predecessor) := pattern symbols t.predecessor
  let (symbols, left) := patterns symbols t.left
  let (symbols, right) := patterns symbols t.right
  let (symbols, made) := symbols.internAll (t.successors.map ModuleText.name)
  let (symbols, ignored) := symbols.internAll t.ignored
  let condition ← match t.condition with
    | some e => some <$> compiled (Formula.ofExpression names e)
    | none => pure none
  let successors ← templates names (t.successors.zip made)
  let weight := t.effectiveWeight
  return (symbols, { predecessor, left, right, condition, weight, successors, ignored })

end Rule

end Arbor.Grammar
