import Arbor.Error
import Arbor.Grammar.Derivation

/-!
# Grammars

A grammar has rules and a sentence, which it replaces one generation at a time.  `advance` derives
the next generation, `advanceBy` several, and `advanceWith` one that is kept only if nobody
objects to it.  When an advance fails, the sentence and the generation stay as they were.

Generations are counted in a 32-bit word, which starts over when it is full.
-/
set_option autoImplicit false

namespace Arbor

structure Grammar where
  symbols : SymbolTable
  rules : List Grammar.Rule
  generator : Generator
  sentence : List Module
  counter : UInt32
deriving DecidableEq, Repr

namespace Grammar

def generation (g : Grammar) : Nat := g.counter.toNat

def addRules (symbols : SymbolTable) (rules : List Rule) :
    List String → Except GrammarError (SymbolTable × List Rule)
  | [] => .ok (symbols, rules)
  | text :: texts =>
    match RuleText.ofText? text with
    | none => .error (.unreadable text)
    | some t => do
      let (symbols, r) ← Rule.ofText symbols t
      addRules symbols (rules ++ [r]) texts

def constants : List Expression → Except GrammarError (List Float)
  | [] => .ok []
  | e :: es => do
    let f ← Rule.compiled (Formula.ofExpression [] e)
    match f.value [] with
    | .error e => .error (.parameter e)
    | .ok x => do
      let xs ← constants es
      return x :: xs

def axiomModules : List (ModuleText × Nat) → Except GrammarError (List Module)
  | [] => .ok []
  | (m, symbol) :: ms => do
    let params ← constants m.params
    let rest ← axiomModules ms
    return ⟨symbol, params⟩ :: rest

def seed : BitVec 64 := 42

def ofTexts (axiomText : String) (ruleTexts : List String) : Except GrammarError Grammar := do
  let (symbols, rules) ← addRules .empty [] ruleTexts
  match axiomOfText? axiomText with
  | none => .error (.unreadable axiomText)
  | some ms => do
    let (symbols, numbers) := symbols.internAll (ms.map ModuleText.name)
    let sentence ← axiomModules (ms.zip numbers)
    return { symbols, rules, sentence, generator := .ofSeed seed, counter := 0 }

def text (g : Grammar) : String := sentenceText g.symbols g.sentence

def advance (g : Grammar) : Grammar × Except GrammarError Unit :=
  match derive g.rules (Brackets.ofTable? g.symbols) g.generator g.sentence with
  | (generator, .ok sentence) =>
    ({ g with generator, sentence, counter := g.counter + 1 }, .ok ())
  | (generator, .error e) => ({ g with generator }, .error e)

def advanceBy (g : Grammar) : Nat → Grammar × Except GrammarError Unit
  | 0 => (g, .ok ())
  | n + 1 =>
    match g.advance with
    | (g, .ok ()) => g.advanceBy n
    | (g, .error e) => (g, .error e)

/-- What comes of an advance that is submitted to somebody.  The answer is what they said of the new
sentence. -/
inductive Advance (α : Type) where
  | underivable (cause : GrammarError)
  | refused (answer : α) (cause : InterpretError)
  | kept (answer : α)

def Advance.result {α : Type} : Advance α → Except Fault α
  | underivable cause => .error (.derive cause)
  | refused _ cause => .error (.interpret cause)
  | kept answer => .ok answer

/-- Derives the next generation and keeps it unless `submit` objects. -/
def advanceWith {α : Type} (g : Grammar) (submit : List Module → α × Option InterpretError) :
    Grammar × Advance α :=
  match g.advance with
  | (next, .error e) => (next, .underivable e)
  | (next, .ok ()) =>
    match submit next.sentence with
    | (answer, none) => (next, .kept answer)
    | (answer, some e) => ({ g with generator := next.generator }, .refused answer e)

def copy (g : Grammar) : Grammar := { g with generator := g.generator.fork }

end Grammar

end Arbor
