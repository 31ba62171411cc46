import Arbor.Grammar.Error
import Arbor.Sentence

/-!
# Brackets

An opening bracket and the closing bracket that belongs to it are partners.  `mark` notes at each of
them how far away its partner is, so that a context can pass over the group between them.  It fails
at a bracket without a partner, and where more than `maxOpen` brackets are open at once.
-/
set_option autoImplicit false

namespace Arbor.Grammar

def maxOpen : Nat := 4096

inductive Mark where
  | plain
  /-- An opening bracket whose partner is the `distance`-th module after it. -/
  | opens (distance : Nat)
  /-- A closing bracket whose partner is the `distance`-th module before it. -/
  | closes (distance : Nat)
deriving DecidableEq, Repr

structure MarkedModule where
  module : Module
  mark : Mark
deriving DecidableEq, Repr

structure Brackets where
  opening : Nat
  closing : Nat
deriving DecidableEq, Repr

namespace Brackets

def ofTable? (symbols : SymbolTable) : Option Brackets := do
  return ⟨← symbols.find? "[", ← symbols.find? "]"⟩

/-- The partners among the symbols from an index on, as pairs of indices; `opened` are the indices
of the brackets that are open, the innermost first. -/
def pairFrom (b : Brackets) : (index : Nat) → (opened : List Nat) → List Nat →
    Except BracketError (List (Nat × Nat))
  | _, opened, [] =>
    match opened.getLast? with
    | some index => .error (.unmatched index)
    | none => .ok []
  | index, opened, s :: ss =>
    if s = b.opening then
      if maxOpen ≤ opened.length then .error .tooDeep
      else pairFrom b (index + 1) (index :: opened) ss
    else if s = b.closing then
      match opened with
      | [] => .error (.unmatched index)
      | start :: opened => do
        let pairs ← pairFrom b (index + 1) opened ss
        return (start, index) :: pairs
    else pairFrom b (index + 1) opened ss

def pair (b : Brackets) (sentence : List Module) : Except BracketError (List (Nat × Nat)) :=
  pairFrom b 0 [] (sentence.map Module.symbol)

def markPair (marks : Array Mark) (pair : Nat × Nat) : Array Mark :=
  let distance := pair.2 - pair.1
  (marks.setIfInBounds pair.1 (.opens distance)).setIfInBounds pair.2 (.closes distance)

def marks (length : Nat) (pairs : List (Nat × Nat)) : Array Mark :=
  pairs.foldl markPair (Array.replicate length .plain)

end Brackets

/-- A sentence with the marks of its brackets; without a symbol for both of them there are none. -/
def mark (brackets : Option Brackets) (sentence : List Module) :
    Except BracketError (List MarkedModule) :=
  match brackets with
  | none => .ok (sentence.map fun m => ⟨m, .plain⟩)
  | some b => do
    let pairs ← b.pair sentence
    return List.zipWith MarkedModule.mk sentence (Brackets.marks sentence.length pairs).toList

end Arbor.Grammar
