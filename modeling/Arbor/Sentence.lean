import Arbor.Number.Decimal

/-!
# Sentences

A sentence is a list of modules.  A module is a symbol with parameters; its symbol is a number
that a symbol table gives a name.  Names are numbered in the order in which they are first met.
-/
set_option autoImplicit false

namespace Arbor

structure Module where
  symbol : Nat
  params : List Float
deriving DecidableEq, Repr

structure SymbolTable where
  names : Array String
deriving DecidableEq, Repr

namespace SymbolTable

def empty : SymbolTable := ⟨#[]⟩

def find? (t : SymbolTable) (name : String) : Option Nat := t.names.idxOf? name

def name (t : SymbolTable) (symbol : Nat) : String := t.names[symbol]?.getD ""

def intern (t : SymbolTable) (name : String) : SymbolTable × Nat :=
  match t.find? name with
  | some symbol => (t, symbol)
  | none => (⟨t.names.push name⟩, t.names.size)

def internAll (t : SymbolTable) : List String → SymbolTable × List Nat
  | [] => (t, [])
  | name :: names =>
    let (t, symbol) := t.intern name
    let (t, symbols) := t.internAll names
    (t, symbol :: symbols)

end SymbolTable

def Module.text (symbols : SymbolTable) (m : Module) : String :=
  let name := symbols.name m.symbol
  match m.params with
  | [] => name
  | params => name ++ "(" ++ ", ".intercalate (params.map Number.fourPlacesText) ++ ")"

def sentenceText (symbols : SymbolTable) (sentence : List Module) : String :=
  " ".intercalate (sentence.map (Module.text symbols))

end Arbor
