import Arbor.Proofs.Grammar.Symbols
import Arbor.Turtle.Operation

/-!
# The meaning of numbered symbols

In a table of standard meanings a number means what its name means.  A table that is changed is the
record of what was assigned last: every change comes down to assignments of one operation to one
symbol, and no assignment touches another symbol.
-/

set_option autoImplicit false

namespace Arbor.Turtle.OperationTable

def assign (symbols : SymbolTable) (t : OperationTable) (meaning : String × Operation) :
    OperationTable :=
  match symbols.find? meaning.1 with
  | some symbol => t.set symbol meaning.2
  | none => t

theorem addStandard_eq (t : OperationTable) (symbols : SymbolTable) :
    t.addStandard symbols = standardMeanings.foldl (assign symbols) t := rfl

theorem get_assign {symbols : SymbolTable} (distinct : symbols.Distinct) (t : OperationTable)
    (meaning : String × Operation) (symbol : Nat) :
    (assign symbols t meaning).get symbol =
      if symbols.names[symbol]? = some meaning.1 then meaning.2 else t.get symbol := by
  have numbered := distinct.find?_eq_some_iff meaning.1 symbol
  unfold assign
  cases found : symbols.find? meaning.1 with
  | none =>
      rw [found] at numbered
      rw [if_neg fun named => nomatch numbered.mpr named]
  | some other =>
      rw [found, Option.some.injEq] at numbered
      simp only [get_set, ← numbered, eq_comm]

theorem get_standard {symbols : SymbolTable} (distinct : symbols.Distinct) (symbol : Nat) :
    (standard symbols).get symbol = Operation.standard (symbols.name symbol) := by
  rw [standard, addStandard_eq, SymbolTable.name]
  simp only [standardMeanings, List.foldl_cons, List.foldl_nil, get_assign distinct, get_empty]
  cases symbols.names[symbol]? with
  | none => rfl
  | some name =>
      simp only [Option.some.injEq, Option.getD_some]
      symm
      unfold Operation.standard
      split <;> simp_all

theorem forall_get {t : OperationTable} {P : Operation → Prop} (ignored : P .ignore)
    (listed : ∀ op ∈ t.entries, P op) (symbol : Nat) : P (t.get symbol) := by
  unfold get
  cases found : t.entries[symbol]? with
  | none => exact ignored
  | some op => exact listed op (Array.mem_of_getElem? found)

/-! ## Tables that are changed -/

inductive Change where
  | set (symbol : Nat) (op : Operation)
  | standard (symbols : SymbolTable)
deriving DecidableEq, Repr

def change (t : OperationTable) : Change → OperationTable
  | .set symbol op => t.set symbol op
  | .standard symbols => t.addStandard symbols

def changeAll (t : OperationTable) (changes : List Change) : OperationTable :=
  changes.foldl change t

/-- The operations that a change assigns, in order.  A standard name without a number is passed
over. -/
def Change.assignments : Change → List (Nat × Operation)
  | .set symbol op => [(symbol, op)]
  | .standard symbols => standardMeanings.filterMap fun meaning =>
    (symbols.find? meaning.1).map fun symbol => (symbol, meaning.2)

def lastAssigned? (changes : List Change) (symbol : Nat) : Option Operation :=
  (changes.flatMap Change.assignments).reverse.lookup symbol

theorem get_setAll (t : OperationTable) (assignments : List (Nat × Operation)) (symbol : Nat) :
    (assignments.foldl (fun t a => t.set a.1 a.2) t).get symbol =
      (assignments.reverse.lookup symbol).getD (t.get symbol) := by
  induction assignments generalizing t with
  | nil => rfl
  | cons a assignments ih =>
      obtain ⟨other, op⟩ := a
      rw [List.foldl_cons, ih, List.reverse_cons, List.lookup_append, List.lookup_cons,
        List.lookup_nil, get_set]
      cases assignments.reverse.lookup symbol with
      | some last => rfl
      | none =>
          by_cases same : symbol = other
          · simp [same]
          · simp [same, beq_false_of_ne same]

theorem change_eq (t : OperationTable) (c : Change) :
    t.change c = c.assignments.foldl (fun t a => t.set a.1 a.2) t := by
  cases c with
  | set symbol op => rfl
  | standard symbols =>
      rw [change, addStandard_eq, Change.assignments, List.foldl_filterMap]
      congr
      funext t meaning
      rw [assign]
      cases symbols.find? meaning.1 <;> rfl

theorem get_changeAll (t : OperationTable) (changes : List Change) (symbol : Nat) :
    (t.changeAll changes).get symbol = (lastAssigned? changes symbol).getD (t.get symbol) := by
  have assigned : t.changeAll changes =
      (changes.flatMap Change.assignments).foldl (fun t a => t.set a.1 a.2) t := by
    rw [changeAll, List.foldl_flatMap]
    congr
    funext t c
    exact t.change_eq c
  rw [assigned, get_setAll, lastAssigned?]

end Arbor.Turtle.OperationTable
