import Arbor.Proofs.Grammar.Sprouting

/-!
# Symbols that have names

A table that is added to keeps the names that it has given.  So all symbols of an axiom and of the
successors of rules have names in the table of their grammar, and derivation, which takes symbols
only from there, never leaves that table.
-/

set_option autoImplicit false

namespace Arbor

namespace SymbolTable

/-- The other table goes on where this one ends. -/
def Extends (t t' : SymbolTable) : Prop := t.names.toList <+: t'.names.toList

theorem Extends.refl (t : SymbolTable) : t.Extends t := List.prefix_refl _

theorem Extends.trans {a b c : SymbolTable} (first : a.Extends b) (second : b.Extends c) :
    a.Extends c :=
  List.IsPrefix.trans first second

theorem Extends.getElem?_eq {t t' : SymbolTable} (longer : t.Extends t') {symbol : Nat}
    {name : String} (named : t.names[symbol]? = some name) : t'.names[symbol]? = some name := by
  obtain ⟨more, same⟩ := longer
  rw [← Array.getElem?_toList] at named ⊢
  rw [← same, List.getElem?_append_left (List.getElem?_eq_some_iff.mp named).1]
  exact named

def Names (t : SymbolTable) (symbol : Nat) : Prop := ∃ name, t.names[symbol]? = some name

theorem Extends.names {t t' : SymbolTable} (longer : t.Extends t') {symbol : Nat}
    (names : t.Names symbol) : t'.Names symbol := by
  obtain ⟨name, named⟩ := names
  exact ⟨name, longer.getElem?_eq named⟩

theorem intern_extends (t : SymbolTable) (name : String) : t.Extends (t.intern name).1 := by
  unfold intern
  cases t.find? name with
  | some symbol => exact .refl t
  | none => exact ⟨[name], by rw [Array.toList_push]⟩

theorem getElem?_intern (t : SymbolTable) (name : String) :
    (t.intern name).1.names[(t.intern name).2]? = some name := by
  unfold intern
  cases found : t.find? name with
  | some symbol =>
      obtain ⟨⟨names⟩⟩ := t
      rw [find?, List.idxOf?_toArray, List.idxOf?_eq_some_iff] at found
      obtain ⟨inside, here, _⟩ := found
      rw [List.getElem?_toArray, List.getElem?_eq_getElem inside, here]
  | none => exact Array.getElem?_push_size

theorem internAll_extends (t : SymbolTable) (names : List String) :
    t.Extends (t.internAll names).1 := by
  induction names generalizing t with
  | nil => exact .refl t
  | cons name names ih => exact (t.intern_extends name).trans (ih _)

theorem internAll_names (t : SymbolTable) (names : List String) :
    ∀ symbol ∈ (t.internAll names).2, (t.internAll names).1.Names symbol := by
  induction names generalizing t with
  | nil => exact nofun
  | cons name names ih =>
      intro symbol member
      rcases List.mem_cons.mp member with rfl | member
      · have longer := (t.intern name).1.internAll_extends names
        exact ⟨name, longer.getElem?_eq (t.getElem?_intern name)⟩
      · exact ih _ symbol member

end SymbolTable

namespace Grammar

/-! ## Symbols of what is made -/

theorem symbols_templates (names : List String) (ms : List (ModuleText × Nat))
    (ts : List Template) (made : Rule.templates names ms = .ok ts) :
    ts.map Template.symbol = ms.map Prod.snd := by
  induction ms generalizing ts with
  | nil =>
      cases made
      rfl
  | cons m ms ih =>
      unfold Rule.templates at made
      obtain ⟨params, _, made⟩ := exists_of_bind_eq_ok made
      obtain ⟨rest, others, made⟩ := exists_of_bind_eq_ok made
      cases made
      rw [List.map_cons, List.map_cons, ih rest others]

theorem symbols_axiomModules (ms : List (ModuleText × Nat)) (sentence : List Module)
    (made : axiomModules ms = .ok sentence) :
    sentence.map Module.symbol = ms.map Prod.snd := by
  induction ms generalizing sentence with
  | nil =>
      cases made
      rfl
  | cons m ms ih =>
      unfold axiomModules at made
      obtain ⟨params, _, made⟩ := exists_of_bind_eq_ok made
      obtain ⟨rest, others, made⟩ := exists_of_bind_eq_ok made
      cases made
      rw [List.map_cons, List.map_cons, ih rest others]

theorem symbols_instantiate (frame : List Float) (ts : List Template) (ms : List Module)
    (made : instantiate frame ts = .ok ms) : ms.map Module.symbol = ts.map Template.symbol := by
  induction ts generalizing ms with
  | nil =>
      cases made
      rfl
  | cons t ts ih =>
      obtain ⟨params, rest, _, others, rfl⟩ := instantiate_cons_eq_ok made
      rw [List.map_cons, List.map_cons, ih rest others]

theorem mem_of_map_eq_snd_zip {α β γ : Type} {f : α → γ} {as : List α} {bs : List β} {cs : List γ}
    (same : as.map f = (bs.zip cs).map Prod.snd) {a : α} (member : a ∈ as) : f a ∈ cs := by
  have listed : f a ∈ as.map f := List.mem_map_of_mem member
  rw [same] at listed
  obtain ⟨⟨b, _⟩, zipped, found⟩ := List.mem_map.mp listed
  exact found ▸ (List.of_mem_zip zipped).2

/-! ## Rules -/

def Rule.Named (symbols : SymbolTable) (r : Rule) : Prop :=
  ∀ t ∈ r.successors, symbols.Names t.symbol

theorem Rule.patterns_extends (symbols : SymbolTable) (ms : List ModuleText) :
    symbols.Extends (Rule.patterns symbols ms).1 := by
  induction ms generalizing symbols with
  | nil => exact .refl symbols
  | cons m ms ih => exact (symbols.intern_extends m.name).trans (ih _)

theorem Rule.ofText_named {symbols symbols' : SymbolTable} (t : RuleText) (r : Rule)
    (read : Rule.ofText symbols t = .ok (symbols', r)) :
    symbols.Extends symbols' ∧ r.Named symbols' := by
  obtain ⟨names, _, rfl, templates⟩ := Rule.ofText_eq_ok read
  have sides := ((symbols.intern_extends t.predecessor.name).trans
    (Rule.patterns_extends _ t.left)).trans (Rule.patterns_extends _ t.right)
  constructor
  · exact (sides.trans (SymbolTable.internAll_extends _ _)).trans
      (SymbolTable.internAll_extends _ _)
  · intro s member
    have listed := mem_of_map_eq_snd_zip (symbols_templates _ _ _ templates) member
    have made := SymbolTable.internAll_names _ _ s.symbol listed
    exact (SymbolTable.internAll_extends _ t.ignored).names made

theorem addRules_named (texts : List String) {symbols symbols' : SymbolTable}
    {rules rules' : List Rule} (named : ∀ r ∈ rules, r.Named symbols)
    (added : addRules symbols rules texts = .ok (symbols', rules')) :
    ∀ r ∈ rules', r.Named symbols' := by
  induction texts generalizing symbols rules with
  | nil =>
      cases added
      exact named
  | cons text texts ih =>
      unfold addRules at added
      split at added
      · exact nomatch added
      · next t _ =>
          obtain ⟨⟨next, r⟩, read, added⟩ := exists_of_bind_eq_ok added
          obtain ⟨longer, here⟩ := Rule.ofText_named t r read
          refine ih ?_ added
          intro other member
          rcases List.mem_append.mp member with earlier | last
          · exact fun s listed => longer.names (named other earlier s listed)
          · rw [List.mem_singleton.mp last]
            exact here

/-! ## Sentences -/

/-- All symbols that are in the sentence of a grammar, or can come into it, have names. -/
structure Named (g : Grammar) : Prop where
  sentence : ∀ m ∈ g.sentence, g.symbols.Names m.symbol
  rules : ∀ r ∈ g.rules, r.Named g.symbols

theorem ofTexts_named {axiomText : String} {ruleTexts : List String} {g : Grammar}
    (built : ofTexts axiomText ruleTexts = .ok g) : g.Named := by
  obtain ⟨symbols, ms, added, _, modules, symbols_eq, _, _⟩ := ofTexts_eq_ok built
  have rules := addRules_named ruleTexts (fun _ listed => absurd listed List.not_mem_nil) added
  constructor
  · intro m member
    have listed := mem_of_map_eq_snd_zip (symbols_axiomModules _ _ modules) member
    rw [symbols_eq]
    exact symbols.internAll_names _ m.symbol listed
  · intro r listed t member
    rw [symbols_eq]
    exact (symbols.internAll_extends _).names (rules r listed t member)

theorem Replaced.names {symbols : SymbolTable} {rules : List Rule} {m : Module}
    {ms : List Module} (replaced : Replaced rules m ms)
    (named : ∀ r ∈ rules, r.Named symbols) (here : symbols.Names m.symbol) :
    ∀ made ∈ ms, symbols.Names made.symbol := by
  intro made member
  rcases replaced with rfl | ⟨r, listed, _, _, context, instantiated⟩
  · rw [List.mem_singleton.mp member]
    exact here
  · have symbol : made.symbol ∈ r.successors.map Template.symbol := by
      rw [← symbols_instantiate _ _ ms instantiated]
      exact List.mem_map_of_mem member
    obtain ⟨t, successor, same⟩ := List.mem_map.mp symbol
    rw [← same]
    exact named r listed t successor

theorem advance_named {g next : Grammar} (named : g.Named)
    (advanced : g.advance = (next, .ok ())) : next.Named := by
  unfold advance at advanced
  split at advanced
  · next generator sentence derived =>
      cases advanced
      obtain ⟨parts, replaced, rfl⟩ := derive_replaced g.rules _ _ _ _ _ derived
      refine ⟨?_, named.rules⟩
      intro m member
      obtain ⟨part, listed, inside⟩ := List.mem_flatten.mp member
      obtain ⟨i, small, rfl⟩ := List.mem_iff_getElem.mp listed
      have origin := List.Forall₂.get replaced (replaced.length_eq ▸ small) small
      exact origin.names named.rules (named.sentence _ (List.get_mem _ _)) m inside
  · exact nomatch advanced

end Grammar

end Arbor
