import Arbor.Proofs.Grammar.Refusal

/-!
# The course of a grammar

Where the next sentence is a function of the sentence, a grammar moves along the orbit of its axiom
under that function, and its generation is its place on the orbit, until the word that counts it is
full.  A request that fails, or that fails half way, leaves it at the last place that it kept.
`Course` states this, and what the next request will bring, of a grammar that has served any others.
-/

set_option autoImplicit false

namespace Arbor.Grammar

section Orbits
variable (next : List Module → Except GrammarError (List Module))

/-- The sentence some generations after another one. -/
def orbit : Nat → List Module → Except GrammarError (List Module)
  | 0, sentence => .ok sentence
  | n + 1, sentence => do
    let following ← next sentence
    orbit n following

variable {next}

theorem orbit_succ_of_ok {s following : List Module} (derivable : next s = .ok following)
    (n : Nat) : orbit next (n + 1) s = orbit next n following := by
  rw [orbit, derivable]
  rfl

theorem orbit_add_of_ok {m : Nat} {s t : List Module} (reached : orbit next m s = .ok t)
    (n : Nat) : orbit next (m + n) s = orbit next n t := by
  induction m generalizing s with
  | zero =>
      cases reached
      rw [Nat.zero_add]
  | succ m ih =>
      obtain ⟨following, derivable, later⟩ := exists_of_bind_eq_ok reached
      rw [Nat.succ_add, orbit_succ_of_ok derivable, ih later]

theorem climb_of_ok {count : Nat} {s t : List Module} (reached : orbit next count s = .ok t) :
    climb next count s = (count, t, .ok ()) := by
  induction count generalizing s with
  | zero =>
      cases reached
      rfl
  | succ count ih =>
      obtain ⟨following, derivable, later⟩ := exists_of_bind_eq_ok reached
      simp only [climb, derivable, ih later]

theorem climb_of_error {count done : Nat} {s t : List Module} {e : GrammarError}
    (below : done < count) (reached : orbit next done s = .ok t) (underivable : next t = .error e) :
    climb next count s = (done, t, .error e) := by
  induction done generalizing count s with
  | zero =>
      obtain ⟨count, rfl⟩ := Nat.exists_eq_succ_of_ne_zero (Nat.ne_of_gt below)
      cases reached
      simp only [climb, underivable]
  | succ done ih =>
      obtain ⟨count, rfl⟩ := Nat.exists_eq_succ_of_ne_zero (Nat.ne_of_gt (Nat.zero_lt_of_lt below))
      obtain ⟨following, derivable, later⟩ := exists_of_bind_eq_ok reached
      simp only [climb, derivable, ih (Nat.lt_of_succ_lt_succ below) later]

theorem orbit_climb (count : Nat) (s : List Module) :
    orbit next (climb next count s).1 s = .ok (climb next count s).2.1 := by
  induction count generalizing s with
  | zero => rfl
  | succ count ih =>
      cases derived : next s with
      | error e =>
          simp only [climb, derived]
          rfl
      | ok following =>
          simp only [climb, derived]
          rw [orbit_succ_of_ok derived]
          exact ih following

theorem orbit_effect (r : Request) (s : List Module) :
    orbit next (r.effect next s).kept s = .ok (r.effect next s).sentence := by
  cases r with
  | advance => exact orbit_climb 1 s
  | advanceBy count => exact orbit_climb count s
  | advanceWith submit =>
      cases derived : next s with
      | error e =>
          simp only [Request.effect, derived]
          rfl
      | ok following =>
          simp only [Request.effect, derived]
          cases submit following with
          | mk answer refusal =>
              cases refusal with
              | none => rw [orbit_succ_of_ok derived]; rfl
              | some e => rfl

end Orbits

theorem advanceBy_add (g : Grammar) (a b : Nat) :
    g.advanceBy (a + b) = match g.advanceBy a with
      | (h, .ok ()) => h.advanceBy b
      | (h, .error e) => (h, .error e) := by
  induction a generalizing g with
  | zero => rw [Nat.zero_add]; rfl
  | succ a ih =>
      rw [Nat.succ_add, advanceBy, advanceBy]
      cases g.advance with
      | mk h result =>
          cases result with
          | ok _ => exact ih h
          | error e => rfl

/-- A grammar that has served requests, from a sentence on: where it is, and how it will answer the
next one. -/
structure Course (next : List Module → Except GrammarError (List Module)) (start : List Module)
    (requests : List Request) (h : Grammar) : Prop where
  sentence_eq : orbit next (kept next start requests) start = .ok h.sentence
  counter_eq : h.counter = .ofNat (kept next start requests)
  generation_eq : kept next start requests < UInt32.size →
    h.generation = kept next start requests ∧ orbit next h.generation start = .ok h.sentence
  advance_ok : ∀ following, next h.sentence = .ok following →
    ∃ generator, h.advance = (h.onward generator 1 following, .ok ())
  advance_error : ∀ e, next h.sentence = .error e →
    ∃ generator, h.advance = (h.onward generator 0 h.sentence, .error e)
  advanceBy_ok : ∀ count sentence, orbit next count h.sentence = .ok sentence →
    ∃ generator, h.advanceBy count = (h.onward generator count sentence, .ok ())
  /-- Of several generations those before the first failure are kept. -/
  advanceBy_error : ∀ count done sentence e, done < count →
    orbit next done h.sentence = .ok sentence → next sentence = .error e →
      ∃ generator, h.advanceBy count = (h.onward generator done sentence, .error e)
  advanceBy_add : ∀ a b, h.advanceBy (a + b) = match h.advanceBy a with
    | (between, .ok ()) => between.advanceBy b
    | (between, .error e) => (between, .error e)
  /-- A generation that cannot be derived is submitted to nobody. -/
  advanceWith_underivable : ∀ e, next h.sentence = .error e →
    ∃ generator, ∀ {α : Type} (submit : List Module → α × Option InterpretError),
      h.advanceWith submit = (h.onward generator 0 h.sentence, .underivable e)
  advanceWith_derivable : ∀ following, next h.sentence = .ok following →
    ∃ generator, ∀ {α : Type} (submit : List Module → α × Option InterpretError),
      h.advanceWith submit = match submit following with
        | (answer, none) => (h.onward generator 1 following, .kept answer)
        | (answer, some e) => (h.onward generator 0 h.sentence, .refused answer e)

section Serving
variable {g : Grammar} {next : List Module → Except GrammarError (List Module)}
  (follows : g.Follows next)

include follows in
theorem serveAll_onward (requests : List Request) :
    ∃ generator sentence,
      g.serveAll requests = g.onward generator (kept next g.sentence requests) sentence ∧
        orbit next (kept next g.sentence requests) g.sentence = .ok sentence := by
  induction requests generalizing g with
  | nil => exact ⟨g.generator, g.sentence, by rw [kept, onward_zero, serveAll], rfl⟩
  | cons r rs ih =>
      obtain ⟨x, served⟩ := serve_effect follows r
      have reached : orbit next (r.effect next g.sentence).kept g.sentence = .ok _ :=
        orbit_effect r g.sentence
      generalize effect_eq : r.effect next g.sentence = effect at served reached
      obtain ⟨y, sentence, all, further⟩ := ih (follows.onward x effect.kept effect.sentence)
      refine ⟨y, sentence, ?_, ?_⟩
      · rw [serveAll, served, all, onward_onward, kept, effect_eq]
        rfl
      · rw [kept, effect_eq, orbit_add_of_ok reached]
        exact further

theorem course_of_follows {start : List Module} {requests : List Request} {h : Grammar}
    (follows : h.Follows next) (counter : h.counter = .ofNat (kept next start requests))
    (sentence : orbit next (kept next start requests) start = .ok h.sentence) :
    Course next start requests h where
  sentence_eq := sentence
  counter_eq := counter
  generation_eq := by
    intro word
    have generation : h.generation = kept next start requests := by
      rw [generation, counter, UInt32.toNat_ofNat_of_lt' word]
    exact ⟨generation, generation ▸ sentence⟩
  advance_ok _ derivable := advance_of_ok follows derivable
  advance_error _ underivable := advance_of_error follows underivable
  advanceBy_ok := by
    intro count sentence reached
    obtain ⟨generator, climbed⟩ := advanceBy_climb count follows
    rw [climb_of_ok reached] at climbed
    exact ⟨generator, climbed⟩
  advanceBy_error := by
    intro count done sentence e below reached underivable
    obtain ⟨generator, climbed⟩ := advanceBy_climb count follows
    rw [climb_of_error below reached underivable] at climbed
    exact ⟨generator, climbed⟩
  advanceBy_add := advanceBy_add h
  advanceWith_underivable _ underivable := advanceWith_of_error follows underivable
  advanceWith_derivable _ derivable := advanceWith_of_ok follows derivable

end Serving

/-- A grammar whose next sentence is a function of the sentence stays on the orbit of its axiom,
whatever is asked of it; its generation is its place there, for as long as a word can count it. -/
theorem serveAll_course (axiomText : String) (ruleTexts : List String) (g : Grammar)
    (built : ofTexts axiomText ruleTexts = .ok g)
    (next : List Module → Except GrammarError (List Module)) (follows : g.Follows next)
    (requests : List Request) : Course next g.sentence requests (g.serveAll requests) := by
  obtain ⟨_, _, _, _, _, _, _, first⟩ := ofTexts_eq_ok built
  obtain ⟨generator, sentence, served, reached⟩ := serveAll_onward follows requests
  apply course_of_follows
  · rw [served]
    exact follows.onward generator _ sentence
  · rw [served, onward, first, UInt32.zero_add]
  · rw [served]
    exact reached

/-- Two generations are kept: one that was refused is derived again, and a third one cannot be
derived. -/
theorem serveAll_course_unmatched :
    ∃ g : Grammar, ofTexts "A" ["A -> F B", "B -> [ ] ]"] = .ok g ∧ Exclusive g.rules ∧
      let requests := [.advanceWith refuse, .advanceBy 5, .advance, .advanceWith accept]
      let next sentence := (derive g.rules (Brackets.ofTable? g.symbols) g.generator sentence).2
      (g.serveAll requests).generation = 2 ∧
        next (g.serveAll requests).sentence = .error (.brackets (.unmatched 3)) ∧
        Course next g.sentence requests (g.serveAll requests) := by
  have facts : (ofTexts "A" ["A -> F B", "B -> [ ] ]"]).toOption.map (fun g =>
      let h := g.serveAll [.advanceWith refuse, .advanceBy 5, .advance, .advanceWith accept]
      (g.rules.map Rule.predecessor, h.generation,
        (derive g.rules (Brackets.ofTable? g.symbols) g.generator h.sentence).2)) =
      some ([⟨0, 0⟩, ⟨2, 0⟩], 2, .error (.brackets (.unmatched 3))) := by decide +kernel
  obtain ⟨g, built⟩ : ∃ g, ofTexts "A" ["A -> F B", "B -> [ ] ]"] = .ok g :=
    exists_of_isOk (by decide +kernel)
  rw [built] at facts
  obtain ⟨predecessors, facts⟩ := Prod.mk.inj (Option.some.inj facts)
  obtain ⟨generation, underivable⟩ := Prod.mk.inj facts
  have exclusive : Exclusive g.rules :=
    exclusive_of_nodup (by rw [predecessors]; decide)
  refine ⟨g, built, exclusive, ?_⟩
  intro requests next
  exact ⟨generation, underivable,
    serveAll_course _ _ g built next (follows_of_exclusive exclusive) requests⟩

/-! ## Off the course -/

theorem climb_of_fixed {next : List Module → Except GrammarError (List Module)} {s : List Module}
    (fixed : next s = .ok s) (count : Nat) : climb next count s = (count, s, .ok ()) := by
  induction count with
  | zero => rfl
  | succ count ih => simp only [climb, fixed, ih]

/-- Where nothing is rewritten, a word of generations and one more lead back to the first number.
Where two rules match, the sentences are not on the orbit of any function, though neither rule has a
weight written to it. -/
theorem serveAll_course_ne :
    (∃ g : Grammar, ofTexts "F" [] = .ok g ∧ Exclusive g.rules ∧
      let requests := [.advanceBy (UInt32.size - 1), .advance]
      let next sentence := (derive g.rules (Brackets.ofTable? g.symbols) g.generator sentence).2
      kept next g.sentence requests = UInt32.size ∧ (g.serveAll requests).generation = 0) ∧
    ∃ g : Grammar, ofTexts "A" ["A -> A", "A -> B"] = .ok g ∧
      ∀ next, ∃ n, orbit next n g.sentence ≠ .ok (g.serveAll [.advanceBy n]).sentence := by
  constructor
  · have facts : (ofTexts "F" []).toOption.map (fun g => (g.rules, g.counter, g.sentence,
        (derive g.rules (Brackets.ofTable? g.symbols) g.generator g.sentence).2)) =
        some ([], 0, [⟨0, []⟩], .ok [⟨0, []⟩]) := by decide +kernel
    obtain ⟨g, built⟩ : ∃ g, ofTexts "F" [] = .ok g := exists_of_isOk (by decide +kernel)
    rw [built] at facts
    obtain ⟨none, facts⟩ := Prod.mk.inj (Option.some.inj facts)
    obtain ⟨first, facts⟩ := Prod.mk.inj facts
    obtain ⟨start, fixed⟩ := Prod.mk.inj facts
    have exclusive : Exclusive g.rules := exclusive_of_nodup (by rw [none]; exact List.nodup_nil)
    refine ⟨g, built, exclusive, ?_⟩
    intro requests next
    rw [← start] at fixed
    have stays : next g.sentence = .ok g.sentence := fixed
    have all : kept next g.sentence requests = UInt32.size := by
      simp only [requests, kept, Request.effect, climb_of_fixed stays]
      rfl
    obtain ⟨generator, sentence, served, _⟩ :=
      serveAll_onward (follows_of_exclusive exclusive) requests
    refine ⟨all, ?_⟩
    rw [served, all, generation, onward, first]
    rfl
  · have facts : (ofTexts "A" ["A -> A", "A -> B"]).toOption.map (fun g =>
        (g.sentence, (g.serveAll [.advanceBy 1]).sentence, (g.serveAll [.advanceBy 3]).sentence)) =
        some ([⟨0, []⟩], [⟨0, []⟩], [⟨1, []⟩]) := by decide +kernel
    obtain ⟨g, built⟩ : ∃ g, ofTexts "A" ["A -> A", "A -> B"] = .ok g :=
      exists_of_isOk (by decide +kernel)
    rw [built] at facts
    obtain ⟨start, facts⟩ := Prod.mk.inj (Option.some.inj facts)
    obtain ⟨once, thrice⟩ := Prod.mk.inj facts
    refine ⟨g, built, ?_⟩
    intro next
    by_contra follows
    have follows := not_exists_not.mp follows
    have fixed := follows 1
    have further := follows 3
    rw [once, start] at fixed
    rw [thrice, start] at further
    -- What stays as it is for one generation stays so for three.
    have third := ((orbit_add_of_ok fixed 2).trans (orbit_add_of_ok fixed 1)).trans fixed
    exact absurd (third.symm.trans further) (by decide)

end Arbor.Grammar
