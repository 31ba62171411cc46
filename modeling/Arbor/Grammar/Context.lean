import Arbor.Grammar.Bracket
import Arbor.Grammar.Rule

/-!
# Contexts

A context is looked for module by module, away from the predecessor.  A module with the symbol
that is looked for is taken.  Else an ignored one is passed over, a bracket that would be left is
passed over, and a group that would be entered is passed over as a whole.  Anything else ends the
search.
-/
set_option autoImplicit false

namespace Arbor.Grammar

inductive Side where
  | left
  | right
deriving DecidableEq, Repr

/-- How many further modules a bracket takes along when it is passed over on the way to a side. -/
def Mark.passes : Side → Mark → Option Nat
  | _, .plain => none
  | .left, .closes distance => some distance
  | .left, .opens _ => some 0
  | .right, .opens distance => some distance
  | .right, .closes _ => some 0

/-- The modules with the symbols looked for, nearest first, after passing over `skip` modules. -/
def findContext (side : Side) (ignored : List Nat) :
    (wanted : List Pattern) → (skip : Nat) → List MarkedModule → Option (List Module)
  | [], _, _ => some []
  | _ :: _, _, [] => none
  | p :: ps, skip + 1, _ :: ms => findContext side ignored (p :: ps) skip ms
  | p :: ps, 0, m :: ms =>
    if m.module.symbol = p.symbol then
      (findContext side ignored ps 0 ms).map (m.module :: ·)
    else if m.module.symbol ∈ ignored then findContext side ignored (p :: ps) 0 ms
    else match m.mark.passes side with
      | some skip => findContext side ignored (p :: ps) skip ms
      | none => none

def aritiesAgree (ps : List Pattern) (ms : List Module) : Bool :=
  ps.map Pattern.arity == ms.map fun m => m.params.length

def paramsOf (ms : List Module) : List Float := ms.flatMap Module.params

/-- The frame of a rule at a module, when its contexts are there.  `before` are the modules to the
left of it, nearest first, and `after` those to the right. -/
def Rule.frame? (r : Rule) (before : List MarkedModule) (m : Module) (after : List MarkedModule) :
    Option (List Float) := do
  guard (m.params.length = r.predecessor.arity)
  let left ← findContext .left r.ignored r.left.reverse 0 before
  let right ← findContext .right r.ignored r.right 0 after
  let left := left.reverse
  guard (aritiesAgree r.left left && aritiesAgree r.right right)
  return m.params ++ paramsOf left ++ paramsOf right

def Rule.match? (r : Rule) (before : List MarkedModule) (m : Module) (after : List MarkedModule) :
    Except GrammarError (Option (List Float)) :=
  match r.frame? before m after, r.condition with
  | none, _ => .ok none
  | some frame, none => .ok (some frame)
  | some frame, some condition =>
    match condition.value frame with
    | .ok x => .ok (if truth x then some frame else none)
    | .error e => .error (.condition e)

end Arbor.Grammar
