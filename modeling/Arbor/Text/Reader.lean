/-!
# Readers

A reader takes the characters of a text and either gives a value with the characters that are
left, or fails in one of two ways.  `absent` means that the text does not begin with such a thing,
so something else may be tried in its place.  `broken` means that it begins with one that is
faulty, and nothing else may be tried.
-/
set_option autoImplicit false

namespace Arbor.Text

inductive Reading (α : Type) where
  | read (value : α) (rest : List Char)
  | absent
  | broken
deriving Repr

def Reader (α : Type) := List Char → Reading α

namespace Reader

variable {α β : Type}

def done (a : α) : Reader α := fun cs => .read a cs

def andThen (r : Reader α) (next : α → Reader β) : Reader β := fun cs =>
  match r cs with
  | .read a rest => next a rest
  | .absent => .absent
  | .broken => .broken

instance : Monad Reader where
  pure := done
  bind := andThen

def absent : Reader α := fun _ => .absent

def broken : Reader α := fun _ => .broken

def orElse (r s : Reader α) : Reader α := fun cs =>
  match r cs with
  | .absent => s cs
  | reading => reading

def optional (r : Reader α) : Reader (Option α) := orElse (some <$> r) (done none)

def must (r : Reader α) : Reader α := orElse r broken

def lenient (r : Reader α) : Reader α := fun cs =>
  match r cs with
  | .broken => .absent
  | reading => reading

def isNext (r : Reader α) : Reader Bool := fun cs =>
  match r cs with
  | .read _ _ => .read true cs
  | _ => .read false cs

def manyWithin (r : Reader α) : (fuel : Nat) → Reader (List α)
  | 0 => done []
  | fuel + 1 => do
    match ← optional r with
    | some a => return a :: (← manyWithin r fuel)
    | none => return []

/-- Reads a thing as often as it is there.  A thing is at least one character long, so the length of
the text bounds their number. -/
def many (r : Reader α) : Reader (List α) := fun cs => manyWithin r cs.length cs

/-- Reads steps from a value on, at most `fuel` of them; a step turns the value so far into the
next. -/
def chainWithin (step : α → Reader α) : (fuel : Nat) → α → Reader α
  | 0, a => done a
  | fuel + 1, a => do
    match ← optional (step a) with
    | some b => chainWithin step fuel b
    | none => return a

def chain (step : α → Reader α) (a : α) : Reader α := fun cs => chainWithin step cs.length a cs

def untilWithin (stop : Reader β) (r : Reader α) : (fuel : Nat) → Reader (List α)
  | 0 => absent
  | fuel + 1 => do
    if ← isNext stop then return []
    else
      let a ← r
      return a :: (← untilWithin stop r fuel)

def upTo (stop : Reader β) (r : Reader α) : Reader (List α) := fun cs =>
  untilWithin stop r (cs.length + 1) cs

/-- Reads a thing as often as it is there; `bound` of them or more are a fault. -/
def fewerThan (bound : Nat) (r : Reader α) : Reader (List α) := do
  let as ← many r
  if as.length < bound then return as else broken

end Reader

end Arbor.Text
