import Arbor.Json.Basic

/-!
# Taking JSON values apart

A decoder gives what a value stands for, or nothing.

`fields` takes a record: an object whose names are known at most once each, or an array of the
values in the order of the names.  A value that is missing is `none`.
-/
set_option autoImplicit false

namespace Arbor.Json

/-- A single-precision value; the number must be in the range of doubles. -/
def single? : Json → Option Float32
  | number n => n.toSingle?
  | _ => none

def natBelow? (bound : Nat) : Json → Option Nat
  | number n =>
    match n.word? with
    | some (.ofNat m) => if m < bound then some m else none
    | _ => none
  | _ => none

def string? : Json → Option String
  | string s => s
  | _ => none

def array? : Json → Option (List Json)
  | array vs => some vs
  | _ => none

/-- A name that stands for itself, written as a string or as the only member of an object, whose
value is then null. -/
def name? : Json → Option String
  | string s => s
  | object [(s, null)] => s
  | _ => none

def valuesOf (name : String) (members : List (Option String × Json)) : List Json :=
  members.filterMap fun (n, v) => if n = some name then some v else none

/-- The value of the member with a name, if there is one.  There must not be two. -/
def member? (members : List (Option String × Json)) (name : String) : Option (Option Json) :=
  match valuesOf name members with
  | [] => some none
  | [v] => some (some v)
  | _ => none

def fields (names : List String) : Json → Option (List (Option Json))
  | object members =>
    if members.all (fun (n, _) => n.isSome) then names.mapM (member? members) else none
  | array vs =>
    if vs.length ≤ names.length then
      some (vs.map some ++ List.replicate (names.length - vs.length) none)
    else none
  | _ => none

def required {α : Type} (decode : Json → Option α) : Option Json → Option α
  | some v => decode v
  | none => none

def optional {α : Type} (decode : Json → Option α) (fallback : α) : Option Json → Option α
  | some v => decode v
  | none => some fallback

end Arbor.Json
