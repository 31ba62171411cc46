/-!
# Random numbers

A permuted congruential generator with 128 bits of state and 64 bits of output.  Its sequence is
fixed by its seed.
-/
set_option autoImplicit false

namespace Arbor

structure Generator where
  state : BitVec 128
  increment : BitVec 128
deriving DecidableEq, Repr

namespace Generator

def multiplier : BitVec 128 := 0x2360ED051FC65DA44385DF649FCCF645

def advance (g : Generator) : Generator := { g with state := g.state * multiplier + g.increment }

def next (g : Generator) : Generator × BitVec 64 :=
  let g := g.advance
  let high := (g.state >>> 64).truncate 64
  let low := g.state.truncate 64
  (g, (high ^^^ low).rotateRight (g.state >>> 122).toNat)

def seedWords : (count : Nat) → BitVec 64 → List (BitVec 32)
  | 0, _ => []
  | count + 1, s =>
    let s := s * 6364136223846793005 + 11634580027462260723
    let x := (((s >>> 18) ^^^ s) >>> 27).truncate 32
    x.rotateRight (s >>> 59).toNat :: seedWords count s

def joinWords : List (BitVec 32) → BitVec 128
  | [] => 0
  | w :: ws => w.zeroExtend 128 ||| (joinWords ws <<< 32)

def ofSeed (seed : BitVec 64) : Generator :=
  let words := seedWords 8 seed
  let increment := joinWords (words.drop 4) ||| 1
  advance ⟨joinWords (words.take 4) + increment, increment⟩

/-- A number from zero up to but not including one, a multiple of `2 ^ -53`. -/
def nextUnit (g : Generator) : Generator × Float :=
  let (g, bits) := g.next
  (g, (UInt64.ofBitVec (bits >>> 11)).toFloat / 9007199254740992)

def fork (g : Generator) : Generator := ofSeed g.next.2

end Generator

end Arbor
