import Arbor.Config.Basic
import Arbor.Engine.Notice

/-!
# Growing by generations

A grower is what trees and plants have in common: a grammar, an interpreter for its sentences, a
last generation, and the fault that stopped it, if one did.  `Grower.grow` goes on by one
generation.  A generation that cannot be derived or drawn stops the grower for good and leaves its
sentence as it was; so a fault is never followed by another one.
-/
set_option autoImplicit false

namespace Arbor

open Turtle (Interpreter)

structure Grower where
  grammar : Grammar
  interpreter : Interpreter
  maxIterations : UInt32
  fault : Option Fault
deriving DecidableEq, Repr

inductive Growth where
  | settled
  | halted
  /-- A fault stopped the grower; closes at some indices had been skipped. -/
  | failed (cause : Fault) (strayCloses : List Nat)
  | grown (segments : List Segment) (strayCloses : List Nat)
deriving DecidableEq, Repr

namespace Grower

def ofConfig (c : Config) : Except ConfigError Grower := do
  c.validate
  let grammar ← c.grammar
  let interpreter ← Interpreter.standard c.settings grammar.symbols
  return { grammar, interpreter, maxIterations := c.maxIterations, fault := none }

def iteration (g : Grower) : Nat := g.grammar.generation

def IsSettled (g : Grower) : Prop := g.maxIterations.toNat ≤ g.iteration

instance (g : Grower) : Decidable g.IsSettled :=
  inferInstanceAs (Decidable (g.maxIterations.toNat ≤ g.iteration))

/-- Goes on by one generation, unless stopped or settled. -/
def grow (g : Grower) : Grower × Growth :=
  if g.fault.isSome then (g, .halted)
  else if g.IsSettled then (g, .settled)
  else match g.grammar.advanceWith g.interpreter.run with
    | (grammar, .underivable e) =>
      ({ g with grammar, fault := some (.derive e) }, .failed (.derive e) [])
    | (grammar, .refused p e) =>
      ({ g with grammar, fault := some (.interpret e) },
        .failed (.interpret e) p.strayCloses.reverse)
    | (grammar, .kept p) =>
      ({ g with grammar }, .grown p.segments.reverse p.strayCloses.reverse)

def faultNotices (g : Grower) (kind : EngineKind) (cause : Fault) (strayCloses : List Nat) :
    List Notice :=
  strayCloses.map .strayClose ++ [.halted kind (g.iteration + 1) cause]

/-- The notices of a generation, which end with one more if it is the last. -/
def grownNotices (g : Grower) (kind : EngineKind) (strayCloses : List Nat) (report : Notice)
    (count : Nat) : List Notice :=
  strayCloses.map .strayClose ++ [report] ++ if g.IsSettled then [.fullyGrown kind count] else []

end Grower

end Arbor
