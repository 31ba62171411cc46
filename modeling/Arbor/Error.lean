import Arbor.Grammar.Error
import Arbor.Number.Decimal

/-!
# Errors

* `ConfigError`: why a configuration, or one value of it, is refused.
* `InterpretError`: why a sentence cannot be drawn.
* `Fault`: why a generation cannot be reached, which is one of deriving and drawing.

Each has a `message`.  `checkSize` is the check that every length, thickness, radius and growth
factor has to pass.
-/
set_option autoImplicit false

namespace Arbor

inductive Setting where
  | segmentLength
  | segmentThickness
  | angle
  | growthFactor
  | radius
  | step
deriving DecidableEq, Repr

def Setting.name : Setting → String
  | .segmentLength => "segment_length"
  | .segmentThickness => "segment_thickness"
  | .angle => "angle"
  | .growthFactor => "growth_factor"
  | .radius => "radius"
  | .step => "step"

inductive ConfigError where
  | nonPositive (setting : Setting) (value : Float32)
  | nonFinite (setting : Setting) (value : Float32)
  | zeroStackDepth
  | grammar (cause : GrammarError)
  | unreadable
deriving DecidableEq, Repr

def ConfigError.message : ConfigError → String
  | .nonPositive setting value =>
    setting.name ++ " must be positive, got " ++ Number.singleText value
  | .nonFinite setting value => setting.name ++ " must be finite, got " ++ Number.singleText value
  | .zeroStackDepth => "max_stack_depth must be at least 1"
  | .grammar cause => "invalid grammar: " ++ cause.message
  | .unreadable => "invalid configuration JSON"

def checkFinite (setting : Setting) (value : Float32) : Except ConfigError Unit :=
  if value.isFinite then .ok () else .error (.nonFinite setting value)

def sizeError (setting : Setting) (value : Float32) : ConfigError :=
  if value.isFinite then .nonPositive setting value else .nonFinite setting value

def checkSize (setting : Setting) (value : Float32) : Except ConfigError Unit :=
  if Number.IsSize value then .ok () else .error (sizeError setting value)

/-- Why a sentence cannot be drawn.  `index` is the place of the module at fault. -/
inductive InterpretError where
  | unbalancedBranch (index : Nat)
  | stackOverflow (index depth : Nat)
  | degenerateSegment (index : Nat)
deriving DecidableEq, Repr

def InterpretError.message : InterpretError → String
  | .unbalancedBranch index =>
    "unbalanced branch: pop with empty stack at symbol " ++ toString index
  | .stackOverflow index depth =>
    "branch nesting exceeds " ++ toString depth ++ " at symbol " ++ toString index
  | .degenerateSegment index => "degenerate segment length at symbol " ++ toString index

inductive Fault where
  | derive (cause : GrammarError)
  | interpret (cause : InterpretError)
deriving DecidableEq, Repr

def Fault.message : Fault → String
  | .derive cause => "derivation failed: " ++ cause.message
  | .interpret cause => cause.message

end Arbor
