import Arbor.Grammar.Basic
import Arbor.Turtle.Interpreter

/-!
# Configurations

What a tree or a plant is built from: a grammar, how it is drawn, how its branches grow and when
it stops.  `validate` makes every check that building an engine needs, in a fixed order, and
reports the first that fails.
-/
set_option autoImplicit false

namespace Arbor

open Turtle (HeadingMode UnderflowPolicy Settings)

structure Config where
  axiomText : String
  rules : List String
  segmentLength : Float32
  segmentThickness : Float32
  /-- The angle of a turn, in radians. -/
  angle : Float32
  growthFactor : Float32
  /-- The number of generations after which an engine is settled. -/
  maxIterations : UInt32
  heading : HeadingMode
  underflow : UnderflowPolicy
  maxStackDepth : UInt64
deriving DecidableEq, Repr

namespace Config

def tree : Config where
  axiomText := "F"
  rules := ["F -> F [ + F ] [ - F ] [ ^ F ] [ & F ]"]
  segmentLength := 0.5
  segmentThickness := 0.02
  angle := Geometry.pi / 6
  growthFactor := 1.5
  maxIterations := 5
  heading := .spatial
  underflow := .reject
  maxStackDepth := 1024

def plant : Config where
  axiomText := "S"
  rules := ["S -> F [ + F ] [ - F ]", "F -> F F"]
  segmentLength := 2
  segmentThickness := 0.02
  angle := Geometry.ofDegrees 25
  growthFactor := 1
  maxIterations := 5
  heading := .planar
  underflow := .ignore
  maxStackDepth := 1024

def settings (c : Config) : Settings where
  stepLength := c.segmentLength
  thickness := c.segmentThickness
  angle := c.angle
  heading := c.heading
  underflow := c.underflow
  maxStackDepth := c.maxStackDepth

def grammar (c : Config) : Except ConfigError Grammar :=
  (Grammar.ofTexts c.axiomText c.rules).mapError .grammar

def validate (c : Config) : Except ConfigError Unit := do
  c.settings.validate
  checkSize .growthFactor c.growthFactor
  let _ ← c.grammar

end Config

end Arbor
