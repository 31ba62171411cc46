import Arbor.Config.Basic
import Arbor.Json.Codec

/-!
# Configurations as JSON

A configuration is a record of ten values, of which axiom, segment length, angle and number of
iterations must be there.  `Config.ofText` reads one and validates it.
-/
set_option autoImplicit false

namespace Arbor.Config

open Turtle (HeadingMode UnderflowPolicy)

def names : List String :=
  ["axiom", "rules", "segment_length", "segment_thickness", "angle", "growth_factor",
    "max_iterations", "heading", "underflow", "max_stack_depth"]

def toJson (print : Float32 → Numeral) (c : Config) : Json :=
  .ofFields (names.zip
    [.ofString c.axiomText, .array (c.rules.map .ofString), .ofSingle print c.segmentLength,
      .ofSingle print c.segmentThickness, .ofSingle print c.angle, .ofSingle print c.growthFactor,
      .ofNat c.maxIterations.toNat, c.heading.toJson, c.underflow.toJson,
      .ofNat c.maxStackDepth.toNat])

def texts? (j : Json) : Option (List String) := do (← j.array?).mapM Json.string?

def ofJson? (j : Json) : Option Config := do
  let [axiomText, rules, length, thickness, angle, growth, iterations, heading, underflow, depth] ←
    j.fields names | none
  return {
    axiomText := ← Json.required Json.string? axiomText
    rules := ← Json.optional texts? [] rules
    segmentLength := ← Json.required Json.single? length
    segmentThickness := ← Json.optional Json.single? 0.02 thickness
    angle := ← Json.required Json.single? angle
    growthFactor := ← Json.optional Json.single? 1 growth
    maxIterations := .ofNat (← Json.required (Json.natBelow? UInt32.size) iterations)
    heading := ← Json.optional HeadingMode.ofJson? .spatial heading
    underflow := ← Json.optional UnderflowPolicy.ofJson? .reject underflow
    maxStackDepth := .ofNat (← Json.optional (Json.natBelow? UInt64.size) 1024 depth) }

def text (print : Float32 → Numeral) (c : Config) : String := (c.toJson print).text

def ofText (text : String) : Except ConfigError Config :=
  match Json.ofText? text >>= ofJson? with
  | none => .error .unreadable
  | some c => do
    c.validate
    return c

end Arbor.Config
