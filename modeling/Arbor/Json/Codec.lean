import Arbor.Json.Decode
import Arbor.Json.Reader
import Arbor.Segment
import Arbor.Turtle.Interpreter

/-!
# Written forms

How directions, headings, cursors, segments and policies are written as JSON, and how they are
read. Modes and policies are names.  A heading is an object whose only member names its
kind.  Segments and cursors are records, all of whose values must be there.
-/
set_option autoImplicit false

namespace Arbor

open Arbor.Geometry (Vec3)
open Turtle (Heading HeadingMode Cursor UnderflowPolicy)

variable (print : Float32 → Numeral)

def Geometry.Vec3.toJson (v : Vec3) : Json :=
  .array [.ofSingle print v.x, .ofSingle print v.y, .ofSingle print v.z]

def Geometry.Vec3.ofJson? : Json → Option Vec3
  | .array [x, y, z] => do return ⟨← x.single?, ← y.single?, ← z.single?⟩
  | _ => none

def Turtle.HeadingMode.toJson (m : HeadingMode) : Json := .ofString m.name

def Turtle.HeadingMode.ofJson? (j : Json) : Option HeadingMode := do
  match ← j.name? with
  | "planar" => some .planar
  | "spatial" => some .spatial
  | _ => none

def Turtle.UnderflowPolicy.toJson (p : UnderflowPolicy) : Json := .ofString p.name

def Turtle.UnderflowPolicy.ofJson? (j : Json) : Option UnderflowPolicy := do
  match ← j.name? with
  | "reject" => some .reject
  | "ignore" => some .ignore
  | _ => none

def Turtle.Heading.toJson : Heading → Json
  | .planar angle => .ofFields [("Planar", .ofSingle print angle)]
  | .spatial direction => .ofFields [("Spatial", direction.toJson print)]

def Turtle.Heading.ofJson? : Json → Option Heading
  | .object [(some "Planar", angle)] => do return .planar (← angle.single?)
  | .object [(some "Spatial", direction)] => do return .spatial (← Vec3.ofJson? direction)
  | _ => none

def Turtle.Cursor.toJson (c : Cursor) : Json :=
  .ofFields [("position", c.position.toJson print), ("heading", c.heading.toJson print)]

def Turtle.Cursor.ofJson? (j : Json) : Option Cursor := do
  let [position, heading] ← j.fields ["position", "heading"] | none
  return {
    position := ← Json.required Vec3.ofJson? position
    heading := ← Json.required Heading.ofJson? heading }

def Segment.toJson (s : Segment) : Json :=
  .ofFields [("start", s.start.toJson print), ("direction", s.direction.toJson print),
    ("length", .ofSingle print s.length), ("thickness", .ofSingle print s.thickness)]

def Segment.ofJson? (j : Json) : Option Segment := do
  let [start, direction, length, thickness] ← j.fields ["start", "direction", "length", "thickness"]
    | none
  return {
    start := ← Json.required Vec3.ofJson? start
    direction := ← Json.required Vec3.ofJson? direction
    length := ← Json.required Json.single? length
    thickness := ← Json.required Json.single? thickness }

end Arbor
