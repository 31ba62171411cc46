import Arbor.Config.Codec
import Arbor.Engine.Stage
import Arbor.Proofs.Growth.Redraw
import Arbor.Scene.Ledger
import Arbor.Proofs.Engine.Custody
import Arbor.Proofs.Engine.Lifecycle
import Arbor.Proofs.Growth.Discovery
import Arbor.Proofs.Engine.Accretion
import Arbor.Proofs.Grammar.Replacement
import Arbor.Proofs.Grammar.Symbols
import Arbor.Proofs.Turtle.Meaning
import Arbor.Proofs.Turtle.Depiction
import Arbor.Proofs.Grammar.Sprouting
import Arbor.Proofs.Engine.Retention
import Arbor.Proofs.Grammar.Choice
import Arbor.Proofs.Grammar.Requests
import Arbor.Proofs.Grammar.Refusal
import Arbor.Proofs.Grammar.Course
import Arbor.Proofs.Turtle.Nesting
import Arbor.Proofs.Grammar.Balance
import Arbor.Proofs.Engine.Bracketing
import Arbor.Proofs.Growth.Upkeep
import Arbor.Proofs.Engine.Picture
import Arbor.Proofs.Number.Nearest
import Arbor.Proofs.Number.Packing
import Arbor.Proofs.Number.Rounding
import Arbor.Proofs.Number.Single
import Arbor.Proofs.Geometry.Turning
import Arbor.Proofs.Growth.Size
import Arbor.Proofs.Turtle.Extent
import Arbor.Proofs.Turtle.Joints
import Arbor.Proofs.Turtle.Faults
import Arbor.Proofs.Turtle.Mending
import Arbor.Proofs.Engine.Reading
import Arbor.Proofs.Engine.Surroundings
import Arbor.Proofs.Engine.Lockstep
import Arbor.Proofs.Turtle.Lifting
import Arbor.Proofs.Growth.Union
import Arbor.Proofs.Number.Whole
import Arbor.Proofs.Growth.Grid
import Arbor.Proofs.Turtle.Plane
import Arbor.Proofs.Number.Widening
import Arbor.Proofs.Turtle.Respelling
import Arbor.Proofs.Engine.Gates
import Arbor.Proofs.Grammar.Copy
import Arbor.Proofs.Scene.History
import Arbor.Proofs.Scene.Placing
import Arbor.Proofs.Number.Accumulation
import Arbor.Proofs.Engine.Spinning
import Arbor.Proofs.Number.Quotient
import Arbor.Proofs.Number.Double
import Arbor.Proofs.Json.Text
import Arbor.Proofs.Json.Numeral
import Arbor.Proofs.Config.Codec
