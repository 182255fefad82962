import Lox.Main
import Lox.Proofs.Parser.Passing
import Lox.Proofs.Parser.Progress
import Lox.Proofs.Parser.Steps
import Lox.Proofs.Parser.Reading
import Lox.Proofs.Parser.Precedence
import Lox.Proofs.Parser.Places
import Lox.Proofs.Parser.Restoring
import Lox.Proofs.Parser.Nesting
import Lox.Proofs.Parser.Completeness
import Lox.Proofs.Parser.Soundness
import Lox.Proofs.Parser.Language
import Lox.Proofs.Syntax.Alike
import Lox.Proofs.Parser.Likeness
import Lox.Proofs.Parser.Attempt
import Lox.Proofs.Interpreter.Confinement
import Lox.Proofs.Interpreter.Escapes
import Lox.Proofs.Interpreter.Fuel
import Lox.Proofs.Store.Merging
import Lox.Proofs.Interpreter.Agreement
import Lox.Proofs.Interpreter.Rounds
import Lox.Proofs.Parser.Bodies
import Lox.Proofs.Interpreter.Loops
import Lox.Proofs.Interpreter.Equivalence
import Lox.Proofs.Session.Accounts
import Lox.Proofs.Store.Linking
import Lox.Proofs.Interpreter.Mirroring
import Lox.Proofs.Interpreter.Locality
import Lox.Proofs.Token.Joining
import Lox.Proofs.Parser.Joining
import Lox.Proofs.Interpreter.Rows
import Lox.Proofs.Session.Joining
import Lox.Proofs.Interpreter.Congruence
import Lox.Proofs.Interpreter.Limits
import Lox.Proofs.Interpreter.Course
import Lox.Proofs.Interpreter.CallDepth
import Lox.Proofs.Session.Layout
import Lox.Proofs.Reporter.Flags
import Lox.Proofs.Session.Histories
import Lox.Proofs.Store.Growth
import Lox.Proofs.Interpreter.Declarations
import Lox.Proofs.Token.Tiling
import Lox.Proofs.Token.Spacing
import Lox.Proofs.Token.Counting
import Lox.Proofs.Syntax.Parts
import Lox.Proofs.Syntax.Shape
import Lox.Proofs.Syntax.Written
import Lox.Proofs.Parser.Acceptance
import Lox.Proofs.Parser.Shaping
import Lox.Proofs.Interpreter.Raising
import Lox.Proofs.Token.Lines
import Lox.Proofs.Session.Placement
import Lox.Proofs.Session.Prompting
import Lox.Proofs.Text.Quoted
import Lox.Proofs.Decimal.Rounding
import Lox.Proofs.Decimal.Digits
import Lox.Proofs.Decimal.Reading
import Lox.Proofs.Syntax.Rendering
import Lox.Proofs.Syntax.Outlining
import Lox.Proofs.Session.Outlining
import Lox.Proofs.Syntax.Respelling
import Lox.Proofs.Store.Respelling
import Lox.Proofs.Interpreter.Respelling
import Lox.Proofs.Session.Respelling
import Lox.Proofs.Interpreter.Halting
import Lox.Proofs.Parser.Lookahead
import Lox.Proofs.Parser.Locality
import Lox.Proofs.Parser.Boundaries
import Lox.Proofs.Parser.Charging
import Lox.Proofs.Parser.Finishing
import Lox.Proofs.Token.Shifting
import Lox.Proofs.Store.Chains
import Lox.Proofs.Text.Bytes
import Lox.Proofs.Store.Listing
import Lox.Proofs.Interpreter.Calls
import Lox.Proofs.Syntax.Declaring
import Lox.Proofs.Syntax.Bracing
import Lox.Proofs.Store.Recoding
import Lox.Proofs.Interpreter.Recoding
import Lox.Proofs.Interpreter.Bracing
import Lox.Proofs.Store.Founding
import Lox.Proofs.Interpreter.Grounding
import Lox.Proofs.Interpreter.Clients
