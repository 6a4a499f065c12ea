import Fern.Main
import Fern.Diagnostic.Fault
import Fern.Text.Cursor
import Fern.Text.Escape
import Fern.Proofs.Text.Places
import Fern.Proofs.Lexing.Spelling
import Fern.Proofs.Lexing.Scanner
import Fern.Proofs.Lexing.Segments
import Fern.Proofs.Lexing.Writing
import Fern.Proofs.Lexing.Fitting
import Fern.Proofs.Lexing.Failures
import Fern.Proofs.Lexing.Literals
import Fern.Proofs.Lexing.Lines
import Fern.Proofs.Lexing.Beginnings
import Fern.Proofs.Lexing.Order
import Fern.Proofs.Program.Subtree
import Fern.Proofs.Program.Relabelling
import Fern.Proofs.Program.Outline
import Fern.Proofs.Program.Legible
import Fern.Proofs.Program.Following
import Fern.Proofs.Parsing.Grammar
import Fern.Proofs.Parsing.Steps
import Fern.Proofs.Parsing.Storage
import Fern.Proofs.Program.Filling
import Fern.Proofs.Program.Parts
import Fern.Proofs.Parsing.Operators
import Fern.Proofs.Parsing.Headers
import Fern.Proofs.Parsing.Soundness
import Fern.Proofs.Parsing.Reading
import Fern.Proofs.Parsing.Completeness
import Fern.Proofs.Parsing.Language
import Fern.Proofs.Parsing.Legibility
import Fern.Proofs.Parsing.Printing
import Fern.Proofs.Parsing.RoundTrip
import Fern.Proofs.Parsing.Findings
import Fern.Proofs.Parsing.Numbering
import Fern.Proofs.Parsing.Layout
import Fern.Proofs.Parsing.Locality
import Fern.Proofs.Parsing.Semicolons
import Fern.Proofs.Parsing.Correspondence
import Fern.Proofs.Parsing.Relocation
import Fern.Proofs.Parsing.Precedence
import Fern.Proofs.Parsing.Targets
import Fern.Proofs.Parsing.Walking
import Fern.Proofs.Parsing.Termination
import Fern.Proofs.Typing.Judgement
import Fern.Proofs.Typing.Steps
import Fern.Proofs.Typing.Frame
import Fern.Proofs.Typing.Verdict
import Fern.Proofs.Typing.Soundness
import Fern.Proofs.Typing.Completeness
import Fern.Proofs.Typing.Acceptance
import Fern.Proofs.Typing.Parsed
import Fern.Proofs.Typing.Declarations
import Fern.Proofs.Typing.Coverage
import Fern.Proofs.Typing.Table
import Fern.Proofs.Typing.Scoping
import Fern.Proofs.Typing.Trace
import Fern.Proofs.Typing.Stages
import Fern.Proofs.Typing.Modularity
import Fern.Proofs.Typing.Visits
import Fern.Proofs.Typing.Checks
import Fern.Proofs.Typing.Errors
import Fern.Proofs.Typing.Callable
import Fern.Proofs.Typing.Hooks
import Fern.Proofs.Typing.Calls
import Fern.Proofs.Typing.Itinerary
import Fern.Proofs.Typing.Muting
import Fern.Proofs.Typing.Unreachable
import Fern.Proofs.Typing.Comparisons
import Fern.Proofs.Typing.Returns
import Fern.Proofs.Typing.Findings
import Fern.Proofs.Scope.Histories
import Fern.Proofs.Diagnostic.Recording
import Fern.Proofs.Diagnostic.Joining
import Fern.Proofs.Diagnostic.Excerpt
import Fern.Proofs.Diagnostic.Pointing
import Fern.Proofs.Safety.Offsets
import Fern.Proofs.Safety.Lexing
import Fern.Proofs.Safety.Parsing
import Fern.Proofs.Safety.Passes
import Fern.Proofs.Passes.Spacing
import Fern.Proofs.Passes.Dumping
import Fern.Proofs.Passes.Appending
import Fern.Proofs.CommandLine.Stopping
import Fern.Proofs.Parsing.Concatenation
import Fern.Proofs.Parsing.Refusal
