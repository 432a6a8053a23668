import Keel.Main
import Keel.Syntax.Alike
import Keel.Syntax.Printer
import Keel.Unit.Build
import Keel.Wasm.Execution
import Keel.Proofs.Floating.Integers
import Keel.Proofs.Floating.Shortest
import Keel.Proofs.Token.Numerals
import Keel.Proofs.Token.Scanning
import Keel.Proofs.Token.Layout
import Keel.Proofs.Syntax.Derivation
import Keel.Proofs.Syntax.Reading
import Keel.Proofs.Syntax.Soundness
import Keel.Proofs.Syntax.Completeness
import Keel.Proofs.Syntax.Shape
import Keel.Proofs.Syntax.Spelling
import Keel.Proofs.Syntax.Assignments
import Keel.Proofs.Syntax.Climbing
import Keel.Proofs.Syntax.Renumbering
import Keel.Proofs.Syntax.Regrouping
import Keel.Proofs.Syntax.RoundTrip
import Keel.Proofs.Lowering.Effects
import Keel.Proofs.Lowering.Signatures
import Keel.Proofs.Wasm.Typing
import Keel.Proofs.Syntax.Definitions
import Keel.Proofs.Syntax.Listing
import Keel.Proofs.Syntax.Mapping
import Keel.Proofs.Syntax.Places
import Keel.Proofs.Lowering.Typing
import Keel.Proofs.Lowering.Programs
import Keel.Proofs.Lowering.Places
import Keel.Proofs.Lowering.Assignments
import Keel.Proofs.Lowering.Validity
import Keel.Proofs.Semantics.Evaluation
import Keel.Proofs.Correctness.Operations
import Keel.Proofs.Correctness.Simulation
import Keel.Proofs.Correctness.Agreement
import Keel.Proofs.Correctness.Constructs
import Keel.Proofs.Correctness.Expressions
import Keel.Proofs.Correctness.Calls
import Keel.Proofs.Semantics.Sessions
import Keel.Proofs.Correctness.Programs
import Keel.Proofs.Semantics.Frames
import Keel.Proofs.Correctness.Stores
import Keel.Proofs.Correctness.ByName
import Keel.Proofs.Correctness.ByDeclaration
import Keel.Proofs.Lowering.Linkage
import Keel.Proofs.Syntax.Grammar
import Keel.Proofs.Syntax.Sentences
import Keel.Proofs.Syntax.Acceptance
import Keel.Proofs.Syntax.Termination
import Keel.Proofs.Unit.Linking
import Keel.Proofs.Unit.Occurrences
import Keel.Proofs.Unit.Agreement
import Keel.Proofs.Unit.Layout
import Keel.Proofs.Unit.Printing
import Keel.Proofs.Ranges.Code
import Keel.Proofs.Ranges.Lowering
import Keel.Proofs.Ranges.Moments
import Keel.Proofs.Ranges.Calls
import Keel.Proofs.Ranges.Sessions
import Keel.Proofs.Ranges.Widening
import Keel.Proofs.Ranges.Truths
import Keel.Proofs.Lowering.Callees
import Keel.Proofs.Syntax.Yield
import Keel.Proofs.Token.Lossless
import Keel.Proofs.Syntax.Contexts
import Keel.Proofs.Lowering.Refusals
import Keel.Proofs.Semantics.Integers
import Keel.Proofs.Correctness.Arithmetic
import Keel.Proofs.Lowering.Readdressing
import Keel.Proofs.Lowering.Repetition
import Keel.Proofs.Lowering.Reordering
import Keel.Proofs.Lowering.Embedding
import Keel.Proofs.Correctness.Conditions
import Keel.Proofs.Wasm.Memory
import Keel.Proofs.Lowering.Strings
import Keel.Proofs.Lowering.Addresses
import Keel.Proofs.Floating.Nearest
import Keel.Proofs.Syntax.Literals
import Keel.Proofs.Unit.Constants
import Keel.Proofs.Semantics.Literals
import Keel.Proofs.Correctness.Literals
import Keel.Proofs.Syntax.Foresight
import Keel.Proofs.Syntax.Progress
import Keel.Proofs.Unit.Faults
import Keel.Proofs.Syntax.Stretches
import Keel.Proofs.Syntax.NodeOrder
import Keel.Proofs.Syntax.Declarations
import Keel.Proofs.Lowering.Voids
import Keel.Proofs.CommandLine.Items
import Keel.Proofs.Lowering.Duplicates
import Keel.Proofs.Token.Quoting
import Keel.Proofs.Token.Exactness
