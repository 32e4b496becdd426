import StackBackend.Compile
import StackBackend.Flow.Session
import StackBackend.Flow.Traversal
import StackBackend.Interchange.Decode
import StackBackend.Interchange.Encode
import StackBackend.Lower.Session
import StackBackend.Program.Equality
import StackBackend.Proofs.Code.Grammar
import StackBackend.Proofs.Flow.Runs
import StackBackend.Proofs.Lower.Alone
import StackBackend.Proofs.Lower.LabelAgreement
import StackBackend.Proofs.Lower.Listing
import StackBackend.Proofs.Lower.Simulation
import StackBackend.Proofs.Lower.StackWalk
import StackBackend.Proofs.Lower.Unwinding
import StackBackend.Proofs.Flow.LoopHeaders
import StackBackend.Proofs.Flow.Numbering
import StackBackend.Proofs.Json.Numerals
import StackBackend.Proofs.Json.Strings
import StackBackend.Proofs.Json.Doubles
import StackBackend.Proofs.Json.Documents
import StackBackend.Proofs.Interchange.Instructions
import StackBackend.Proofs.Interchange.RoundTrip
import StackBackend.Proofs.Flow.Cycles
import StackBackend.Proofs.Flow.GeneratedLabels
import StackBackend.Proofs.Flow.Traversal
import StackBackend.Proofs.Flow.Postorder
import StackBackend.Proofs.Flow.Sessions
import StackBackend.Proofs.Scope.Slots
import StackBackend.Proofs.Lower.Fields
import StackBackend.Proofs.Lower.Unsupported
import StackBackend.Proofs.Scope.Nesting
import StackBackend.Proofs.Scope.Guards
import StackBackend.Proofs.Code.Shift
import StackBackend.Proofs.Lower.FirstSlot
import StackBackend.Proofs.Lower.Renaming
import StackBackend.Proofs.Lower.RenamedCode
import StackBackend.Proofs.Scope.Requests
import StackBackend.Proofs.Flow.Representation
import StackBackend.Proofs.Compile.ProblemLog
import StackBackend.Proofs.Compile.DiagnosedGraphs
