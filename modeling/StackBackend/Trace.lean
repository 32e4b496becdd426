import StackBackend.Code.Verify
import StackBackend.Lower.Diagnostic

/-!
# The trace of a compilation

Every stage reports what it does as a list of events in the order in which they happen. An event has
a level, a message and named values; problems are reported at the level `warn`.
-/
namespace StackBackend

inductive Level where
  | trace | debug | warn
deriving DecidableEq, Repr

def Level.text : Level → String
  | .trace => "TRACE"
  | .debug => "DEBUG"
  | .warn => "WARN"

inductive Event where
  | labeledBlock (routine : String) (block : Nat) (label : Label)
  | implicitBlock (routine : String) (block : Nat)
  | graphBuilt (routine : String) (blocks edges : Nat)
  | graphFailed (routine : String) (error : Error)
  | enterContainer (name : String)
  | enterRoutine (container name : String)
  /-- An argument has its slot, but its value is not put there yet. -/
  | argumentReserved (result : Variable) (slot : Code.Slot) (index : Nat)
  | diagnosed (diagnostic : Diagnostic)
  | routineLowered (name : String) (instructions locals : Nat)
  | scriptLowered (file : String) (ops diagnostics : Nat)
  | verifierWarned (warning : Code.Warning)
  | verifierFailed (error : Code.VerifyError)
deriving DecidableEq, Repr

namespace Event

def level : Event → Level
  | .labeledBlock .. | .implicitBlock .. | .enterContainer _ | .enterRoutine ..
  | .argumentReserved .. => .trace
  | .graphBuilt .. | .routineLowered .. | .scriptLowered .. => .debug
  | .graphFailed .. | .diagnosed _ | .verifierWarned _ | .verifierFailed _ => .warn

def message : Event → String
  | .labeledBlock .. => "labeled block"
  | .implicitBlock .. => "implicit block"
  | .graphBuilt .. => "built CFG"
  | .graphFailed _ error => "CFG not built: " ++ error.message
  | .enterContainer _ => "enter container"
  | .enterRoutine .. => "enter routine"
  | .argumentReserved .. => "argument slot reserved"
  | .diagnosed diagnostic => diagnostic.text
  | .routineLowered .. => "lowered routine"
  | .scriptLowered .. => "lowered script"
  | .verifierWarned warning => warning.message
  | .verifierFailed error => "verification: " ++ error.message

def fields : Event → List (String × String)
  | .labeledBlock routine block label =>
    [("routine", routine), ("block", toString block), ("label", label.text)]
  | .implicitBlock routine block => [("routine", routine), ("block", toString block)]
  | .graphBuilt routine blocks edges =>
    [("routine", routine), ("blocks", toString blocks), ("edges", toString edges)]
  | .graphFailed routine _ => [("routine", routine)]
  | .enterContainer name => [("container", name)]
  | .enterRoutine container name => [("container", container), ("routine", name)]
  | .argumentReserved result slot index =>
    [("result", result.text), ("slot", slot.text), ("position", toString index)]
  | .routineLowered name instructions locals =>
    [("routine", name), ("instructions", toString instructions), ("locals", toString locals)]
  | .scriptLowered file ops diagnostics =>
    [("file", file), ("ops", toString ops), ("diagnostics", toString diagnostics)]
  | .diagnosed _ | .verifierWarned _ | .verifierFailed _ => []

end Event

end StackBackend
