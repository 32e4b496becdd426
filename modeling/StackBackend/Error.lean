/-!
# What can go wrong

The errors of the whole library, with their wording. An error of a routine names the routine; labels
are cited by their text.
-/
namespace StackBackend

inductive Error where
  | unresolvedLabels (routine : String) (labels : List String)
  | duplicateLabel (routine label : String)
  | labelSpaceExhausted
  | noActiveContainer
  | noActiveRoutine (operation : String)
  | scopeMismatch (expected found : String)
  | tooManyLocals (routine : String)
  | tooManyLabels (routine : String)
  | verificationFailed (text : String)
  | invalidIr (text : String)
  | compilerError (text : String)
deriving DecidableEq, Repr

def Error.message : Error → String
  | .unresolvedLabels routine labels =>
    "Unresolved label(s) in routine " ++ routine ++ ": " ++ ", ".intercalate labels
  | .duplicateLabel routine label => "Duplicate label " ++ label ++ " in routine " ++ routine
  | .labelSpaceExhausted => "Label space exhausted"
  | .noActiveContainer => "No active container scope"
  | .noActiveRoutine operation => "No active routine scope for " ++ operation
  | .scopeMismatch expected found =>
    "Scope mismatch: expected to exit " ++ expected ++ ", innermost is " ++ found
  | .tooManyLocals routine => "Too many locals in routine " ++ routine
  | .tooManyLabels routine => "Too many labels in routine " ++ routine
  | .verificationFailed text => "Verification failed: " ++ text
  | .invalidIr text => "Invalid IR: " ++ text
  | .compilerError text => "Compiler error: " ++ text

inductive Severity where
  | fatal
  | recoverable
deriving DecidableEq, Repr

def Error.severity : Error → Severity
  | .invalidIr _ | .compilerError _ => .recoverable
  | _ => .fatal

/-- An operation that fails leaves the state as it was. -/
def Atomic {σ α : Type} (operation : EStateM Error σ α) : Prop :=
  ∀ s e t, operation.run s = .error e t → t = s

end StackBackend
