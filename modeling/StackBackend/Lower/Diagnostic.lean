import StackBackend.Program.Instruction

/-!
# Diagnostics

What the code of a routine leaves out: an instruction for which there is no code, or an operand that
has no value. A diagnostic gives the path of the routine and the position and text of the
instruction in it.
-/
namespace StackBackend

inductive DiagnosticKind where
  | unsupportedInstruction (kind : InstructionKind)
  | unsupportedOperand (kindName : String)
deriving DecidableEq, Repr

structure Diagnostic where
  kind : DiagnosticKind
  routine : String
  index : Nat
  instr : String
deriving DecidableEq, Repr

def Diagnostic.text (d : Diagnostic) : String :=
  d.routine ++ "[" ++ toString d.index ++ "]: " ++
    match d.kind with
    | .unsupportedInstruction kind =>
      "unsupported instruction " ++ kind.text ++ " (" ++ d.instr ++ ")"
    | .unsupportedOperand kindName => "cannot evaluate " ++ kindName ++ " operand in " ++ d.instr

end StackBackend
