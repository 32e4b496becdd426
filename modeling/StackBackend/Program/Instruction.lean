import StackBackend.Program.Operand

/-!
# Instructions, methods and classes

A routine is a linear stream of instructions; labels mark the positions that jumps lead to. A stream
can define methods and classes where it stands, so the three types refer to each other. The reading
of a stream as control flow rests on four questions about an instruction: which label it leads to,
which labels it mentions, and whether it starts or ends a basic block.
-/
namespace StackBackend

mutual
structure Method where
  name : String
  instrs : List Instruction

inductive Instruction where
  | label (label : Label)
  | jump (target : Label)
  | branch (lhs rhs : Operand) (target : Label)
  /-- Dispatches on a value. Its arms are branches of their own, so it has no target. -/
  | dispatch (value : Operand)
  /-- Leaves a loop, perhaps with a value. Where to is not modelled. -/
  | leave (value : Option Operand)
  | copy (result : Variable) (source : Operand)
  | call (result : Option Variable) (method : String) (args : List Operand)
  | getField (result : Variable) (receiver : Operand) (field : FieldRef)
  | putField (receiver : Operand) (field : FieldRef) (value : Operand)
  | receiveArg (result : Variable) (index : UInt64)
  | ret (value : Operand)
  | defineInstanceMethod (method : Method)
  | defineClassMethod (method : Method)
  | defineClass (definition : Class)

structure Class where
  name : String
  /-- The logic of the class itself, a routine without a name of its own. -/
  instrs : List Instruction
  methods : List Method
  classes : List Class
end

structure Script where
  fileName : String
  root : Class

def classBodyName : String := "__class__"

def Class.body (c : Class) : Method := ⟨classBodyName, c.instrs⟩

inductive InstructionKind where
  | label | jump | branch | dispatch | leave | copy | call | getField | putField | receiveArg | ret
  | defineInstanceMethod | defineClassMethod | defineClass
deriving DecidableEq, Repr

def InstructionKind.text : InstructionKind → String
  | .label => "LABEL"
  | .jump => "JUMP"
  | .branch => "BEQ"
  | .dispatch => "CASE"
  | .leave => "BREAK"
  | .copy => "COPY"
  | .call => "CALL"
  | .getField => "GET_FIELD"
  | .putField => "PUT_FIELD"
  | .receiveArg => "RECV_ARG"
  | .ret => "RETURN"
  | .defineInstanceMethod => "DEF_INST_METH"
  | .defineClassMethod => "DEF_CLS_METH"
  | .defineClass => "DEF_CLASS"

namespace Instruction

def kind : Instruction → InstructionKind
  | .label _ => .label
  | .jump _ => .jump
  | .branch .. => .branch
  | .dispatch _ => .dispatch
  | .leave _ => .leave
  | .copy .. => .copy
  | .call .. => .call
  | .getField .. => .getField
  | .putField .. => .putField
  | .receiveArg .. => .receiveArg
  | .ret _ => .ret
  | .defineInstanceMethod _ => .defineInstanceMethod
  | .defineClassMethod _ => .defineClassMethod
  | .defineClass _ => .defineClass

/-- All operands by position, labels and fields included. -/
def operands : Instruction → List Operand
  | .label l | .jump l => [.label l]
  | .branch lhs rhs target => [lhs, rhs, .label target]
  | .dispatch value | .copy _ value | .ret value => [value]
  | .leave value => value.toList
  | .call _ _ args => args
  | .getField _ receiver field => [receiver, .field field]
  | .putField receiver field value => [receiver, .field field, value]
  | .receiveArg .. | .defineInstanceMethod _ | .defineClassMethod _ | .defineClass _ => []

def result? : Instruction → Option Variable
  | .copy result _ | .getField result _ _ | .receiveArg result _ => some result
  | .call result _ _ => result
  | _ => none

def target? : Instruction → Option Label
  | .jump target | .branch _ _ target => some target
  | _ => none

def labels : Instruction → List Label
  | .label l => [l]
  | i => i.target?.toList

def startsBlock : Instruction → Bool
  | .label _ => true
  | _ => false

def endsBlock : Instruction → Bool
  | .jump _ | .branch .. | .dispatch _ | .leave _ => true
  | _ => false

def isJump : Instruction → Bool
  | .jump _ => true
  | _ => false

def text : Instruction → String
  | .label l => l.text ++ ":"
  | .jump target => "jump " ++ target.text
  | .branch lhs rhs target => "beq " ++ lhs.text ++ ", " ++ rhs.text ++ ", " ++ target.text
  | .dispatch value => "case " ++ value.text
  | .leave (some value) => "break " ++ value.text
  | .leave none => "break"
  | .copy result source => result.text ++ " = " ++ source.text
  | .call result method args =>
    (match result with | some r => r.text ++ " = " | none => "") ++
      "call " ++ method ++ "(" ++ ", ".intercalate (args.map Operand.text) ++ ")"
  | .getField result receiver field =>
    result.text ++ " = " ++ receiver.text ++ "." ++ field.text
  | .putField receiver field value => receiver.text ++ "." ++ field.text ++ " = " ++ value.text
  | .receiveArg result index => result.text ++ " = recv_arg(" ++ toString index.toNat ++ ")"
  | .ret value => "return " ++ value.text
  | .defineInstanceMethod method => "def " ++ method.name
  | .defineClassMethod method => "def self." ++ method.name
  | .defineClass definition => "class " ++ definition.name

end Instruction

def streamLabels (instrs : List Instruction) : List Label := instrs.flatMap Instruction.labels

def Method.labelSupply (m : Method) : LabelSupply := .resumeAfter (streamLabels m.instrs)

end StackBackend
