import StackBackend.Program.Instruction

/-!
# Equal scripts

Scripts are equal (`==`) when they agree in every part, where constants are compared as programs
compare them. A script with a constant that is not a number is not equal to itself.
-/
namespace StackBackend

mutual
def Method.beq : Method → Method → Bool
  | ⟨name, instrs⟩, ⟨name', instrs'⟩ => name == name' && Instruction.beqList instrs instrs'
termination_by structural m => m

def Instruction.beq : Instruction → Instruction → Bool
  | .label l, .label l' | .jump l, .jump l' => l == l'
  | .branch lhs rhs target, .branch lhs' rhs' target' =>
    lhs == lhs' && rhs == rhs' && target == target'
  | .dispatch value, .dispatch value' | .ret value, .ret value' => value == value'
  | .leave value, .leave value' => value == value'
  | .copy result source, .copy result' source' => result == result' && source == source'
  | .call result method args, .call result' method' args' =>
    result == result' && method == method' && args == args'
  | .getField result receiver field, .getField result' receiver' field' =>
    result == result' && receiver == receiver' && field == field'
  | .putField receiver field value, .putField receiver' field' value' =>
    receiver == receiver' && field == field' && value == value'
  | .receiveArg result index, .receiveArg result' index' => result == result' && index == index'
  | .defineInstanceMethod method, .defineInstanceMethod method' => method.beq method'
  | .defineClassMethod method, .defineClassMethod method' => method.beq method'
  | .defineClass definition, .defineClass definition' => definition.beq definition'
  | _, _ => false
termination_by structural i => i

def Instruction.beqList : List Instruction → List Instruction → Bool
  | [], [] => true
  | i :: rest, i' :: rest' => i.beq i' && Instruction.beqList rest rest'
  | _, _ => false
termination_by structural l => l

def Class.beq : Class → Class → Bool
  | ⟨name, instrs, methods, classes⟩, ⟨name', instrs', methods', classes'⟩ =>
    name == name' && Instruction.beqList instrs instrs' && Method.beqList methods methods' &&
      Class.beqList classes classes'
termination_by structural c => c

def Method.beqList : List Method → List Method → Bool
  | [], [] => true
  | m :: rest, m' :: rest' => m.beq m' && Method.beqList rest rest'
  | _, _ => false
termination_by structural l => l

def Class.beqList : List Class → List Class → Bool
  | [], [] => true
  | c :: rest, c' :: rest' => c.beq c' && Class.beqList rest rest'
  | _, _ => false
termination_by structural l => l
end

instance : BEq Instruction := ⟨Instruction.beq⟩
instance : BEq Script := ⟨fun s t => s.fileName == t.fileName && s.root.beq t.root⟩

end StackBackend
