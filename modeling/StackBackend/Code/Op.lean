import StackBackend.Program.Operand

/-!
# Stack-machine operations

The code is one list of operations: classes and methods are bracketed by opening and closing
operations, and the operations in between work on an operand stack and on the local slots of the
method. The stack effect of an operation says how many values it takes from the stack and how many
it leaves there.
-/
namespace StackBackend.Code

structure Slot where
  index : UInt16
deriving DecidableEq, Repr

def Slot.text (s : Slot) : String := "$" ++ toString s.index.toNat

/-- A position in the code of one method. -/
structure Mark where
  id : UInt32
deriving DecidableEq, Repr

namespace Mark

def text (m : Mark) : String := "T" ++ toString m.id.toNat

instance : Ord Mark := ⟨fun a b => compare a.id b.id⟩

instance : Std.TransOrd Mark where
  eq_swap {a b} := show compare a.id b.id = (compare b.id a.id).swap from Std.OrientedCmp.eq_swap
  isLE_trans {a b c} :=
    show (compare a.id b.id).isLE → (compare b.id c.id).isLE → (compare a.id c.id).isLE
    from Std.TransCmp.isLE_trans

instance : Std.LawfulEqOrd Mark where
  eq_of_compare {a b} h := by
    cases a; cases b; exact congrArg Mark.mk (Std.LawfulEqOrd.eq_of_compare h)

end Mark

inductive MethodKind where
  | onInstance
  | onClass
deriving DecidableEq, Repr

inductive Op where
  | beginClass (name source : String)
  | endClass
  | declareField (name : String)
  | beginMethod (name : String) (kind : MethodKind)
  | endMethod
  | push (value : Constant)
  | load (slot : Slot)
  | store (slot : Slot)
  | pop
  | mark (target : Mark)
  | goto (target : Mark)
  | gotoIfEqual (target : Mark)
  /-- Pops the arguments and pushes the result. -/
  | invoke (method : String) (argCount : Nat)
  | returnValue
  | getField (field : String)
  /-- Pops a receiver and a value and stores the value in the field. -/
  | putField (field : String)
deriving BEq

namespace Op

/-- How many values are popped and how many are pushed then. -/
def stackEffect : Op → Nat × Nat
  | .push _ | .load _ => (0, 1)
  | .store _ | .pop | .returnValue => (1, 0)
  | .gotoIfEqual _ | .putField _ => (2, 0)
  | .invoke _ argCount => (argCount, 1)
  | .getField _ => (1, 1)
  | .beginClass .. | .endClass | .declareField _ | .beginMethod .. | .endMethod | .mark _
  | .goto _ => (0, 0)

def target? : Op → Option Mark
  | .goto m | .gotoIfEqual m => some m
  | _ => none

def text : Op → String
  | .beginClass name source => "class " ++ name ++ " (" ++ source ++ ")"
  | .endClass => "end class"
  | .declareField name => "field " ++ name
  | .beginMethod name .onInstance => "method " ++ name
  | .beginMethod name .onClass => "static method " ++ name
  | .endMethod => "end method"
  | .push value => "push " ++ value.text
  | .load slot => "load " ++ slot.text
  | .store slot => "store " ++ slot.text
  | .pop => "pop"
  | .mark m => m.text ++ ":"
  | .goto m => "goto " ++ m.text
  | .gotoIfEqual m => "if_cmpeq " ++ m.text
  | .invoke method argCount => "invoke " ++ method ++ "/" ++ toString argCount
  | .returnValue => "return"
  | .getField field => "getfield " ++ field
  | .putField field => "putfield " ++ field

end Op

end StackBackend.Code
