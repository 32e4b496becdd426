import StackBackend.Proofs.Code.Frame
import StackBackend.Proofs.Semantics.Stream

/-!
# Running the code of a routine

The machine has a local for each slot and an operand stack. Marks and the declarations of fields do
nothing when they are run, and a jump goes to where its mark is placed. The brackets of classes and
methods do not run.
-/
namespace StackBackend

open Code (Op Slot Mark)

universe u

variable {Value World : Type u}

structure Machine (Value World : Type u) where
  activation : Activation Slot Value World
  stack : List Value

namespace Code

def markPosition (code : List Op) (m : Mark) : Option Nat :=
  code.findIdx? fun op => op.placed? = some m

def Op.exec (I : Interpretation Value World) (code : List Op) (position : Nat)
    (a : Activation Slot Value World) : Op → List Value → Option (Machine Value World)
  | .push c, stack => some ⟨a.goTo (position + 1), I.constant c :: stack⟩
  | .load slot, stack => some ⟨a.goTo (position + 1), a.locals slot :: stack⟩
  | .store slot, x :: stack => some ⟨(a.setLocal slot x).goTo (position + 1), stack⟩
  | .pop, _ :: stack => some ⟨a.goTo (position + 1), stack⟩
  | .mark _, stack | .declareField _, stack => some ⟨a.goTo (position + 1), stack⟩
  | .goto m, stack => (markPosition code m).map fun k => ⟨a.goTo k, stack⟩
  | .gotoIfEqual m, y :: x :: stack =>
    if I.equal x y a.world then (markPosition code m).map fun k => ⟨a.goTo k, stack⟩
    else some ⟨a.goTo (position + 1), stack⟩
  | .invoke method argCount, stack =>
    if stack.length < argCount then none
    else do
      -- The last argument is on the top.
      let args := (stack.take argCount).reverse
      let (y, world) ← I.call method args a.world
      some ⟨(a.record (.called method args y) world).goTo (position + 1), y :: stack.drop argCount⟩
  | .returnValue, x :: stack => some ⟨a.finish x, stack⟩
  | .getField field, x :: stack => do
    let (y, world) ← I.getField field x a.world
    some ⟨(a.record (.read x field y) world).goTo (position + 1), y :: stack⟩
  | .putField field, y :: x :: stack => do
    let world ← I.putField field x y a.world
    some ⟨(a.record (.wrote x field y) world).goTo (position + 1), stack⟩
  | _, _ => none

end Code

/-- One step of the machine. There is none at the end of the code and after a return. -/
def machineStep (I : Interpretation Value World) (code : List Op) (m : Machine Value World) :
    Option (Machine Value World) :=
  match m.activation.control with
  | .running position => code[position]?.bind fun op => op.exec I code position m.activation m.stack
  | .returned => none

end StackBackend
