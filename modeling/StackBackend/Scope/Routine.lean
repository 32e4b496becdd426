import StackBackend.Code.Op
import StackBackend.Scope.Numbering

/-!
# Routine scopes

While a routine is lowered, its variables get slots and its labels get marks, both in the order of
first reference. The slots begin at a first slot that is the same for all routines.
-/
namespace StackBackend

open Code (Slot Mark)
open Scope (Numbering)

structure RoutineScope where
  name : String
  firstSlot : UInt16
  vars : Numbering Variable
  labels : Numbering Label

namespace RoutineScope

def slotLimit : Nat := UInt16.size

def markLimit : Nat := UInt32.size

def new (name : String) (firstSlot : UInt16) : RoutineScope := ⟨name, firstSlot, .empty, .empty⟩

def slotCount (r : RoutineScope) : Nat := r.vars.size

def maxLocals (r : RoutineScope) : Nat := r.firstSlot.toNat + r.vars.next

def slotAt (r : RoutineScope) (number : Nat) : Slot := ⟨.ofNat (r.firstSlot.toNat + number)⟩

def slotFor (v : Variable) : EStateM Error RoutineScope Slot := do
  let r ← get
  match r.vars.get? v with
  | some number => return r.slotAt number
  | none =>
    if slotLimit ≤ r.maxLocals then throw (.tooManyLocals r.name)
    set { r with vars := r.vars.add v }
    return r.slotAt r.vars.next

theorem run_slotFor (r : RoutineScope) (v : Variable) :
    (slotFor v).run r =
      match r.vars.get? v with
      | some number => .ok (r.slotAt number) r
      | none =>
        if slotLimit ≤ r.maxLocals then .error (.tooManyLocals r.name) r
        else .ok (r.slotAt r.vars.next) { r with vars := r.vars.add v } := by
  simp only [slotFor, EStateM.run_bind, EStateM.run_get]
  cases r.vars.get? v with
  | some number => rfl
  | none =>
    dsimp only
    split <;> rfl

def markFor (l : Label) : EStateM Error RoutineScope Mark := do
  let r ← get
  match r.labels.get? l with
  | some number => return ⟨.ofNat number⟩
  | none =>
    if markLimit ≤ r.labels.next then throw (.tooManyLabels r.name)
    set { r with labels := r.labels.add l }
    return ⟨.ofNat r.labels.next⟩

theorem run_markFor (r : RoutineScope) (l : Label) :
    (markFor l).run r =
      match r.labels.get? l with
      | some number => .ok ⟨.ofNat number⟩ r
      | none =>
        if markLimit ≤ r.labels.next then .error (.tooManyLabels r.name) r
        else .ok ⟨.ofNat r.labels.next⟩ { r with labels := r.labels.add l } := by
  simp only [markFor, EStateM.run_bind, EStateM.run_get]
  cases r.labels.get? l with
  | some number => rfl
  | none =>
    dsimp only
    split <;> rfl

end RoutineScope

end StackBackend
