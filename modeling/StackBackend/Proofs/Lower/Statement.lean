import Mathlib.Data.List.Basic
import StackBackend.Lower.Lowering
import StackBackend.Proofs.Lower.Resolution
import StackBackend.Proofs.Program.Labels

/-!
# The code of one instruction

An instruction pushes the values of its operands and then acts on them. Its code is given here as a
function of the routine scope, in which slots and marks are looked up. All that is looked up are
references of the instruction, so that the code can be read with the scope at the end of the
routine.
-/
namespace StackBackend

open Code (Op Slot Mark)

def Operand.hasValue : Operand → Bool
  | .constant _ | .variable _ => true
  | .field _ | .label _ => false

def Operand.ops (r : RoutineScope) : Operand → List Op
  | .constant value => [.push value]
  | .variable v => [.load (r.slotOf v)]
  | _ => []

namespace Instruction

/-- The operands whose values an instruction works on, in the order in which they are pushed. -/
def evaluated : Instruction → List Operand
  | .branch lhs rhs _ => [lhs, rhs]
  | .copy _ source => [source]
  | .call _ _ args => args
  | .getField _ receiver _ => [receiver]
  | .putField receiver _ value => [receiver, value]
  | .ret value => [value]
  | _ => []

def action (r : RoutineScope) : Instruction → List Op
  | .label l => [.mark (r.markOf l)]
  | .jump target => [.goto (r.markOf target)]
  | .branch _ _ target => [.gotoIfEqual (r.markOf target)]
  | .copy result _ => [.store (r.slotOf result)]
  | .call (some result) method args => [.invoke method args.length, .store (r.slotOf result)]
  | .call none method args => [.invoke method args.length, .pop]
  | .getField result _ field => [.getField field.name, .store (r.slotOf result)]
  | .putField _ field _ => [.putField field.name]
  | .ret _ => [.returnValue]
  | _ => []

def ops (r : RoutineScope) (i : Instruction) : List Op :=
  i.evaluated.flatMap (Operand.ops r) ++ i.action r

def field? : Instruction → Option FieldRef
  | .getField _ _ field | .putField _ field _ => some field
  | _ => none

/-- The declaration that goes before the code, in a class that has declared `fields`. -/
def declaration (fields : List String) (i : Instruction) : List Op :=
  match i.field? with
  | some f => if f.name ∈ fields then [] else [.declareField f.name]
  | none => []

def declaredAfter (fields : List String) (i : Instruction) : List String :=
  match i.field? with
  | some f => if f.name ∈ fields then fields else f.name :: fields
  | none => fields

end Instruction

theorem Instruction.mem_references_of_mem_evaluated {i : Instruction} {o : Operand}
    (ho : o ∈ i.evaluated) {ref : Reference} (href : ref ∈ o.references) :
    ref ∈ i.references := by
  cases i with
  | branch lhs rhs _ =>
    rcases List.mem_pair.1 ho with rfl | rfl <;> simp [references, href]
  | putField receiver _ value =>
    rcases List.mem_pair.1 ho with rfl | rfl <;> simp [references, href]
  | copy _ source => simp [references, ← List.mem_singleton.1 ho, href]
  | getField _ receiver _ => simp [references, ← List.mem_singleton.1 ho, href]
  | ret value => simpa [references, ← List.mem_singleton.1 ho] using href
  | call _ _ args => exact List.mem_append_left _ (List.mem_flatMap.2 ⟨o, ho, href⟩)
  | _ => cases ho

theorem Instruction.label_mem_references {i : Instruction} {l : Label}
    (h : i.placed? = some l ∨ i.target? = some l) : Reference.label l ∈ i.references := by
  cases i with
  | label _ | jump _ | branch _ _ _ =>
    rcases h with h | h <;> cases h
    simp [references]
  | _ => rcases h with h | h <;> cases h

end StackBackend
