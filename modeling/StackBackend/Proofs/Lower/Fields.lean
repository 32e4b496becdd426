import Mathlib
import StackBackend.Proofs.Code.Fields
import StackBackend.Proofs.Lower.OutlineParts

/-!
# Declared fields of lowered code

Every class in lowered code declares the fields that it uses, each once and before its first use,
though its routines stand between other classes and routines. What a class has declared is handed on
from each part of the outline to the next one.
-/
namespace StackBackend

open Code (Op Declares Encloses DeclaresBeforeUse openedClasses declaredFields usedFields)

theorem fields_pushes (r : RoutineScope) (operands : List Operand) :
    declaredFields (operands.flatMap (Operand.ops r)) = [] ∧
      usedFields (operands.flatMap (Operand.ops r)) = [] := by
  induction operands with
  | nil => exact ⟨rfl, rfl⟩
  | cons o rest ih =>
    match o with
    | .constant _ | .variable _ | .field _ | .label _ => exact ih

namespace Instruction

theorem declaredFields_ops (r : RoutineScope) (i : Instruction) :
    declaredFields (i.ops r) = [] := by
  rw [ops, Code.declaredFields_append, (fields_pushes r i.evaluated).1]
  cases i with
  | call result _ _ => cases result <;> rfl
  | _ => rfl

theorem usedFields_ops (r : RoutineScope) (i : Instruction) :
    usedFields (i.ops r) = (i.field?.map FieldRef.name).toList := by
  rw [ops, Code.usedFields_append, (fields_pushes r i.evaluated).2]
  cases i with
  | call result _ _ => cases result <;> rfl
  | _ => rfl

theorem declares_ops (fields : List String) (r : RoutineScope) (i : Instruction) :
    Declares fields (i.declaredAfter fields) (i.declaration fields ++ i.ops r) := by
  have hnone := i.declaredFields_ops r
  have hused := i.usedFields_ops r
  unfold declaration declaredAfter
  cases hi : i.field? with
  | none =>
    apply Declares.of_uses hnone
    simp [hused, hi]
  | some f =>
    have hname : usedFields (i.ops r) = [f.name] := by simp [hused, hi]
    by_cases hf : f.name ∈ fields
    · simp only [hf, if_true, List.nil_append]
      apply Declares.of_uses hnone
      simpa [hname] using hf
    · simp only [hf, if_false, List.singleton_append]
      apply Declares.declare hf (by simp [hname])
      apply Declares.of_uses hnone
      simp [hname]

theorem encloses_ops (fields : List String) (r : RoutineScope) (i : Instruction) :
    Encloses (i.declaration fields ++ i.ops r) (i.declaration fields ++ i.ops r) [] := by
  refine Encloses.ops fun op hop => ?_
  rcases List.mem_append.1 hop with hdecl | hop
  · exact Op.isClassBracket_of_isDeclaration (isDeclaration_of_mem_declaration hdecl)
  · exact Op.isClassBracket_of_isPlain (isPlain_of_mem_ops hop)

end Instruction

theorem Outline.declares_code {p : Place} (firstSlot : UInt16) (source : String) (r : RoutineScope)
    (fields : List String) (o : Outline p) :
    ∃ own classes, Encloses (o.code firstSlot source r fields) own classes ∧
      Declares fields (o.fieldsAfter fields) own ∧ ∀ ops ∈ classes, DeclaresBeforeUse ops := by
  induction o generalizing r fields with
  | nil => exact ⟨[], [], .nil, .of_uses rfl (by simp [usedFields]), by simp⟩
  | instr _ i rest ih =>
    obtain ⟨own, classes, hcode, hown, hclasses⟩ := ih r (i.declaredAfter fields)
    exact ⟨_, _, (i.encloses_ops fields r).append hcode, (i.declares_ops fields r).trans hown,
      hclasses⟩
  | routine _ _ name kind _ body rest ihBody ihRest =>
    obtain ⟨own, classes, hbody, hown, hclasses⟩ := ihBody (scope firstSlot name body) fields
    obtain ⟨own', classes', hrest, hown', hclasses'⟩ := ihRest r (body.fieldsAfter fields)
    refine ⟨.beginMethod name kind :: own ++ .endMethod :: own', classes ++ classes', ?_, ?_, ?_⟩
    · exact ((Encloses.op rfl).append hbody).append ((Encloses.op rfl).append hrest)
    · exact ((Declares.op rfl rfl).trans hown).trans ((Declares.op rfl rfl).trans hown')
    · exact List.forall_mem_append.2 ⟨hclasses, hclasses'⟩
  | container name body rest ihBody ihRest =>
    obtain ⟨own, classes, hbody, hown, hclasses⟩ := ihBody r []
    obtain ⟨own', classes', hrest, hown', hclasses'⟩ := ihRest r fields
    -- A class starts with no declared fields, and the class around it goes on with its own.
    refine ⟨own', own :: classes ++ classes', ?_, hown', ?_⟩
    · have hall := (hbody.container name source).append hrest
      rwa [List.append_assoc] at hall
    · exact List.forall_mem_append.2
        ⟨List.forall_mem_cons.2 ⟨hown.declaresBeforeUse, hclasses⟩, hclasses'⟩

/-- In what lowering adds to the code, every class declares the fields that it uses, and no others,
each once and before its first use. -/
theorem Script.declares_before_use {s : Script} {e e' : Emitter}
    (h : s.lower.run e = .ok () e') :
    ∃ code, e'.code.toList = e.code.toList ++ code ∧
      ∀ ops ∈ openedClasses code, DeclaresBeforeUse ops := by
  refine ⟨_, (lower_emits h).1, ?_⟩
  obtain ⟨own, classes, hcode, -, hclasses⟩ := s.outline.declares_code e.scopes.firstSlot s.fileName
    (.new "" e.scopes.firstSlot) []
  have hopened := hcode.opened []
  rw [List.append_nil, openedClasses, List.append_nil] at hopened
  rw [hopened]
  exact hclasses

theorem declares_before_use_resumed :
    ∃ e, (Script.lower ⟨"main", ⟨"Main",
        [.getField ⟨"x"⟩ (.constant .nil) ⟨"f"⟩,
          .defineClass ⟨"Inner", [.putField (.constant .nil) ⟨"f"⟩ (.constant .nil)], [], []⟩,
          .defineInstanceMethod ⟨"m", [.putField (.constant .nil) ⟨"g"⟩ (.constant .nil)]⟩,
          .getField ⟨"x"⟩ (.constant .nil) ⟨"g"⟩], [], []⟩⟩).run (.new (.new 3)) = .ok () e ∧
      (openedClasses e.code.toList).map declaredFields = [["f", "g"], ["f"]] ∧
      (openedClasses e.code.toList).map usedFields = [["f", "g", "g"], ["f"]] ∧
      ∀ ops ∈ openedClasses e.code.toList, DeclaresBeforeUse ops := by
  have hlower : Emit.code? (Script.lower ⟨"main", ⟨"Main",
        [.getField ⟨"x"⟩ (.constant .nil) ⟨"f"⟩,
          .defineClass ⟨"Inner", [.putField (.constant .nil) ⟨"f"⟩ (.constant .nil)], [], []⟩,
          .defineInstanceMethod ⟨"m", [.putField (.constant .nil) ⟨"g"⟩ (.constant .nil)]⟩,
          .getField ⟨"x"⟩ (.constant .nil) ⟨"g"⟩], [], []⟩⟩) (.new (.new 3)) =
      some [.beginClass "Main" "main", .beginMethod "__class__" .onClass, .declareField "f",
        .push .nil, .getField "f", .store ⟨3⟩, .beginClass "Inner" "main",
        .beginMethod "__class__" .onClass, .declareField "f", .push .nil, .push .nil,
        .putField "f", .endMethod, .endClass, .beginMethod "m" .onInstance, .declareField "g",
        .push .nil, .push .nil, .putField "g", .endMethod, .push .nil, .getField "g", .store ⟨3⟩,
        .endMethod, .endClass] := by cbv
  obtain ⟨e, he, hcode⟩ := Emit.exists_of_code? _ hlower
  obtain ⟨code, hadded, hall⟩ := Script.declares_before_use he
  have hcode' : e.code.toList = code := hadded
  refine ⟨e, he, ?_, ?_, hcode' ▸ hall⟩ <;>
  · rw [hcode]
    rfl

end StackBackend
