import Mathlib
import StackBackend.Proofs.Lower.OutlineParts

/-!
# What the verifier accepts of lowered code

An instruction pushes one value for each operand that has one, and its action takes one value for
each operand. So the stack is empty after every instruction, even where the verifier has to make up
for values that are missing, and a value is missing just when an operand has none. Different labels
of a routine have different marks. Hence lowered code passes the verifier if and only if every
routine of the script works on operands with values only, places no label twice and places every
label that it leads to.
-/
namespace StackBackend

open Code (Op Covers depthAfter placedMarks targetMarks Verifier)

/-- A routine that the target can express as it is. -/
structure Method.Faithful (m : Method) : Prop where
  values : ∀ i ∈ m.instrs, ∀ o ∈ i.evaluated, o.hasValue
  nodup : (m.instrs.filterMap Instruction.placed?).Nodup
  placed : ∀ l ∈ m.instrs.filterMap Instruction.target?, l ∈ m.instrs.filterMap Instruction.placed?

instance (m : Method) : Decidable m.Faithful :=
  decidable_of_iff
    ((∀ i ∈ m.instrs, ∀ o ∈ i.evaluated, o.hasValue) ∧
      (m.instrs.filterMap Instruction.placed?).Nodup ∧
      ∀ l ∈ m.instrs.filterMap Instruction.target?, l ∈ m.instrs.filterMap Instruction.placed?)
    ⟨fun ⟨values, nodup, placed⟩ => ⟨values, nodup, placed⟩,
      fun ⟨values, nodup, placed⟩ => ⟨values, nodup, placed⟩⟩

variable {r : RoutineScope} {i : Instruction}

theorem covers_pushes (depth : Nat) (operands : List Operand) :
    Covers depth (operands.flatMap (Operand.ops r)) ∧
      depthAfter depth (operands.flatMap (Operand.ops r)) =
        depth + operands.countP Operand.hasValue := by
  induction operands generalizing depth with
  | nil => exact ⟨trivial, rfl⟩
  | cons o rest ih =>
    rw [List.flatMap_cons, Code.covers_append, Code.depthAfter_append, List.countP_cons]
    match o with
    | .constant _ | .variable _ =>
      obtain ⟨hcovers, hdepth⟩ := ih (depth + 1)
      exact ⟨⟨⟨Nat.zero_le _, trivial⟩, hcovers⟩, hdepth.trans (by simp [Operand.hasValue]; omega)⟩
    | .field _ | .label _ =>
      obtain ⟨hcovers, hdepth⟩ := ih depth
      exact ⟨⟨trivial, hcovers⟩, hdepth⟩

theorem covers_action (depth : Nat) :
    (Covers depth (i.action r) ↔ i.evaluated.length ≤ depth) ∧
      (depth ≤ i.evaluated.length → depthAfter depth (i.action r) = 0) := by
  constructor
  · cases i with
    | call result _ _ =>
      cases result <;>
        simp [Instruction.action, Instruction.evaluated, Covers, Op.depthFrom, Op.stackEffect]
    | getField _ _ _ =>
      simp only [Instruction.action, Instruction.evaluated, Covers, Op.depthFrom, Op.stackEffect,
        List.length_singleton, and_true, and_iff_left_iff_imp]
      omega
    | _ => simp [Instruction.action, Instruction.evaluated, Covers, Op.stackEffect]
  · intro hle
    cases i with
    | call result _ args =>
      have hpops : depth - args.length = 0 := Nat.sub_eq_zero_of_le hle
      cases result <;>
        simp [Instruction.action, depthAfter, Op.depthFrom, Op.stackEffect, hpops]
    | _ =>
      simp only [Instruction.evaluated, List.length_cons, List.length_nil] at hle
      simp only [Instruction.action, depthAfter, Op.depthFrom, Op.stackEffect, List.foldl_cons,
        List.foldl_nil]
      omega

theorem depthAfter_ops (r : RoutineScope) (i : Instruction) : depthAfter 0 (i.ops r) = 0 := by
  rw [Instruction.ops, Code.depthAfter_append, (covers_pushes 0 i.evaluated).2, Nat.zero_add]
  exact (covers_action _).2 List.countP_le_length

theorem covers_ops : Covers 0 (i.ops r) ↔ ∀ o ∈ i.evaluated, o.hasValue := by
  rw [Instruction.ops, Code.covers_append, (covers_pushes 0 i.evaluated).2, Nat.zero_add,
    (covers_action _).1, ← List.countP_eq_length]
  have hle := List.countP_le_length (p := Operand.hasValue) (l := i.evaluated)
  have hpushes := (covers_pushes (r := r) 0 i.evaluated).1
  constructor
  · rintro ⟨-, hge⟩
    omega
  · intro heq
    exact ⟨hpushes, Nat.le_of_eq heq.symm⟩

theorem depthAfter_flatMap_ops (r : RoutineScope) (instrs : List Instruction) :
    depthAfter 0 (instrs.flatMap (Instruction.ops r)) = 0 := by
  induction instrs with
  | nil => rfl
  | cons i rest ih => rw [List.flatMap_cons, Code.depthAfter_append, depthAfter_ops, ih]

theorem covers_flatMap_ops {instrs : List Instruction} :
    Covers 0 (instrs.flatMap (Instruction.ops r)) ↔
      ∀ i ∈ instrs, ∀ o ∈ i.evaluated, o.hasValue := by
  induction instrs with
  | nil => simp [Covers]
  | cons i rest ih =>
    rw [List.flatMap_cons, Code.covers_append, depthAfter_ops, covers_ops, ih, List.forall_mem_cons]

theorem marks_pushes (operands : List Operand) :
    placedMarks (operands.flatMap (Operand.ops r)) = [] ∧
      targetMarks (operands.flatMap (Operand.ops r)) = [] := by
  induction operands with
  | nil => exact ⟨rfl, rfl⟩
  | cons o rest ih =>
    match o with
    | .constant _ | .variable _ | .field _ | .label _ => exact ih

theorem placedMarks_ops (r : RoutineScope) (i : Instruction) :
    placedMarks (i.ops r) = (i.placed?.map r.markOf).toList := by
  rw [Instruction.ops, Code.placedMarks_append, (marks_pushes i.evaluated).1]
  cases i with
  | call result _ _ => cases result <;> rfl
  | _ => rfl

theorem targetMarks_ops (r : RoutineScope) (i : Instruction) :
    targetMarks (i.ops r) = (i.target?.map r.markOf).toList := by
  rw [Instruction.ops, Code.targetMarks_append, (marks_pushes i.evaluated).2]
  cases i with
  | call result _ _ => cases result <;> rfl
  | _ => rfl

theorem marks_flatMap_ops (r : RoutineScope) (instrs : List Instruction) :
    placedMarks (instrs.flatMap (Instruction.ops r)) =
        (instrs.filterMap Instruction.placed?).map r.markOf ∧
      targetMarks (instrs.flatMap (Instruction.ops r)) =
        (instrs.filterMap Instruction.target?).map r.markOf := by
  induction instrs with
  | nil => exact ⟨rfl, rfl⟩
  | cons i rest ih =>
    rw [List.flatMap_cons, Code.placedMarks_append, Code.targetMarks_append, placedMarks_ops,
      targetMarks_ops, ih.1, ih.2, List.filterMap_cons, List.filterMap_cons]
    cases i.placed? <;> cases i.target? <;> exact ⟨rfl, rfl⟩

namespace Method

variable {m : Method} {firstSlot : UInt16}

theorem knows_label {i : Instruction} {l : Label} (hi : i ∈ m.instrs)
    (hl : i.placed? = some l ∨ i.target? = some l) : (m.scope firstSlot).Knows (.label l) := by
  refine RoutineScope.knows_noteAll _ (List.mem_flatMap.2 ⟨i, hi, ?_⟩)
  exact Instruction.label_mem_references hl

theorem knows_placed {l : Label} (hl : l ∈ placedLabels m.instrs) :
    (m.scope firstSlot).Knows (.label l) := by
  obtain ⟨i, hi, hil⟩ := List.mem_filterMap.1 hl
  exact knows_label hi (.inl hil)

theorem knows_target {l : Label} (hl : l ∈ targetLabels m.instrs) :
    (m.scope firstSlot).Knows (.label l) := by
  obtain ⟨i, hi, hil⟩ := List.mem_filterMap.1 hl
  exact knows_label hi (.inr hil)

section

variable {c : Code.MethodCode} (hc : c.code = m.code firstSlot)
include hc

theorem marks_of_code :
    placedMarks c.ops = (placedLabels m.instrs).map (m.scope firstSlot).markOf ∧
      targetMarks c.ops = (targetLabels m.instrs).map (m.scope firstSlot).markOf := by
  have hmarks := marks_flatMap_ops (m.scope firstSlot) m.instrs
  rw [← code, ← hc, Code.MethodCode.code, Code.placedMarks_withoutDeclarations,
    Code.targetMarks_withoutDeclarations] at hmarks
  exact hmarks

theorem nodup_marks (hfits : (m.scope firstSlot).Fits) :
    (placedMarks c.ops).Nodup ↔ (placedLabels m.instrs).Nodup := by
  rw [(marks_of_code hc).1]
  exact ⟨List.Nodup.of_map _, List.Nodup.map_on fun l hl k hk =>
    hfits.markOf_injective (knows_placed hl) (knows_placed hk)⟩

theorem mark_placed_iff (hfits : (m.scope firstSlot).Fits) {l : Label}
    (hl : l ∈ targetLabels m.instrs) :
    (m.scope firstSlot).markOf l ∈ placedMarks c.ops ↔ l ∈ placedLabels m.instrs := by
  rw [(marks_of_code hc).1, List.mem_map]
  constructor
  · rintro ⟨k, hk, heq⟩
    rwa [← hfits.markOf_injective (knows_placed hk) (knows_target hl) heq]
  · exact fun h => ⟨l, h, rfl⟩

theorem valid_iff_faithful (hfits : (m.scope firstSlot).Fits) : c.Valid ↔ m.Faithful := by
  have hcovers : Covers 0 c.ops ↔ ∀ i ∈ m.instrs, ∀ o ∈ i.evaluated, o.hasValue := by
    rw [← Code.covers_withoutDeclarations, ← Code.MethodCode.code, hc]
    exact covers_flatMap_ops
  have hdefined : (∀ t ∈ targetMarks c.ops, t ∈ placedMarks c.ops) ↔
      ∀ l ∈ targetLabels m.instrs, l ∈ placedLabels m.instrs := by
    rw [(marks_of_code hc).2, List.forall_mem_map]
    exact forall₂_congr fun l hl => mark_placed_iff hc hfits hl
  constructor
  · rintro ⟨hstack, hnodup, hplaced⟩
    exact ⟨hcovers.1 hstack, (nodup_marks hc hfits).1 hnodup, hdefined.1 hplaced⟩
  · rintro ⟨hvalues, hnodup, hplaced⟩
    exact ⟨hcovers.2 hvalues, (nodup_marks hc hfits).2 hnodup, hdefined.2 hplaced⟩

end

end Method

theorem Script.warnings_lower {s : Script} {firstSlot : UInt16} {e : Emitter}
    (h : s.lower.run (.new (.new firstSlot)) = .ok () e) (v : Verifier) :
    (v.verify e.code.toList).warnings = [] := by
  obtain ⟨parts, hcode, hmethods, hown, hclasses, -⟩ := s.lower_ok h
  refine (hcode.verify v).2.2 ⟨hown, hclasses, fun m hm => ?_⟩
  obtain ⟨r, -, heq⟩ := List.mem_map.1 (hmethods ▸ List.mem_map_of_mem hm)
  rw [← Code.depthAfter_withoutDeclarations, ← Code.MethodCode.code, ← heq]
  exact depthAfter_flatMap_ops _ _

/-- The verifier finds no error in lowered code if and only if every routine of the script is
faithful. It never warns, so that strictness makes no difference. -/
theorem Script.verify_lower {s : Script} {firstSlot : UInt16} {e : Emitter}
    (h : s.lower.run (.new (.new firstSlot)) = .ok () e) :
    ((({} : Verifier).verify e.code.toList).errors = [] ↔
        ∀ r ∈ s.root.routines, r.method.Faithful) ∧
      ∀ maxOps : Option Nat,
        ((⟨maxOps, false⟩ : Verifier).verify e.code.toList).warnings = [] ∧
        ((⟨maxOps, true⟩ : Verifier).verify e.code.toList).valid =
          ((⟨maxOps, false⟩ : Verifier).verify e.code.toList).valid := by
  obtain ⟨parts, hcode, hmethods, -, -, hfits⟩ := s.lower_ok h
  -- Every method has the code of a routine, and every routine has its code in a method.
  have hroutine : ∀ m ∈ parts.methods, ∃ r ∈ s.root.routines, m.code = r.method.code firstSlot := by
    intro m hm
    obtain ⟨r, hr, heq⟩ := List.mem_map.1 (hmethods ▸ List.mem_map_of_mem hm)
    exact ⟨r, hr, heq.symm⟩
  have hmethod : ∀ r ∈ s.root.routines, ∃ m ∈ parts.methods, m.code = r.method.code firstSlot := by
    intro r hr
    exact List.mem_map.1 (hmethods ▸ List.mem_map.2 ⟨r, hr, rfl⟩)
  constructor
  · rw [(hcode.verify {}).1]
    constructor
    · rintro ⟨-, hvalid⟩ r hr
      obtain ⟨m, hm, heq⟩ := hmethod r hr
      exact (Method.valid_iff_faithful heq (hfits r hr)).1 (hvalid m hm)
    · intro hfaithful
      refine ⟨rfl, fun m hm => ?_⟩
      obtain ⟨r, hr, heq⟩ := hroutine m hm
      exact (Method.valid_iff_faithful heq (hfits r hr)).2 (hfaithful r hr)
  · intro maxOps
    refine ⟨s.warnings_lower h _, ?_⟩
    have hstrict := s.warnings_lower h ⟨maxOps, true⟩
    simp only [Verifier.verify, Array.toList_eq_nil_iff] at hstrict
    simp only [Verifier.verify, hstrict]
    rfl

theorem verify_lower_loop :
    ∃ e, (⟨"main", ⟨"Main",
        [.label ⟨4⟩, .branch (.variable ⟨"x"⟩) (.constant .nil) ⟨7⟩,
          .call (some ⟨"x"⟩) "step" [.variable ⟨"x"⟩], .jump ⟨4⟩, .label ⟨7⟩],
        [⟨"run", [.label ⟨7⟩, .ret (.constant .nil)]⟩], []⟩⟩ : Script).lower.run (.new (.new 2)) =
          .ok () e ∧
      (({} : Verifier).verify e.code.toList).errors = [] ∧
      (({} : Verifier).verify e.code.toList).warnings = [] := by
  have hlower : Emit.code? (Script.lower ⟨"main", ⟨"Main",
        [.label ⟨4⟩, .branch (.variable ⟨"x"⟩) (.constant .nil) ⟨7⟩,
          .call (some ⟨"x"⟩) "step" [.variable ⟨"x"⟩], .jump ⟨4⟩, .label ⟨7⟩],
        [⟨"run", [.label ⟨7⟩, .ret (.constant .nil)]⟩], []⟩⟩) (.new (.new 2)) =
      some [.beginClass "Main" "main", .beginMethod "__class__" .onClass, .mark ⟨0⟩, .load ⟨2⟩,
        .push .nil, .gotoIfEqual ⟨1⟩, .load ⟨2⟩, .invoke "step" 1, .store ⟨2⟩, .goto ⟨0⟩,
        .mark ⟨1⟩, .endMethod, .beginMethod "run" .onInstance, .mark ⟨0⟩, .push .nil,
        .returnValue, .endMethod, .endClass] := by cbv
  obtain ⟨e, he, -⟩ := Emit.exists_of_code? _ hlower
  exact ⟨e, he, (Script.verify_lower he).1.2 (by decide), ((Script.verify_lower he).2 none).1⟩

end StackBackend
