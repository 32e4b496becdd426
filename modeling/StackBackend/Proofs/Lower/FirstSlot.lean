import StackBackend.Proofs.Code.Shift
import StackBackend.Proofs.Lower.Diagnostics
import StackBackend.Proofs.Lower.Exhaustion

/-!
# The first slot

The slots of a routine are the numbers of its variables, each with the first slot added. So the code
for a first slot is the code for the first slot 0, with every slot shifted once, in nested routines
as well. In a routine that keeps the limits of a method none of its slots overflows then.
-/
namespace StackBackend

open Code (Op Slot Verifier Bracketed)

namespace RoutineScope

def fromZero (r : RoutineScope) : RoutineScope := { r with firstSlot := 0 }

theorem fromZero_noteAll (name : String) (firstSlot : UInt16) (refs : List Reference) :
    ((new name firstSlot).noteAll refs).fromZero = (new name 0).noteAll refs := by
  rw [noteAll_eq, noteAll_eq]
  rfl

theorem slotOf_fromZero (r : RoutineScope) (v : Variable) :
    (r.fromZero.slotOf v).shift r.firstSlot = r.slotOf v := by
  simp [slotOf, slotAt, Slot.shift, fromZero, UInt16.ofNat_add, UInt16.add_comm]

theorem Fits.fromZero {r : RoutineScope} (hr : r.Fits) : r.fromZero.Fits where
  vars := hr.vars
  labels := hr.labels
  maxLocals_le := Nat.le_trans (Nat.add_le_add_right (Nat.zero_le _) _) hr.maxLocals_le
  labels_le := hr.labels_le

theorem Fits.slotOf_fromZero_lt {r : RoutineScope} (hr : r.Fits) {v : Variable}
    (hv : r.Knows (.var v)) :
    (r.fromZero.slotOf v).index.toNat + r.firstSlot.toNat < UInt16.size := by
  obtain ⟨number, hnumber⟩ := Option.isSome_iff_exists.1 hv
  have hindex : (r.fromZero.slotOf v).index.toNat = 0 + number := hr.fromZero.toNat_slotOf hnumber
  have hlt := hr.vars.lt_next hnumber
  have hlimit : r.firstSlot.toNat + r.vars.next ≤ UInt16.size := hr.maxLocals_le
  omega

end RoutineScope

theorem Operand.ops_fromZero (r : RoutineScope) (o : Operand) :
    (o.ops r.fromZero).map (Op.shift r.firstSlot) = o.ops r := by
  match o with
  | .variable v => exact congrArg (fun s => [Op.load s]) (r.slotOf_fromZero v)
  | .constant _ | .field _ | .label _ => rfl

namespace Instruction

theorem ops_fromZero (r : RoutineScope) (i : Instruction) :
    (i.ops r.fromZero).map (Op.shift r.firstSlot) = i.ops r := by
  have haction : (i.action r.fromZero).map (Op.shift r.firstSlot) = i.action r := by
    cases i with
    | copy result _ => exact congrArg (fun s => [Op.store s]) (r.slotOf_fromZero result)
    | getField result _ field =>
      exact congrArg (fun s => [Op.getField field.name, .store s]) (r.slotOf_fromZero result)
    | call result method args =>
      cases result with
      | none => rfl
      | some v =>
        exact congrArg (fun s => [Op.invoke method args.length, .store s]) (r.slotOf_fromZero v)
    | _ => rfl
  simp only [ops, List.map_append, List.map_flatMap, Operand.ops_fromZero, haction]

theorem map_shift_declaration (amount : UInt16) (fields : List String) (i : Instruction) :
    (i.declaration fields).map (Op.shift amount) = i.declaration fields := by
  rcases i.declaration_cases fields with ⟨hnone, -⟩ | ⟨name, -, hsome, -⟩
  · rw [hnone, List.map_nil]
  · rw [hsome]
    rfl

theorem slot_of_mem_ops {r : RoutineScope} {i : Instruction} {op : Op} (h : op ∈ i.ops r)
    {s : Slot} (hs : s ∈ op.slot?) : ∃ v, Reference.var v ∈ i.references ∧ s = r.slotOf v := by
  rcases List.mem_append.1 h with hpush | haction
  · obtain ⟨o, ho, hop⟩ := List.mem_flatMap.1 hpush
    match o with
    | .variable v =>
      cases List.mem_singleton.1 hop
      cases hs
      exact ⟨v, mem_references_of_mem_evaluated ho (List.mem_singleton_self _), rfl⟩
    | .constant _ =>
      cases List.mem_singleton.1 hop
      cases hs
    | .field _ | .label _ => cases hop
  · have hresult : ∃ v, i.result? = some v ∧ op = .store (r.slotOf v) := by
      cases i with
      | call result _ _ => cases result <;> simp [action] at haction <;> grind [Op.slot?, result?]
      | _ => simp [action] at haction <;> grind [Op.slot?, result?]
    obtain ⟨v, hv, rfl⟩ := hresult
    cases hs
    refine ⟨v, var_mem_references.2 ?_, rfl⟩
    simp [vars, hv]

end Instruction

namespace Outline

variable {p : Place} {firstSlot : UInt16} {r : RoutineScope}

theorem fromZero_scope (firstSlot : UInt16) (name : String) (body : Outline .inMethod) :
    (scope firstSlot name body).fromZero = scope 0 name body :=
  RoutineScope.fromZero_noteAll name firstSlot _

theorem firstSlot_scope (firstSlot : UInt16) (name : String) (body : Outline .inMethod) :
    (scope firstSlot name body).firstSlot = firstSlot :=
  (RoutineScope.extends_noteAll _ _).firstSlot

theorem code_fromZero (source : String) (r : RoutineScope) (fields : List String) (o : Outline p) :
    (o.code 0 source r.fromZero fields).map (Op.shift r.firstSlot) =
      o.code r.firstSlot source r fields := by
  induction o generalizing r fields with
  | nil => rfl
  | instr _ i rest ih =>
    rw [code, code, List.map_append, List.map_append, i.map_shift_declaration, i.ops_fromZero, ih]
  | routine _ _ name kind _ body rest ihBody ihRest =>
    have hbody := ihBody (scope r.firstSlot name body) fields
    rw [fromZero_scope, firstSlot_scope] at hbody
    rw [code, code, List.map_append, List.map_cons, List.map_cons, hbody, ihRest]
    rfl
  | container name body rest ihBody ihRest =>
    rw [code, code, List.map_append, List.map_cons, List.map_cons, ihBody, ihRest]
    rfl

theorem shiftable_code (source : String) {fields : List String} {o : Outline p}
    (hfits : o.Fits r.firstSlot) (hr : r.Fits) (hknown : ∀ ref ∈ o.references, r.Knows ref) :
    ∀ op ∈ o.code 0 source r.fromZero fields, op.Shiftable r.firstSlot := by
  induction o generalizing r fields with
  | nil => simp [code]
  | instr _ i rest ih =>
    rw [references, instrs, List.flatMap_cons, List.forall_mem_append] at hknown
    rw [code, List.forall_mem_append, List.forall_mem_append]
    refine ⟨⟨fun op hop s hs => ?_, fun op hop s hs => ?_⟩, ih hfits hr hknown.2⟩
    · have hdecl := Instruction.isDeclaration_of_mem_declaration hop
      cases op <;> cases hdecl
      cases hs
    · obtain ⟨v, hv, rfl⟩ := Instruction.slot_of_mem_ops hop hs
      exact hr.slotOf_fromZero_lt (hknown.1 _ hv)
  | routine _ _ name kind _ body rest ihBody ihRest =>
    obtain ⟨hscope, hbodyFits, hrestFits⟩ := hfits
    have hfirst := firstSlot_scope r.firstSlot name body
    have hbody : ∀ op ∈ body.code 0 source (scope r.firstSlot name body).fromZero fields,
        op.Shiftable (scope r.firstSlot name body).firstSlot :=
      ihBody (by rwa [hfirst]) hscope fun _ => RoutineScope.knows_noteAll _
    rw [fromZero_scope, hfirst] at hbody
    rw [code, List.cons_append, List.forall_mem_cons, List.forall_mem_append, List.forall_mem_cons]
    exact ⟨Op.shiftable_of_eq_none rfl, hbody, Op.shiftable_of_eq_none rfl,
      ihRest hrestFits hr hknown⟩
  | container name body rest ihBody ihRest =>
    have hnone : body.references = [] := body.references_eq_nil (by decide)
    rw [code, List.cons_append, List.forall_mem_cons, List.forall_mem_append, List.forall_mem_cons]
    exact ⟨Op.shiftable_of_eq_none rfl, ihBody hfits.1 hr (by simp [hnone]),
      Op.shiftable_of_eq_none rfl, ihRest hfits.2 hr hknown⟩

end Outline

namespace Script

variable {s : Script} {firstSlot : UInt16} {e e₀ : Emitter}

theorem lower_from_zero (h : s.lower.run (.new (.new firstSlot)) = .ok () e) :
    ∃ e₀, s.lower.run (.new (.new 0)) = .ok () e₀ := by
  refine (s.lower_succeeds_iff _).2 fun r hr => Method.fits_scope_iff.2 ?_
  have hfits := Method.fits_scope_iff.1 (fits_routine h hr)
  exact Nat.le_trans hfits (Nat.sub_le_sub_left (Nat.zero_le _) _)

/-- If lowering succeeds for a first slot then it succeeds for the first slot 0 with the same
diagnostics, and the first slot is only added to every slot in the code. The report of the verifier
is the same, too, but that it has as many more local slots if the code uses any. -/
theorem lower_shifts_slots (h : s.lower.run (.new (.new firstSlot)) = .ok () e) :
    ∃ e₀, s.lower.run (.new (.new 0)) = .ok () e₀ ∧
      e.code = e₀.code.map (Op.shift firstSlot) ∧
      (∀ op ∈ e₀.code, ∀ slot ∈ op.slot?,
        slot.index.toNat + firstSlot.toNat < UInt16.size) ∧
      e.diagnostics = e₀.diagnostics ∧
      ∀ v : Verifier,
        v.verify e.code.toList =
          { v.verify e₀.code.toList with
            stats := { (v.verify e₀.code.toList).stats with
              maxLocals := (v.verify e₀.code.toList).stats.maxLocals +
                if e₀.code.any (·.slot?.isSome) then firstSlot.toNat else 0 } } := by
  obtain ⟨e₀, h₀⟩ := lower_from_zero h
  obtain ⟨hcode, hfits⟩ := lower_outline_ok h
  have hcode₀ := (lower_outline_ok h₀).1
  have hshifted : e.code.toList = e₀.code.toList.map (Op.shift firstSlot) := by
    rw [hcode, hcode₀]
    exact (s.outline.code_fromZero s.fileName (.new "" firstSlot) []).symm
  have hshiftable : ∀ op ∈ e₀.code.toList, op.Shiftable firstSlot := by
    have hnone : s.outline.references = [] := s.outline.references_eq_nil (by decide)
    rw [hcode₀]
    exact Outline.shiftable_code (r := .new "" firstSlot) s.fileName hfits
      (RoutineScope.fits_new _ _) (by simp [hnone])
  refine ⟨e₀, h₀, ?_, ?_, ?_, fun v => ?_⟩
  · rw [← Array.toList_inj, hshifted, Array.toList_map]
  · exact fun op hop => hshiftable op (Array.mem_toList_iff.2 hop)
  · rw [← Array.toList_inj, diagnostics_lower h, diagnostics_lower h₀]
  · rw [hshifted, (bracketed_code h₀).verify_shift hshiftable v, Array.any_toList]

end Script

theorem lower_shifts_slots_nested :
    ∃ e e₀ : Emitter,
      (⟨"main", ⟨"Main", [.copy ⟨"x"⟩ (.constant .nil),
          .defineClassMethod ⟨"id", [.receiveArg ⟨"a"⟩ 0, .ret (.variable ⟨"a"⟩)]⟩,
          .copy ⟨"y"⟩ (.variable ⟨"x"⟩)], [], []⟩⟩ : Script).lower.run (.new (.new 65534)) =
        .ok () e ∧
      e.code.toList = [.beginClass "Main" "main", .beginMethod "__class__" .onClass, .push .nil,
        .store ⟨65534⟩, .beginMethod "id" .onClass, .load ⟨65534⟩, .returnValue, .endMethod,
        .load ⟨65534⟩, .store ⟨65535⟩, .endMethod, .endClass] ∧
      e.code = e₀.code.map (Op.shift 65534) ∧
      ∀ v : Verifier, (v.verify e.code.toList).errors = (v.verify e₀.code.toList).errors := by
  have hlower : Emit.code? (Script.lower ⟨"main", ⟨"Main", [.copy ⟨"x"⟩ (.constant .nil),
          .defineClassMethod ⟨"id", [.receiveArg ⟨"a"⟩ 0, .ret (.variable ⟨"a"⟩)]⟩,
          .copy ⟨"y"⟩ (.variable ⟨"x"⟩)], [], []⟩⟩) (.new (.new 65534)) =
      some [.beginClass "Main" "main", .beginMethod "__class__" .onClass, .push .nil,
        .store ⟨65534⟩, .beginMethod "id" .onClass, .load ⟨65534⟩, .returnValue, .endMethod,
        .load ⟨65534⟩, .store ⟨65535⟩, .endMethod, .endClass] := by cbv
  obtain ⟨e, he, hcode⟩ := Emit.exists_of_code? _ hlower
  obtain ⟨e₀, -, hshifted, -, -, hreport⟩ := Script.lower_shifts_slots he
  exact ⟨e, e₀, he, hcode, hshifted, fun v => by rw [hreport v]⟩

end StackBackend
