import StackBackend.Proofs.Code.Methods
import StackBackend.Proofs.Lower.Refusal
import StackBackend.Proofs.Lower.StreamCode

/-!
# Routines are lowered independently

What surrounds a routine decides only where its fields are declared. Its slots and its marks are
numbered in a scope of its own, which what is defined in the middle of its stream leaves alone. So
the code of a routine is that of its own instructions, lowered with nothing around them.
-/
namespace StackBackend

open Code (openedMethods withoutDeclarations MethodCode)

namespace RoutineScope

theorem noteAll_named (r : RoutineScope) (name : String) (refs : List Reference) :
    ({ r with name } : RoutineScope).noteAll refs = { r.noteAll refs with name } := by
  induction refs generalizing r with
  | nil => rfl
  | cons ref rest ih =>
    have hnote : ({ r with name } : RoutineScope).note ref = { r.note ref with name } := by
      cases ref <;> rfl
    rw [noteAll, List.foldl_cons, hnote]
    exact ih (r.note ref)

theorem Fits.named {r : RoutineScope} (h : r.Fits) (name : String) :
    ({ r with name } : RoutineScope).Fits :=
  ⟨h.vars, h.labels, h.maxLocals_le, h.labels_le⟩

end RoutineScope

theorem Instruction.ops_named (r : RoutineScope) (name : String) (i : Instruction) :
    i.ops { r with name } = i.ops r := by
  have hpush : Operand.ops { r with name } = Operand.ops r := by
    funext o
    cases o <;> rfl
  rw [ops, hpush, ops]
  cases i with
  | call result _ _ => cases result <;> rfl
  | _ => rfl

theorem definedRoutines_eq_nil {instrs : List Instruction}
    (h : ∀ i ∈ instrs, i.isDefinition = false) (owner : String) :
    definedRoutines owner instrs = [] := by
  induction instrs with
  | nil => rfl
  | cons i rest ih =>
    obtain ⟨hi, hrest⟩ := List.forall_mem_cons.1 h
    rw [definedRoutines, ih hrest, List.append_nil]
    cases i <;> first | rfl | cases hi

namespace Method

/-- The instructions of a method without what they define. -/
def ownInstrs (m : Method) : List Instruction := m.instrs.filter fun i => !i.isDefinition

variable {m : Method} {firstSlot : UInt16}

theorem isDefinition_of_mem_ownInstrs {i : Instruction} (hi : i ∈ m.ownInstrs) :
    i.isDefinition = false := by
  simpa using (List.mem_filter.1 hi).2

theorem scope_ownInstrs (m : Method) (firstSlot : UInt16) (name : String) :
    (RoutineScope.new name firstSlot).noteAll (m.ownInstrs.flatMap Instruction.references) =
      { m.scope firstSlot with name } := by
  rw [ownInstrs, flatMap_filter_isDefinition fun i hi => (i.eq_nil_of_isDefinition hi).1]
  exact (RoutineScope.new m.name firstSlot).noteAll_named name _

theorem flatMap_ops_ownInstrs (m : Method) (firstSlot : UInt16) (name : String) :
    m.ownInstrs.flatMap (Instruction.ops { m.scope firstSlot with name }) = m.code firstSlot := by
  rw [ownInstrs, flatMap_filter_isDefinition fun i hi => (i.eq_nil_of_isDefinition hi).2 _, code]
  exact congrArg (m.instrs.flatMap ·) (funext (Instruction.ops_named (m.scope firstSlot) name))

theorem lower_alone (hfits : (m.scope firstSlot).Fits) (container name : String) :
    ∃ e, (lowerStream m.ownInstrs).run
        (.new ⟨[⟨container, [], [.new name firstSlot]⟩], firstSlot⟩) = .ok () e ∧
      withoutDeclarations e.code.toList = m.code firstSlot := by
  have he : (Emitter.new ⟨[⟨container, [], [.new name firstSlot]⟩], firstSlot⟩).scopes.Holds []
      (.new name firstSlot) .inMethod := ⟨container, [], [], rfl⟩
  have hinstrs : ∀ i ∈ m.ownInstrs, i.isDefinition = false := fun _ =>
    isDefinition_of_mem_ownInstrs
  cases hrun : (lowerStream m.ownInstrs).run
      (.new ⟨[⟨container, [], [.new name firstSlot]⟩], firstSlot⟩) with
  | ok a e =>
    obtain ⟨fields, hemits⟩ := lowerStream_emits hrun he hinstrs (.refl _)
    refine ⟨e, rfl, ?_⟩
    rw [hemits.code, scope_ownInstrs]
    exact (withoutDeclarations_streamCode _ [] _).trans (m.flatMap_ops_ownInstrs firstSlot name)
  | error x e =>
    rw [lowerStream_apply he, ← lower_streamOutline] at hrun
    -- The names that are too many would be those for which the routine is known to have room.
    rcases (streamOutline 0 m.ownInstrs).lower_error container hrun he with hrefuses | ⟨t, ht, -⟩
    · rw [references_streamOutline] at hrefuses
      have hnot := hrefuses.not_fits
      rw [scope_ownInstrs] at hnot
      exact absurd (hfits.named name) hnot
    · rw [routines_streamOutline, definedRoutines_eq_nil hinstrs] at ht
      cases ht

end Method

/-- The methods in the code are the routines of the script one by one. What stands directly in a
method, up to declarations, is what the own instructions of the routine are lowered to in scopes
with nothing else in them. -/
theorem Script.lower_routine_alone {s : Script} {firstSlot : UInt16} {e : Emitter}
    (h : s.lower.run (.new (.new firstSlot)) = .ok () e) (container name : String) :
    ∃ scopes,
      (ScopeStack.enterRoutine name).run ((ScopeStack.new firstSlot).enterContainer container) =
        .ok () scopes ∧
      List.Forall₂
        (fun (m : MethodCode) (r : Routine) => ∃ e',
          (lowerStream r.method.ownInstrs).run (.new scopes) = .ok () e' ∧
          withoutDeclarations m.ops = withoutDeclarations e'.code.toList)
        (openedMethods e.code.toList) s.root.routines := by
  refine ⟨_, rfl, ?_⟩
  have hcode : List.Forall₂ (fun (m : MethodCode) (r : Routine) => m.code = r.method.code firstSlot)
      (s.parts firstSlot).methods s.root.routines := by
    rw [← List.forall₂_map_right_iff (f := fun r : Routine => r.method.code firstSlot),
      ← List.forall₂_map_left_iff, List.forall₂_eq_eq_eq]
    exact s.code_methods_parts firstSlot
  rw [(s.bracketed_code h).openedMethods_eq]
  rw [List.forall₂_iff_zip] at hcode ⊢
  refine ⟨hcode.1, fun {m r} hmem => ?_⟩
  have hr := (List.of_mem_zip hmem).2
  obtain ⟨e', he', halone⟩ := Method.lower_alone (s.fits_routine h hr) container name
  exact ⟨e', he', (hcode.2 hmem).trans halone.symm⟩

theorem lower_routine_alone_nested :
    ∃ e scopes, (⟨"main", ⟨"Main", [.copy ⟨"x"⟩ (.variable ⟨"y"⟩), .defineInstanceMethod
          ⟨"run", [.getField ⟨"z"⟩ (.variable ⟨"y"⟩) ⟨"size"⟩, .label ⟨4⟩]⟩,
          .putField (.variable ⟨"y"⟩) ⟨"size"⟩ (.variable ⟨"z"⟩), .label ⟨7⟩],
        [], []⟩⟩ : Script).lower.run (.new (.new 5)) = .ok () e ∧
      (ScopeStack.enterRoutine "alone").run ((ScopeStack.new 5).enterContainer "Other") =
        .ok () scopes ∧
      List.Forall₂
        (fun (m : MethodCode) (r : Routine) => ∃ e',
          (lowerStream r.method.ownInstrs).run (.new scopes) = .ok () e' ∧
          withoutDeclarations m.ops = withoutDeclarations e'.code.toList)
        [⟨"__class__", .onClass, [.load ⟨6⟩, .store ⟨5⟩, .load ⟨6⟩, .load ⟨7⟩, .putField "size",
            .mark ⟨0⟩]⟩,
          ⟨"run", .onInstance, [.declareField "size", .load ⟨5⟩, .getField "size", .store ⟨6⟩,
            .mark ⟨0⟩]⟩]
        [⟨"Main#__class__", ⟨"__class__", [.copy ⟨"x"⟩ (.variable ⟨"y"⟩), .defineInstanceMethod
            ⟨"run", [.getField ⟨"z"⟩ (.variable ⟨"y"⟩) ⟨"size"⟩, .label ⟨4⟩]⟩,
            .putField (.variable ⟨"y"⟩) ⟨"size"⟩ (.variable ⟨"z"⟩), .label ⟨7⟩]⟩⟩,
          ⟨"Main#run", ⟨"run", [.getField ⟨"z"⟩ (.variable ⟨"y"⟩) ⟨"size"⟩, .label ⟨4⟩]⟩⟩] := by
  have hlower : Emit.code? (Script.lower ⟨"main", ⟨"Main", [.copy ⟨"x"⟩ (.variable ⟨"y"⟩),
        .defineInstanceMethod
          ⟨"run", [.getField ⟨"z"⟩ (.variable ⟨"y"⟩) ⟨"size"⟩, .label ⟨4⟩]⟩,
          .putField (.variable ⟨"y"⟩) ⟨"size"⟩ (.variable ⟨"z"⟩), .label ⟨7⟩],
        [], []⟩⟩) (.new (.new 5)) =
      some [.beginClass "Main" "main", .beginMethod "__class__" .onClass, .load ⟨6⟩, .store ⟨5⟩,
        .beginMethod "run" .onInstance, .declareField "size", .load ⟨5⟩, .getField "size",
        .store ⟨6⟩, .mark ⟨0⟩, .endMethod, .load ⟨6⟩, .load ⟨7⟩, .putField "size", .mark ⟨0⟩,
        .endMethod, .endClass] := by cbv
  obtain ⟨e, he, hcode⟩ := Emit.exists_of_code? _ hlower
  obtain ⟨scopes, hscopes, hall⟩ := Script.lower_routine_alone he "Other" "alone"
  rw [hcode] at hall
  exact ⟨e, scopes, he, hscopes, hall⟩

end StackBackend
