import StackBackend.Proofs.Lower.OutlineCode

/-!
# Lowered code is bracketed

The code of an outline is bracketed code. Its methods are the routines of the outline, each with the
code of its own instructions, and no class declares a field twice. With that, what the verifier says
of lowered code depends on the routines of the script one by one.
-/
namespace StackBackend

open Code (Op MethodKind Parts Bracketed MethodCode DeclaresOnce withoutDeclarations
  withoutDeclarations_append)

namespace Instruction

theorem isPlain_of_mem_ops {r : RoutineScope} {i : Instruction} {op : Op} (h : op ∈ i.ops r) :
    op.isPlain := by
  rcases List.mem_append.1 h with hpush | haction
  · obtain ⟨o, -, hop⟩ := List.mem_flatMap.1 hpush
    match o with
    | .constant _ | .variable _ =>
      cases List.mem_singleton.1 hop
      rfl
    | .field _ | .label _ => cases hop
  · cases i with
    | call result method args => cases result <;> simp [action] at haction <;> grind [Op.isPlain]
    | _ => simp [action] at haction <;> grind [Op.isPlain]

theorem declaration_cases (fields : List String) (i : Instruction) :
    i.declaration fields = [] ∧ i.declaredAfter fields = fields ∨
      ∃ name, name ∉ fields ∧ i.declaration fields = [.declareField name] ∧
        i.declaredAfter fields = name :: fields := by
  unfold declaration declaredAfter
  cases i.field? with
  | none => exact .inl ⟨rfl, rfl⟩
  | some f =>
    by_cases hf : f.name ∈ fields
    · exact .inl (by simp [hf])
    · exact .inr ⟨f.name, hf, by simp [hf]⟩

theorem isDeclaration_of_mem_declaration {fields : List String} {i : Instruction} {op : Op}
    (h : op ∈ i.declaration fields) : op.isDeclaration := by
  rcases i.declaration_cases fields with ⟨hnone, -⟩ | ⟨name, -, hsome, -⟩
  · rw [hnone] at h
    cases h
  · rw [hsome] at h
    cases List.mem_singleton.1 h
    rfl

theorem withoutDeclarations_ops (fields : List String) (r : RoutineScope) (i : Instruction) :
    withoutDeclarations (i.declaration fields ++ i.ops r) = i.ops r := by
  have hdecl : withoutDeclarations (i.declaration fields) = [] := by
    rw [withoutDeclarations, List.filter_eq_nil_iff]
    intro op hop
    simp [isDeclaration_of_mem_declaration hop]
  have hops : withoutDeclarations (i.ops r) = i.ops r := by
    rw [withoutDeclarations, List.filter_eq_self]
    intro op hop
    simp [Code.Op.isDeclaration_of_isPlain (isPlain_of_mem_ops hop)]
  rw [withoutDeclarations_append, hdecl, hops, List.nil_append]

theorem declaresOnce_ops (fields : List String) (r : RoutineScope) (i : Instruction) :
    DeclaresOnce fields (i.declaration fields ++ i.ops r) ∧
      Code.declaredAfter fields (i.declaration fields ++ i.ops r) = i.declaredAfter fields := by
  have hops := fun fields => Code.declaresOnce_of_isPlain fields fun op hop =>
    isPlain_of_mem_ops (r := r) (i := i) hop
  rcases i.declaration_cases fields with ⟨hnone, hafter⟩ | ⟨name, hname, hsome, hafter⟩
  · rw [hnone, hafter, List.nil_append]
    exact hops fields
  · rw [hsome, hafter]
    have := hops (name :: fields)
    exact ⟨⟨hname, this.1⟩, by simpa [Code.declaredAfter, hname] using this.2⟩

end Instruction

def RoutineOutline.code (firstSlot : UInt16) (o : RoutineOutline) : List Op :=
  o.body.instrs.flatMap (Instruction.ops (Outline.scope firstSlot o.name o.body))

namespace Outline

def parts {p : Place} (firstSlot : UInt16) (r : RoutineScope) (fields : List String) :
    Outline p → Parts
  | .nil => {}
  | .instr _ i rest =>
    .ops (i.declaration fields ++ i.ops r) ++ rest.parts firstSlot r (i.declaredAfter fields)
  | .routine _ _ name kind _ body rest =>
    .method name kind (body.parts firstSlot (scope firstSlot name body) fields) ++
      rest.parts firstSlot r (body.fieldsAfter fields)
  | .container _ body rest =>
    .container (body.parts firstSlot r []) ++ rest.parts firstSlot r fields

variable {p : Place} (firstSlot : UInt16) (r : RoutineScope) (fields : List String)

theorem bracketed_code (source : String) (o : Outline p) :
    Bracketed p (o.code firstSlot source r fields) (o.parts firstSlot r fields) := by
  induction o generalizing r fields with
  | nil => exact .nil
  | instr _ i rest ih =>
    refine (ih r _).ops_append fun op hop => ?_
    rcases List.mem_append.1 hop with hdecl | hop
    · exact .inr (Instruction.isDeclaration_of_mem_declaration hdecl)
    · exact .inl (Instruction.isPlain_of_mem_ops hop)
  | routine hp _ name kind _ body rest ihBody ihRest =>
    simp only [code, List.cons_append]
    exact .method hp (ihBody _ fields) (ihRest r _)
  | container name body rest ihBody ihRest =>
    simp only [code, List.cons_append]
    exact .container (ihBody r []) (ihRest r fields)

theorem withoutDeclarations_direct (o : Outline p) :
    withoutDeclarations (o.parts firstSlot r fields).direct =
      o.instrs.flatMap (Instruction.ops r) := by
  induction o generalizing r fields with
  | nil => rfl
  | instr _ i rest ih =>
    rw [parts, Parts.direct_append, withoutDeclarations_append, ih, instrs, List.flatMap_cons]
    exact congrArg (· ++ _) (i.withoutDeclarations_ops fields r)
  | routine _ _ _ _ _ _ _ _ ihRest => exact ihRest r _
  | container _ _ _ _ ihRest => exact ihRest r fields

theorem code_methods_parts (owner : String) (o : Outline p) :
    (o.parts firstSlot r fields).methods.map MethodCode.code =
      (o.routines owner).map (RoutineOutline.code firstSlot) := by
  induction o generalizing r fields owner with
  | nil => rfl
  | instr _ _ _ ih => exact ih r _ owner
  | routine _ _ name _ _ body rest ihBody ihRest =>
    rw [parts, Parts.methods_append, routines, List.map_append, Parts.method, List.map_cons,
      List.map_cons, List.map_append, ihBody _ _ owner, ihRest _ _ owner, List.cons_append]
    exact congrArg (· :: _) (withoutDeclarations_direct firstSlot _ fields body)
  | container name body rest ihBody ihRest =>
    rw [parts, Parts.methods_append, routines, List.map_append, List.map_append,
      ← ihRest r fields owner, ← ihBody r [] (nestedPath owner name), Parts.container]

theorem declaresOnce_parts (o : Outline p) :
    DeclaresOnce fields (o.parts firstSlot r fields).own ∧
      Code.declaredAfter fields (o.parts firstSlot r fields).own = o.fieldsAfter fields ∧
      ∀ own ∈ (o.parts firstSlot r fields).classes, DeclaresOnce [] own := by
  induction o generalizing r fields with
  | nil => exact ⟨trivial, rfl, by simp [parts]⟩
  | instr _ i rest ih =>
    obtain ⟨honce, hafter⟩ := i.declaresOnce_ops fields r
    obtain ⟨hrest, hrestAfter, hclasses⟩ := ih r (i.declaredAfter fields)
    rw [parts, Parts.own_append, Parts.classes_append, Code.declaresOnce_append,
      Code.declaredAfter_append, Parts.ops, hafter]
    exact ⟨⟨honce, hrest⟩, hrestAfter, hclasses⟩
  | routine _ _ name _ _ body rest ihBody ihRest =>
    obtain ⟨hbody, hbodyAfter, hbodyClasses⟩ := ihBody (scope firstSlot name body) fields
    obtain ⟨hrest, hrestAfter, hclasses⟩ := ihRest r (body.fieldsAfter fields)
    simp only [parts, Parts.own_append, Parts.classes_append, Parts.method,
      Code.declaresOnce_append, Code.declaredAfter_append, hbodyAfter, List.forall_mem_append]
    exact ⟨⟨hbody, hrest⟩, hrestAfter, hbodyClasses, hclasses⟩
  | container _ body rest ihBody ihRest =>
    obtain ⟨hbody, -, hbodyClasses⟩ := ihBody r []
    obtain ⟨hrest, hrestAfter, hclasses⟩ := ihRest r fields
    simp only [parts, Parts.own_append, Parts.classes_append, Parts.container, List.nil_append,
      List.forall_mem_append, List.forall_mem_cons]
    exact ⟨hrest, hrestAfter, ⟨hbody, hbodyClasses⟩, hclasses⟩

theorem fits_iff (owner : String) (o : Outline p) :
    o.Fits firstSlot ↔ ∀ t ∈ o.routines owner, (scope firstSlot t.name t.body).Fits := by
  induction o generalizing owner with
  | nil => simp [Fits, routines]
  | instr _ _ _ ih => exact ih owner
  | routine _ _ _ _ _ _ _ ihBody ihRest =>
    rw [Fits, routines, List.forall_mem_cons, List.forall_mem_append, ihBody owner, ihRest owner]
  | container name _ _ ihBody ihRest =>
    rw [Fits, routines, List.forall_mem_append, ihBody (nestedPath owner name), ihRest owner]

end Outline

namespace Method

def scope (firstSlot : UInt16) (m : Method) : RoutineScope :=
  (RoutineScope.new m.name firstSlot).noteAll (m.instrs.flatMap Instruction.references)

def code (firstSlot : UInt16) (m : Method) : List Op :=
  m.instrs.flatMap (Instruction.ops (m.scope firstSlot))

end Method

theorem Instruction.eq_nil_of_isDefinition {i : Instruction} (h : i.isDefinition) :
    i.references = [] ∧ ∀ r, i.ops r = [] := by
  cases i with
  | defineInstanceMethod _ | defineClassMethod _ | defineClass _ => exact ⟨rfl, fun _ => rfl⟩
  | _ => cases h

theorem flatMap_filter_isDefinition {α : Type} {f : Instruction → List α}
    (hf : ∀ i, i.isDefinition → f i = []) (instrs : List Instruction) :
    (instrs.filter fun i => !i.isDefinition).flatMap f = instrs.flatMap f := by
  induction instrs with
  | nil => rfl
  | cons i rest ih =>
    cases h : i.isDefinition with
    | true => simp [h, hf i h, ih]
    | false => simp [h, ih]

theorem Routine.references_outlined (r : Routine) :
    r.outlined.body.references = r.method.instrs.flatMap Instruction.references := by
  rw [Outline.references, Routine.outlined, instrs_streamOutline,
    flatMap_filter_isDefinition fun i hi => (i.eq_nil_of_isDefinition hi).1]

theorem Routine.scope_outlined (firstSlot : UInt16) (r : Routine) :
    Outline.scope firstSlot r.outlined.name r.outlined.body = r.method.scope firstSlot := by
  rw [Outline.scope, r.references_outlined]
  rfl

theorem Routine.code_outlined (firstSlot : UInt16) (r : Routine) :
    r.outlined.code firstSlot = r.method.code firstSlot := by
  rw [RoutineOutline.code, r.scope_outlined, Routine.outlined, instrs_streamOutline,
    flatMap_filter_isDefinition fun i hi => (i.eq_nil_of_isDefinition hi).2 _]
  rfl

namespace Script

def outline (s : Script) : Outline .outside := .container s.root.name s.root.contents .nil

def parts (firstSlot : UInt16) (s : Script) : Parts :=
  s.outline.parts firstSlot (.new "" firstSlot) []

theorem lower_apply (s : Script) (e : Emitter) :
    s.lower.run e = s.outline.lower { e with source := s.fileName } := by
  have hlower := s.root.lower_outline (.nil : Outline .outside)
  rw [s.root.outline_eq] at hlower
  rw [outline, hlower, Outline.lower, bind_pure]
  rfl

theorem methods_parts (s : Script) (firstSlot : UInt16) :
    (s.parts firstSlot).methods =
      (s.root.contents.parts firstSlot (.new "" firstSlot) []).methods :=
  List.append_nil _

theorem code_methods_parts (s : Script) (firstSlot : UInt16) :
    (s.parts firstSlot).methods.map MethodCode.code =
      s.root.routines.map (·.method.code firstSlot) := by
  rw [methods_parts, s.root.contents.code_methods_parts firstSlot _ _ s.root.name,
    s.root.routines_contents, List.map_map]
  exact List.map_congr_left fun r _ => r.code_outlined firstSlot

theorem fits_outline_iff (s : Script) (firstSlot : UInt16) :
    s.outline.Fits firstSlot ↔ ∀ r ∈ s.root.routines, (r.method.scope firstSlot).Fits := by
  have hcontents := s.root.contents.fits_iff firstSlot s.root.name
  rw [s.root.routines_contents, List.forall_mem_map] at hcontents
  rw [outline, Outline.Fits, hcontents]
  simp only [Outline.Fits, and_true]
  exact forall₂_congr fun r _ => by rw [r.scope_outlined]

/-- Whatever was open and put out before, a script adds the code of its outline. -/
theorem lower_emits {s : Script} {e e' : Emitter} (h : s.lower.run e = .ok () e') :
    e'.code.toList = e.code.toList ++ s.outline.code e.scopes.firstSlot s.fileName
        (.new "" e.scopes.firstSlot) [] ∧
      s.outline.Fits e.scopes.firstSlot := by
  rw [lower_apply] at h
  have hnone : s.outline.references = [] := s.outline.references_eq_nil (by decide)
  have hholds : e.scopes.Holds [] (.new "" e.scopes.firstSlot) .outside := trivial
  obtain ⟨hemits, hfits⟩ := s.outline.lower_ok h hholds (.refl _)
  rw [hnone] at hemits
  exact ⟨hemits.code, hfits⟩

variable {s : Script} {firstSlot : UInt16} {e : Emitter}
  (h : s.lower.run (.new (.new firstSlot)) = .ok () e)
include h

theorem lower_outline_ok :
    e.code.toList = s.outline.code firstSlot s.fileName (.new "" firstSlot) [] ∧
      s.outline.Fits firstSlot :=
  lower_emits h

theorem bracketed_code : Bracketed .outside e.code.toList (s.parts firstSlot) := by
  rw [(lower_outline_ok h).1]
  exact s.outline.bracketed_code firstSlot _ [] s.fileName

theorem fits_routine {r : Routine} (hr : r ∈ s.root.routines) :
    (r.method.scope firstSlot).Fits :=
  (s.fits_outline_iff firstSlot).1 (lower_outline_ok h).2 r hr

theorem lower_ok :
    ∃ parts, Bracketed .outside e.code.toList parts ∧
      parts.methods.map MethodCode.code = s.root.routines.map (·.method.code firstSlot) ∧
      DeclaresOnce [] parts.own ∧ (∀ own ∈ parts.classes, DeclaresOnce [] own) ∧
      ∀ r ∈ s.root.routines, (r.method.scope firstSlot).Fits := by
  obtain ⟨hown, -, hclasses⟩ := s.outline.declaresOnce_parts firstSlot (.new "" firstSlot) []
  exact ⟨_, bracketed_code h, s.code_methods_parts firstSlot, hown, hclasses,
    fun _ => fits_routine h⟩

end Script

end StackBackend
