import StackBackend.Proofs.Lower.Diagnostics
import StackBackend.Proofs.Lower.Exhaustion

/-!
# Instructions without code

Lowering reports every instruction for which there is no code and goes on as if it were not there:
it resolves no names and declares no field. So the code of a script is that of the script without
those instructions, in which only the positions of the others have changed.
-/
namespace StackBackend

mutual
/-- Leaves out the instructions without code, in the stream and in whatever it defines. -/
def supportedStream : List Instruction → List Instruction
  | [] => []
  | i :: rest => if i.isSupported then i.supported :: supportedStream rest else supportedStream rest

def Instruction.supported : Instruction → Instruction
  | .defineInstanceMethod m => .defineInstanceMethod m.supported
  | .defineClassMethod m => .defineClassMethod m.supported
  | .defineClass c => .defineClass c.supported
  | i => i

def Method.supported : Method → Method
  | ⟨name, instrs⟩ => ⟨name, supportedStream instrs⟩

def Class.supported : Class → Class
  | ⟨name, instrs, methods, classes⟩ =>
    ⟨name, supportedStream instrs, supportedMethods methods, supportedClasses classes⟩

def supportedMethods : List Method → List Method
  | [] => []
  | m :: rest => m.supported :: supportedMethods rest

def supportedClasses : List Class → List Class
  | [] => []
  | c :: rest => c.supported :: supportedClasses rest
end

def Script.supported (s : Script) : Script := ⟨s.fileName, s.root.supported⟩

namespace Outline

/-- The second outline is the first one without instructions that have no code. The positions of
the others and the lengths of streams may differ. -/
inductive Thins : {p : Place} → Outline p → Outline p → Prop
  | nil {p : Place} : Thins (.nil : Outline p) .nil
  | skip {index : Nat} {i : Instruction} {rest rest' : Outline .inMethod} :
      i.isSupported = false → Thins rest rest' → Thins (.instr index i rest) rest'
  | instr {index index' : Nat} (i : Instruction) {rest rest' : Outline .inMethod} :
      Thins rest rest' → Thins (.instr index i rest) (.instr index' i rest')
  | routine {p : Place} {placed : p ≠ .outside} {path : String → String → String} {name : String}
      {kind : Code.MethodKind} {count count' : Nat} {body body' : Outline .inMethod}
      {rest rest' : Outline p} : Thins body body' → Thins rest rest' →
        Thins (.routine placed path name kind count body rest)
          (.routine placed path name kind count' body' rest')
  | container {p : Place} {name : String} {body body' : Outline .inClass}
      {rest rest' : Outline p} : Thins body body' → Thins rest rest' →
        Thins (.container name body rest) (.container name body' rest')

end Outline

theorem Instruction.eq_nil_of_isSupported {i : Instruction} (h : i.isSupported = false) :
    i.references = [] ∧ (∀ r, i.ops r = []) ∧
      ∀ fields, i.declaration fields = [] ∧ i.declaredAfter fields = fields := by
  cases i with
  | dispatch _ | leave _ => exact ⟨rfl, fun _ => rfl, fun _ => ⟨rfl, rfl⟩⟩
  | _ => cases h

namespace Outline.Thins

variable {p : Place} {o o' : Outline p} (firstSlot : UInt16)

theorem references_eq (h : Thins o o') : o'.references = o.references := by
  induction h with
  | nil => rfl
  | skip hi _ ih =>
    rw [ih, references, references, instrs, List.flatMap_cons,
      (Instruction.eq_nil_of_isSupported hi).1, List.nil_append]
  | instr i _ ih => exact congrArg (i.references ++ ·) ih
  | routine _ _ _ ihRest => exact ihRest
  | container _ _ _ ihRest => exact ihRest

theorem scope_eq {body body' : Outline .inMethod} (h : Thins body body') (name : String) :
    scope firstSlot name body' = scope firstSlot name body := by
  rw [scope, h.references_eq, ← scope]

theorem code_eq (h : Thins o o') (source : String) (r : RoutineScope) (fields : List String) :
    o'.code firstSlot source r fields = o.code firstSlot source r fields ∧
      o'.fieldsAfter fields = o.fieldsAfter fields := by
  induction h generalizing r fields with
  | nil => exact ⟨rfl, rfl⟩
  | skip hi _ ih =>
    obtain ⟨-, hops, hfields⟩ := Instruction.eq_nil_of_isSupported hi
    obtain ⟨hdeclaration, hafter⟩ := hfields fields
    rw [code, fieldsAfter, hops, hdeclaration, hafter]
    exact ih r fields
  | instr i _ ih =>
    obtain ⟨hcode, hafter⟩ := ih r (i.declaredAfter fields)
    exact ⟨congrArg (_ ++ ·) hcode, hafter⟩
  | @routine _ _ _ name _ _ _ body _ _ _ hbody _ ihBody ihRest =>
    obtain ⟨hinner, hinside⟩ := ihBody (scope firstSlot name body) fields
    obtain ⟨hcode, hafter⟩ := ihRest r (body.fieldsAfter fields)
    rw [code, code, fieldsAfter, fieldsAfter, hbody.scope_eq, hinner, hinside, hcode]
    exact ⟨rfl, hafter⟩
  | container _ _ ihBody ihRest =>
    obtain ⟨hinner, -⟩ := ihBody r []
    obtain ⟨hcode, hafter⟩ := ihRest r fields
    rw [code, code, hinner, hcode]
    exact ⟨rfl, hafter⟩

theorem fits_iff (h : Thins o o') : o'.Fits firstSlot ↔ o.Fits firstSlot := by
  induction h with
  | nil => exact Iff.rfl
  | skip _ _ ih => exact ih
  | instr _ _ ih => exact ih
  | routine hbody _ ihBody ihRest => rw [Fits, Fits, hbody.scope_eq, ihBody, ihRest]
  | container _ _ ihBody ihRest => rw [Fits, Fits, ihBody, ihRest]

end Outline.Thins

open Outline (Thins)

mutual
theorem Instruction.thins_outline {rest rest' : Outline .inMethod} (h : Thins rest rest')
    (index index' : Nat) (i : Instruction) :
    Thins (i.outline index rest) (i.supported.outline index' rest') := by
  cases i with
  | defineInstanceMethod m => exact m.thins_outline h _ _ _
  | defineClassMethod m => exact m.thins_outline h _ _ _
  | defineClass c => exact c.thins_outline h
  | _ => exact .instr _ h

theorem thins_streamOutline (index index' : Nat) (instrs : List Instruction) :
    Thins (streamOutline index instrs) (streamOutline index' (supportedStream instrs)) := by
  cases instrs with
  | nil => exact .nil
  | cons i rest =>
    rw [supportedStream]
    cases hi : i.isSupported with
    | true => exact i.thins_outline (thins_streamOutline (index + 1) (index' + 1) rest) _ _
    | false =>
      -- The rest moves up by one position.
      have hrest := thins_streamOutline (index + 1) index' rest
      cases i with
      | dispatch _ | leave _ => exact .skip hi hrest
      | _ => cases hi

theorem Method.thins_outline {p : Place} {rest rest' : Outline p} (h : Thins rest rest')
    (placed : p ≠ .outside) (path : String → String → String) (kind : Code.MethodKind)
    (m : Method) :
    Thins (m.outline placed path kind rest) (m.supported.outline placed path kind rest') := by
  obtain ⟨name, instrs⟩ := m
  exact .routine (thins_streamOutline 0 0 instrs) h

theorem Class.thins_outline {p : Place} {rest rest' : Outline p} (h : Thins rest rest')
    (c : Class) : Thins (c.outline rest) (c.supported.outline rest') := by
  obtain ⟨name, instrs, methods, classes⟩ := c
  have hmethods := thins_methodsOutline (thins_classesOutline classes) methods
  exact .container (.routine (thins_streamOutline 0 0 instrs) hmethods) h

theorem thins_methodsOutline {rest rest' : Outline .inClass} (h : Thins rest rest')
    (methods : List Method) :
    Thins (methodsOutline rest methods) (methodsOutline rest' (supportedMethods methods)) := by
  cases methods with
  | nil => exact h
  | cons m ms => exact m.thins_outline (thins_methodsOutline h ms) _ _ _

theorem thins_classesOutline (classes : List Class) :
    Thins (classesOutline classes) (classesOutline (supportedClasses classes)) := by
  cases classes with
  | nil => exact .nil
  | cons c cs => exact c.thins_outline (thins_classesOutline cs)
end

namespace Script

theorem outline_eq (s : Script) : s.outline = s.root.outline .nil := (s.root.outline_eq .nil).symm

theorem thins_outline (s : Script) : Thins s.outline s.supported.outline := by
  rw [outline_eq, outline_eq]
  exact s.root.thins_outline .nil

variable {s : Script} {firstSlot : UInt16} {e : Emitter}

theorem lower_supported (h : s.lower.run (.new (.new firstSlot)) = .ok () e) :
    ∃ e', s.supported.lower.run (.new (.new firstSlot)) = .ok () e' ∧ e'.code = e.code := by
  obtain ⟨hcode, hfits⟩ := lower_outline_ok h
  have hfits' := (s.thins_outline.fits_iff firstSlot).2 hfits
  obtain ⟨e', h'⟩ := (s.supported.lower_succeeds_iff (.new (.new firstSlot))).2
    ((s.supported.fits_outline_iff firstSlot).1 hfits')
  refine ⟨e', h', Array.ext' ?_⟩
  rw [(lower_outline_ok h').1, hcode]
  exact (s.thins_outline.code_eq firstSlot _ _ _).1

/-- Lowering reports every instruction without code and every operand without a value that it comes
to, in the order in which it visits the instructions of the script, under the path of the routine
and with the position in its stream. The instructions without code make no difference to the
code. -/
theorem lower_diagnoses (h : s.lower.run (.new (.new firstSlot)) = .ok () e) :
    e.diagnostics.toList = s.visits.flatMap Visit.diagnostics ∧
      s.visits.Perm (s.root.routines.flatMap Routine.visits) ∧
      (∀ d ∈ e.diagnostics.toList, ∃ r ∈ s.root.routines, ∃ i, r.path = d.routine ∧
        r.method.instrs[d.index]? = some i ∧ i.text = d.instr ∧ d.kind ∈ i.problems) ∧
      ∃ e', s.supported.lower.run (.new (.new firstSlot)) = .ok () e' ∧ e'.code = e.code := by
  have hall := diagnostics_lower h
  refine ⟨hall, s.visits_perm, fun d hd => ?_, lower_supported h⟩
  rw [hall] at hd
  obtain ⟨v, hv, hd⟩ := List.mem_flatMap.1 hd
  obtain ⟨kind, hkind, rfl⟩ := List.mem_map.1 hd
  obtain ⟨hr, hi⟩ := mem_visits_iff.1 hv
  exact ⟨v.routine, hr, v.instr, rfl, hi, rfl, hkind⟩

end Script

theorem lower_diagnoses_interleaved :
    ∃ e e', (Script.lower ⟨"main", ⟨"Main", [.dispatch (.variable ⟨"x"⟩),
          .defineInstanceMethod ⟨"m", [.leave none, .ret (.field ⟨"f"⟩)]⟩,
          .branch (.label ⟨4⟩) (.field ⟨"g"⟩) ⟨4⟩], [], []⟩⟩).run (.new (.new 0)) = .ok () e ∧
      e.diagnostics.toList =
        [⟨.unsupportedInstruction .dispatch, "Main#__class__", 0, "case %x"⟩,
          ⟨.unsupportedInstruction .leave, "Main#m", 0, "break"⟩,
          ⟨.unsupportedOperand "field", "Main#m", 1, "return @f"⟩,
          ⟨.unsupportedOperand "label", "Main#__class__", 2, "beq L4, @g, L4"⟩,
          ⟨.unsupportedOperand "field", "Main#__class__", 2, "beq L4, @g, L4"⟩] ∧
      (Script.lower ⟨"main", ⟨"Main", [.defineInstanceMethod ⟨"m", [.ret (.field ⟨"f"⟩)]⟩,
          .branch (.label ⟨4⟩) (.field ⟨"g"⟩) ⟨4⟩], [], []⟩⟩).run (.new (.new 0)) = .ok () e' ∧
      e'.code = e.code := by
  have hlower : Emit.code? (Script.lower ⟨"main", ⟨"Main", [.dispatch (.variable ⟨"x"⟩),
        .defineInstanceMethod ⟨"m", [.leave none, .ret (.field ⟨"f"⟩)]⟩,
        .branch (.label ⟨4⟩) (.field ⟨"g"⟩) ⟨4⟩], [], []⟩⟩) (.new (.new 0)) =
      some [.beginClass "Main" "main", .beginMethod "__class__" .onClass,
        .beginMethod "m" .onInstance, .returnValue, .endMethod, .gotoIfEqual ⟨0⟩, .endMethod,
        .endClass] := by cbv
  obtain ⟨e, he, -⟩ := Emit.exists_of_code? _ hlower
  obtain ⟨hall, -, -, e', he', hcode⟩ := Script.lower_diagnoses he
  exact ⟨e, e', he, hall, he', hcode⟩

end StackBackend
