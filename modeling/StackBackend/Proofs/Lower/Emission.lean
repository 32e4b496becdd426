import StackBackend.Proofs.Lower.Outline
import StackBackend.Proofs.Lower.Resolution
import StackBackend.Proofs.Lower.Statement
import StackBackend.Proofs.Scope.Operations

/-!
# What the actions of the emitter put out

An action that succeeds in a routine adds code and changes the scope of the routine and the declared
fields of the class around it; all else stays as it is. For each action this is stated once, and
actions that follow each other are put together by `Emits.trans`.
-/
namespace StackBackend

open Code (Op Slot Mark)

namespace ScopeStack

/-- The scopes are those of a place. In a class, that class has declared `fields`; in a routine, `r`
is its scope. -/
def Holds (s : ScopeStack) (fields : List String) (r : RoutineScope) : Place → Prop
  | .outside => True
  | .inClass => ∃ name routines outer, s.containers = ⟨name, fields, routines⟩ :: outer
  | .inMethod => ∃ name routines outer, s.containers = ⟨name, fields, r :: routines⟩ :: outer

/-- Exchanges what can change at a place: the declared fields of the innermost class, and in a
routine its scope. -/
def update (s : ScopeStack) (p : Place) (fields : List String) (r : RoutineScope) : ScopeStack :=
  match p, s.containers with
  | .inClass, ⟨name, _, routines⟩ :: outer =>
    { s with containers := ⟨name, fields, routines⟩ :: outer }
  | .inMethod, ⟨name, _, _ :: routines⟩ :: outer =>
    { s with containers := ⟨name, fields, r :: routines⟩ :: outer }
  | _, _ => s

variable {s t : ScopeStack} {p : Place} {fields : List String} {r : RoutineScope}

theorem Holds.update (h : s.Holds fields r p) (fields' : List String) (r' : RoutineScope) :
    (s.update p fields' r').Holds fields' r' p := by
  cases p with
  | outside => trivial
  | inClass | inMethod =>
    obtain ⟨name, routines, outer, h⟩ := h
    exact ⟨name, routines, outer, by simp [ScopeStack.update, h]⟩

theorem Holds.update_self (h : s.Holds fields r p) : s.update p fields r = s := by
  cases p with
  | outside => rfl
  | inClass | inMethod =>
    obtain ⟨name, routines, outer, h⟩ := h
    cases s
    simp_all [ScopeStack.update]

theorem Holds.exists_container (h : s.Holds fields r p) (hp : p ≠ .outside) :
    ∃ name routines outer, s.containers = ⟨name, fields, routines⟩ :: outer := by
  cases p with
  | outside => exact absurd rfl hp
  | inClass => exact h
  | inMethod =>
    obtain ⟨name, routines, outer, h⟩ := h
    exact ⟨name, r :: routines, outer, h⟩

theorem update_update (s : ScopeStack) (p : Place) (fields fields' : List String)
    (r r' : RoutineScope) : (s.update p fields r).update p fields' r' = s.update p fields' r' := by
  obtain ⟨containers, firstSlot⟩ := s
  match p, containers with
  | .outside, _ | .inClass, [] | .inClass, _ :: _ => rfl
  | .inMethod, [] | .inMethod, ⟨_, _, []⟩ :: _ | .inMethod, ⟨_, _, _ :: _⟩ :: _ => rfl

theorem firstSlot_update (s : ScopeStack) (p : Place) (fields : List String) (r : RoutineScope) :
    (s.update p fields r).firstSlot = s.firstSlot := by
  unfold update
  split <;> rfl

theorem Holds.of_onRoutine {α : Type} {operation : String} {a : α}
    {action : EStateM Error RoutineScope α} (h : s.Holds fields r .inMethod)
    (ht : (onRoutine operation action).run s = .ok a t) :
    ∃ r', action.run r = .ok a r' ∧ t = s.update .inMethod fields r' := by
  obtain ⟨name, routines, outer, h⟩ := h
  obtain ⟨c, _, r', _, _, hc, hroutines, hr, rfl⟩ := onRoutine_ok ht
  rw [h] at hc
  cases hc
  cases hroutines
  exact ⟨r', hr, by simp [ScopeStack.update, h]⟩

end ScopeStack

/-- From `e`, at a place where `r` is the scope, to `e'` an action has put out `code` and resolved
the names `refs`. The class around the place has declared `fields` then. -/
structure Emits (p : Place) (e e' : Emitter) (r : RoutineScope) (refs : List Reference)
    (fields : List String) (code : List Op) : Prop where
  scopes : e'.scopes = e.scopes.update p fields (r.noteAll refs)
  code : e'.code.toList = e.code.toList ++ code
  source : e'.source = e.source
  fits : r.Fits → (r.noteAll refs).Fits

namespace Emits

variable {p : Place} {e e' e'' : Emitter} {fields fields' : List String} {r : RoutineScope}
  {refs refs' : List Reference} {code code' : List Op}

theorem refl (h : e.scopes.Holds fields r p) : Emits p e e r [] fields [] :=
  ⟨h.update_self.symm, by simp, rfl, id⟩

theorem trans (h : Emits p e e' r refs fields code)
    (h' : Emits p e' e'' (r.noteAll refs) refs' fields' code') :
    Emits p e e'' r (refs ++ refs') fields' (code ++ code') where
  scopes := by rw [h'.scopes, h.scopes, ScopeStack.update_update, RoutineScope.noteAll_append]
  code := by rw [h'.code, h.code, List.append_assoc]
  source := h'.source.trans h.source
  fits hr := by
    rw [RoutineScope.noteAll_append]
    exact h'.fits (h.fits hr)

theorem holds (h : Emits p e e' r refs fields' code) (he : e.scopes.Holds fields r p) :
    e'.scopes.Holds fields' (r.noteAll refs) p := by
  rw [h.scopes]
  exact he.update fields' _

theorem firstSlot (h : Emits p e e' r refs fields code) :
    e'.scopes.firstSlot = e.scopes.firstSlot := by
  rw [h.scopes, ScopeStack.firstSlot_update]

end Emits

namespace Emit

def code? (action : Emit Unit) (e : Emitter) : Option (List Op) :=
  match action e with
  | .ok _ e' => some e'.code.toList
  | .error _ _ => none

theorem exists_of_code? (action : Emit Unit) {e : Emitter} {code : List Op}
    (h : action.code? e = some code) :
    ∃ e', action.run e = .ok () e' ∧ e'.code.toList = code := by
  unfold code? at h
  split at h
  · cases h
    exact ⟨_, by assumption, rfl⟩
  · cases h

theorem bind_ok {α β : Type} {action : Emit α} {next : α → Emit β} {e e'' : Emitter} {b : β}
    (h : (action >>= next) e = .ok b e'') :
    ∃ a e', action e = .ok a e' ∧ next a e' = .ok b e'' := by
  change EStateM.bind action next e = .ok b e'' at h
  unfold EStateM.bind at h
  split at h
  · exact ⟨_, _, by assumption, h⟩
  · cases h

theorem bind_of_ok {α β : Type} {action : Emit α} {e e' : Emitter} {a : α}
    (h : action e = .ok a e') (next : α → Emit β) : (action >>= next) e = next a e' := by
  change EStateM.bind action next e = _
  rw [EStateM.bind, h]

variable {e e' : Emitter} {fields : List String} {p : Place} {r s : RoutineScope}

theorem op_ok {o : Op} (h : op o e = .ok () e') (he : e.scopes.Holds fields r p) :
    Emits p e e' r [] fields [o] := by
  cases h
  exact ⟨he.update_self.symm, by simp, rfl, id⟩

theorem report_ok {index : Nat} {instr : Instruction} {kind : DiagnosticKind}
    (h : report index instr kind e = .ok () e') (he : e.scopes.Holds fields r p) :
    Emits p e e' r [] fields [] := by
  cases h
  exact ⟨he.update_self.symm, by simp [Emitter.log], rfl, id⟩

theorem log_ok {event : Event} (h : log event e = .ok () e') (he : e.scopes.Holds fields r p) :
    Emits p e e' r [] fields [] := by
  cases h
  exact ⟨he.update_self.symm, by simp [Emitter.log], rfl, id⟩

/-- In what follows `s` is a later scope of the routine, in which the code is read. -/
theorem slotFor_ok {v : Variable} {slot : Slot} (h : slotFor v e = .ok slot e')
    (he : e.scopes.Holds fields r .inMethod) (hs : s.Extends (r.noteAll [.var v])) :
    Emits .inMethod e e' r [.var v] fields [] ∧ slot = s.slotOf v := by
  unfold slotFor onScopes at h
  split at h
  · rename_i t ht
    obtain ⟨r', hr, rfl⟩ := he.of_onRoutine ht
    obtain ⟨rfl, rfl, hfits⟩ := RoutineScope.slotFor_ok hr
    cases h
    exact ⟨⟨rfl, by simp, rfl, hfits⟩, (hs.slotOf_eq (r.knows_note (.var v))).symm⟩
  · cases h

theorem markFor_ok {l : Label} {mark : Mark} (h : markFor l e = .ok mark e')
    (he : e.scopes.Holds fields r .inMethod) (hs : s.Extends (r.noteAll [.label l])) :
    Emits .inMethod e e' r [.label l] fields [] ∧ mark = s.markOf l := by
  unfold markFor onScopes at h
  split at h
  · rename_i t ht
    obtain ⟨r', hr, rfl⟩ := he.of_onRoutine ht
    obtain ⟨rfl, rfl, hfits⟩ := RoutineScope.markFor_ok hr
    cases h
    exact ⟨⟨rfl, by simp, rfl, hfits⟩, (hs.markOf_eq (r.knows_note (.label l))).symm⟩
  · cases h

theorem opMark_ok {l : Label} {o : Mark → Op}
    (h : (do op (o (← markFor l))) e = .ok () e') (he : e.scopes.Holds fields r .inMethod)
    (hs : s.Extends (r.noteAll [.label l])) :
    Emits .inMethod e e' r [.label l] fields [o (s.markOf l)] := by
  obtain ⟨mark, e₁, h₁, h₂⟩ := bind_ok h
  obtain ⟨hmark, rfl⟩ := markFor_ok h₁ he hs
  exact hmark.trans (op_ok h₂ (hmark.holds he))

theorem opSlot_ok {v : Variable} {o : Slot → Op}
    (h : (do op (o (← slotFor v))) e = .ok () e') (he : e.scopes.Holds fields r .inMethod)
    (hs : s.Extends (r.noteAll [.var v])) :
    Emits .inMethod e e' r [.var v] fields [o (s.slotOf v)] := by
  obtain ⟨slot, e₁, h₁, h₂⟩ := bind_ok h
  obtain ⟨hslot, rfl⟩ := slotFor_ok h₁ he hs
  exact hslot.trans (op_ok h₂ (hslot.holds he))

theorem operand_ok {index : Nat} {instr : Instruction} {o : Operand}
    (h : operand index instr o e = .ok () e') (he : e.scopes.Holds fields r .inMethod)
    (hs : s.Extends (r.noteAll o.references)) :
    Emits .inMethod e e' r o.references fields (o.ops s) := by
  match o with
  | .constant value => exact op_ok h he
  | .variable v => exact opSlot_ok h he hs
  | .field _ | .label _ => exact report_ok h he

theorem operands_ok {index : Nat} {instr : Instruction} {os : List Operand}
    (h : operands index instr os e = .ok () e') (he : e.scopes.Holds fields r .inMethod)
    (hs : s.Extends (r.noteAll (os.flatMap Operand.references))) :
    Emits .inMethod e e' r (os.flatMap Operand.references) fields (os.flatMap (Operand.ops s)) := by
  induction os generalizing e r with
  | nil =>
    cases h
    exact .refl he
  | cons o os ih =>
    obtain ⟨_, e₁, h₁, h₂⟩ := bind_ok h
    rw [List.flatMap_cons] at hs
    have hfirst := operand_ok h₁ he (hs.of_append _)
    rw [RoutineScope.noteAll_append] at hs
    exact hfirst.trans (ih h₂ (hfirst.holds he) hs)

theorem storeResult_ok {result : Option Variable} (h : storeResult result e = .ok () e')
    (he : e.scopes.Holds fields r .inMethod)
    (hs : s.Extends (r.noteAll (result.map Reference.var).toList)) :
    Emits .inMethod e e' r (result.map Reference.var).toList fields
      [match result with | some v => .store (s.slotOf v) | none => .pop] := by
  cases result with
  | none => exact op_ok h he
  | some v => exact opSlot_ok h he hs

theorem declareField_ok {field : FieldRef} (instr : Instruction) (hi : instr.field? = some field)
    (h : declareField field e = .ok () e') (he : e.scopes.Holds fields r .inMethod) :
    Emits .inMethod e e' r [] (instr.declaredAfter fields) (instr.declaration fields) := by
  obtain ⟨new, e₁, h₁, h₂⟩ := bind_ok h
  obtain ⟨name, routines, outer, hc⟩ := he
  simp only [onScopes, ScopeStack.run_declareField hc, ContainerScope.declareField] at h₁
  simp only [Instruction.declaredAfter, Instruction.declaration, hi]
  by_cases hmem : field.name ∈ fields
  · simp only [hmem, if_true] at h₁ ⊢
    cases h₁
    cases h₂
    exact ⟨by simp [ScopeStack.update, hc, RoutineScope.noteAll], by simp, rfl, id⟩
  · simp only [hmem, if_false] at h₁ ⊢
    cases h₁
    cases h₂
    exact ⟨by simp [ScopeStack.update, hc, RoutineScope.noteAll], by simp, rfl, id⟩

theorem simple_ok {index : Nat} {i : Instruction} (h : simple index i e = .ok () e')
    (he : e.scopes.Holds fields r .inMethod) (hs : s.Extends (r.noteAll i.references)) :
    Emits .inMethod e e' r i.references (i.declaredAfter fields)
      (i.declaration fields ++ i.ops s) := by
  cases i with
  | label l => exact opMark_ok h he hs
  | jump l => exact opMark_ok h he hs
  | branch lhs rhs target =>
    obtain ⟨_, e₁, h₁, h⟩ := bind_ok h
    obtain ⟨_, e₂, h₂, h₃⟩ := bind_ok h
    have hlhs := operand_ok h₁ he ((hs.of_append _).of_append _)
    have hboth := hlhs.trans (operand_ok h₂ (hlhs.holds he)
      (by rw [← RoutineScope.noteAll_append]; exact (hs.of_append _)))
    have hall := hboth.trans (opMark_ok h₃ (hboth.holds he)
      (by rw [← RoutineScope.noteAll_append]; exact hs))
    simpa [Instruction.ops, Instruction.evaluated, Instruction.action, Instruction.references,
      Instruction.declaration, Instruction.declaredAfter, Instruction.field?] using hall
  | copy result source =>
    obtain ⟨slot, e₁, h₁, h⟩ := bind_ok h
    obtain ⟨_, e₂, h₂, h₃⟩ := bind_ok h
    obtain ⟨hslot, rfl⟩ := slotFor_ok h₁ he (RoutineScope.Extends.of_append (s := s) (r := r) _ hs)
    have hboth := hslot.trans (operand_ok h₂ (hslot.holds he) hs)
    have hall := hboth.trans (op_ok h₃ (hboth.holds he))
    simpa [Instruction.ops, Instruction.evaluated, Instruction.action, Instruction.references,
      Instruction.declaration, Instruction.declaredAfter, Instruction.field?] using hall
  | call result method args =>
    obtain ⟨_, e₁, h₁, h⟩ := bind_ok h
    obtain ⟨_, e₂, h₂, h₃⟩ := bind_ok h
    have hargs := operands_ok h₁ he (hs.of_append _)
    have hinvoke := hargs.trans (op_ok h₂ (hargs.holds he))
    rw [List.append_nil] at hinvoke
    have hall := hinvoke.trans (storeResult_ok h₃ (hinvoke.holds he)
      (by rw [← RoutineScope.noteAll_append]; exact hs))
    cases result <;> simpa [Instruction.ops, Instruction.evaluated, Instruction.action,
      Instruction.references, Instruction.declaration, Instruction.declaredAfter,
      Instruction.field?] using hall
  | getField result receiver field =>
    obtain ⟨_, e₁, h₁, h⟩ := bind_ok h
    obtain ⟨_, e₂, h₂, h⟩ := bind_ok h
    obtain ⟨_, e₃, h₃, h₄⟩ := bind_ok h
    have hdecl := declareField_ok (.getField result receiver field) rfl h₁ he
    have hrecv := hdecl.trans (operand_ok h₂ (hdecl.holds he) (hs.of_append _))
    have hget := hrecv.trans (op_ok h₃ (hrecv.holds he))
    rw [List.nil_append, List.append_nil] at hget
    have hall := hget.trans (opSlot_ok h₄ (hget.holds he)
      (by rw [← RoutineScope.noteAll_append]; exact hs))
    simpa [Instruction.ops, Instruction.evaluated, Instruction.action, Instruction.references]
      using hall
  | putField receiver field value =>
    obtain ⟨_, e₁, h₁, h⟩ := bind_ok h
    obtain ⟨_, e₂, h₂, h⟩ := bind_ok h
    obtain ⟨_, e₃, h₃, h₄⟩ := bind_ok h
    have hdecl := declareField_ok (.putField receiver field value) rfl h₁ he
    have hrecv := hdecl.trans (operand_ok h₂ (hdecl.holds he) (hs.of_append _))
    rw [List.nil_append] at hrecv
    have hvalue := hrecv.trans (operand_ok h₃ (hrecv.holds he)
      (by rw [← RoutineScope.noteAll_append]; exact hs))
    have hall := hvalue.trans (op_ok h₄ (hvalue.holds he))
    simpa [Instruction.ops, Instruction.evaluated, Instruction.action, Instruction.references]
      using hall
  | ret value =>
    obtain ⟨_, e₁, h₁, h₂⟩ := bind_ok h
    have hvalue := operand_ok h₁ he hs
    have hall := hvalue.trans (op_ok h₂ (hvalue.holds he))
    simpa [Instruction.ops, Instruction.evaluated, Instruction.action, Instruction.references,
      Instruction.declaration, Instruction.declaredAfter, Instruction.field?] using hall
  | receiveArg result position =>
    obtain ⟨slot, e₁, h₁, h₂⟩ := bind_ok h
    obtain ⟨hslot, rfl⟩ := slotFor_ok h₁ he hs
    exact hslot.trans (log_ok h₂ (hslot.holds he))
  | dispatch _ | leave _ => exact report_ok h he
  | defineInstanceMethod _ | defineClassMethod _ | defineClass _ =>
    cases h
    exact .refl he

end Emit

end StackBackend
