import StackBackend.Proofs.Lower.OutlineCode

/-!
# Why lowering fails

An action of the emitter fails only when a name is new to the routine and no slot or no mark is left
for it. Then the names of the routine as a whole are too many, and the error names the routine.
-/
namespace StackBackend

open Code (Op Slot Mark MethodKind)

namespace Scope.Numbering

variable {κ : Type} [Ord κ]

theorem next_le_note (n : Numbering κ) (key : κ) : n.next ≤ (n.note key).next := by
  cases h : n.get? key <;> simp [note, h]

end Scope.Numbering

namespace RoutineScope

/-- The names are too many for a routine with this scope, and the error says so. -/
def Refuses (r : RoutineScope) (refs : List Reference) (x : Error) : Prop :=
  x = .tooManyLocals r.name ∧ slotLimit < (r.noteAll refs).maxLocals ∨
    x = .tooManyLabels r.name ∧ markLimit < (r.noteAll refs).labels.next

variable {r : RoutineScope} {refs more : List Reference} {x : Error}

theorem note_le (r : RoutineScope) (ref : Reference) :
    r.maxLocals ≤ (r.note ref).maxLocals ∧ r.labels.next ≤ (r.note ref).labels.next := by
  cases ref with
  | var v => exact ⟨Nat.add_le_add_left (r.vars.next_le_note v) _, Nat.le_refl _⟩
  | label l => exact ⟨Nat.le_refl _, r.labels.next_le_note l⟩

theorem name_noteAll (r : RoutineScope) (refs : List Reference) :
    (r.noteAll refs).name = r.name := by
  induction refs generalizing r with
  | nil => rfl
  | cons ref rest ih => exact (ih (r.note ref)).trans (r.name_note ref)

theorem noteAll_le (r : RoutineScope) (refs : List Reference) :
    r.maxLocals ≤ (r.noteAll refs).maxLocals ∧ r.labels.next ≤ (r.noteAll refs).labels.next := by
  induction refs generalizing r with
  | nil => exact ⟨Nat.le_refl _, Nat.le_refl _⟩
  | cons ref rest ih =>
    obtain ⟨hlocals, hlabels⟩ := r.note_le ref
    obtain ⟨hlocals', hlabels'⟩ := ih (r.note ref)
    exact ⟨Nat.le_trans hlocals hlocals', Nat.le_trans hlabels hlabels'⟩

theorem Refuses.append_left (h : r.Refuses refs x) (more : List Reference) :
    r.Refuses (refs ++ more) x := by
  obtain ⟨hlocals, hlabels⟩ := (r.noteAll refs).noteAll_le more
  rw [Refuses, noteAll_append]
  apply h.imp
  · exact And.imp_right fun hlt => Nat.lt_of_lt_of_le hlt hlocals
  · exact And.imp_right fun hlt => Nat.lt_of_lt_of_le hlt hlabels

theorem Refuses.append_right (h : (r.noteAll refs).Refuses more x) :
    r.Refuses (refs ++ more) x := by
  rwa [Refuses, name_noteAll, ← noteAll_append] at h

theorem Refuses.not_fits (h : r.Refuses refs x) : ¬ (r.noteAll refs).Fits := by
  intro hfits
  rcases h with ⟨-, hlt⟩ | ⟨-, hlt⟩
  · exact Nat.not_le_of_lt hlt hfits.maxLocals_le
  · exact Nat.not_le_of_lt hlt hfits.labels_le

theorem slotFor_error {v : Variable} {r' : RoutineScope}
    (h : (slotFor v).run r = .error x r') : r.Refuses [.var v] x := by
  rw [run_slotFor] at h
  split at h
  · cases h
  · rename_i hv
    split at h
    · rename_i hlimit
      cases h
      have hnote : r.vars.note v = r.vars.add v := by simp [Scope.Numbering.note, hv]
      refine .inl ⟨rfl, ?_⟩
      simp only [noteAll, List.foldl_cons, List.foldl_nil, note, maxLocals, hnote,
        Scope.Numbering.next_add] at hlimit ⊢
      omega
    · cases h

theorem markFor_error {l : Label} {r' : RoutineScope}
    (h : (markFor l).run r = .error x r') : r.Refuses [.label l] x := by
  rw [run_markFor] at h
  split at h
  · cases h
  · rename_i hl
    split at h
    · rename_i hlimit
      cases h
      have hnote : r.labels.note l = r.labels.add l := by simp [Scope.Numbering.note, hl]
      refine .inr ⟨rfl, ?_⟩
      simp only [noteAll, List.foldl_cons, List.foldl_nil, note, hnote, Scope.Numbering.next_add]
      omega
    · cases h

end RoutineScope

theorem ScopeStack.Holds.error_of_onRoutine {α : Type} {s t : ScopeStack} {fields : List String}
    {r : RoutineScope} {operation : String} {x : Error} {action : EStateM Error RoutineScope α}
    (h : s.Holds fields r .inMethod) (ht : (onRoutine operation action).run s = .error x t) :
    ∃ r', action.run r = .error x r' := by
  obtain ⟨name, routines, outer, h⟩ := h
  simp only [EStateM.run, onRoutine, h] at ht ⊢
  split at ht
  · cases ht
  · cases ht
    exact ⟨_, by assumption⟩

namespace Emit

theorem bind_error {α β : Type} {action : Emit α} {next : α → Emit β} {e e' : Emitter} {x : Error}
    (h : (action >>= next) e = .error x e') :
    action e = .error x e' ∨ ∃ a e₁, action e = .ok a e₁ ∧ next a e₁ = .error x e' := by
  change EStateM.bind action next e = .error x e' at h
  unfold EStateM.bind at h
  split at h
  · exact .inr ⟨_, _, by assumption, h⟩
  · rename_i heq
    cases h
    exact .inl heq

theorem ensuring_error {α : Type} {action : Emit α} {change : Emitter → Emitter} {e e' : Emitter}
    {x : Error} (h : ensuring action change e = .error x e') :
    ∃ e₁, action e = .error x e₁ ∧ e' = change e₁ := by
  unfold ensuring at h
  split at h
  · cases h
  · cases h
    exact ⟨_, by assumption, rfl⟩

variable {e e' : Emitter} {fields : List String} {p : Place} {r : RoutineScope} {x : Error}

theorem slotFor_error {v : Variable} (h : slotFor v e = .error x e')
    (he : e.scopes.Holds fields r .inMethod) : r.Refuses [.var v] x := by
  unfold slotFor onScopes at h
  split at h
  · cases h
  · rename_i hf
    cases h
    obtain ⟨r', hr⟩ := he.error_of_onRoutine hf
    exact RoutineScope.slotFor_error hr

theorem markFor_error {l : Label} (h : markFor l e = .error x e')
    (he : e.scopes.Holds fields r .inMethod) : r.Refuses [.label l] x := by
  unfold markFor onScopes at h
  split at h
  · cases h
  · rename_i hf
    cases h
    obtain ⟨r', hr⟩ := he.error_of_onRoutine hf
    exact RoutineScope.markFor_error hr

theorem opSlot_error {v : Variable} {o : Slot → Op}
    (h : (do op (o (← slotFor v))) e = .error x e') (he : e.scopes.Holds fields r .inMethod) :
    r.Refuses [.var v] x := by
  rcases bind_error h with h | ⟨slot, e₁, -, h⟩
  · exact slotFor_error h he
  · cases h

theorem opMark_error {l : Label} {o : Mark → Op}
    (h : (do op (o (← markFor l))) e = .error x e') (he : e.scopes.Holds fields r .inMethod) :
    r.Refuses [.label l] x := by
  rcases bind_error h with h | ⟨mark, e₁, -, h⟩
  · exact markFor_error h he
  · cases h

theorem operand_error {index : Nat} {instr : Instruction} {o : Operand}
    (h : operand index instr o e = .error x e') (he : e.scopes.Holds fields r .inMethod) :
    r.Refuses o.references x := by
  match o with
  | .variable v => exact opSlot_error h he
  | .constant _ | .field _ | .label _ => cases h

theorem operands_error {index : Nat} {instr : Instruction} {os : List Operand}
    (h : operands index instr os e = .error x e') (he : e.scopes.Holds fields r .inMethod) :
    r.Refuses (os.flatMap Operand.references) x := by
  induction os generalizing e r with
  | nil => cases h
  | cons o os ih =>
    rw [List.flatMap_cons]
    rcases bind_error h with h | ⟨_, e₁, h₁, h₂⟩
    · exact (operand_error h he).append_left _
    · exact (ih h₂ ((operand_ok h₁ he (.refl _)).holds he)).append_right

theorem storeResult_error {result : Option Variable} (h : storeResult result e = .error x e')
    (he : e.scopes.Holds fields r .inMethod) :
    r.Refuses (result.map Reference.var).toList x := by
  cases result with
  | none => cases h
  | some v => exact opSlot_error h he

theorem declareField_ne_error {field : FieldRef} (he : e.scopes.Holds fields r .inMethod) :
    declareField field e ≠ .error x e' := by
  intro h
  obtain ⟨name, routines, outer, hc⟩ := he
  rcases bind_error h with h | ⟨new, e₁, -, h⟩
  · simp only [onScopes, ScopeStack.run_declareField hc] at h
    cases h
  · cases new <;> cases h

theorem simple_error {index : Nat} {i : Instruction} (h : simple index i e = .error x e')
    (he : e.scopes.Holds fields r .inMethod) : r.Refuses i.references x := by
  cases i with
  | label l => exact opMark_error h he
  | jump l => exact opMark_error h he
  | branch lhs rhs target =>
    rw [Instruction.references, List.append_assoc]
    rcases bind_error h with h | ⟨_, e₁, h₁, h⟩
    · exact (operand_error h he).append_left _
    have he₁ := (operand_ok h₁ he (.refl _)).holds he
    apply RoutineScope.Refuses.append_right
    rcases bind_error h with h | ⟨_, e₂, h₂, h⟩
    · exact (operand_error h he₁).append_left _
    have he₂ := (operand_ok h₂ he₁ (.refl _)).holds he₁
    exact (opMark_error h he₂).append_right
  | copy result source =>
    rw [Instruction.references, ← List.singleton_append]
    rcases bind_error h with h | ⟨slot, e₁, h₁, h⟩
    · exact (slotFor_error h he).append_left _
    have he₁ := (slotFor_ok h₁ he (.refl _)).1.holds he
    apply RoutineScope.Refuses.append_right
    rcases bind_error h with h | ⟨_, e₂, -, h⟩
    · exact operand_error h he₁
    · cases h
  | call result method args =>
    rw [Instruction.references]
    rcases bind_error h with h | ⟨_, e₁, h₁, h⟩
    · exact (operands_error h he).append_left _
    have he₁ := (operands_ok h₁ he (.refl _)).holds he
    apply RoutineScope.Refuses.append_right
    rcases bind_error h with h | ⟨_, e₂, h₂, h⟩
    · cases h
    · exact storeResult_error h ((op_ok h₂ he₁).holds he₁)
  | getField result receiver field =>
    rw [Instruction.references]
    rcases bind_error h with h | ⟨_, e₁, h₁, h⟩
    · exact absurd h (declareField_ne_error he)
    have he₁ := (declareField_ok (.getField result receiver field) rfl h₁ he).holds he
    rcases bind_error h with h | ⟨_, e₂, h₂, h⟩
    · exact (operand_error h he₁).append_left _
    have he₂ := (operand_ok h₂ he₁ (.refl _)).holds he₁
    apply RoutineScope.Refuses.append_right
    rcases bind_error h with h | ⟨_, e₃, h₃, h⟩
    · cases h
    · exact opSlot_error h ((op_ok h₃ he₂).holds he₂)
  | putField receiver field value =>
    rw [Instruction.references]
    rcases bind_error h with h | ⟨_, e₁, h₁, h⟩
    · exact absurd h (declareField_ne_error he)
    have he₁ := (declareField_ok (.putField receiver field value) rfl h₁ he).holds he
    rcases bind_error h with h | ⟨_, e₂, h₂, h⟩
    · exact (operand_error h he₁).append_left _
    have he₂ := (operand_ok h₂ he₁ (.refl _)).holds he₁
    apply RoutineScope.Refuses.append_right
    rcases bind_error h with h | ⟨_, e₃, -, h⟩
    · exact operand_error h he₂
    · cases h
  | ret value =>
    rcases bind_error h with h | ⟨_, e₁, -, h⟩
    · exact operand_error h he
    · cases h
  | receiveArg result position =>
    rcases bind_error h with h | ⟨_, e₁, -, h⟩
    · exact slotFor_error h he
    · cases h
  | dispatch _ | leave _ | defineInstanceMethod _ | defineClassMethod _ | defineClass _ => cases h

theorem logRoutine_ne_error (name : String) (count : Nat) :
    logRoutine name count e ≠ .error x e' := by
  intro h
  rcases bind_error h with h | ⟨_, _, hget, h⟩
  · cases h
  · cases hget
    cases hr : e.scopes.routine? <;> rw [hr] at h <;> cases h

theorem container_error {name : String} {body : Emit Unit}
    (h : container name body e = .error x e') :
    ∃ e₁, body (e.openContainer name) = .error x e₁ := by
  rw [container_apply] at h
  obtain ⟨e₂, hopened, -⟩ := ensuring_error h
  rcases bind_error hopened with hbody | ⟨_, e₁, -, hend⟩
  · exact ⟨e₂, hbody⟩
  · cases hend

theorem routine_error {path : String → String → String} {name : String} {kind : MethodKind}
    {count : Nat} {body : Emit Unit} (h : routine path name kind count body e = .error x e')
    (hp : p ≠ .outside) (he : e.scopes.Holds fields r p) :
    ∃ e₁ e₂, body e₁ = .error x e₂ ∧
      e₁.scopes.Holds fields (.new name e.scopes.firstSlot) .inMethod ∧
      e₁.scopes.firstSlot = e.scopes.firstSlot := by
  obtain ⟨owner, routines, outer, -, henter⟩ := he.enterRoutine hp name
  rw [routine_apply henter] at h
  obtain ⟨e₄, hpath, -⟩ := ensuring_error h
  obtain ⟨e₃, hopened, -⟩ := ensuring_error hpath
  rcases bind_error hopened with hbody | ⟨_, e₂, -, hclose⟩
  · exact ⟨_, e₃, hbody, ⟨owner, routines, outer, rfl⟩, rfl⟩
  rcases bind_error hclose with hlog | ⟨_, e₅, -, hend⟩
  · exact absurd hlog (logRoutine_ne_error name count)
  · cases hend

end Emit

open Emit

theorem Outline.lower_error {p : Place} (owner : String) (o : Outline p) {e e' : Emitter}
    {fields : List String} {r : RoutineScope} {x : Error} (h : o.lower e = .error x e')
    (he : e.scopes.Holds fields r p) :
    r.Refuses o.references x ∨ ∃ t ∈ o.routines owner,
      (RoutineScope.new t.name e.scopes.firstSlot).Refuses t.body.references x := by
  induction o generalizing owner e e' fields r with
  | nil => cases h
  | instr index i rest ih =>
    rcases bind_error h with h | ⟨_, e₁, h₁, h₂⟩
    · exact .inl ((simple_error h he).append_left _)
    have hfirst := simple_ok h₁ he (.refl _)
    have hrest := ih owner h₂ (hfirst.holds he)
    rw [hfirst.firstSlot] at hrest
    exact hrest.imp_left RoutineScope.Refuses.append_right
  | routine hp path name kind count body rest ihBody ihRest =>
    rw [routines]
    rcases bind_error h with h | ⟨_, e₁, h₁, h₂⟩
    · obtain ⟨e₂, e₃, hbody, he₂, hslot⟩ := routine_error h hp he
      refine .inr ?_
      rcases ihBody owner hbody he₂ with href | ⟨t, ht, href⟩
      · exact ⟨_, List.mem_cons_self, href⟩
      · rw [hslot] at href
        exact ⟨t, List.mem_cons_of_mem _ (List.mem_append_left _ ht), href⟩
    · have hfirst := emits_routine h₁ hp he
      have hrest := ihRest owner h₂ (hfirst.holds he)
      rw [hfirst.firstSlot] at hrest
      refine hrest.imp_right fun ⟨t, ht, href⟩ => ?_
      exact ⟨t, List.mem_cons_of_mem _ (List.mem_append_right _ ht), href⟩
  | container name body rest ihBody ihRest =>
    rw [routines]
    rcases bind_error h with h | ⟨_, e₁, h₁, h₂⟩
    · obtain ⟨e₂, hbody⟩ := container_error h
      have hinside : ScopeStack.Holds (e.openContainer name).scopes [] r .inClass :=
        ⟨name, [], e.scopes.containers, rfl⟩
      -- Directly in a class no names are resolved: a refusal there is one at the place itself.
      rcases ihBody (nestedPath owner name) hbody hinside with href | ⟨t, ht, href⟩
      · rw [body.references_eq_nil (by decide)] at href
        exact .inl (href.append_left rest.references)
      · exact .inr ⟨t, List.mem_append_left _ ht, href⟩
    · have hfirst := emits_container h₁ he
      have hrest := ihRest owner h₂ (hfirst.holds he)
      rw [hfirst.firstSlot] at hrest
      refine hrest.imp_right fun ⟨t, ht, href⟩ => ?_
      exact ⟨t, List.mem_append_right _ ht, href⟩

end StackBackend
