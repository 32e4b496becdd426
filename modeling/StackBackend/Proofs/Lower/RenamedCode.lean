import Mathlib
import StackBackend.Proofs.Lower.Keeping
import StackBackend.Proofs.Lower.OutlineParts
import StackBackend.Proofs.Lower.Refusal
import StackBackend.Proofs.Lower.Renaming

/-!
# Names do not matter to the code

A script and the same script with its routines renamed are lowered in step. In the scope of a
routine a name and its new name have the same number, if any, because different names are not given
the same new one. So the same operations are put out, and where one run is refused so is the other.
-/
namespace StackBackend

open Code (Op MethodKind Slot Mark)

namespace Scope.Numbering

variable {κ : Type} [Ord κ]

structure RenamedBy (f : κ → κ) (n n' : Numbering κ) : Prop where
  next_eq : n'.next = n.next
  get?_eq : ∀ key, n'.get? (f key) = n.get? key

variable [Std.TransOrd κ] {f : κ → κ} {n n' : Numbering κ}

theorem renamedBy_empty (f : κ → κ) : (empty : Numbering κ).RenamedBy f empty := ⟨rfl, by simp⟩

variable [Std.LawfulEqOrd κ]

theorem RenamedBy.add (h : n.RenamedBy f n') (hf : Function.Injective f) (key : κ) :
    (n.add key).RenamedBy f (n'.add (f key)) where
  next_eq := by rw [next_add, next_add, h.next_eq]
  get?_eq other := by
    by_cases hother : key = other
    · rw [← hother, get?_add_self, get?_add_self, h.next_eq]
    · rw [get?_add_of_ne n hother, get?_add_of_ne n' (hf.ne hother), h.get?_eq]

end Scope.Numbering

inductive AlikeResults {α σ : Type} (R : σ → σ → Prop) :
    EStateM.Result Error σ α → EStateM.Result Error σ α → Prop
  | ok (a : α) {s s' : σ} : R s s' → AlikeResults R (.ok a s) (.ok a s')
  | error (x : Error) (s s' : σ) : AlikeResults R (.error x s) (.error x s')

namespace RoutineScope

structure RenamedBy (ρ : Renaming) (r r' : RoutineScope) : Prop where
  name_eq : r'.name = r.name
  firstSlot_eq : r'.firstSlot = r.firstSlot
  vars : r.vars.RenamedBy ρ.var r'.vars
  labels : r.labels.RenamedBy ρ.label r'.labels

variable {ρ : Renaming} {r r' : RoutineScope}

theorem renamedBy_new (ρ : Renaming) (name : String) (firstSlot : UInt16) :
    (new name firstSlot).RenamedBy ρ (new name firstSlot) :=
  ⟨rfl, rfl, Scope.Numbering.renamedBy_empty _, Scope.Numbering.renamedBy_empty _⟩

theorem RenamedBy.slotFor (h : r.RenamedBy ρ r') (v : Variable) :
    AlikeResults (RenamedBy ρ) ((slotFor v).run r) ((slotFor (ρ.var v)).run r') := by
  have hslotAt : r'.slotAt = r.slotAt := by
    funext number
    rw [slotAt, slotAt, h.firstSlot_eq]
  have hmax : r'.maxLocals = r.maxLocals := by
    rw [maxLocals, maxLocals, h.firstSlot_eq, h.vars.next_eq]
  rw [run_slotFor, run_slotFor, h.vars.get?_eq, hslotAt, hmax, h.vars.next_eq, h.name_eq]
  cases r.vars.get? v with
  | some number => exact .ok _ h
  | none =>
    by_cases hlimit : slotLimit ≤ r.maxLocals
    · simp only [if_pos hlimit]
      exact .error _ _ _
    · simp only [if_neg hlimit]
      exact .ok _ ⟨rfl, h.firstSlot_eq, h.vars.add ρ.var_injective v, h.labels⟩

theorem RenamedBy.markFor (h : r.RenamedBy ρ r') (l : Label) :
    AlikeResults (RenamedBy ρ) ((markFor l).run r) ((markFor (ρ.label l)).run r') := by
  rw [run_markFor, run_markFor, h.labels.get?_eq, h.labels.next_eq, h.name_eq]
  cases r.labels.get? l with
  | some number => exact .ok _ h
  | none =>
    by_cases hlimit : markLimit ≤ r.labels.next
    · simp only [if_pos hlimit]
      exact .error _ _ _
    · simp only [if_neg hlimit]
      exact .ok _ ⟨rfl, h.firstSlot_eq, h.vars, h.labels.add ρ.label_injective l⟩

end RoutineScope

namespace ScopeStack

/-- The scopes at a place that is renamed. What lies farther out does not matter to what is lowered
there. -/
inductive RenamedBy (ρ : Renaming) (p : Place) (s s' : ScopeStack) : Prop
  | intro {fields : List String} {r r' : RoutineScope} (firstSlot : s'.firstSlot = s.firstSlot)
      (holds : s.Holds fields r p) (holds' : s'.Holds fields r' p) (scope : r.RenamedBy ρ r')

variable {ρ : Renaming} {s s' : ScopeStack}

theorem RenamedBy.onRoutine {α : Type} {operation : String}
    {action action' : EStateM Error RoutineScope α} (h : s.RenamedBy ρ .inMethod s')
    (haction : ∀ {r r' : RoutineScope}, r.RenamedBy ρ r' →
      AlikeResults (RoutineScope.RenamedBy ρ) (action.run r) (action'.run r')) :
    AlikeResults (RenamedBy ρ .inMethod) ((onRoutine operation action).run s)
      ((onRoutine operation action').run s') := by
  obtain ⟨containers, firstSlot⟩ := s
  obtain ⟨containers', firstSlot'⟩ := s'
  obtain ⟨rfl, ⟨name, routines, outer, rfl⟩, ⟨name', routines', outer', rfl⟩, hscope⟩ := h
  have hresults := haction hscope
  simp only [EStateM.run, ScopeStack.onRoutine] at hresults ⊢
  generalize action _ = result, action' _ = result' at hresults
  cases hresults with
  | ok a hscope => exact .ok a ⟨rfl, ⟨_, _, _, rfl⟩, ⟨_, _, _, rfl⟩, hscope⟩
  | error x => exact .error x _ _

theorem RenamedBy.declareField (h : s.RenamedBy ρ .inMethod s') (field : String) :
    AlikeResults (RenamedBy ρ .inMethod) ((declareField field).run s)
      ((declareField field).run s') := by
  obtain ⟨hfirst, ⟨name, routines, outer, hc⟩, ⟨name', routines', outer', hc'⟩, hscope⟩ := h
  rw [run_declareField hc, run_declareField hc']
  simp only [ContainerScope.declareField]
  split
  · exact .ok false ⟨hfirst, ⟨_, _, _, rfl⟩, ⟨_, _, _, rfl⟩, hscope⟩
  · exact .ok true ⟨hfirst, ⟨_, _, _, rfl⟩, ⟨_, _, _, rfl⟩, hscope⟩

theorem RenamedBy.enterRoutine {p : Place} (h : s.RenamedBy ρ p s') (hp : p ≠ .outside)
    (ρ' : Renaming) (name : String) :
    ∃ t t', (enterRoutine name).run s = .ok () t ∧ (enterRoutine name).run s' = .ok () t' ∧
      t.RenamedBy ρ' .inMethod t' := by
  obtain ⟨hfirst, hholds, hholds', -⟩ := h
  obtain ⟨owner, routines, outer, -, henter⟩ := hholds.enterRoutine hp name
  obtain ⟨owner', routines', outer', -, henter'⟩ := hholds'.enterRoutine hp name
  rw [hfirst] at henter'
  exact ⟨_, _, henter, henter', rfl, ⟨owner, routines, outer, rfl⟩,
    ⟨owner', routines', outer', rfl⟩, RoutineScope.renamedBy_new ρ' name s.firstSlot⟩

end ScopeStack

namespace Emitter

/-- The same has been put out, but for what is reported and logged. -/
structure SameCode (e e' : Emitter) : Prop where
  code : e'.code = e.code
  source : e'.source = e.source

structure RenamedBy (ρ : Renaming) (p : Place) (e e' : Emitter) : Prop extends SameCode e e' where
  scopes : e.scopes.RenamedBy ρ p e'.scopes

end Emitter

namespace Emit

inductive Alike {α : Type} (R : Emitter → Emitter → Prop) :
    EStateM.Result Error Emitter α → EStateM.Result Error Emitter α → Prop
  | ok (a : α) {e e' : Emitter} : R e e' → Alike R (.ok a e) (.ok a e')
  | error (x : Error) {e e' : Emitter} : e'.code = e.code → Alike R (.error x e) (.error x e')

/-- Where a place is renamed the two actions do the same. -/
def Lockstep {α : Type} (ρ : Renaming) (p : Place) (action action' : Emit α) : Prop :=
  ∀ e e' : Emitter, e.RenamedBy ρ p e' → Alike (Emitter.RenamedBy ρ p) (action e) (action' e')

variable {α β : Type} {ρ : Renaming} {p : Place}

theorem lockstep_pure (a : α) : Lockstep ρ p (pure a) (pure a) := fun _ _ he => .ok a he

theorem Lockstep.bind {action action' : Emit α} {next next' : α → Emit β}
    (h : Lockstep ρ p action action') (hnext : ∀ a, Lockstep ρ p (next a) (next' a)) :
    Lockstep ρ p (action >>= next) (action' >>= next') := by
  intro e e' he
  change Alike _ (EStateM.bind action next e) (EStateM.bind action' next' e')
  unfold EStateM.bind
  have hresults := h e e' he
  generalize action e = result, action' e' = result' at hresults
  cases hresults with
  | ok a he => exact hnext a _ _ he
  | error x hcode => exact .error x hcode

theorem lockstep_op {o : Op} : Lockstep ρ p (op o) (op o) :=
  fun _ _ he => .ok () ⟨⟨congrArg (·.push o) he.code, he.source⟩, he.scopes⟩

theorem lockstep_log {x x' : Event} : Lockstep ρ p (log x) (log x') :=
  fun _ _ he => .ok () ⟨⟨he.code, he.source⟩, he.scopes⟩

theorem lockstep_report {index : Nat} {i i' : Instruction} {kind kind' : DiagnosticKind} :
    Lockstep ρ p (report index i kind) (report index i' kind') :=
  fun _ _ he => .ok () ⟨⟨he.code, he.source⟩, he.scopes⟩

theorem lockstep_onScopes {action action' : EStateM Error ScopeStack α}
    (h : ∀ {s s' : ScopeStack}, s.RenamedBy ρ p s' →
      AlikeResults (ScopeStack.RenamedBy ρ p) (action.run s) (action'.run s')) :
    Lockstep ρ p (onScopes action) (onScopes action') := by
  intro e e' he
  unfold onScopes
  have hresults := h he.scopes
  generalize action.run e.scopes = result, action'.run e'.scopes = result' at hresults
  cases hresults with
  | ok a hscopes => exact .ok a ⟨⟨he.code, he.source⟩, hscopes⟩
  | error x => exact .error x he.code

theorem lockstep_slotFor (v : Variable) :
    Lockstep ρ .inMethod (slotFor v) (slotFor (ρ.var v)) :=
  lockstep_onScopes fun hs => hs.onRoutine fun hr => hr.slotFor v

theorem lockstep_markFor (l : Label) : Lockstep ρ .inMethod (markFor l) (markFor (ρ.label l)) :=
  lockstep_onScopes fun hs => hs.onRoutine fun hr => hr.markFor l

theorem lockstep_declareField (field : FieldRef) :
    Lockstep ρ .inMethod (declareField field) (declareField field) := by
  refine (lockstep_onScopes fun hs => hs.declareField field.name).bind fun new => ?_
  split
  · exact lockstep_op
  · exact lockstep_pure ()

theorem lockstep_operand {index : Nat} {i i' : Instruction} (o : Operand) :
    Lockstep ρ .inMethod (operand index i o) (operand index i' (o.rename ρ)) := by
  match o with
  | .constant value => exact lockstep_op
  | .variable v => exact (lockstep_slotFor v).bind fun slot => lockstep_op
  | .field _ | .label _ => exact lockstep_report

theorem lockstep_operands {index : Nat} {i i' : Instruction} (os : List Operand) :
    Lockstep ρ .inMethod (operands index i os) (operands index i' (os.map (Operand.rename ρ))) := by
  induction os with
  | nil => exact lockstep_pure ()
  | cons o rest ih => exact (lockstep_operand o).bind fun _ => ih

theorem lockstep_storeResult (result : Option Variable) :
    Lockstep ρ .inMethod (storeResult result) (storeResult (result.map ρ.var)) := by
  cases result with
  | none => exact lockstep_op
  | some v => exact (lockstep_slotFor v).bind fun slot => lockstep_op

theorem lockstep_simple (index : Nat) (i : Instruction) :
    Lockstep ρ .inMethod (simple index i) (simple index (i.rename ρ)) := by
  cases i with
  | label l | jump l => exact (lockstep_markFor l).bind fun mark => lockstep_op
  | branch lhs rhs target =>
    exact (lockstep_operand lhs).bind fun _ => (lockstep_operand rhs).bind fun _ =>
      (lockstep_markFor target).bind fun mark => lockstep_op
  | dispatch value | leave value => exact lockstep_report
  | copy result source =>
    exact (lockstep_slotFor result).bind fun slot => (lockstep_operand source).bind fun _ =>
      lockstep_op
  | call result method args =>
    simp only [simple, Instruction.rename, List.length_map]
    exact (lockstep_operands args).bind fun _ => lockstep_op.bind fun _ =>
      lockstep_storeResult result
  | getField result receiver field =>
    exact (lockstep_declareField field).bind fun _ => (lockstep_operand receiver).bind fun _ =>
      lockstep_op.bind fun _ => (lockstep_slotFor result).bind fun slot => lockstep_op
  | putField receiver field value =>
    exact (lockstep_declareField field).bind fun _ => (lockstep_operand receiver).bind fun _ =>
      (lockstep_operand value).bind fun _ => lockstep_op
  | receiveArg result position => exact (lockstep_slotFor result).bind fun slot => lockstep_log
  | ret value => exact (lockstep_operand value).bind fun _ => lockstep_op
  | defineInstanceMethod _ | defineClassMethod _ | defineClass _ => exact lockstep_pure ()

theorem Alike.ensuring {action action' : Emit α} {change change' : Emitter → Emitter}
    {R : Emitter → Emitter → Prop} {e e' : Emitter} (h : Alike R (action e) (action' e'))
    (hR : ∀ {t t'}, R t t' → t.SameCode t')
    (hchange : ∀ t, (change t).code = t.code ∧ (change t).source = t.source)
    (hchange' : ∀ t, (change' t).code = t.code ∧ (change' t).source = t.source) :
    Alike Emitter.SameCode (ensuring action change e) (ensuring action' change' e') := by
  unfold Emit.ensuring
  generalize action e = result, action' e' = result' at h
  cases h with
  | @ok a t t' ht =>
    have hsame := hR ht
    exact .ok a ⟨by rw [(hchange t).1, (hchange' t').1, hsame.code],
      by rw [(hchange t).2, (hchange' t').2, hsame.source]⟩
  | @error x t t' hcode => exact .error x (by rw [(hchange t).1, (hchange' t').1, hcode])

theorem Alike.renamedBy {result result' : EStateM.Result Error Emitter α}
    (h : Alike Emitter.SameCode result result')
    (hscopes : ∀ {a t t'}, result = .ok a t → result' = .ok a t' →
      t.scopes.RenamedBy ρ p t'.scopes) : Alike (Emitter.RenamedBy ρ p) result result' := by
  cases h with
  | ok a hsame => exact .ok a ⟨hsame, hscopes rfl rfl⟩
  | error x hcode => exact .error x hcode

theorem lockstep_logRoutine (name : String) (count : Nat) :
    Lockstep ρ p (logRoutine name count) (logRoutine name count) := by
  have hlogs : ∀ e, ∃ events, logRoutine name count e = .ok () { e with events } := by
    intro e
    cases hlog : logRoutine name count e with
    | error x e₁ => exact absurd hlog (logRoutine_ne_error name count)
    | ok u e₁ =>
      rcases logRoutine_eq hlog with rfl | ⟨x, rfl⟩
      · exact ⟨e₁.events, rfl⟩
      · exact ⟨_, rfl⟩
  intro e e' he
  obtain ⟨events, hlog⟩ := hlogs e
  obtain ⟨events', hlog'⟩ := hlogs e'
  rw [hlog, hlog']
  exact .ok () ⟨⟨he.code, he.source⟩, he.scopes⟩

end Emit

open Emit

theorem Outline.Renamed.fieldsAfter_eq {p : Place} {ρ : Renaming} {o o' : Outline p}
    (h : o.Renamed ρ o') (fields : List String) : o'.fieldsAfter fields = o.fieldsAfter fields := by
  induction h generalizing fields with
  | nil => rfl
  | @instr ρ _ i _ _ _ _ ih =>
    have hfield : (i.rename ρ).declaredAfter fields = i.declaredAfter fields := by cases i <;> rfl
    rw [fieldsAfter, fieldsAfter, hfield, ih]
  | routine _ _ _ ihBody ihRest => rw [fieldsAfter, fieldsAfter, ihBody, ihRest]
  | container _ _ _ ihRest => exact ihRest fields

theorem lockstep_routine {p : Place} {ρ ρ' : Renaming} {path : String → String → String}
    {name : String} {kind : MethodKind} {count : Nat} {body body' : Outline .inMethod}
    (hp : p ≠ .outside) (hrenamed : body.Renamed ρ' body')
    (hbody : Lockstep ρ' .inMethod body.lower body'.lower) :
    Lockstep ρ p (routine path name kind count body.lower)
      (routine path name kind count body'.lower) := by
  intro e e' he
  obtain ⟨t, t', henter, henter', hopened⟩ := he.scopes.enterRoutine hp ρ' name
  have hinside := hbody.bind fun _ => (lockstep_logRoutine name count).bind fun _ =>
    (lockstep_op : Lockstep _ _ (op .endMethod) _)
  refine Alike.renamedBy ?_ fun h h' => ?_
  · rw [routine_apply henter, routine_apply henter']
    refine Alike.ensuring (Alike.ensuring (hinside _ _ ?_) (·.toSameCode) ?_ ?_) id ?_ ?_
    · exact ⟨⟨by simp only [Emitter.openRoutine, he.code], he.source⟩, hopened⟩
    all_goals exact fun _ => ⟨rfl, rfl⟩
  · obtain ⟨hfirst, hholds, hholds', hscope⟩ := he.scopes
    have hleft := Outline.emits_routine h hp hholds
    have hleft' := Outline.emits_routine h' hp hholds'
    rw [hrenamed.fieldsAfter_eq] at hleft'
    exact ⟨by rw [hleft.firstSlot, hleft'.firstSlot, hfirst], hleft.holds hholds,
      hleft'.holds hholds', hscope⟩

theorem lockstep_container {p : Place} {ρ : Renaming} {name : String}
    {body body' : Outline .inClass} (hbody : Lockstep ρ .inClass body.lower body'.lower) :
    Lockstep ρ p (container name body.lower) (container name body'.lower) := by
  intro e e' he
  obtain ⟨hfirst, hholds, hholds', hscope⟩ := he.scopes
  have hinside := hbody.bind fun _ => (lockstep_op : Lockstep _ _ (op .endClass) _)
  refine Alike.renamedBy ?_ fun h h' => ?_
  · rw [container_apply, container_apply]
    refine Alike.ensuring (hinside _ _ ?_) (·.toSameCode) ?_ ?_
    · refine ⟨⟨?_, he.source⟩, hfirst, ⟨name, [], e.scopes.containers, rfl⟩,
        ⟨name, [], e'.scopes.containers, rfl⟩, hscope⟩
      simp only [Emitter.openContainer, he.code, he.source]
    all_goals exact fun _ => ⟨rfl, rfl⟩
  · have hleft := Outline.emits_container h hholds
    have hleft' := Outline.emits_container h' hholds'
    exact ⟨by rw [hleft.firstSlot, hleft'.firstSlot, hfirst], hleft.holds hholds,
      hleft'.holds hholds', hscope⟩

theorem Outline.Renamed.lockstep {p : Place} {ρ : Renaming} {o o' : Outline p}
    (h : o.Renamed ρ o') : Lockstep ρ p o.lower o'.lower := by
  induction h with
  | nil => exact lockstep_pure ()
  | @instr ρ index i _ _ _ _ ih => exact (lockstep_simple index i).bind fun _ => ih
  | @routine _ _ _ placed _ _ _ _ _ _ _ _ hbody _ ihBody ihRest =>
    exact (lockstep_routine placed hbody ihBody).bind fun _ => ihRest
  | container _ _ ihBody ihRest => exact (lockstep_container ihBody).bind fun _ => ihRest

namespace Script

variable {s s' : Script}

theorem Renamed.lockstep (h : s.Renamed s') :
    Lockstep .refl .outside s.outline.lower s'.outline.lower := by
  have hroot := s.root.renamed_outline (.nil : (.nil : Outline .outside).Renamed .refl .nil) h.root
  rw [s.root.outline_eq, s'.root.outline_eq] at hroot
  exact hroot.lockstep

/-- If each routine of a script is renamed in its own way then lowering succeeds as before, or it
fails as before with the same error, and in either case the same code has been put out. -/
theorem lower_renamed (h : s.Renamed s') (e : Emitter) :
    ((∃ t, s'.lower.run e = .ok () t) ↔ ∃ t, s.lower.run e = .ok () t) ∧
    (∀ x, (∃ t, s'.lower.run e = .error x t) ↔ ∃ t, s.lower.run e = .error x t) ∧
    (s'.lower.after e).code = (s.lower.after e).code := by
  have hholds : e.scopes.Holds [] (.new "" 0) .outside := trivial
  have halike : Alike (Emitter.RenamedBy .refl .outside) (s.lower.run e) (s'.lower.run e) := by
    rw [lower_apply, lower_apply, h.fileName]
    exact h.lockstep _ _
      ⟨⟨rfl, rfl⟩, rfl, hholds, hholds, RoutineScope.renamedBy_new .refl "" 0⟩
  simp only [EStateM.run, after] at halike ⊢
  generalize s.lower e = result, s'.lower e = result' at halike
  cases halike with
  | ok a hrenamed => exact ⟨by simp, by simp, hrenamed.code⟩
  | error x hcode => exact ⟨by simp, by simp, hcode⟩

end Script

/-- In the class itself two variables trade their names and another label is used. The method that
it defines keeps its names. -/
theorem lower_renamed_traded :
    ∃ t, (⟨"main", ⟨"Main", [.copy ⟨"y"⟩ (.constant .nil), .label ⟨5⟩,
          .defineClassMethod ⟨"id", [.receiveArg ⟨"x"⟩ 0, .ret (.variable ⟨"x"⟩)]⟩,
          .copy ⟨"x"⟩ (.variable ⟨"y"⟩), .jump ⟨5⟩], [], []⟩⟩ : Script).lower.run (.new (.new 0)) =
        .ok () t ∧
      t.code.toList = [.beginClass "Main" "main", .beginMethod "__class__" .onClass, .push .nil,
        .store ⟨0⟩, .mark ⟨0⟩, .beginMethod "id" .onClass, .load ⟨0⟩, .returnValue, .endMethod,
        .load ⟨0⟩, .store ⟨1⟩, .goto ⟨0⟩, .endMethod, .endClass] := by
  have hlower : Emit.code? (Script.lower ⟨"main", ⟨"Main", [.copy ⟨"x"⟩ (.constant .nil),
          .label ⟨4⟩, .defineClassMethod ⟨"id", [.receiveArg ⟨"x"⟩ 0, .ret (.variable ⟨"x"⟩)]⟩,
          .copy ⟨"y"⟩ (.variable ⟨"x"⟩), .jump ⟨4⟩], [], []⟩⟩) (.new (.new 0)) =
      some [.beginClass "Main" "main", .beginMethod "__class__" .onClass, .push .nil,
        .store ⟨0⟩, .mark ⟨0⟩, .beginMethod "id" .onClass, .load ⟨0⟩, .returnValue, .endMethod,
        .load ⟨0⟩, .store ⟨1⟩, .goto ⟨0⟩, .endMethod, .endClass] := by cbv
  let ρ : Renaming :=
    ⟨Equiv.swap ⟨"x"⟩ ⟨"y"⟩, Equiv.swap ⟨4⟩ ⟨5⟩, Equiv.injective _, Equiv.injective _⟩
  have hinner : StreamRenamed .refl [.receiveArg ⟨"x"⟩ 0, .ret (.variable ⟨"x"⟩)]
      [.receiveArg ⟨"x"⟩ 0, .ret (.variable ⟨"x"⟩)] := .cons (.plain rfl) (.cons (.plain rfl) .nil)
  have hstream : StreamRenamed ρ
      [.copy ⟨"x"⟩ (.constant .nil), .label ⟨4⟩,
        .defineClassMethod ⟨"id", [.receiveArg ⟨"x"⟩ 0, .ret (.variable ⟨"x"⟩)]⟩,
        .copy ⟨"y"⟩ (.variable ⟨"x"⟩), .jump ⟨4⟩]
      [.copy ⟨"y"⟩ (.constant .nil), .label ⟨5⟩,
        .defineClassMethod ⟨"id", [.receiveArg ⟨"x"⟩ 0, .ret (.variable ⟨"x"⟩)]⟩,
        .copy ⟨"x"⟩ (.variable ⟨"y"⟩), .jump ⟨5⟩] :=
    .cons (.plain rfl) (.cons (.plain rfl) (.cons (.defineClassMethod (.intro _ hinner))
      (.cons (.plain rfl) (.cons (.plain rfl) .nil))))
  have hroot : Class.Renamed ⟨"Main", _, [], []⟩ ⟨"Main", _, [], []⟩ :=
    .intro ρ hstream .nil .nil
  have hscript : Script.Renamed ⟨"main", _⟩ ⟨"main", _⟩ := ⟨by rfl, hroot⟩
  obtain ⟨e, he, hcode⟩ := Emit.exists_of_code? _ hlower
  obtain ⟨hok, -, hsame⟩ := Script.lower_renamed hscript (.new (.new 0))
  obtain ⟨t, ht⟩ := hok.2 ⟨e, he⟩
  refine ⟨t, ht, ?_⟩
  rw [EStateM.run] at he ht
  rw [Emit.after, Emit.after, he, ht] at hsame
  rw [hsame, hcode]

end StackBackend
