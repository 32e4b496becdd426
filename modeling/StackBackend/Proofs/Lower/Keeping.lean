import StackBackend.Proofs.Lower.Outline
import StackBackend.Proofs.Scope.Operations

/-!
# What actions of the emitter keep

A relation of an emitter to what becomes of it is kept by an action that stands in it whether the
action succeeds or fails. What each of the simple operations keeps is kept by lowering an
instruction that defines nothing. If opening and closing scopes keeps it too, it is kept by lowering
anything: so is the stack of paths.
-/
namespace StackBackend

open Code (Slot Mark Op)

/-- What resolving a name or declaring a field can make of the scopes. -/
inductive ScopeStack.Resolves (s : ScopeStack) : ScopeStack → Prop
  | slot {v : Variable} {slot : Slot} {t : ScopeStack}
      (h : (ScopeStack.slotFor v).run s = .ok slot t) : Resolves s t
  | mark {l : Label} {mark : Mark} {t : ScopeStack}
      (h : (ScopeStack.markFor l).run s = .ok mark t) : Resolves s t
  | field {field : String} {new : Bool} {t : ScopeStack}
      (h : (ScopeStack.declareField field).run s = .ok new t) : Resolves s t

def Event.isProblem (x : Event) : Bool := x.level = .warn

namespace Emit

def after {α : Type} (action : Emit α) (e : Emitter) : Emitter :=
  match action e with
  | .ok _ e' => e'
  | .error _ e' => e'

def Keeps {α : Type} (R : Emitter → Emitter → Prop) (action : Emit α) : Prop :=
  ∀ e, R e (action.after e)

theorem Keeps.of_ok {α : Type} {R : Emitter → Emitter → Prop} {action : Emit α} {e e' : Emitter}
    {a : α} (h : Keeps R action) (hok : action e = .ok a e') : R e e' := by
  have hafter := h e
  rwa [after, hok] at hafter

/-- The relation holds from an emitter to itself and to what a simple operation makes of it. A
diagnostic is logged as soon as it is put out. -/
structure Stable (R : Emitter → Emitter → Prop) : Prop where
  refl (e : Emitter) : R e e
  trans {e e' e'' : Emitter} : R e e' → R e' e'' → R e e''
  code (e : Emitter) (o : Op) : R e { e with code := e.code.push o }
  diagnosed (e : Emitter) (d : Diagnostic) :
    R e ({ e with diagnostics := e.diagnostics.push d }.log (.diagnosed d))
  events (e : Emitter) (x : Event) : x.isProblem = false → R e (e.log x)
  scopes (e : Emitter) {scopes : ScopeStack} : e.scopes.Resolves scopes → R e { e with scopes }

namespace Stable

variable {R : Emitter → Emitter → Prop} (hR : Stable R) {α β : Type}
include hR

theorem keeps_pure (a : α) : Keeps R (pure a : Emit α) := fun e => hR.refl e

theorem keeps_get : Keeps R (get : Emit Emitter) := fun e => hR.refl e

theorem keeps_bind {action : Emit α} {next : α → Emit β} (h : Keeps R action)
    (hnext : ∀ a, Keeps R (next a)) : Keeps R (action >>= next) := by
  intro e
  have hfirst := h e
  change R e (after (EStateM.bind action next) e)
  unfold after EStateM.bind
  unfold after at hfirst
  cases haction : action e with
  | ok a e₁ =>
    rw [haction] at hfirst
    exact hR.trans hfirst (hnext a e₁)
  | error x e₁ =>
    rw [haction] at hfirst
    exact hfirst

theorem keeps_op (o : Op) : Keeps R (op o) := fun e => hR.code e o

theorem keeps_log {x : Event} (hx : x.isProblem = false) : Keeps R (log x) :=
  fun e => hR.events e x hx

theorem keeps_onScopes {action : EStateM Error ScopeStack α} (hatomic : Atomic action)
    (hresolves : ∀ {s t : ScopeStack} {a : α}, action.run s = .ok a t → s.Resolves t) :
    Keeps R (onScopes action) := by
  intro e
  unfold after onScopes
  cases h : action.run e.scopes with
  | ok a scopes => exact hR.scopes e (hresolves h)
  | error x scopes =>
    rw [hatomic _ _ _ h]
    exact hR.refl e

theorem keeps_slotFor (v : Variable) : Keeps R (slotFor v) :=
  hR.keeps_onScopes (ScopeStack.atomic_slotFor v) .slot

theorem keeps_markFor (l : Label) : Keeps R (markFor l) :=
  hR.keeps_onScopes (ScopeStack.atomic_markFor l) .mark

theorem keeps_report (index : Nat) (instr : Instruction) (kind : DiagnosticKind) :
    Keeps R (report index instr kind) := by
  apply hR.keeps_bind hR.keeps_get
  exact fun e e' => hR.diagnosed e' ⟨kind, e.routinePath, index, instr.text⟩

theorem keeps_operand (index : Nat) (instr : Instruction) (o : Operand) :
    Keeps R (operand index instr o) := by
  match o with
  | .constant value => exact hR.keeps_op _
  | .variable v => exact hR.keeps_bind (hR.keeps_slotFor v) fun _ => hR.keeps_op _
  | .field _ | .label _ => exact hR.keeps_report _ _ _

theorem keeps_operands (index : Nat) (instr : Instruction) (os : List Operand) :
    Keeps R (operands index instr os) := by
  induction os with
  | nil => exact hR.keeps_pure ()
  | cons o rest ih => exact hR.keeps_bind (hR.keeps_operand index instr o) fun _ => ih

theorem keeps_storeResult (result : Option Variable) : Keeps R (storeResult result) := by
  cases result with
  | none => exact hR.keeps_op _
  | some v => exact hR.keeps_bind (hR.keeps_slotFor v) fun _ => hR.keeps_op _

theorem keeps_declareField (field : FieldRef) : Keeps R (declareField field) := by
  apply hR.keeps_bind (hR.keeps_onScopes (ScopeStack.atomic_declareField field.name) .field)
  intro new
  cases new with
  | false => exact hR.keeps_pure ()
  | true => exact hR.keeps_op _

theorem keeps_simple (index : Nat) (i : Instruction) : Keeps R (simple index i) := by
  have hoperand := hR.keeps_operand index i
  cases i with
  | label l | jump l => exact hR.keeps_bind (hR.keeps_markFor l) fun _ => hR.keeps_op _
  | branch lhs rhs target =>
    apply hR.keeps_bind (hoperand lhs)
    intro _
    apply hR.keeps_bind (hoperand rhs)
    exact fun _ => hR.keeps_bind (hR.keeps_markFor target) fun _ => hR.keeps_op _
  | copy result source =>
    apply hR.keeps_bind (hR.keeps_slotFor result)
    exact fun _ => hR.keeps_bind (hoperand source) fun _ => hR.keeps_op _
  | call result method args =>
    apply hR.keeps_bind (hR.keeps_operands _ _ args)
    exact fun _ => hR.keeps_bind (hR.keeps_op _) fun _ => hR.keeps_storeResult result
  | getField result receiver field =>
    apply hR.keeps_bind (hR.keeps_declareField field)
    intro _
    apply hR.keeps_bind (hoperand receiver)
    intro _
    apply hR.keeps_bind (hR.keeps_op _)
    exact fun _ => hR.keeps_bind (hR.keeps_slotFor result) fun _ => hR.keeps_op _
  | putField receiver field value =>
    apply hR.keeps_bind (hR.keeps_declareField field)
    intro _
    apply hR.keeps_bind (hoperand receiver)
    exact fun _ => hR.keeps_bind (hoperand value) fun _ => hR.keeps_op _
  | ret value => exact hR.keeps_bind (hoperand value) fun _ => hR.keeps_op _
  | receiveArg result position =>
    apply hR.keeps_bind (hR.keeps_slotFor result)
    exact fun _ => hR.keeps_log rfl
  | dispatch _ | leave _ => exact hR.keeps_report _ _ _
  | defineInstanceMethod _ | defineClassMethod _ | defineClass _ => exact hR.keeps_pure ()

theorem keeps_logRoutine (name : String) (count : Nat) : Keeps R (logRoutine name count) := by
  apply hR.keeps_bind hR.keeps_get
  intro e
  cases e.scopes.routine? with
  | none => exact hR.keeps_pure ()
  | some r => exact hR.keeps_log rfl

theorem keeps_ensuring {action : Emit α} {change : Emitter → Emitter} (h : Keeps R action)
    (hchange : ∀ e, R e (change e)) : Keeps R (ensuring action change) := by
  intro e
  have hfirst := h e
  unfold after at hfirst
  unfold after ensuring
  cases haction : action e with
  | ok a e₁ | error x e₁ =>
    rw [haction] at hfirst
    exact hR.trans hfirst (hchange e₁)

theorem keeps_atPath {action : Emit α} (h : Keeps R action)
    (hpaths : ∀ (e : Emitter) (paths : List String), R e { e with paths }) (path : String) :
    Keeps R (atPath path action) := by
  have hopen : Keeps R (modify fun e => { e with paths := path :: e.paths } : Emit Unit) :=
    fun e => hpaths e _
  exact hR.keeps_bind hopen fun _ => hR.keeps_ensuring h fun e => hpaths e _

end Stable

/-- The relation does not depend on the scopes, and it is kept at any path at which it is kept at
all. -/
structure Scopeless (R : Emitter → Emitter → Prop) : Prop extends Stable R where
  anyScopes (e : Emitter) (scopes : ScopeStack) : R e { e with scopes }
  atPath {action : Emit Unit} (path : String) : Keeps R action → Keeps R (atPath path action)

namespace Scopeless

variable {R : Emitter → Emitter → Prop} (hR : Scopeless R) {body : Emit Unit}
include hR

theorem keeps_onScopes {α : Type} (action : EStateM Error ScopeStack α) :
    Keeps R (onScopes action) := by
  intro e
  unfold after onScopes
  cases action.run e.scopes with
  | ok a scopes | error x scopes => exact hR.anyScopes e scopes

theorem keeps_routine (h : Keeps R body) (path : String → String → String) (name : String)
    (kind : Code.MethodKind) (count : Nat) : Keeps R (routine path name kind count body) := by
  apply hR.keeps_bind hR.keeps_get
  intro e
  apply hR.atPath
  apply hR.keeps_bind hR.keeps_get
  intro e'
  apply hR.keeps_bind (hR.keeps_onScopes _)
  intro _
  apply hR.keeps_ensuring _ fun e => hR.anyScopes e _
  apply hR.keeps_bind (hR.keeps_log rfl)
  intro _
  apply hR.keeps_bind (hR.keeps_op _)
  intro _
  apply hR.keeps_bind h
  intro _
  exact hR.keeps_bind (hR.keeps_logRoutine name count) fun _ => hR.keeps_op _

theorem keeps_container (h : Keeps R body) (name : String) : Keeps R (container name body) := by
  apply hR.keeps_bind hR.keeps_get
  intro e
  apply hR.keeps_ensuring _ fun e => hR.anyScopes e _
  apply hR.keeps_bind (fun e => hR.anyScopes e _)
  intro _
  apply hR.keeps_bind (hR.keeps_log rfl)
  intro _
  apply hR.keeps_bind hR.keeps_get
  intro e'
  apply hR.keeps_bind (hR.keeps_op _)
  exact fun _ => hR.keeps_bind h fun _ => hR.keeps_op _

theorem keeps_outline {p : Place} (o : Outline p) : Keeps R o.lower := by
  induction o with
  | nil => exact hR.keeps_pure ()
  | instr index i rest ih => exact hR.keeps_bind (hR.keeps_simple index i) fun _ => ih
  | routine _ path name kind count body rest ihBody ihRest =>
    exact hR.keeps_bind (hR.keeps_routine ihBody path name kind count) fun _ => ihRest
  | container name body rest ihBody ihRest =>
    exact hR.keeps_bind (hR.keeps_container ihBody name) fun _ => ihRest

end Scopeless

def SamePaths (e e' : Emitter) : Prop := e'.paths = e.paths

theorem stable_samePaths : Stable SamePaths where
  refl _ := rfl
  trans h h' := Eq.trans h' h
  code _ _ := rfl
  diagnosed _ _ := rfl
  events _ _ _ := rfl
  scopes _ _ _ := rfl

theorem samePaths_atPath {action : Emit Unit} (h : Keeps SamePaths action) (path : String) :
    Keeps SamePaths (atPath path action) := by
  -- In between the stack is one path longer, so this is not an instance of `keeps_ensuring`.
  intro e
  have hinner := h { e with paths := path :: e.paths }
  unfold after at hinner
  change ((ensuring action fun e' => { e' with paths := e'.paths.tail }).after
    { e with paths := path :: e.paths }).paths = e.paths
  unfold after ensuring
  cases haction : action { e with paths := path :: e.paths } with
  | ok a e₁ | error x e₁ =>
    rw [haction] at hinner
    exact congrArg List.tail hinner

theorem scopeless_samePaths : Scopeless SamePaths where
  toStable := stable_samePaths
  anyScopes _ _ := rfl
  atPath path h := samePaths_atPath h path

theorem samePaths_routine {body : Emit Unit} (h : Keeps SamePaths body)
    (path : String → String → String) (name : String) (kind : Code.MethodKind) (count : Nat) :
    Keeps SamePaths (routine path name kind count body) :=
  scopeless_samePaths.keeps_routine h path name kind count

theorem samePaths_container {body : Emit Unit} (h : Keeps SamePaths body) (name : String) :
    Keeps SamePaths (container name body) :=
  scopeless_samePaths.keeps_container h name

theorem samePaths_outline {p : Place} (o : Outline p) : Keeps SamePaths o.lower :=
  scopeless_samePaths.keeps_outline o

theorem samePaths_lowerFrom (index : Nat) (instrs : List Instruction) :
    Keeps SamePaths (lowerFrom index instrs) := by
  rw [← lower_streamOutline]
  exact samePaths_outline _

end Emit

end StackBackend
