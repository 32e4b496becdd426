import StackBackend.Proofs.Lower.Listing
import StackBackend.Proofs.Lower.Visits

/-!
# Diagnostics of lowering

What lowering reports is told from the visits of a script, one after the other: an instruction
without code, or else each of its operands without a value. The path in a report is that of the
innermost routine, on top of the stack of paths. An action that succeeds keeps this stack and adds
its reports to those there were, so actions that follow each other are put together by
`reports_bind`.
-/
namespace StackBackend

open Code (Op Slot Mark)

def Instruction.isSupported : Instruction → Bool
  | .dispatch _ | .leave _ => false
  | _ => true

def Operand.problems (o : Operand) : List DiagnosticKind :=
  if o.hasValue then [] else [.unsupportedOperand o.kindName]

def Instruction.problems (i : Instruction) : List DiagnosticKind :=
  if i.isSupported then i.evaluated.flatMap Operand.problems else [.unsupportedInstruction i.kind]

def Instruction.diagnosed (i : Instruction) (path : String) (index : Nat)
    (problems : List DiagnosticKind) : List Diagnostic :=
  problems.map fun kind => ⟨kind, path, index, i.text⟩

def Visit.diagnostics (v : Visit) : List Diagnostic :=
  v.instr.diagnosed v.routine.path v.index v.instr.problems

namespace Emit

/-- The action reports `ds` whenever it succeeds in the routine with this path. -/
def Reports {α : Type} (path : String) (ds : List Diagnostic) (action : Emit α) : Prop :=
  ∀ (e e' : Emitter) (a : α), action e = .ok a e' → e.paths.head? = some path →
    e'.paths = e.paths ∧ e'.diagnostics.toList = e.diagnostics.toList ++ ds

variable {α β : Type} {path : String} {ds ds' : List Diagnostic}

theorem Reports.of_eq {action : Emit α} (h : Reports path ds action) (hds : ds = ds') :
    Reports path ds' action :=
  hds ▸ h

theorem reports_bind {action : Emit α} {next : α → Emit β} (h : Reports path ds action)
    (hnext : ∀ a, Reports path ds' (next a)) : Reports path (ds ++ ds') (action >>= next) := by
  intro e e'' b hrun he
  obtain ⟨a, e', h₁, h₂⟩ := bind_ok hrun
  obtain ⟨hpaths, hadded⟩ := h e e' a h₁ he
  obtain ⟨hpaths', hadded'⟩ := hnext a e' e'' b h₂ (hpaths ▸ he)
  exact ⟨hpaths'.trans hpaths, by rw [hadded', hadded, List.append_assoc]⟩

theorem reports_pure (a : α) : Reports path [] (pure a : Emit α) := by
  intro e e' b hrun _
  cases hrun
  exact ⟨rfl, by simp⟩

theorem reports_op (o : Op) : Reports path [] (op o) := by
  intro e e' a hrun _
  cases hrun
  exact ⟨rfl, by simp⟩

theorem reports_log (event : Event) : Reports path [] (log event) := by
  intro e e' a hrun _
  cases hrun
  exact ⟨rfl, by simp [Emitter.log]⟩

theorem reports_onScopes (action : EStateM Error ScopeStack α) :
    Reports path [] (onScopes action) := by
  intro e e' a hrun _
  unfold onScopes at hrun
  split at hrun
  · cases hrun
    exact ⟨rfl, by simp⟩
  · cases hrun

theorem reports_report (index : Nat) (i : Instruction) (kind : DiagnosticKind) :
    Reports path (i.diagnosed path index [kind]) (report index i kind) := by
  intro e e' a hrun he
  have hpath : e.routinePath = path := by
    obtain ⟨scopes, code, diagnostics, source, paths, events⟩ := e
    cases paths with
    | nil => cases he
    | cons top outer =>
      cases he
      rfl
  cases hrun
  exact ⟨rfl, by simp [Emitter.log, hpath, Instruction.diagnosed]⟩

theorem reports_operand (index : Nat) (i : Instruction) (o : Operand) :
    Reports path (i.diagnosed path index o.problems) (operand index i o) := by
  match o with
  | .constant _ => exact reports_op _
  | .variable v => exact reports_bind (reports_onScopes _) fun _ => reports_op _
  | .field _ | .label _ => exact reports_report index i _

theorem reports_operands (index : Nat) (i : Instruction) (os : List Operand) :
    Reports path (i.diagnosed path index (os.flatMap Operand.problems)) (operands index i os) := by
  induction os with
  | nil => exact reports_pure ()
  | cons o rest ih =>
    rw [List.flatMap_cons, Instruction.diagnosed, List.map_append]
    exact reports_bind (reports_operand index i o) fun _ => ih

theorem reports_storeResult (result : Option Variable) : Reports path [] (storeResult result) := by
  cases result with
  | none => exact reports_op _
  | some v => exact reports_bind (reports_onScopes _) fun _ => reports_op _

theorem reports_declareField (field : FieldRef) : Reports path [] (declareField field) := by
  apply reports_bind (reports_onScopes _)
  intro new
  cases new with
  | false => exact reports_pure ()
  | true => exact reports_op _

theorem reports_simple (index : Nat) (i : Instruction) :
    Reports path (i.diagnosed path index i.problems) (simple index i) := by
  have hoperand : ∀ o, Reports path (i.diagnosed path index o.problems) (operand index i o) :=
    reports_operand index i
  cases i with
  | label l | jump l => exact reports_bind (reports_onScopes _) fun _ => reports_op _
  | branch lhs rhs target =>
    apply Reports.of_eq
    · apply reports_bind (hoperand lhs)
      intro _
      apply reports_bind (hoperand rhs)
      exact fun _ => reports_bind (reports_onScopes _) fun _ => reports_op _
    · simp [Instruction.problems, Instruction.isSupported, Instruction.evaluated,
        Instruction.diagnosed]
  | copy result source =>
    apply Reports.of_eq
    · apply reports_bind (reports_onScopes _)
      exact fun _ => reports_bind (hoperand source) fun _ => reports_op _
    · simp [Instruction.problems, Instruction.isSupported, Instruction.evaluated]
  | call result method args =>
    apply Reports.of_eq
    · apply reports_bind (reports_operands index _ args)
      exact fun _ => reports_bind (reports_op _) fun _ => reports_storeResult result
    · simp [Instruction.problems, Instruction.isSupported, Instruction.evaluated]
  | getField result receiver field =>
    apply Reports.of_eq
    · apply reports_bind (reports_declareField field)
      intro _
      apply reports_bind (hoperand receiver)
      intro _
      apply reports_bind (reports_op _)
      exact fun _ => reports_bind (reports_onScopes _) fun _ => reports_op _
    · simp [Instruction.problems, Instruction.isSupported, Instruction.evaluated]
  | putField receiver field value =>
    apply Reports.of_eq
    · apply reports_bind (reports_declareField field)
      intro _
      apply reports_bind (hoperand receiver)
      exact fun _ => reports_bind (hoperand value) fun _ => reports_op _
    · simp [Instruction.problems, Instruction.isSupported, Instruction.evaluated,
        Instruction.diagnosed]
  | ret value =>
    apply Reports.of_eq
    · exact reports_bind (hoperand value) fun _ => reports_op _
    · simp [Instruction.problems, Instruction.isSupported, Instruction.evaluated]
  | receiveArg result position =>
    exact reports_bind (reports_onScopes _) fun _ => reports_log _
  | dispatch _ | leave _ => exact reports_report index _ _
  | defineInstanceMethod _ | defineClassMethod _ | defineClass _ => exact reports_pure ()

end Emit

/-- What is reported of an outline that stands in the class with the path `owner` and, if it stands
in a routine, in the one with this path. -/
def Outline.diagnostics {p : Place} (owner path : String) : Outline p → List Diagnostic
  | .nil => []
  | .instr index i rest => i.diagnosed path index i.problems ++ rest.diagnostics owner path
  | .routine _ named name _ _ body rest =>
    body.diagnostics owner (named owner name) ++ rest.diagnostics owner path
  | .container name body rest =>
    body.diagnostics (nestedPath owner name) path ++ rest.diagnostics owner path

mutual
theorem Instruction.diagnostics_outline (owner : String) (r : Routine) (index : Nat)
    (rest : Outline .inMethod) (i : Instruction) :
    (i.outline index rest).diagnostics owner r.path =
      (⟨r, index, i⟩ :: i.visitsIn owner).flatMap Visit.diagnostics ++
        rest.diagnostics owner r.path := by
  cases i with
  | defineInstanceMethod m => exact m.diagnostics_outline owner _ _ _ _ rest
  | defineClassMethod m => exact m.diagnostics_outline owner _ _ _ _ rest
  | defineClass c =>
    rw [Instruction.outline, c.outline_eq, Outline.diagnostics, c.diagnostics_contents]
    rfl
  | _ => exact congrArg (· ++ _) (List.append_nil _).symm

theorem diagnostics_streamOutline (owner : String) (r : Routine) (index : Nat)
    (instrs : List Instruction) :
    (streamOutline index instrs).diagnostics owner r.path =
      (streamVisits owner r index instrs).flatMap Visit.diagnostics := by
  cases instrs with
  | nil => rfl
  | cons i rest =>
    rw [streamOutline, i.diagnostics_outline, diagnostics_streamOutline owner r (index + 1) rest,
      streamVisits, List.flatMap_append]

theorem Method.diagnostics_outline {p : Place} (owner around : String) (placed : p ≠ .outside)
    (path : String → String → String) (kind : Code.MethodKind) (rest : Outline p) (m : Method) :
    (m.outline placed path kind rest).diagnostics owner around =
      (m.visitsAt owner (path owner m.name)).flatMap Visit.diagnostics ++
        rest.diagnostics owner around := by
  obtain ⟨name, instrs⟩ := m
  have hbody := diagnostics_streamOutline owner ⟨path owner name, ⟨name, instrs⟩⟩ 0 instrs
  rw [Method.outline, Outline.diagnostics, hbody, Method.visitsAt]

theorem Class.diagnostics_contents (path around : String) (c : Class) :
    c.contents.diagnostics path around = (c.visitsAt path).flatMap Visit.diagnostics := by
  obtain ⟨name, instrs, methods, classes⟩ := c
  have hbody := diagnostics_streamOutline path
    ⟨instancePath path classBodyName, ⟨classBodyName, instrs⟩⟩ 0 instrs
  rw [Class.contents, Outline.diagnostics, hbody, diagnostics_methodsOutline _ _ _ methods,
    diagnostics_classesOutline _ _ classes, Class.visitsAt, List.flatMap_append,
    List.flatMap_append, List.append_assoc]

theorem diagnostics_methodsOutline (owner around : String) (rest : Outline .inClass)
    (methods : List Method) :
    (methodsOutline rest methods).diagnostics owner around =
      (methodVisits owner methods).flatMap Visit.diagnostics ++ rest.diagnostics owner around := by
  cases methods with
  | nil => rfl
  | cons m ms =>
    rw [methodsOutline, m.diagnostics_outline, diagnostics_methodsOutline owner around rest ms,
      methodVisits, List.flatMap_append, List.append_assoc]

theorem diagnostics_classesOutline (owner around : String) (classes : List Class) :
    (classesOutline classes).diagnostics owner around =
      (classVisits owner classes).flatMap Visit.diagnostics := by
  cases classes with
  | nil => rfl
  | cons c cs =>
    rw [classesOutline, c.outline_eq, Outline.diagnostics, c.diagnostics_contents,
      diagnostics_classesOutline owner around cs, classVisits, List.flatMap_append]
end

open Emit

theorem Emit.diagnostics_endRoutine {name : String} {count : Nat} {e e' : Emitter}
    (h : (do logRoutine name count; op .endMethod : Emit Unit).run e = .ok () e') :
    e'.diagnostics = e.diagnostics := by
  obtain ⟨_, e₁, hlog, hend⟩ := bind_ok h
  cases hend
  rcases logRoutine_eq hlog with rfl | ⟨x, rfl⟩ <;> rfl

theorem Outline.Runs.reports {p : Place} {o : Outline p} {e e' : Emitter} {ts : List Stretch}
    (h : o.Runs e ts e') (hopen : e.scopes.containers ≠ []) (path : String)
    (hpath : p = .inMethod → e.paths.head? = some path) :
    e'.diagnostics.toList = e.diagnostics.toList ++ o.diagnostics e.scopes.path path := by
  induction h generalizing path with
  | nil => simp [diagnostics]
  | @instr index i _ e e₁ _ _ first _ ih =>
    have hfirst := within_simple first
    obtain ⟨hpaths, hadded⟩ := reports_simple index i e e₁ () first (hpath rfl)
    rw [ih (hfirst.opened hopen) path (hpaths ▸ hpath), hadded, hfirst.path, diagnostics,
      List.append_assoc]
  | @routine _ placed named name kind count _ _ scopes e stop e₁ _ _ _ entered stream ended _
      ihBody ihRest =>
    have hfirst := within_routine entered stream ended
    -- The path of the routine is on top while its body is lowered, and gone when it is closed.
    have hinner := ihBody (ScopeStack.containers_enterRoutine entered) (named e.scopes.path name)
      fun _ => rfl
    have hrest := ihRest (hfirst.opened hopen) path (hfirst.continues.paths ▸ hpath)
    have hended : e₁.diagnostics = stop.diagnostics := diagnostics_endRoutine ended
    have hclosed : (e₁.closeRoutine e).diagnostics = stop.diagnostics := hended
    rw [Emitter.openRoutine, ScopeStack.path_enterRoutine entered] at hinner
    rw [hrest, hclosed, hinner, hfirst.path, diagnostics, List.append_assoc]
  | @container _ name _ _ e stop _ _ _ contents _ ihBody ihRest =>
    have hfirst := within_container contents
    have hinside : (e.openContainer name).scopes.path = nestedPath e.scopes.path name :=
      ScopeStack.path_enterContainer hopen name
    have hinner := ihBody (List.cons_ne_nil _ _) path (by simp)
    have hrest := ihRest (hfirst.opened hopen) path (hfirst.continues.paths ▸ hpath)
    have hclosed : (stop.closeContainer e).diagnostics = stop.diagnostics := rfl
    rw [hinside] at hinner
    rw [hrest, hclosed, hinner, hfirst.path, diagnostics, ← List.append_assoc]
    rfl

theorem Script.diagnostics_lower {s : Script} {firstSlot : UInt16} {e : Emitter}
    (h : s.lower.run (.new (.new firstSlot)) = .ok () e) :
    e.diagnostics.toList = s.visits.flatMap Visit.diagnostics := by
  obtain ⟨ts, stop, contents, rfl⟩ := exists_runs h
  have hreported := contents.reports (List.cons_ne_nil _ _) "" (by simp)
  rw [s.path_start, s.root.diagnostics_contents] at hreported
  exact hreported

end StackBackend
