import StackBackend.Proofs.Flow.Numbering
import StackBackend.Proofs.Lower.Faithful
import StackBackend.Proofs.Lower.Keeping

/-!
# The log of a compilation

Every problem that a compilation finds is in its result and in its log, once in each of them and in
the same order: the graphs that could not be built, what lowering leaves out, and the errors of the
verifier. A build traces its blocks, and a failure is logged when the build has come back. An emitter
logs a diagnostic when it puts it out, and nothing else as a problem, however deep the routines and
the containers are nested. The verifier has nothing to warn of in lowered code.
-/
namespace StackBackend

def problemsIn (events : List Event) : List Event := events.filter Event.isProblem

theorem problemsIn_append (events more : List Event) :
    problemsIn (events ++ more) = problemsIn events ++ problemsIn more :=
  List.filter_append ..

theorem problemsIn_push {events : Array Event} {x : Event} (hx : x.isProblem = false) :
    problemsIn (events.push x).toList = problemsIn events.toList := by
  rw [Array.toList_push, problemsIn_append]
  simp [problemsIn, hx]

theorem problemsIn_map {α : Type} {f : α → Event} (hf : ∀ a, (f a).isProblem = true) (l : List α) :
    problemsIn (l.map f) = l.map f := by
  rw [problemsIn, List.filter_eq_self]
  intro x hx
  obtain ⟨a, -, rfl⟩ := List.mem_map.1 hx
  exact hf a

namespace Flow

variable {w w' : Walk} {i : Instruction}

theorem Walk.events_fallThrough (w : Walk) (target : Nat) :
    (w.fallThrough target).events = w.events := by
  unfold fallThrough
  split <;> rfl

theorem Walk.events_append (w : Walk) (i : Instruction) : (w.append i).events = w.events := by
  unfold append leadTo
  dsimp only
  (repeat' split) <;> rfl

theorem Walk.problems_step (h : (step i).run w = .ok () w') :
    problemsIn w'.events.toList = problemsIn w.events.toList := by
  have htraced : ∀ e : Event, e.level = .trace → e.isProblem = false := by
    intro e he
    rw [Event.isProblem, he]
    rfl
  rcases Walk.step_cases h with ⟨l, e, -, he, -, rfl⟩ | ⟨-, -, rfl⟩ | ⟨-, -, b, s, e, -, he, rfl⟩
  · rw [log, problemsIn_push (htraced e he), resolve, startBlock]
    dsimp only
    rw [events_fallThrough]
  · rw [events_append]
  · rw [events_append, log, problemsIn_push (htraced e he), startBlock]
    dsimp only
    rw [events_fallThrough]

theorem Walk.problems_run (w : Walk) (instrs : List Instruction) :
    problemsIn (w.run instrs).1.events.toList = problemsIn w.events.toList := by
  induction instrs generalizing w with
  | nil => rfl
  | cons i rest ih =>
    rw [run]
    cases hstep : (step i).run w with
    | error x w' => rw [atomic_step i _ _ _ hstep]
    | ok _ w' => rw [ih, problems_step hstep]

theorem Walk.problems_finish (w : Walk) :
    problemsIn w.finish.1.events.toList = problemsIn w.events.toList := by
  unfold finish
  dsimp only
  split
  · rw [log, problemsIn_push rfl, events_fallThrough]
  · rw [events_fallThrough]

theorem problems_build (supply : Supply) (routine : String) (instrs : List Instruction) :
    problemsIn (build supply routine instrs).events.toList = [] := by
  unfold build
  dsimp only
  cases Supply.labelledBlock.run (supply.skipPast (streamLabels instrs)) with
  | error x supply => rfl
  | ok entry supply =>
    dsimp only
    cases Supply.labelledBlock.run supply with
    | error x supply => rfl
    | ok exit supply =>
      dsimp only
      have hrun := (Walk.start routine entry exit supply).problems_run instrs
      cases hresult : (Walk.start routine entry exit supply).run instrs with
      | mk w result =>
        rw [hresult] at hrun
        cases result with
        | error x => exact hrun
        | ok => exact w.problems_finish.trans hrun

end Flow

structure GraphFailure where
  path : String
  error : Error

def Routine.graphFailure? (r : Routine) : Option GraphFailure :=
  match r.graphAlone with
  | .ok _ => none
  | .error e => some ⟨r.path, e⟩

/-- The routines of which a compilation has no graph although it should, in order. -/
def Options.graphFailures (o : Options) (s : Script) : List GraphFailure :=
  if o.buildGraphs then s.root.routines.filterMap Routine.graphFailure? else []

def GraphFailure.event (f : GraphFailure) : Event := .graphFailed f.path f.error

theorem Graphs.failures_ofRoutines (supply : Flow.Supply) (h : 1 ≤ supply.nextBlock)
    (rs : List Routine) :
    (ofRoutines supply rs).errors = (rs.filterMap Routine.graphFailure?).map (·.error) ∧
      problemsIn (ofRoutines supply rs).events.toList =
        (rs.filterMap Routine.graphFailure?).map GraphFailure.event := by
  induction rs generalizing supply with
  | nil => exact ⟨rfl, rfl⟩
  | cons r rest ih =>
    have hle := (Flow.buildMethod_counts supply r.path r.method).1
    have hshift := Flow.buildMethod_eq_shift h r.path r.method
    have hquiet : problemsIn (Flow.buildMethod supply r.path r.method).events.toList = [] :=
      Flow.problems_build _ r.path r.method.instrs
    obtain ⟨herrors, hproblems⟩ := ih _ (Nat.le_trans h hle)
    rw [ofRoutines, cons, hshift, List.filterMap_cons, Routine.graphFailure?, Routine.graphAlone]
    cases (Flow.buildMethod .fresh r.path r.method).graph with
    | ok alone =>
      refine ⟨herrors, ?_⟩
      dsimp only [Except.map]
      rw [Array.toList_append, problemsIn_append, hquiet, hproblems]
      rfl
    | error x =>
      refine ⟨congrArg (x :: ·) herrors, ?_⟩
      dsimp only [Except.map]
      rw [Array.toList_append, Array.toList_push, problemsIn_append, problemsIn_append, hquiet,
        hproblems]
      rfl

theorem Options.failures_graphs (o : Options) (s : Script) :
    (o.graphs s).errors = (o.graphFailures s).map (·.error) ∧
      problemsIn (o.graphs s).events.toList = (o.graphFailures s).map GraphFailure.event := by
  rw [graphs, graphFailures]
  split
  · exact Graphs.failures_ofRoutines .fresh (Nat.le_refl 1) s.root.routines
  · exact ⟨rfl, rfl⟩

def Emitter.LogsDiagnostics (e : Emitter) : Prop :=
  problemsIn e.events.toList = e.diagnostics.toList.map .diagnosed

theorem Emitter.LogsDiagnostics.log {e : Emitter} (h : e.LogsDiagnostics) {x : Event}
    (hx : x.isProblem = false) : (e.log x).LogsDiagnostics :=
  (problemsIn_push hx).trans h

theorem Emitter.LogsDiagnostics.diagnosed {e : Emitter} (h : e.LogsDiagnostics) (d : Diagnostic) :
    ({ e with diagnostics := e.diagnostics.push d }.log (.diagnosed d)).LogsDiagnostics := by
  have hlogged : problemsIn [.diagnosed d] = [.diagnosed d] := rfl
  rw [LogsDiagnostics] at h ⊢
  rw [Emitter.log, Array.toList_push, Array.toList_push, problemsIn_append, h, hlogged,
    List.map_append, List.map_singleton]

namespace Emit

def KeepsLog (e e' : Emitter) : Prop := e.LogsDiagnostics → e'.LogsDiagnostics

theorem stable_keepsLog : Stable KeepsLog where
  refl _ := id
  trans h h' := h' ∘ h
  code _ _ := id
  diagnosed _ d h := h.diagnosed d
  events _ _ hx h := h.log hx
  scopes _ _ _ := id

theorem scopeless_keepsLog : Scopeless KeepsLog where
  toStable := stable_keepsLog
  anyScopes _ _ := id
  atPath path h := stable_keepsLog.keeps_atPath h (fun _ _ => id) path

end Emit

theorem Script.logs_lower {s : Script} {firstSlot : UInt16} {e : Emitter}
    (h : s.lower.run (.new (.new firstSlot)) = .ok () e) : e.LogsDiagnostics := by
  rw [lower_apply] at h
  exact (Emit.scopeless_keepsLog.keeps_outline s.outline).of_ok h rfl

/-- The errors that the verifier finds in code and that do not stop the compilation. -/
def VerificationMode.tolerated (mode : VerificationMode) (code : List Code.Op) :
    List Code.VerifyError :=
  match mode with
  | .warn => (({} : Code.Verifier).verify code).errors
  | .skip | .require => []

theorem problems_verifyCode {code : List Code.Op}
    (hquiet : (({} : Code.Verifier).verify code).warnings = []) (mode : VerificationMode) :
    problemsIn (verifyCode mode code).2 = (mode.tolerated code).map .verifierFailed := by
  cases mode with
  | skip => rfl
  | warn =>
    rw [verifyCode, hquiet]
    exact problemsIn_map (fun _ => rfl) _
  | require =>
    rw [verifyCode, hquiet]
    rfl

theorem verifyCode_ok {mode : VerificationMode} {code : List Code.Op}
    {verification : Option Code.Report} (h : (verifyCode mode code).1 = .ok verification) :
    verification = if mode = .skip then none else some (({} : Code.Verifier).verify code) := by
  cases mode with
  | skip | warn =>
    cases h
    rfl
  | require =>
    rw [verifyCode] at h
    dsimp only at h
    split at h
    · cases h
      rfl
    · cases h

/-- What a compilation that succeeds logs as problems: one for each graph that could not be built,
then one for each diagnostic, then one for each error of the verifier unless it stops the
compilation or is skipped, and nothing else. -/
theorem compile_logs_problems {o : Options} {s : Script} {c : Compilation}
    (h : (compile o s).result = .ok c) :
    c.graphErrors = (o.graphFailures s).map (·.error) ∧
      c.verification =
        (if o.verification = .skip then none else some (({} : Code.Verifier).verify c.code)) ∧
      (compile o s).events.filter (·.level = .warn) =
        (o.graphFailures s).map GraphFailure.event ++ c.diagnostics.map .diagnosed ++
          (o.verification.tolerated c.code).map .verifierFailed ∧
      ((compile o s).events.filter (·.level = .warn)).map (fun x => (x.message, x.fields)) =
        (o.graphFailures s).map
            (fun f => ("CFG not built: " ++ f.error.message, [("routine", f.path)])) ++
          c.diagnostics.map (fun d => (d.text, [])) ++
          (o.verification.tolerated c.code).map
            (fun e => ("verification: " ++ e.message, [])) := by
  obtain ⟨e, verification, hlower, hverified, rfl, hevents⟩ := compile_ok h
  obtain ⟨herrors, hgraphs⟩ := o.failures_graphs s
  have hlowered : ∀ events, problemsIn (.scriptLowered s.fileName e.code.toList.length
      e.diagnostics.size :: events) = problemsIn events := fun _ => rfl
  have hlog : problemsIn (compile o s).events =
      (o.graphFailures s).map GraphFailure.event ++ e.diagnostics.toList.map .diagnosed ++
        (o.verification.tolerated e.code.toList).map .verifierFailed := by
    rw [hevents, problemsIn_append, problemsIn_append, hgraphs, Script.logs_lower hlower, hlowered,
      problems_verifyCode (Script.warnings_lower hlower {})]
  refine ⟨herrors, verifyCode_ok hverified, hlog, ?_⟩
  have htext := congrArg (List.map fun x : Event => (x.message, x.fields)) hlog
  rw [List.map_append, List.map_append, List.map_map, List.map_map, List.map_map] at htext
  exact htext

/-- A break without code, and a jump to a label that is placed nowhere. -/
def strayJump : Script := ⟨"main", ⟨"Main", [.leave none], [⟨"run", [.jump ⟨7⟩]⟩], []⟩⟩

theorem compile_logs_problems_stray :
    ∃ c, (compile { verification := .warn } strayJump).result = .ok c ∧
      (compile { verification := .warn } strayJump).events.filter (·.level = .warn) =
        [.graphFailed "Main#run" (.unresolvedLabels "Main#run" ["L7"]),
          .diagnosed ⟨.unsupportedInstruction .leave, "Main#__class__", 0, "break"⟩,
          .verifierFailed (.undefinedMark "run" ⟨0⟩)] := by
  have hfacts : (compile { verification := .warn } strayJump).result.toOption.map
      (fun c => (c.diagnostics, c.code)) =
      some ([⟨.unsupportedInstruction .leave, "Main#__class__", 0, "break"⟩],
        [.beginClass "Main" "main", .beginMethod "__class__" .onClass, .endMethod,
          .beginMethod "run" .onInstance, .goto ⟨0⟩, .endMethod, .endClass]) := by
    cbv
  have hfailures : Options.graphFailures { verification := .warn } strayJump =
      [⟨"Main#run", .unresolvedLabels "Main#run" ["L7"]⟩] := by
    cbv
  obtain ⟨c, hresult, hc⟩ := Flow.exists_of_toOption hfacts
  obtain ⟨hdiagnostics, hcode⟩ := Prod.mk.inj hc
  obtain ⟨-, -, hlog, -⟩ := compile_logs_problems hresult
  rw [hdiagnostics, hcode, hfailures] at hlog
  refine ⟨c, hresult, hlog.trans ?_⟩
  cbv

end StackBackend
