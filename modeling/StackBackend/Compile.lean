import StackBackend.Flow.Build
import StackBackend.Lower.Lowering
import StackBackend.Program.Routines

/-!
# Compiling a script

A script is analysed and lowered independently of each other: every routine gets its control-flow
graph, and the script as a whole becomes one list of operations, which is verified. A routine whose
graph cannot be built does not affect the others, and it is lowered all the same.
-/
namespace StackBackend

def version : String := "0.3.0"

inductive VerificationMode where
  | skip
  | warn
  | require
deriving DecidableEq, Repr

structure Options where
  buildGraphs : Bool := true
  verification : VerificationMode := .require
  firstLocalSlot : UInt16 := 0

structure RoutineGraph where
  path : String
  graph : Flow.Graph

/-- The graphs that could be built and the errors of the others, each in the order of the
routines. -/
structure Graphs where
  built : List RoutineGraph
  errors : List Error
  events : Array Event

namespace Graphs

def none : Graphs := ⟨[], [], #[]⟩

def cons (path : String) (outcome : Flow.Outcome) (rest : Graphs) : Graphs :=
  match outcome.graph with
  | .ok graph => ⟨⟨path, graph⟩ :: rest.built, rest.errors, outcome.events ++ rest.events⟩
  | .error e =>
    ⟨rest.built, e :: rest.errors, outcome.events.push (.graphFailed path e) ++ rest.events⟩

def ofRoutines (supply : Flow.Supply) : List Routine → Graphs
  | [] => none
  | r :: rest =>
    let outcome := Flow.buildMethod supply r.path r.method
    (ofRoutines outcome.supply rest).cons r.path outcome

end Graphs

def Script.buildGraphs (s : Script) : Graphs := .ofRoutines .fresh s.root.routines

structure Compilation where
  code : List Code.Op
  graphs : List RoutineGraph
  graphErrors : List Error
  diagnostics : List Diagnostic
  verification : Option Code.Report

/-- The graph of the first routine with this path that has one. -/
def Compilation.graphFor? (c : Compilation) (path : String) : Option Flow.Graph :=
  (c.graphs.find? (·.path = path)).map (·.graph)

def verifyCode (mode : VerificationMode) (code : List Code.Op) :
    Except Error (Option Code.Report) × List Event :=
  match mode with
  | .skip => (.ok none, [])
  | .warn =>
    let report := ({} : Code.Verifier).verify code
    (.ok (some report), report.warnings.map .verifierWarned ++
      report.errors.map .verifierFailed)
  | .require =>
    let report := ({} : Code.Verifier).verify code
    (if report.valid then .ok (some report)
      else .error (.verificationFailed ("; ".intercalate (report.errors.map (·.message)))),
     report.warnings.map .verifierWarned)

structure CompileOutcome where
  result : Except Error Compilation
  events : List Event

def Options.graphs (o : Options) (s : Script) : Graphs :=
  if o.buildGraphs then s.buildGraphs else .none

def compile (o : Options) (s : Script) : CompileOutcome :=
  let graphs := o.graphs s
  match s.lower.run (.new (.new o.firstLocalSlot)) with
  | .error e emitter => ⟨.error e, graphs.events.toList ++ emitter.events.toList⟩
  | .ok () emitter =>
    let code := emitter.code.toList
    let lowered := Event.scriptLowered s.fileName code.length emitter.diagnostics.size
    let (verification, verified) := verifyCode o.verification code
    { result := verification.map fun verification =>
        { code, graphs := graphs.built, graphErrors := graphs.errors,
          diagnostics := emitter.diagnostics.toList, verification }
      events := graphs.events.toList ++ emitter.events.toList ++ lowered :: verified }

theorem compile_ok {o : Options} {s : Script} {c : Compilation}
    (h : (compile o s).result = .ok c) :
    ∃ emitter verification,
      s.lower.run (.new (.new o.firstLocalSlot)) = .ok () emitter ∧
      (verifyCode o.verification emitter.code.toList).1 = .ok verification ∧
      c = ⟨emitter.code.toList, (o.graphs s).built, (o.graphs s).errors,
        emitter.diagnostics.toList, verification⟩ ∧
      (compile o s).events = (o.graphs s).events.toList ++ emitter.events.toList ++
        .scriptLowered s.fileName emitter.code.toList.length emitter.diagnostics.size ::
          (verifyCode o.verification emitter.code.toList).2 := by
  unfold compile at h ⊢
  cases hlower : s.lower.run (.new (.new o.firstLocalSlot)) with
  | error e emitter =>
    rw [hlower] at h
    cases h
  | ok _ emitter =>
    rw [hlower] at h
    dsimp only at h
    cases hverified : (verifyCode o.verification emitter.code.toList).1 with
    | error e =>
      rw [hverified] at h
      cases h
    | ok verification =>
      rw [hverified] at h
      cases h
      exact ⟨emitter, verification, rfl, hverified, rfl, rfl⟩

end StackBackend
