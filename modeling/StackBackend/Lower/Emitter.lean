import StackBackend.Program.Routines
import StackBackend.Scope.Stack
import StackBackend.Trace

/-!
# Emitting code

An emitter holds the open scopes and what has been put out so far. An operation of the emitter that
fails keeps what was put out before. Scopes and paths are opened for the time of an action and
closed after it, whether it succeeds or fails.
-/
namespace StackBackend

open Code (Op Slot Mark)

structure Emitter where
  scopes : ScopeStack
  code : Array Op
  diagnostics : Array Diagnostic
  source : String
  /-- The qualified paths of the routines that are being lowered, the innermost one first. -/
  paths : List String
  events : Array Event

namespace Emitter

def new (scopes : ScopeStack) : Emitter := ⟨scopes, #[], #[], "", [], #[]⟩

def log (e : Emitter) (event : Event) : Emitter := { e with events := e.events.push event }

def routinePath (e : Emitter) : String :=
  match e.paths, e.scopes.routine? with
  | path :: _, _ => path
  | [], some r => instancePath e.scopes.path r.name
  | [], none => "<none>"

end Emitter

abbrev Emit (α : Type) := EStateM Error Emitter α

namespace Emit

def op (op : Op) : Emit Unit := modify fun e => { e with code := e.code.push op }

def log (event : Event) : Emit Unit := modify (·.log event)

def onScopes {α : Type} (action : EStateM Error ScopeStack α) : Emit α := fun e =>
  match action.run e.scopes with
  | .ok a scopes => .ok a { e with scopes }
  | .error x scopes => .error x { e with scopes }

def slotFor (v : Variable) : Emit Slot := onScopes (ScopeStack.slotFor v)

def markFor (l : Label) : Emit Mark := onScopes (ScopeStack.markFor l)

def declareField (field : FieldRef) : Emit Unit := do
  if ← onScopes (ScopeStack.declareField field.name) then op (.declareField field.name)

def report (index : Nat) (instr : Instruction) (kind : DiagnosticKind) : Emit Unit := do
  let d : Diagnostic := ⟨kind, (← get).routinePath, index, instr.text⟩
  modify fun e => { e with diagnostics := e.diagnostics.push d }
  log (.diagnosed d)

/-- Runs an action, and a change of the emitter after it in either case. -/
def ensuring {α : Type} (action : Emit α) (change : Emitter → Emitter) : Emit α := fun e =>
  match action e with
  | .ok a e => .ok a (change e)
  | .error x e => .error x (change e)

def inContainer {α : Type} (name : String) (action : Emit α) : Emit α := do
  let depth := (← get).scopes.depth
  ensuring (do
      modify fun e => { e with scopes := e.scopes.enterContainer name }
      log (.enterContainer name)
      action)
    fun e => { e with scopes := e.scopes.unwindContainers depth }

def inRoutine {α : Type} (name : String) (action : Emit α) : Emit α := do
  let scopes := (← get).scopes
  onScopes (ScopeStack.enterRoutine name)
  ensuring (do
      log (.enterRoutine ((scopes.container?.map (·.name)).getD "") name)
      action)
    fun e => { e with scopes := e.scopes.unwindRoutines scopes.depth scopes.routineDepth }

def atPath {α : Type} (path : String) (action : Emit α) : Emit α := do
  modify fun e => { e with paths := path :: e.paths }
  ensuring action fun e => { e with paths := e.paths.tail }

end Emit

end StackBackend
