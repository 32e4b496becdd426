import StackBackend.Ascending
import StackBackend.Scope.Routine

/-!
# The stack of scopes

Classes nest, and while a class is lowered its routines nest: a container scope holds the routine
scopes that are open in it. Resolving a variable or a label, or declaring a field, concerns the
innermost scope. An operation can fail, and has a stack in either case.

A scope can also be opened for the time of some steps. When they are over, everything is closed that
was opened since, and then the scope itself, whatever the steps left open.
-/
namespace StackBackend

open Code (Slot Mark)

structure ContainerScope where
  name : String
  /-- The declared fields, the last one first. -/
  fields : List String
  /-- The open routines, the innermost one first. -/
  routines : List RoutineScope

namespace ContainerScope

def new (name : String) : ContainerScope := ⟨name, [], []⟩

def declareField (c : ContainerScope) (field : String) : Bool × ContainerScope :=
  if field ∈ c.fields then (false, c) else (true, { c with fields := field :: c.fields })

theorem declareField_eq (c : ContainerScope) (field : String) :
    (c.declareField field).2 = { c with fields := (c.declareField field).2.fields } := by
  unfold declareField
  split <;> rfl

def declaredFields (c : ContainerScope) : List String := ascending c.fields

def routine? (c : ContainerScope) : Option RoutineScope := c.routines.head?

end ContainerScope

structure ScopeStack where
  /-- The open containers, the innermost one first. -/
  containers : List ContainerScope
  firstSlot : UInt16

namespace ScopeStack

def new (firstSlot : UInt16) : ScopeStack := ⟨[], firstSlot⟩

def container? (s : ScopeStack) : Option ContainerScope := s.containers.head?

def routine? (s : ScopeStack) : Option RoutineScope := s.container?.bind (·.routine?)

def path (s : ScopeStack) : String :=
  "::".intercalate (s.containers.reverse.map (·.name))

def depth (s : ScopeStack) : Nat := s.containers.length

def isEmpty (s : ScopeStack) : Bool := s.containers.isEmpty

def enterContainer (s : ScopeStack) (name : String) : ScopeStack :=
  { s with containers := .new name :: s.containers }

def exitContainer (name : String) : EStateM Error ScopeStack Unit := do
  match (← get).containers with
  | [] => throw .noActiveContainer
  | c :: outer =>
    if let some r := c.routine? then throw (.scopeMismatch name r.name)
    if c.name ≠ name then throw (.scopeMismatch name c.name)
    modify fun s => { s with containers := outer }

def enterRoutine (name : String) : EStateM Error ScopeStack Unit := do
  let firstSlot := (← get).firstSlot
  match (← get).containers with
  | [] => throw .noActiveContainer
  | c :: outer =>
    let c := { c with routines := .new name firstSlot :: c.routines }
    modify fun s => { s with containers := c :: outer }

def exitRoutine (name : String) : EStateM Error ScopeStack Unit := do
  match (← get).containers with
  | [] => throw .noActiveContainer
  | c :: outer =>
    match c.routines with
    | [] => throw (.noActiveRoutine "exit_routine")
    | r :: routines =>
      if r.name ≠ name then throw (.scopeMismatch name r.name)
      modify fun s => { s with containers := { c with routines } :: outer }

def onRoutine {α : Type} (operation : String) (action : EStateM Error RoutineScope α) :
    EStateM Error ScopeStack α := fun s =>
  match s.containers with
  | c :: outer =>
    match c.routines with
    | r :: routines =>
      let withInnermost r := { s with containers := { c with routines := r :: routines } :: outer }
      match action.run r with
      | .ok a r => .ok a (withInnermost r)
      | .error e r => .error e (withInnermost r)
    | [] => .error (.noActiveRoutine operation) s
  | [] => .error (.noActiveRoutine operation) s

def slotFor (v : Variable) : EStateM Error ScopeStack Slot :=
  onRoutine "slot_for" (RoutineScope.slotFor v)

def markFor (l : Label) : EStateM Error ScopeStack Mark :=
  onRoutine "target_label_for" (RoutineScope.markFor l)

def declareField (field : String) : EStateM Error ScopeStack Bool := do
  match (← get).containers with
  | [] => throw .noActiveContainer
  | c :: outer =>
    let (new, c) := c.declareField field
    modify fun s => { s with containers := c :: outer }
    return new

def keepOutermost {α : Type} (n : Nat) (scopes : List α) : List α := scopes.drop (scopes.length - n)

theorem length_keepOutermost {α : Type} (n : Nat) (scopes : List α) :
    (keepOutermost n scopes).length = min n scopes.length := by
  rw [keepOutermost, List.length_drop]
  omega

theorem keepOutermost_append_of_le {α : Type} {n : Nat} (inner : List α) {scopes : List α}
    (h : scopes.length ≤ n) :
    keepOutermost n (inner ++ scopes) = keepOutermost (n - scopes.length) inner ++ scopes := by
  rw [keepOutermost, List.length_append, List.drop_append_of_le_length (by omega), keepOutermost]
  congr 2
  omega

@[simp]
theorem keepOutermost_append {α : Type} (inner scopes : List α) :
    keepOutermost scopes.length (inner ++ scopes) = scopes := by
  simp [keepOutermost]

theorem suffix_keepOutermost {α : Type} (n : Nat) (scopes : List α) :
    keepOutermost n scopes <:+ scopes :=
  List.drop_suffix _ scopes

def unwindContainers (s : ScopeStack) (n : Nat) : ScopeStack :=
  { s with containers := keepOutermost n s.containers }

/-- Closes all containers but the outermost `n` and, if there are so many, all routines of the
innermost of these but the outermost `m`. -/
def unwindRoutines (s : ScopeStack) (n m : Nat) : ScopeStack :=
  match (s.unwindContainers n).containers with
  | [] => s.unwindContainers n
  | c :: outer =>
    if (c :: outer).length < n then s.unwindContainers n
    else { s with containers := { c with routines := keepOutermost m c.routines } :: outer }

def withContainer {α : Type} (s : ScopeStack) (name : String)
    (steps : ScopeStack → α × ScopeStack) : α × ScopeStack :=
  let (a, t) := steps (s.enterContainer name)
  (a, t.unwindContainers s.depth)

def routineDepth (s : ScopeStack) : Nat := (s.container?.map (·.routines.length)).getD 0

def withRoutine {α : Type} (name : String) (steps : ScopeStack → α × ScopeStack) :
    EStateM Error ScopeStack α := do
  let before ← get
  enterRoutine name
  let a ← modifyGet steps
  modify fun s => s.unwindRoutines before.depth before.routineDepth
  return a

theorem run_withRoutine {α : Type} (s : ScopeStack) (name : String)
    (steps : ScopeStack → α × ScopeStack) :
    (withRoutine name steps).run s =
      match (enterRoutine name).run s with
      | .ok () inside =>
        .ok (steps inside).1 ((steps inside).2.unwindRoutines s.depth s.routineDepth)
      | .error e t => .error e t := by
  simp only [withRoutine, EStateM.run_bind, EStateM.run_get]
  cases (enterRoutine name).run s <;> rfl

end ScopeStack

end StackBackend
