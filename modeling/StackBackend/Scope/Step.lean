import StackBackend.Scope.Stack

/-!
# Runs of scope operations

A step is one operation on a stack of scopes; a guarded step opens a scope for the time of inner
steps. Running a step gives an answer and the stack after it. A run goes on after a failing step.
-/
namespace StackBackend.Scope

open Code (Slot Mark)

inductive Step where
  | enterContainer (name : String)
  | exitContainer (name : String)
  | enterRoutine (name : String)
  | exitRoutine (name : String)
  | slot (v : Variable)
  /-- The slots of `count` variables, whose names are the stem followed by 0, 1, 2 and so on. -/
  | slots (stem : String) (count : Nat)
  | field (name : String)
  | label (l : Label)
  | inContainer (name : String) (steps : List Step)
  | inRoutine (name : String) (steps : List Step)

inductive Answer where
  | done
  | slot (s : Slot)
  | mark (m : Mark)
  | declared (new : Bool)
  /-- The last of several slots, if any was asked for. -/
  | lastSlot (s : Option Slot)
  | failed (e : Error)
  | slotFailed (position : Nat) (e : Error)
  /-- The answers of inner steps, each with the stack after it. -/
  | inner (answers : List (Answer × ScopeStack))

def answer {σ α : Type} (report : α → Answer) : EStateM.Result Error σ α → Answer × σ
  | .ok a s => (report a, s)
  | .error e s => (.failed e, s)

def answerDone : EStateM.Result Error ScopeStack Unit → Answer × ScopeStack :=
  answer fun () => .done

def runSlots {σ : Type} (resolve : Variable → EStateM Error σ Slot) (stem : String)
    (position : Nat) (last : Option Slot) : Nat → σ → Answer × σ
  | 0, s => (.lastSlot last, s)
  | more + 1, s =>
    match (resolve ⟨stem ++ toString position⟩).run s with
    | .ok slot s => runSlots resolve stem (position + 1) (some slot) more s
    | .error e s => (.slotFailed position e, s)

mutual
def Step.run : Step → ScopeStack → Answer × ScopeStack
  | .enterContainer name, s => (.done, s.enterContainer name)
  | .exitContainer name, s => answerDone ((ScopeStack.exitContainer name).run s)
  | .enterRoutine name, s => answerDone ((ScopeStack.enterRoutine name).run s)
  | .exitRoutine name, s => answerDone ((ScopeStack.exitRoutine name).run s)
  | .slot v, s => answer .slot ((ScopeStack.slotFor v).run s)
  | .slots stem count, s => runSlots ScopeStack.slotFor stem 0 none count s
  | .field name, s => answer .declared ((ScopeStack.declareField name).run s)
  | .label l, s => answer .mark ((ScopeStack.markFor l).run s)
  | .inContainer name steps, s =>
    let (answers, s) := s.withContainer name (runAll steps)
    (.inner answers, s)
  | .inRoutine name steps, s => answer .inner ((ScopeStack.withRoutine name (runAll steps)).run s)

/-- Runs the steps in order. Each answer comes with the stack after its step. -/
def runAll : List Step → ScopeStack → List (Answer × ScopeStack) × ScopeStack
  | [], s => ([], s)
  | step :: rest, s =>
    let (first, s) := step.run s
    let (answers, t) := runAll rest s
    ((first, s) :: answers, t)
end

end StackBackend.Scope
