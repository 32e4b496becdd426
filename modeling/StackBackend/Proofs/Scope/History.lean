import StackBackend.Proofs.Scope.FirstReferences
import StackBackend.Proofs.Scope.Operations
import StackBackend.Scope.Step

/-!
# Histories of a stack of scopes

Whatever is done to a stack of scopes is a series of changes: a scope is opened or closed, a name is
resolved in the innermost routine, a field is declared in the innermost class, or a guard ends and
closes what was opened since. An operation that fails is no change. Every run of operations, with
guards inside guards, is such a history, and so is every part of it. The moments of a run are its
changes, each with the stack that it is made to.
-/
namespace StackBackend

open Code (Slot Mark)

namespace Scope

inductive Change where
  | openContainer (name : String)
  | closeContainer (name : String)
  | openRoutine (name : String)
  | closeRoutine (name : String)
  | resolve (ref : Reference)
  | declare (field : String)
  | unwindContainers (n : Nat)
  /-- The end of a guard that has found `n` containers open and `m` routines in the innermost. -/
  | unwindRoutines (n m : Nat)

/-- What an operation that succeeds, or the end of a guard, makes of a stack. -/
inductive Becomes (s : ScopeStack) : Change → ScopeStack → Prop
  | openContainer (name : String) : Becomes s (.openContainer name) (s.enterContainer name)
  | closeContainer {name : String} {t : ScopeStack} (h : (ScopeStack.exitContainer name).run s = .ok () t) :
      Becomes s (.closeContainer name) t
  | openRoutine {name : String} {t : ScopeStack} (h : (ScopeStack.enterRoutine name).run s = .ok () t) :
      Becomes s (.openRoutine name) t
  | closeRoutine {name : String} {t : ScopeStack} (h : (ScopeStack.exitRoutine name).run s = .ok () t) :
      Becomes s (.closeRoutine name) t
  | slot {v : Variable} {slot : Slot} {t : ScopeStack}
      (h : (ScopeStack.slotFor v).run s = .ok slot t) : Becomes s (.resolve (.var v)) t
  | mark {l : Label} {mark : Mark} {t : ScopeStack}
      (h : (ScopeStack.markFor l).run s = .ok mark t) : Becomes s (.resolve (.label l)) t
  | declare {field : String} {new : Bool} {t : ScopeStack}
      (h : (ScopeStack.declareField field).run s = .ok new t) : Becomes s (.declare field) t
  | unwindContainers (n : Nat) : Becomes s (.unwindContainers n) (s.unwindContainers n)
  | unwindRoutines (n m : Nat) : Becomes s (.unwindRoutines n m) (s.unwindRoutines n m)

namespace Becomes

variable {s t : ScopeStack} {name : String}

theorem closeContainer_ok (h : Becomes s (.closeContainer name) t) :
    ∃ c, c.name = name ∧ c.routines = [] ∧ s = { t with containers := c :: t.containers } := by
  cases h with
  | closeContainer h => exact ScopeStack.exitContainer_ok h

theorem openRoutine_ok (h : Becomes s (.openRoutine name) t) :
    ∃ c outer, s.containers = c :: outer ∧
      t = { s with
        containers := { c with routines := .new name s.firstSlot :: c.routines } :: outer } := by
  cases h with
  | openRoutine h => exact ScopeStack.enterRoutine_ok h

theorem closeRoutine_ok (h : Becomes s (.closeRoutine name) t) :
    ∃ c r routines outer, r.name = name ∧ s.containers = c :: outer ∧ c.routines = r :: routines ∧
      t = { s with containers := { c with routines } :: outer } := by
  cases h with
  | closeRoutine h => exact ScopeStack.exitRoutine_ok h

theorem resolve_ok {ref : Reference} (h : Becomes s (.resolve ref) t) :
    ∃ c r routines outer, s.containers = c :: outer ∧ c.routines = r :: routines ∧
      (r.Fits → (r.note ref).Fits) ∧
      t = { s with containers := { c with routines := r.note ref :: routines } :: outer } := by
  cases h with
  | slot h =>
    obtain ⟨c, r, r', routines, outer, hs, hc, hr, rfl⟩ := ScopeStack.onRoutine_ok h
    obtain ⟨rfl, -, hfits⟩ := RoutineScope.slotFor_ok hr
    exact ⟨c, r, routines, outer, hs, hc, hfits, rfl⟩
  | mark h =>
    obtain ⟨c, r, r', routines, outer, hs, hc, hr, rfl⟩ := ScopeStack.onRoutine_ok h
    obtain ⟨rfl, -, hfits⟩ := RoutineScope.markFor_ok hr
    exact ⟨c, r, routines, outer, hs, hc, hfits, rfl⟩

theorem declare_ok {field : String} (h : Becomes s (.declare field) t) :
    ∃ c fields outer, s.containers = c :: outer ∧
      t = { s with containers := { c with fields } :: outer } := by
  cases h with
  | declare h =>
    obtain ⟨c, outer, hc, -, rfl⟩ := ScopeStack.declareField_ok h
    refine ⟨c, (c.declareField field).2.fields, outer, hc, ?_⟩
    rw [← c.declareField_eq]

end Becomes

inductive History (s : ScopeStack) : List Change → ScopeStack → Prop
  | start : History s [] s
  | step {changes : List Change} {change : Change} {t u : ScopeStack} :
      History s changes t → Becomes t change u → History s (changes ++ [change]) u

theorem Becomes.history {s t : ScopeStack} {change : Change} (h : Becomes s change t) :
    History s [change] t :=
  .step .start h

theorem History.trans {s t u : ScopeStack} {changes more : List Change}
    (h : History s changes t) (h' : History t more u) : History s (changes ++ more) u := by
  induction h' with
  | start => rwa [List.append_nil]
  | step _ hu ih =>
    rw [← List.append_assoc]
    exact ih.step hu

structure Moment where
  stack : ScopeStack
  change : Change

/-- A request that succeeds is a change, and one that fails is none. -/
def changed {α : Type} (s : ScopeStack) (change : Change) :
    EStateM.Result Error ScopeStack α → List Moment
  | .ok _ _ => [⟨s, change⟩]
  | .error _ _ => []

def slotMoments (stem : String) (position : Nat) : Nat → ScopeStack → List Moment
  | 0, _ => []
  | more + 1, s =>
    match (ScopeStack.slotFor ⟨stem ++ toString position⟩).run s with
    | .ok _ t =>
      ⟨s, .resolve (.var ⟨stem ++ toString position⟩)⟩ :: slotMoments stem (position + 1) more t
    | .error _ _ => []

mutual
def Step.moments : Step → ScopeStack → List Moment
  | .enterContainer name, s => [⟨s, .openContainer name⟩]
  | .exitContainer name, s =>
    changed s (.closeContainer name) ((ScopeStack.exitContainer name).run s)
  | .enterRoutine name, s => changed s (.openRoutine name) ((ScopeStack.enterRoutine name).run s)
  | .exitRoutine name, s => changed s (.closeRoutine name) ((ScopeStack.exitRoutine name).run s)
  | .slot v, s => changed s (.resolve (.var v)) ((ScopeStack.slotFor v).run s)
  | .slots stem count, s => slotMoments stem 0 count s
  | .field name, s => changed s (.declare name) ((ScopeStack.declareField name).run s)
  | .label l, s => changed s (.resolve (.label l)) ((ScopeStack.markFor l).run s)
  | .inContainer name steps, s =>
    ⟨s, .openContainer name⟩ :: momentsAll steps (s.enterContainer name) ++
      [⟨(runAll steps (s.enterContainer name)).2, .unwindContainers s.depth⟩]
  | .inRoutine name steps, s =>
    match (ScopeStack.enterRoutine name).run s with
    | .ok () inside =>
      ⟨s, .openRoutine name⟩ :: momentsAll steps inside ++
        [⟨(runAll steps inside).2, .unwindRoutines s.depth s.routineDepth⟩]
    | .error _ _ => []

def momentsAll : List Step → ScopeStack → List Moment
  | [], _ => []
  | step :: rest, s => step.moments s ++ momentsAll rest (step.run s).2
end

inductive Happens : ScopeStack → List Moment → ScopeStack → Prop
  | nil (s : ScopeStack) : Happens s [] s
  | cons {s t u : ScopeStack} {change : Change} {moments : List Moment} :
      Becomes s change t → Happens t moments u → Happens s (⟨s, change⟩ :: moments) u

theorem Becomes.happens {s t : ScopeStack} {change : Change} (h : Becomes s change t) :
    Happens s [⟨s, change⟩] t :=
  .cons h (.nil t)

theorem Happens.append {s t u : ScopeStack} {moments more : List Moment}
    (h : Happens s moments t) (h' : Happens t more u) : Happens s (moments ++ more) u := by
  induction h with
  | nil => exact h'
  | cons hchange _ ih => exact .cons hchange (ih h')

theorem Happens.history {s t : ScopeStack} {moments : List Moment} (h : Happens s moments t) :
    History s (moments.map Moment.change) t := by
  induction h with
  | nil => exact .start
  | cons hchange _ ih => exact hchange.history.trans ih

section

variable (s : ScopeStack)

theorem happens_answer {α : Type} {report : α → Answer} {change : Change}
    {operation : EStateM Error ScopeStack α} (hatomic : Atomic operation)
    (h : ∀ a t, operation.run s = .ok a t → Becomes s change t) :
    Happens s (changed s change (operation.run s)) (answer report (operation.run s)).2 := by
  cases hrun : operation.run s with
  | ok a t => exact (h a t hrun).happens
  | error e t =>
    rw [hatomic s e t hrun]
    exact .nil s

theorem happens_slots (stem : String) (position : Nat) (last : Option Slot) (count : Nat) :
    Happens s (slotMoments stem position count s)
      (runSlots ScopeStack.slotFor stem position last count s).2 := by
  induction count generalizing s position last with
  | zero => exact .nil s
  | succ more ih =>
    rw [runSlots, slotMoments]
    cases h : (ScopeStack.slotFor ⟨stem ++ toString position⟩).run s with
    | ok slot t => exact .cons (.slot h) (ih t (position + 1) (some slot))
    | error e t =>
      rw [ScopeStack.atomic_slotFor _ s e t h]
      exact .nil s

mutual
theorem Step.happens (s : ScopeStack) (step : Step) :
    Happens s (step.moments s) (step.run s).2 := by
  cases step with
  | enterContainer name => exact (Becomes.openContainer name).happens
  | exitContainer name =>
    exact happens_answer s (ScopeStack.atomic_exitContainer name) fun _ _ h => .closeContainer h
  | enterRoutine name =>
    exact happens_answer s (ScopeStack.atomic_enterRoutine name) fun _ _ h => .openRoutine h
  | exitRoutine name =>
    exact happens_answer s (ScopeStack.atomic_exitRoutine name) fun _ _ h => .closeRoutine h
  | slot v => exact happens_answer s (ScopeStack.atomic_slotFor v) fun _ _ h => .slot h
  | slots stem count => exact happens_slots s stem 0 none count
  | field name => exact happens_answer s (ScopeStack.atomic_declareField name) fun _ _ h => .declare h
  | label l => exact happens_answer s (ScopeStack.atomic_markFor l) fun _ _ h => .mark h
  | inContainer name steps =>
    have hinside := happens_runAll (s.enterContainer name) steps
    exact .cons (.openContainer name) (hinside.append (Becomes.unwindContainers s.depth).happens)
  | inRoutine name steps =>
    rw [Step.moments, Step.run, ScopeStack.run_withRoutine]
    cases henter : (ScopeStack.enterRoutine name).run s with
    | error e t =>
      rw [ScopeStack.atomic_enterRoutine name s e t henter]
      exact .nil s
    | ok _ inside =>
      have hinside := happens_runAll inside steps
      exact .cons (.openRoutine henter)
        (hinside.append (Becomes.unwindRoutines s.depth s.routineDepth).happens)

theorem happens_runAll (s : ScopeStack) (steps : List Step) :
    Happens s (momentsAll steps s) (runAll steps s).2 := by
  cases steps with
  | nil => exact .nil s
  | cons step rest => exact (step.happens s).append (happens_runAll (step.run s).2 rest)
end

theorem exists_history_runAll (steps : List Step) :
    ∃ changes, History s changes (runAll steps s).2 :=
  ⟨_, (happens_runAll s steps).history⟩

end

end Scope

end StackBackend
