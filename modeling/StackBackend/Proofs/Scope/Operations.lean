import StackBackend.Scope.Stack

/-!
# What an operation on the scopes can do

An operation checks what it needs before it changes anything. So one that fails leaves its state as
it was, and one that succeeds has found open what it needs.
-/
namespace StackBackend

theorem RoutineScope.atomic_slotFor (v : Variable) : Atomic (slotFor v) := by
  intro r e s h
  rw [run_slotFor] at h
  split at h
  · cases h
  · split at h <;> cases h
    rfl

theorem RoutineScope.atomic_markFor (l : Label) : Atomic (markFor l) := by
  intro r e s h
  rw [run_markFor] at h
  split at h
  · cases h
  · split at h <;> cases h
    rfl

namespace ScopeStack

variable {s t : ScopeStack} {name : String}

theorem exitContainer_ok (h : (exitContainer name).run s = .ok () t) :
    ∃ c, c.name = name ∧ c.routines = [] ∧ s = { t with containers := c :: t.containers } := by
  obtain ⟨_ | ⟨⟨owner, fields, _ | ⟨r, routines⟩⟩, outer⟩, firstSlot⟩ := s
  · cases h
  · by_cases hname : owner = name <;>
      simp [exitContainer, ContainerScope.routine?, hname] at h
    subst h
    exact ⟨⟨owner, fields, []⟩, hname, rfl, rfl⟩
  · cases h

theorem atomic_exitContainer (name : String) : Atomic (exitContainer name) := by
  rintro ⟨_ | ⟨⟨owner, fields, _ | ⟨r, routines⟩⟩, outer⟩, firstSlot⟩ e t h
  · cases h
    rfl
  · by_cases hname : owner = name <;>
      simp [exitContainer, ContainerScope.routine?, hname] at h
    exact h.2.symm
  · cases h
    rfl

theorem run_enterRoutine {c : ContainerScope} {outer : List ContainerScope}
    (h : s.containers = c :: outer) (name : String) :
    (enterRoutine name).run s = .ok () { s with
      containers := { c with routines := .new name s.firstSlot :: c.routines } :: outer } := by
  cases s
  cases h
  rfl

theorem enterRoutine_ok (h : (enterRoutine name).run s = .ok () t) :
    ∃ c outer, s.containers = c :: outer ∧
      t = { s with
        containers := { c with routines := .new name s.firstSlot :: c.routines } :: outer } := by
  obtain ⟨_ | ⟨c, outer⟩, firstSlot⟩ := s
  · cases h
  · cases h
    exact ⟨c, outer, rfl, rfl⟩

theorem atomic_enterRoutine (name : String) : Atomic (enterRoutine name) := by
  rintro ⟨_ | ⟨c, outer⟩, firstSlot⟩ e t h
  · cases h
    rfl
  · cases h

theorem exitRoutine_ok (h : (exitRoutine name).run s = .ok () t) :
    ∃ c r routines outer, r.name = name ∧ s.containers = c :: outer ∧ c.routines = r :: routines ∧
      t = { s with containers := { c with routines } :: outer } := by
  obtain ⟨_ | ⟨⟨owner, fields, _ | ⟨r, routines⟩⟩, outer⟩, firstSlot⟩ := s
  · cases h
  · cases h
  · by_cases hname : r.name = name <;> simp [exitRoutine, hname] at h
    subst h
    exact ⟨_, r, routines, outer, hname, rfl, rfl, rfl⟩

theorem atomic_exitRoutine (name : String) : Atomic (exitRoutine name) := by
  rintro ⟨_ | ⟨⟨owner, fields, _ | ⟨r, routines⟩⟩, outer⟩, firstSlot⟩ e t h
  · cases h
    rfl
  · cases h
    rfl
  · by_cases hname : r.name = name <;> simp [exitRoutine, hname] at h
    exact h.2.symm

theorem onRoutine_ok {α : Type} {operation : String} {a : α}
    {action : EStateM Error RoutineScope α} (h : (onRoutine operation action).run s = .ok a t) :
    ∃ c r r' routines outer, s.containers = c :: outer ∧ c.routines = r :: routines ∧
      action.run r = .ok a r' ∧
      t = { s with containers := { c with routines := r' :: routines } :: outer } := by
  obtain ⟨_ | ⟨⟨owner, fields, _ | ⟨r, routines⟩⟩, outer⟩, firstSlot⟩ := s
  · cases h
  · cases h
  · rw [EStateM.run, onRoutine] at h
    dsimp only at h
    split at h
    · rename_i r' hr
      cases h
      exact ⟨_, r, r', routines, outer, rfl, rfl, hr, rfl⟩
    · cases h

theorem atomic_onRoutine {α : Type} {action : EStateM Error RoutineScope α} (operation : String)
    (haction : Atomic action) : Atomic (onRoutine operation action) := by
  rintro ⟨_ | ⟨⟨owner, fields, _ | ⟨r, routines⟩⟩, outer⟩, firstSlot⟩ e t h
  · cases h
    rfl
  · cases h
    rfl
  · rw [EStateM.run, onRoutine] at h
    dsimp only at h
    split at h
    · cases h
    · rename_i hr
      cases h
      rw [haction _ _ _ hr]

theorem atomic_slotFor (v : Variable) : Atomic (slotFor v) :=
  atomic_onRoutine _ (RoutineScope.atomic_slotFor v)

theorem atomic_markFor (l : Label) : Atomic (markFor l) :=
  atomic_onRoutine _ (RoutineScope.atomic_markFor l)

theorem run_declareField {c : ContainerScope} {outer : List ContainerScope}
    (h : s.containers = c :: outer) (field : String) :
    (declareField field).run s =
      .ok (c.declareField field).1 { s with containers := (c.declareField field).2 :: outer } := by
  cases s
  cases h
  rfl

theorem declareField_ok {field : String} {new : Bool}
    (h : (declareField field).run s = .ok new t) :
    ∃ c outer, s.containers = c :: outer ∧ new = (c.declareField field).1 ∧
      t = { s with containers := (c.declareField field).2 :: outer } := by
  obtain ⟨_ | ⟨c, outer⟩, firstSlot⟩ := s
  · cases h
  · rw [run_declareField rfl] at h
    cases h
    exact ⟨c, outer, rfl, rfl, rfl⟩

theorem atomic_declareField (field : String) : Atomic (declareField field) := by
  rintro ⟨_ | ⟨c, outer⟩, firstSlot⟩ e t h
  · cases h
    rfl
  · cases h

theorem atomic_withRoutine {α : Type} (name : String) (steps : ScopeStack → α × ScopeStack) :
    Atomic (withRoutine name steps) := by
  intro s e t h
  rw [run_withRoutine] at h
  split at h
  · cases h
  · rename_i henter
    cases h
    exact atomic_enterRoutine name _ _ _ henter

theorem unwindRoutines_eq (s : ScopeStack) (n m : Nat) :
    s.unwindRoutines n m = { s with
      containers :=
        if (keepOutermost n s.containers).length < n then keepOutermost n s.containers
        else (keepOutermost n s.containers).modifyHead
          fun c => { c with routines := keepOutermost m c.routines } } := by
  unfold unwindRoutines unwindContainers
  cases keepOutermost n s.containers with
  | nil => simp
  | cons c outer =>
    dsimp only
    split <;> rfl

end ScopeStack

end StackBackend
