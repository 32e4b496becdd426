import StackBackend.Proofs.Scope.History

/-!
# Scopes nest

The open scopes of both kinds form one stack: a routine lies in its container, and a container that
is opened while a routine is open lies in that routine. A scope can be exited just when it is the
innermost one of them all. So what a run enters and exits is properly nested, however many of its
steps fail, since a step that fails changes nothing.
-/
namespace StackBackend

namespace Scope

inductive OpenScope where
  | container (name : String)
  | routine (name : String)
deriving DecidableEq

inductive Bracket where
  | enter (scope : OpenScope)
  | exit (scope : OpenScope)
deriving DecidableEq

/-- Every scope that is entered is exited again, and what is entered in between is exited before
it. -/
inductive Balanced : List Bracket → Prop
  | nil : Balanced []
  | nest {inside after : List Bracket} (scope : OpenScope) (hinside : Balanced inside)
      (hafter : Balanced after) : Balanced (.enter scope :: inside ++ .exit scope :: after)

end Scope

open Scope

def ContainerScope.openScopes (c : ContainerScope) : List OpenScope :=
  c.routines.map (fun r => .routine r.name) ++ [.container c.name]

def ScopeStack.openScopes (s : ScopeStack) : List OpenScope :=
  s.containers.flatMap ContainerScope.openScopes

namespace Scope

def closedScopes (s t : ScopeStack) : List OpenScope :=
  s.openScopes.take (s.openScopes.length - t.openScopes.length)

/-- What a change enters and exits. The end of a guard exits whatever it closes. -/
def Moment.brackets (m : Moment) : List Bracket :=
  match m.change with
  | .openContainer name => [.enter (.container name)]
  | .closeContainer name => [.exit (.container name)]
  | .openRoutine name => [.enter (.routine name)]
  | .closeRoutine name => [.exit (.routine name)]
  | .resolve _ | .declare _ => []
  | .unwindContainers n => (closedScopes m.stack (m.stack.unwindContainers n)).map .exit
  | .unwindRoutines n k => (closedScopes m.stack (m.stack.unwindRoutines n k)).map .exit

def bracketsOf (steps : List Step) (s : ScopeStack) : List Bracket :=
  (momentsAll steps s).flatMap Moment.brackets

/-- Where the scopes `l` are open, the brackets lead to where `l'` are open, and each exit is one of
the innermost scope. -/
inductive Leads : List OpenScope → List Bracket → List OpenScope → Prop
  | nil (l : List OpenScope) : Leads l [] l
  | enter {l l' : List OpenScope} {w : List Bracket} (scope : OpenScope) :
      Leads (scope :: l) w l' → Leads l (.enter scope :: w) l'
  | exit {l l' : List OpenScope} {w : List Bracket} (scope : OpenScope) :
      Leads l w l' → Leads (scope :: l) (.exit scope :: w) l'

namespace Leads

variable {l l' l'' : List OpenScope} {w v : List Bracket}

theorem append (h : Leads l w l') (h' : Leads l' v l'') : Leads l (w ++ v) l'' := by
  induction h with
  | nil => exact h'
  | enter scope _ ih => exact .enter scope (ih h')
  | exit scope _ ih => exact .exit scope (ih h')

theorem exits (front l : List OpenScope) : Leads (front ++ l) (front.map .exit) l := by
  induction front with
  | nil => exact .nil l
  | cons scope rest ih => exact .exit scope ih

theorem exits_suffix (h : l' <:+ l) :
    Leads l ((l.take (l.length - l'.length)).map .exit) l' := by
  obtain ⟨front, rfl⟩ := h
  rw [List.length_append, Nat.add_sub_cancel, List.take_left']
  · exact exits front l'
  · rfl

/-- The brackets exit all of the scopes, with balanced brackets before each exit and at the end. -/
def Exits : List OpenScope → List Bracket → Prop
  | [], w => Balanced w
  | scope :: l, w => ∃ u v, w = u ++ .exit scope :: v ∧ Balanced u ∧ Exits l v

theorem exits_of_nest {inside : List Bracket} (scope : OpenScope) (hinside : Balanced inside)
    (h : Exits l w) : Exits l (.enter scope :: inside ++ .exit scope :: w) := by
  cases l with
  | nil => exact .nest scope hinside h
  | cons outer l =>
    obtain ⟨u, v, rfl, hu, hv⟩ := h
    exact ⟨_, v, by simp, .nest scope hinside hu, hv⟩

theorem exits_all (h : Leads l w []) : Exits l w := by
  generalize hnone : ([] : List OpenScope) = none at h
  induction h with
  | nil l =>
    subst hnone
    exact .nil
  | enter scope _ ih =>
    obtain ⟨inside, v, rfl, hinside, hv⟩ := ih hnone
    exact exits_of_nest scope hinside hv
  | exit scope _ ih => exact ⟨[], _, rfl, .nil, ih hnone⟩

theorem balanced (h : Leads [] w l) : Balanced (w ++ l.map .exit) := by
  have hclosed := exits l []
  rw [List.append_nil] at hclosed
  exact (h.append hclosed).exits_all

end Leads

end Scope

namespace ScopeStack

variable {s t : ScopeStack} {name : String}

theorem openScopes_suffix {containers containers' : List ContainerScope}
    (h : containers' <:+ containers) :
    containers'.flatMap ContainerScope.openScopes <:+
      containers.flatMap ContainerScope.openScopes := by
  obtain ⟨front, rfl⟩ := h
  rw [List.flatMap_append]
  exact List.suffix_append _ _

theorem openScopes_unwindContainers (s : ScopeStack) (n : Nat) :
    (s.unwindContainers n).openScopes <:+ s.openScopes :=
  openScopes_suffix (suffix_keepOutermost n s.containers)

theorem openScopes_unwindRoutines (s : ScopeStack) (n k : Nat) :
    (s.unwindRoutines n k).openScopes <:+ s.openScopes := by
  have hkept := openScopes_suffix (suffix_keepOutermost n s.containers)
  rw [unwindRoutines_eq, openScopes]
  dsimp only
  split
  · exact hkept
  · -- Of the container that is innermost then, routines are closed from the innermost one on.
    refine List.IsSuffix.trans ?_ hkept
    cases keepOutermost n s.containers with
    | nil => exact List.suffix_refl _
    | cons c outer =>
      obtain ⟨inner, hinner⟩ := suffix_keepOutermost k c.routines
      refine ⟨inner.map fun r => .routine r.name, ?_⟩
      simp only [List.modifyHead_cons, List.flatMap_cons, ContainerScope.openScopes]
      rw [← List.append_assoc, ← List.append_assoc, ← List.map_append, hinner]

theorem exitContainer_ok_iff :
    (∃ t, (exitContainer name).run s = .ok () t) ↔
      s.openScopes.head? = some (.container name) := by
  obtain ⟨_ | ⟨⟨owner, fields, _ | ⟨r, routines⟩⟩, outer⟩, firstSlot⟩ := s
  · simp [exitContainer, openScopes]
  · by_cases hname : owner = name <;>
      simp [exitContainer, ContainerScope.routine?, openScopes, ContainerScope.openScopes, hname]
  · simp [exitContainer, ContainerScope.routine?, openScopes, ContainerScope.openScopes]

theorem exitRoutine_ok_iff :
    (∃ t, (exitRoutine name).run s = .ok () t) ↔ s.openScopes.head? = some (.routine name) := by
  obtain ⟨_ | ⟨⟨owner, fields, _ | ⟨r, routines⟩⟩, outer⟩, firstSlot⟩ := s
  · simp [exitRoutine, openScopes]
  · simp [exitRoutine, openScopes, ContainerScope.openScopes]
  · by_cases hname : r.name = name <;>
      simp [exitRoutine, openScopes, ContainerScope.openScopes, hname]

end ScopeStack

namespace Scope

theorem Becomes.leads {s t : ScopeStack} {change : Change} (h : Becomes s change t) :
    Leads s.openScopes (Moment.brackets ⟨s, change⟩) t.openScopes := by
  cases change with
  | openContainer name =>
    cases h
    exact .enter _ (.nil _)
  | closeContainer name =>
    obtain ⟨c, rfl, hc, rfl⟩ := h.closeContainer_ok
    simp only [ScopeStack.openScopes, List.flatMap_cons, ContainerScope.openScopes, hc]
    exact .exit _ (.nil _)
  | openRoutine name =>
    obtain ⟨c, outer, hc, rfl⟩ := h.openRoutine_ok
    rw [ScopeStack.openScopes, hc]
    exact .enter _ (.nil _)
  | closeRoutine name =>
    obtain ⟨c, r, routines, outer, rfl, hc, hr, rfl⟩ := h.closeRoutine_ok
    simp only [ScopeStack.openScopes, hc, List.flatMap_cons, ContainerScope.openScopes, hr]
    exact .exit _ (.nil _)
  | resolve ref =>
    obtain ⟨c, r, routines, outer, hc, hr, -, rfl⟩ := h.resolve_ok
    simp only [ScopeStack.openScopes, hc, List.flatMap_cons, ContainerScope.openScopes, hr,
      List.map_cons, RoutineScope.name_note]
    exact .nil _
  | declare field =>
    obtain ⟨c, fields, outer, hc, rfl⟩ := h.declare_ok
    rw [ScopeStack.openScopes, hc]
    exact .nil _
  | unwindContainers n =>
    cases h
    exact .exits_suffix (s.openScopes_unwindContainers n)
  | unwindRoutines n k =>
    cases h
    exact .exits_suffix (s.openScopes_unwindRoutines n k)

theorem Happens.leads {s t : ScopeStack} {moments : List Moment} (h : Happens s moments t) :
    Leads s.openScopes (moments.flatMap Moment.brackets) t.openScopes := by
  induction h with
  | nil s => exact .nil _
  | cons hchange _ ih => exact hchange.leads.append ih

section

variable {s : ScopeStack} {e : Error}

theorem answer_failed {α : Type} {operation : EStateM Error ScopeStack α} {report : α → Answer}
    (hatomic : Atomic operation) (hreport : ∀ a, report a ≠ .failed e)
    (h : (answer report (operation.run s)).1 = .failed e) :
    (answer report (operation.run s)).2 = s := by
  cases hrun : operation.run s with
  | ok a t =>
    rw [hrun] at h
    exact absurd h (hreport a)
  | error x t => exact hatomic s x t hrun

theorem runSlots_ne_failed (stem : String) (position : Nat) (last : Option Code.Slot)
    (count : Nat) (s : ScopeStack) :
    (runSlots ScopeStack.slotFor stem position last count s).1 ≠ .failed e := by
  induction count generalizing s position last with
  | zero =>
    intro h
    cases h
  | succ more ih =>
    rw [runSlots]
    split
    · exact ih _ _ _
    · intro h
      cases h

theorem Step.run_failed {step : Step} (h : (step.run s).1 = .failed e) : (step.run s).2 = s := by
  cases step with
  | enterContainer name | inContainer name steps => cases h
  | exitContainer name => exact answer_failed (ScopeStack.atomic_exitContainer name) nofun h
  | enterRoutine name => exact answer_failed (ScopeStack.atomic_enterRoutine name) nofun h
  | exitRoutine name => exact answer_failed (ScopeStack.atomic_exitRoutine name) nofun h
  | slot v => exact answer_failed (ScopeStack.atomic_slotFor v) nofun h
  | field name => exact answer_failed (ScopeStack.atomic_declareField name) nofun h
  | label l => exact answer_failed (ScopeStack.atomic_markFor l) nofun h
  | inRoutine name steps => exact answer_failed (ScopeStack.atomic_withRoutine name _) nofun h
  | slots stem count => exact absurd h (runSlots_ne_failed stem 0 none count s)

end

/-- An operation that fails, be it the opening of a guard, leaves the whole stack as it was. A scope
can be exited if and only if it is the innermost one of all open scopes. So in every run from the
empty stack, with failing steps and guards in between, what is entered and exited is properly
nested: it is balanced as soon as the scopes that are still open are exited, the innermost one
first. -/
theorem run_nests (s : ScopeStack) :
    (∀ (step : Step) (e : Error), (step.run s).1 = .failed e → (step.run s).2 = s) ∧
    (∀ name, (∃ t, (ScopeStack.exitContainer name).run s = .ok () t) ↔
      s.openScopes.head? = some (.container name)) ∧
    (∀ name, (∃ t, (ScopeStack.exitRoutine name).run s = .ok () t) ↔
      s.openScopes.head? = some (.routine name)) ∧
    ∀ (firstSlot : UInt16) (steps : List Step),
      Balanced (bracketsOf steps (.new firstSlot) ++
        (runAll steps (.new firstSlot)).2.openScopes.map .exit) :=
  ⟨fun _ _ h => Step.run_failed h, fun _ => ScopeStack.exitContainer_ok_iff,
    fun _ => ScopeStack.exitRoutine_ok_iff,
    fun firstSlot steps => (happens_runAll (.new firstSlot) steps).leads.balanced⟩

/-- A class cannot be left while a routine is open in it. In this run the class stays open, and the
end of the guard leaves the guarded class together with the routine that was opened in it. -/
theorem run_nests_refused :
    let s : ScopeStack := ⟨[⟨"C", ["f"], [.new "m" 0]⟩], 0⟩
    ((Step.exitContainer "C").run s).2 = s ∧
    (∃ t, (ScopeStack.exitRoutine "m").run s = .ok () t) ∧
    bracketsOf [.enterContainer "C", .enterRoutine "m", .exitContainer "C", .exitRoutine "C",
        .inContainer "D" [.enterRoutine "k"], .exitRoutine "m"] (.new 0) =
      [.enter (.container "C"), .enter (.routine "m"), .enter (.container "D"),
        .enter (.routine "k"), .exit (.routine "k"), .exit (.container "D"),
        .exit (.routine "m")] ∧
    Balanced [.enter (.container "C"), .enter (.routine "m"), .enter (.container "D"),
      .enter (.routine "k"), .exit (.routine "k"), .exit (.container "D"),
      .exit (.routine "m"), .exit (.container "C")] := by
  intro s
  obtain ⟨hfailed, -, hroutine, hbalanced⟩ := run_nests s
  exact ⟨hfailed (.exitContainer "C") _ rfl, (hroutine "m").2 rfl, rfl,
    hbalanced 0 [.enterContainer "C", .enterRoutine "m", .exitContainer "C", .exitRoutine "C",
      .inContainer "D" [.enterRoutine "k"], .exitRoutine "m"]⟩

end Scope

end StackBackend
