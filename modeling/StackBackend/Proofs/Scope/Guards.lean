import StackBackend.Proofs.Scope.Nesting

/-!
# What the end of a guard restores

While a guarded scope is open, all that happens in its container or its routine happens above what
the guard has found, and guards inside of it end above it again. This is kept by every change
except an exit of the guarded scope itself. So the end of the guard finds below it what was there
before: a container leaves no trace, and a routine leaves the fields that were declared meanwhile in
its container.
-/
namespace StackBackend

open Scope
open ScopeStack (keepOutermost keepOutermost_append keepOutermost_append_of_le
  length_keepOutermost)

namespace ContainerScope

def declareAll (c : ContainerScope) (fields : List String) : ContainerScope :=
  fields.foldl (fun c field => (c.declareField field).2) c

theorem declareAll_concat (c : ContainerScope) (fields : List String)
    (field : String) :
    c.declareAll (fields ++ [field]) = ((c.declareAll fields).declareField field).2 :=
  List.foldl_append

theorem declareField_withRoutines (c : ContainerScope)
    (routines : List RoutineScope) (field : String) :
    ({ c with routines }.declareField field).2 = { (c.declareField field).2 with routines } := by
  simp only [declareField]
  split <;> rfl

theorem suffix_declareAll {c : ContainerScope} {fields : List String} :
    c.fields <:+ (c.declareAll fields).fields := by
  induction fields generalizing c with
  | nil => exact List.suffix_rfl
  | cons field rest ih =>
    refine List.IsSuffix.trans ?_ ih
    simp only [declareField]
    split
    · exact List.suffix_rfl
    · exact List.suffix_cons field c.fields

theorem declareAll_eq (c : ContainerScope) (fields : List String) :
    c.declareAll fields = { c with fields := (c.declareAll fields).fields } := by
  induction fields using List.reverseRecOn with
  | nil => rfl
  | append_singleton fields field ih =>
    rw [declareAll_concat, ih, declareField]
    split <;> rfl

theorem mem_declareAll {c : ContainerScope} {fields : List String} {f : String} :
    f ∈ (c.declareAll fields).fields ↔ f ∈ c.fields ∨ f ∈ fields := by
  induction fields generalizing c with
  | nil => simp [declareAll]
  | cons field rest ih =>
    rw [declareAll, List.foldl_cons, ← declareAll, ih, declareField]
    split
    · rename_i hmem
      constructor
      · exact Or.imp_right (List.mem_cons_of_mem _)
      · rintro (h | h)
        · exact .inl h
        · rcases List.mem_cons.1 h with rfl | h
          · exact .inl hmem
          · exact .inr h
    · simp [or_assoc, or_left_comm]

end ContainerScope

namespace Scope

def Change.isExit : Change → Bool
  | .closeContainer _ | .closeRoutine _ => true
  | _ => false

def Change.isUnwinding : Change → Bool
  | .unwindContainers _ | .unwindRoutines .. => true
  | _ => false

/-- The field that is declared in the container at this depth, if it is the innermost one then. -/
def Moment.declaredAt (depth : Nat) (m : Moment) : List String :=
  match m.change with
  | .declare field => if m.stack.depth = depth then [field] else []
  | _ => []

/-- No step exits the innermost scope of `s`. Whenever a scope is exited, more scopes are open. -/
def KeepsInnermost (s : ScopeStack) (steps : List Step) : Prop :=
  ∀ m ∈ momentsAll steps s, m.change.isExit → s.openScopes.length < m.stack.openScopes.length

instance (s : ScopeStack) (steps : List Step) : Decidable (KeepsInnermost s steps) :=
  inferInstanceAs (Decidable (∀ m ∈ momentsAll steps s, m.change.isExit → _))

/-- The fields that the steps declare while the innermost container of `s` is the innermost one. -/
def declaredInnermost (s : ScopeStack) (steps : List Step) : List String :=
  (momentsAll steps s).flatMap (Moment.declaredAt s.depth)

/-- What a guard has found below the scope that it guards, a container or a routine. -/
structure Guard where
  /-- The container that is guarded, or the one around the guarded routine before this was open. -/
  container : ContainerScope
  outer : List ContainerScope
  firstSlot : UInt16
  /-- How many routines are guarded: one, or none where it is a container. -/
  guarded : Nat
  routines_eq_nil : guarded = 0 → container.routines = []

namespace Guard

def height (g : Guard) : Nat :=
  g.guarded + g.container.routines.length + 1 + (g.outer.flatMap ContainerScope.openScopes).length

def stack (g : Guard) (fields : List String) (newer : List ContainerScope)
    (inner : List RoutineScope) : ScopeStack :=
  ⟨newer ++ { g.container.declareAll fields with routines := inner ++ g.container.routines } ::
    g.outer, g.firstSlot⟩

/-- The guarded scope is open, and nothing below it has changed since the guard was taken, but for
the fields that were declared. -/
inductive Holds (g : Guard) (fields : List String) : ScopeStack → Prop
  | intro (newer : List ContainerScope) (inner : List RoutineScope)
      (hguarded : g.guarded ≤ inner.length) : Holds g fields (g.stack fields newer inner)

/-- A change that exits something exits something above the guarded scope, and an inner guard has
found the guarded scope open. -/
def Allows (g : Guard) (m : Moment) : Prop :=
  match m.change with
  | .closeContainer _ | .closeRoutine _ => g.height < m.stack.openScopes.length
  | .unwindContainers n => g.outer.length < n
  | .unwindRoutines n k =>
    g.outer.length < n ∧
      (n = g.outer.length + 1 → g.guarded + g.container.routines.length ≤ k)
  | _ => True

variable {g : Guard} {fields : List String}

theorem length_openScopes_stack (newer : List ContainerScope) (inner : List RoutineScope) :
    (g.stack fields newer inner).openScopes.length =
      (newer.flatMap ContainerScope.openScopes).length + inner.length +
        g.container.routines.length + 1 + (g.outer.flatMap ContainerScope.openScopes).length := by
  simp only [stack, ScopeStack.openScopes, ContainerScope.openScopes, List.flatMap_append,
    List.flatMap_cons, List.length_append, List.length_map, List.length_singleton]
  omega

theorem lt_length_of_height_lt {inner : List RoutineScope}
    (h : g.height < (g.stack fields [] inner).openScopes.length) : g.guarded < inner.length := by
  rw [length_openScopes_stack, List.flatMap_nil, List.length_nil, height] at h
  omega

theorem depth_stack (newer : List ContainerScope) (inner : List RoutineScope) :
    (g.stack fields newer inner).depth = newer.length + (g.outer.length + 1) := by
  simp [stack, ScopeStack.depth]

theorem stack_cases {newer : List ContainerScope} {inner : List RoutineScope} {c : ContainerScope}
    {outer : List ContainerScope} (h : (g.stack fields newer inner).containers = c :: outer) :
    newer = [] ∧ outer = g.outer ∧
        c = { g.container.declareAll fields with routines := inner ++ g.container.routines } ∨
      ∃ more, newer = c :: more ∧ outer = (g.stack fields more inner).containers := by
  cases newer with
  | nil =>
    cases h
    exact .inl ⟨rfl, rfl, rfl⟩
  | cons newest more =>
    cases h
    exact .inr ⟨more, rfl, rfl⟩

theorem holds_innermost {newer : List ContainerScope} {inner : List RoutineScope}
    {c c' : ContainerScope} {outer : List ContainerScope} (hguarded : g.guarded ≤ inner.length)
    (h : (g.stack fields newer inner).containers = c :: outer)
    (hc : newer = [] → ∃ inner', g.guarded ≤ inner'.length ∧
      c' = { g.container.declareAll fields with routines := inner' ++ g.container.routines }) :
    g.Holds fields ⟨c' :: outer, g.firstSlot⟩ := by
  rcases stack_cases h with ⟨rfl, rfl, rfl⟩ | ⟨more, rfl, rfl⟩
  · obtain ⟨inner', hle, rfl⟩ := hc rfl
    exact .intro [] inner' hle
  · exact .intro (c' :: more) inner hguarded

theorem keepOutermost_stack {newer : List ContainerScope} {inner : List RoutineScope} {n : Nat}
    (hn : g.outer.length < n) :
    keepOutermost n (g.stack fields newer inner).containers =
      (g.stack fields (keepOutermost (n - (g.outer.length + 1)) newer) inner).containers :=
  keepOutermost_append_of_le newer hn

theorem keepRoutines_stack {inner : List RoutineScope} {k : Nat}
    (hk : g.container.routines.length ≤ k) :
    ((g.stack fields [] inner).containers.modifyHead
        fun c => { c with routines := keepOutermost k c.routines }) =
      (g.stack fields [] (keepOutermost (k - g.container.routines.length) inner)).containers := by
  simp only [stack, List.nil_append, List.modifyHead_cons, keepOutermost_append_of_le inner hk]

theorem holds_declareField {s t : ScopeStack} {field : String} {new : Bool}
    (hs : g.Holds fields s) (h : (ScopeStack.declareField field).run s = .ok new t) :
    g.Holds (fields ++ Moment.declaredAt (g.outer.length + 1) ⟨s, .declare field⟩) t := by
  obtain ⟨newer, inner, hle⟩ := hs
  rw [Moment.declaredAt]
  dsimp only
  cases newer with
  | nil =>
    have hdeclared : g.stack (fields ++ [field]) [] inner = t := by
      cases h
      rw [stack, ContainerScope.declareAll_concat, ← ContainerScope.declareField_withRoutines]
      rfl
    rw [if_pos (by rw [depth_stack, List.length_nil, Nat.zero_add]), ← hdeclared]
    exact .intro [] inner hle
  | cons newest more =>
    rw [if_neg (by rw [depth_stack, List.length_cons]; omega), List.append_nil]
    cases h
    exact .intro ((newest.declareField field).2 :: more) inner hle

theorem holds_unwindContainers {s : ScopeStack} {n : Nat} (hs : g.Holds fields s)
    (hn : g.outer.length < n) : g.Holds fields (s.unwindContainers n) := by
  obtain ⟨newer, inner, hle⟩ := hs
  rw [ScopeStack.unwindContainers, keepOutermost_stack hn]
  exact .intro _ inner hle

theorem holds_unwindRoutines {s : ScopeStack} {n k : Nat} (hs : g.Holds fields s)
    (hn : g.outer.length < n)
    (hk : n = g.outer.length + 1 → g.guarded + g.container.routines.length ≤ k) :
    g.Holds fields (s.unwindRoutines n k) := by
  obtain ⟨newer, inner, hle⟩ := hs
  rw [ScopeStack.unwindRoutines_eq, keepOutermost_stack hn]
  split
  · exact .intro _ inner hle
  · rename_i hlength
    cases hkept : keepOutermost (n - (g.outer.length + 1)) newer with
    | cons newest more => exact .intro (_ :: more) inner hle
    | nil =>
      -- The container around the guarded scope is the innermost one of those that are kept.
      have hdepth : (g.stack fields [] inner).containers.length = _ := depth_stack [] inner
      rw [hkept, hdepth, List.length_nil] at hlength
      have hk := hk (by omega)
      rw [keepRoutines_stack (by omega)]
      exact .intro [] _ (by rw [length_keepOutermost]; omega)

end Guard

open Guard

theorem Becomes.holds {g : Guard} {fields : List String} {s t : ScopeStack} {change : Change}
    (h : Becomes s change t) (hs : g.Holds fields s) (hallow : g.Allows ⟨s, change⟩) :
    g.Holds (fields ++ Moment.declaredAt (g.outer.length + 1) ⟨s, change⟩) t := by
  obtain ⟨newer, inner, hle⟩ := hs
  cases change with
  | openContainer name =>
    cases h
    rw [Moment.declaredAt, List.append_nil]
    exact .intro (.new name :: newer) inner hle
  | closeContainer name =>
    obtain ⟨c, -, hroutines, hs⟩ := h.closeContainer_ok
    have hc := congrArg ScopeStack.containers hs
    have hfirst := congrArg ScopeStack.firstSlot hs
    rw [Moment.declaredAt, List.append_nil]
    rcases stack_cases hc with ⟨rfl, -, rfl⟩ | ⟨more, rfl, houter⟩
    · -- What is closed would be the guarded container, or the one around the guarded routine.
      obtain ⟨rfl, -⟩ := List.append_eq_nil_iff.1 hroutines
      exact absurd (lt_length_of_height_lt hallow) (Nat.not_lt_zero _)
    · cases t
      cases houter
      cases hfirst
      exact .intro more inner hle
  | openRoutine name =>
    obtain ⟨c, outer, hc, rfl⟩ := h.openRoutine_ok
    rw [Moment.declaredAt, List.append_nil]
    refine holds_innermost hle hc fun hnewer => ?_
    subst hnewer
    cases hc
    exact ⟨.new name g.firstSlot :: inner, Nat.le_succ_of_le hle, rfl⟩
  | closeRoutine name =>
    obtain ⟨c, r, routines, outer, -, hc, hr, rfl⟩ := h.closeRoutine_ok
    rw [Moment.declaredAt, List.append_nil]
    refine holds_innermost hle hc fun hnewer => ?_
    subst hnewer
    cases hc
    have hmore := lt_length_of_height_lt hallow
    cases inner with
    | nil => cases hmore
    | cons _ inner' =>
      cases hr
      exact ⟨inner', Nat.le_of_lt_succ hmore, rfl⟩
  | resolve ref =>
    obtain ⟨c, r, routines, outer, hc, hr, -, rfl⟩ := h.resolve_ok
    rw [Moment.declaredAt, List.append_nil]
    refine holds_innermost hle hc fun hnewer => ?_
    subst hnewer
    cases hc
    cases inner with
    | nil =>
      -- Below a guarded container there are no routines that it could be.
      rw [g.routines_eq_nil (Nat.le_zero.1 hle)] at hr
      cases hr
    | cons _ inner' =>
      cases hr
      exact ⟨r.note ref :: inner', hle, rfl⟩
  | declare field =>
    cases h with
    | declare h => exact holds_declareField ⟨newer, inner, hle⟩ h
  | unwindContainers n =>
    cases h
    rw [Moment.declaredAt, List.append_nil]
    exact holds_unwindContainers ⟨newer, inner, hle⟩ hallow
  | unwindRoutines n k =>
    cases h
    rw [Moment.declaredAt, List.append_nil]
    exact holds_unwindRoutines ⟨newer, inner, hle⟩ hallow.1 hallow.2

theorem Happens.holds {g : Guard} {fields : List String} {s t : ScopeStack}
    {moments : List Moment} (h : Happens s moments t) (hs : g.Holds fields s)
    (hallow : ∀ m ∈ moments, g.Allows m) :
    g.Holds (fields ++ moments.flatMap (Moment.declaredAt (g.outer.length + 1))) t := by
  induction h generalizing fields with
  | nil => simpa using hs
  | cons hchange _ ih =>
    obtain ⟨hfirst, hrest⟩ := List.forall_mem_cons.1 hallow
    rw [List.flatMap_cons, ← List.append_assoc]
    exact ih (hchange.holds hs hfirst) hrest

namespace Guard

variable {g : Guard} {fields : List String} {s : ScopeStack}

theorem allows_of_not_unwinding {m : Moment} (hunwinding : m.change.isUnwinding = false)
    (hexit : m.change.isExit → g.height < m.stack.openScopes.length) : g.Allows m := by
  obtain ⟨s, change⟩ := m
  cases change with
  | closeContainer _ | closeRoutine _ => exact hexit rfl
  | unwindContainers _ | unwindRoutines _ _ => cases hunwinding
  | _ => trivial

theorem allows_changed {α : Type} {change : Change} {result : EStateM.Result Error ScopeStack α}
    (hunwinding : change.isUnwinding = false)
    (hexits : ∀ m ∈ changed s change result, m.change.isExit →
      g.height < m.stack.openScopes.length) : ∀ m ∈ changed s change result, g.Allows m := by
  cases result with
  | error e t => exact nofun
  | ok a t =>
    intro m hm
    refine allows_of_not_unwinding ?_ (hexits m hm)
    cases List.mem_singleton.1 hm
    exact hunwinding

theorem allows_slotMoments (stem : String) (position count : Nat) (s : ScopeStack) :
    ∀ m ∈ slotMoments stem position count s, g.Allows m := by
  induction count generalizing position s with
  | zero => exact List.forall_mem_nil _
  | succ more ih =>
    rw [slotMoments]
    split
    · exact List.forall_mem_cons.2 ⟨trivial, ih _ _⟩
    · exact List.forall_mem_nil _

theorem Holds.allows_unwinding (hs : g.Holds fields s) (t : ScopeStack) :
    g.Allows ⟨t, .unwindContainers s.depth⟩ ∧
      g.Allows ⟨t, .unwindRoutines s.depth s.routineDepth⟩ := by
  obtain ⟨newer, inner, hle⟩ := hs
  have hdepth : (g.stack fields newer inner).depth = _ := depth_stack newer inner
  refine ⟨?_, ?_, fun heq => ?_⟩
  · rw [Allows, hdepth]
    omega
  · rw [hdepth]
    omega
  · rw [hdepth] at heq
    cases newer with
    | cons newest more =>
      rw [List.length_cons] at heq
      omega
    | nil =>
      simp only [stack, ScopeStack.routineDepth, ScopeStack.container?, List.nil_append,
        List.head?_cons, Option.map_some, Option.getD_some, List.length_append]
      omega

end Guard

mutual
theorem Step.allows {g : Guard} {fields : List String} {s : ScopeStack} (hs : g.Holds fields s)
    (step : Step)
    (hexits : ∀ m ∈ step.moments s, m.change.isExit → g.height < m.stack.openScopes.length) :
    ∀ m ∈ step.moments s, g.Allows m := by
  cases step with
  | enterContainer name => exact List.forall_mem_singleton.2 trivial
  | exitContainer name => exact allows_changed rfl hexits
  | enterRoutine name => exact allows_changed rfl hexits
  | exitRoutine name => exact allows_changed rfl hexits
  | slot v => exact allows_changed rfl hexits
  | slots stem count => exact allows_slotMoments stem 0 count s
  | field name => exact allows_changed rfl hexits
  | label l => exact allows_changed rfl hexits
  | inContainer name steps =>
    rw [Step.moments, List.forall_mem_append, List.forall_mem_cons] at hexits ⊢
    have hopened := (Becomes.openContainer name).holds hs trivial
    exact ⟨⟨trivial, allows_all hopened steps hexits.1.2⟩,
      List.forall_mem_singleton.2 (hs.allows_unwinding _).1⟩
  | inRoutine name steps =>
    rw [Step.moments] at hexits ⊢
    cases henter : (ScopeStack.enterRoutine name).run s with
    | error e t => exact nofun
    | ok _ inside =>
      simp only [henter] at hexits ⊢
      rw [List.forall_mem_append, List.forall_mem_cons] at hexits ⊢
      have hopened := (Becomes.openRoutine henter).holds hs trivial
      exact ⟨⟨trivial, allows_all hopened steps hexits.1.2⟩,
        List.forall_mem_singleton.2 (hs.allows_unwinding _).2⟩

theorem allows_all {g : Guard} {fields : List String} {s : ScopeStack} (hs : g.Holds fields s)
    (steps : List Step)
    (hexits : ∀ m ∈ momentsAll steps s, m.change.isExit → g.height < m.stack.openScopes.length) :
    ∀ m ∈ momentsAll steps s, g.Allows m := by
  cases steps with
  | nil => exact nofun
  | cons step rest =>
    rw [momentsAll, List.forall_mem_append] at hexits ⊢
    have hfirst := Step.allows hs step hexits.1
    exact ⟨hfirst, allows_all ((step.happens s).holds hs hfirst) rest hexits.2⟩
end

theorem Guard.holds_runAll {g : Guard} (inner : List RoutineScope) {steps : List Step}
    (hguarded : g.guarded = inner.length) (h : KeepsInnermost (g.stack [] [] inner) steps) :
    g.Holds (declaredInnermost (g.stack [] [] inner) steps)
      (runAll steps (g.stack [] [] inner)).2 := by
  have hheight : (g.stack [] [] inner).openScopes.length = g.height := by
    rw [length_openScopes_stack, height, hguarded]
    simp
  have hopened : g.Holds [] (g.stack [] [] inner) := .intro [] inner (Nat.le_of_eq hguarded)
  rw [KeepsInnermost, hheight] at h
  rw [declaredInnermost, depth_stack, List.length_nil, Nat.zero_add]
  exact (happens_runAll _ steps).holds hopened (allows_all hopened steps h)

theorem Guard.unwindContainers_stack {g : Guard} {fields : List String}
    (newer : List ContainerScope) (inner : List RoutineScope) :
    (g.stack fields newer inner).unwindContainers g.outer.length = ⟨g.outer, g.firstSlot⟩ := by
  rw [ScopeStack.unwindContainers, stack, List.append_cons]
  dsimp only
  rw [keepOutermost_append]

theorem Guard.unwindRoutines_stack {g : Guard} {fields : List String}
    (newer : List ContainerScope) (inner : List RoutineScope) :
    (g.stack fields newer inner).unwindRoutines (g.outer.length + 1)
        g.container.routines.length =
      ⟨{ g.container.declareAll fields with routines := g.container.routines } :: g.outer,
        g.firstSlot⟩ := by
  have hkept : keepOutermost (g.outer.length + 1) (g.stack fields newer inner).containers = _ :=
    keepOutermost_append newer _
  rw [ScopeStack.unwindRoutines_eq, hkept, List.length_cons, if_neg (Nat.lt_irrefl _),
    List.modifyHead_cons, keepOutermost_append]
  rfl

theorem inContainer_restores {s : ScopeStack} {name : String} {steps : List Step}
    (h : KeepsInnermost (s.enterContainer name) steps) :
    ((Step.inContainer name steps).run s).2 = s := by
  let g : Guard := ⟨.new name, s.containers, s.firstSlot, 0, fun _ => rfl⟩
  have hrun : g.Holds _ (runAll steps (s.enterContainer name)).2 :=
    g.holds_runAll [] rfl h
  rw [Step.run, ScopeStack.withContainer]
  dsimp only
  generalize (runAll steps (s.enterContainer name)).2 = t at hrun
  obtain ⟨newer, inner, -⟩ := hrun
  exact g.unwindContainers_stack newer inner

theorem inRoutine_restores {s inside : ScopeStack} {name : String} {steps : List Step}
    (henter : (ScopeStack.enterRoutine name).run s = .ok () inside)
    (h : KeepsInnermost inside steps) :
    ∃ c outer, s.containers = c :: outer ∧
      ((Step.inRoutine name steps).run s).2 =
        { s with
          containers :=
            { c with fields := (c.declareAll (declaredInnermost inside steps)).fields } ::
              outer } := by
  obtain ⟨c, outer, hc, rfl⟩ := ScopeStack.enterRoutine_ok henter
  refine ⟨c, outer, hc, ?_⟩
  let g : Guard := ⟨c, outer, s.firstSlot, 1, nofun⟩
  have hrun := g.holds_runAll [.new name s.firstSlot] rfl h
  have hstack : g.stack [] [] [.new name s.firstSlot] =
      ⟨{ c with routines := .new name s.firstSlot :: c.routines } :: outer, s.firstSlot⟩ := rfl
  have hdepth : s.depth = g.outer.length + 1 := by rw [ScopeStack.depth, hc, List.length_cons]
  have hroutines : s.routineDepth = g.container.routines.length := by
    rw [ScopeStack.routineDepth, ScopeStack.container?, hc]
    rfl
  rw [hstack] at hrun
  rw [Step.run, ScopeStack.run_withRoutine, henter, answer]
  generalize (runAll steps _).2 = t at hrun ⊢
  obtain ⟨newer, inner, -⟩ := hrun
  rw [hdepth, hroutines, Guard.unwindRoutines_stack, ContainerScope.declareAll_eq]

/-- Whatever is done under a guard, if the guarded scope itself is not exited then the end of the
guard restores the stack: for a container entirely, and for a routine but for the fields that were
declared while its container was the innermost one. -/
theorem guards_restore (s : ScopeStack) (name : String) (steps : List Step) :
    (KeepsInnermost (s.enterContainer name) steps →
      ((Step.inContainer name steps).run s).2 = s) ∧
    ∀ inside, (ScopeStack.enterRoutine name).run s = .ok () inside →
      KeepsInnermost inside steps →
      ∃ c outer fields, s.containers = c :: outer ∧
        ((Step.inRoutine name steps).run s).2 =
          { s with containers := { c with fields } :: outer } ∧
        c.fields <:+ fields ∧
        ∀ f, f ∈ fields ↔ f ∈ c.fields ∨ f ∈ declaredInnermost inside steps := by
  refine ⟨inContainer_restores, fun inside henter h => ?_⟩
  obtain ⟨c, outer, hc, hrestored⟩ := inRoutine_restores henter h
  exact ⟨c, outer, _, hc, hrestored, ContainerScope.suffix_declareAll,
    fun f => ContainerScope.mem_declareAll⟩

/-- The steps leave a routine and two containers open, one of them with a field of its own, exit an
inner routine and fail to exit another. -/
theorem guards_restore_left_open :
    let steps : List Step := [.field "lives", .slot ⟨"x"⟩, .inContainer "Turn" [.field "over"],
      .enterRoutine "helper", .exitRoutine "helper", .enterContainer "Piece", .field "kind",
      .enterRoutine "move", .exitContainer "Piece", .enterContainer "Board"]
    let s : ScopeStack := ⟨[⟨"Game", ["score"], [.new "main" 3]⟩], 3⟩
    ((Step.inContainer "play" (.enterRoutine "first" :: steps)).run s).2 = s ∧
    ∃ fields,
      ((Step.inRoutine "play" steps).run s).2 = ⟨[⟨"Game", fields, [.new "main" 3]⟩], 3⟩ ∧
      ∀ f, f ∈ fields ↔ f = "score" ∨ f = "lives" := by
  intro steps s
  let inside : ScopeStack := ⟨[⟨"Game", ["score"], [.new "play" 3, .new "main" 3]⟩], 3⟩
  have hcontainer : KeepsInnermost (s.enterContainer "play") (.enterRoutine "first" :: steps) := by
    decide
  have hroutine : KeepsInnermost inside steps := by decide
  have hdeclared : declaredInnermost inside steps = ["lives"] := by decide
  obtain ⟨c, outer, fields, hc, hrun, -, hmem⟩ :=
    (guards_restore s "play" steps).2 inside rfl hroutine
  cases hc
  refine ⟨(guards_restore s "play" _).1 hcontainer, fields, hrun, fun f => ?_⟩
  rw [hmem, hdeclared]
  simp

end Scope

end StackBackend
