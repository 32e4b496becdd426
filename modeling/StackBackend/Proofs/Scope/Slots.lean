import StackBackend.Proofs.Scope.History

/-!
# Slots and marks in every state of the scopes

What every open routine has been asked for since it was opened is told from the history of the
stack. The slots of its variables are those from the first slot on, and the marks of its labels are
those from 0 on, each in the order of the first requests. As long as a routine stays open, a name
keeps its slot or mark, whatever is opened and closed in between.
-/
namespace StackBackend

open Code (Slot Mark)

namespace RoutineScope

/-- The scope of a routine that has been asked for the names `refs`, one after the other. -/
structure NumberedBy (r : RoutineScope) (firstSlot : UInt16) (refs : List Reference) : Prop where
  knows_iff : ∀ ref, r.Knows ref ↔ ref ∈ refs
  maxLocals_eq : r.maxLocals = firstSlot.toNat + r.slotCount
  maxLocals_le : r.maxLocals ≤ slotLimit
  slots_bijOn : Set.BijOn r.slotOf {v | r.Knows (.var v)}
    {slot | firstSlot.toNat ≤ slot.index.toNat ∧ slot.index.toNat < r.maxLocals}
  slots_inOrder : (variablesOf refs).map (fun v => (r.slotOf v).index.toNat) =
    List.range' firstSlot.toNat r.slotCount
  marks_bijOn : Set.BijOn r.markOf {l | r.Knows (.label l)} {mark | mark.id.toNat < r.labels.size}
  marks_inOrder : (labelsOf refs).map (fun l => (r.markOf l).id.toNat) = List.range r.labels.size
  slotFor_ok : ∀ v slot r', (slotFor v).run r = .ok slot r' → slot = r'.slotOf v ∧ r'.Extends r
  markFor_ok : ∀ l mark r', (markFor l).run r = .ok mark r' → mark = r'.markOf l ∧ r'.Extends r
  slotFor_fails : ∀ v, (∃ x r', (slotFor v).run r = .error x r') ↔
    .var v ∉ refs ∧ r.maxLocals = slotLimit

section

variable {r : RoutineScope} (hr : r.Fits) {vars : List Variable} (hvars : r.vars.Lists vars)
  {labels : List Label} (hlabels : r.labels.Lists labels)

include hr

section

include hvars

theorem Fits.toNat_slotOf_getElem {n : Nat} (hn : n < vars.length) :
    (r.slotOf vars[n]).index.toNat = r.firstSlot.toNat + n :=
  hr.toNat_slotOf ((hvars.get?_iff _ _).2 (List.getElem?_eq_getElem hn))

theorem Fits.slots_inOrder :
    vars.map (fun v => (r.slotOf v).index.toNat) = List.range' r.firstSlot.toNat r.slotCount := by
  apply List.ext_getElem
  · rw [List.length_map, List.length_range', slotCount, hvars.size_eq]
  · intro n hn _
    rw [List.length_map] at hn
    rw [List.getElem_map, List.getElem_range', hr.toNat_slotOf_getElem hvars hn, Nat.one_mul]

theorem Fits.slots_bijOn : Set.BijOn r.slotOf {v | r.Knows (.var v)}
    {slot | r.firstSlot.toNat ≤ slot.index.toNat ∧ slot.index.toNat < r.maxLocals} := by
  refine ⟨?_, fun v hv w hw => hr.slotOf_injective hv hw, ?_⟩
  · intro v hv
    obtain ⟨n, hv⟩ := Option.isSome_iff_exists.1 hv
    have hlt := hr.vars.lt_next hv
    rw [Set.mem_ofPred_eq, hr.toNat_slotOf hv, maxLocals]
    omega
  · intro slot hslot
    obtain ⟨hle, hlt⟩ := hslot
    rw [maxLocals, hvars.next_eq] at hlt
    have hn : slot.index.toNat - r.firstSlot.toNat < vars.length := by omega
    refine ⟨_, (hvars.isSome_iff _).2 (List.getElem_mem hn), ?_⟩
    have heq := hr.toNat_slotOf_getElem hvars hn
    rw [Nat.add_sub_cancel' hle] at heq
    cases slot
    exact congrArg Slot.mk (UInt16.toNat_inj.1 heq)

end

include hlabels

theorem Fits.toNat_markOf_getElem {n : Nat} (hn : n < labels.length) :
    (r.markOf labels[n]).id.toNat = n :=
  hr.toNat_markOf ((hlabels.get?_iff _ _).2 (List.getElem?_eq_getElem hn))

theorem Fits.marks_inOrder :
    labels.map (fun l => (r.markOf l).id.toNat) = List.range r.labels.size := by
  apply List.ext_getElem
  · rw [List.length_map, List.length_range, hlabels.size_eq]
  · intro n hn _
    rw [List.length_map] at hn
    rw [List.getElem_map, List.getElem_range, hr.toNat_markOf_getElem hlabels hn]

theorem Fits.marks_bijOn :
    Set.BijOn r.markOf {l | r.Knows (.label l)} {mark | mark.id.toNat < r.labels.size} := by
  refine ⟨?_, fun l hl k hk => hr.markOf_injective hl hk, ?_⟩
  · intro l hl
    obtain ⟨n, hl⟩ := Option.isSome_iff_exists.1 hl
    rw [Set.mem_ofPred_eq, hr.toNat_markOf hl, hr.labels.size_eq]
    exact hr.labels.lt_next hl
  · intro mark hmark
    rw [Set.mem_ofPred_eq, hlabels.size_eq] at hmark
    refine ⟨_, (hlabels.isSome_iff _).2 (List.getElem_mem hmark), ?_⟩
    have heq := hr.toNat_markOf_getElem hlabels hmark
    cases mark
    exact congrArg Mark.mk (UInt32.toNat_inj.1 heq)

end

theorem slotFor_error_iff (r : RoutineScope) (v : Variable) :
    (∃ x r', (slotFor v).run r = .error x r') ↔ ¬ r.Knows (.var v) ∧ slotLimit ≤ r.maxLocals := by
  rw [run_slotFor]
  cases hv : r.vars.get? v with
  | some number => simp [Knows, hv]
  | none => by_cases hfull : slotLimit ≤ r.maxLocals <;> simp [Knows, hv, hfull]

/-- The scope is the one that a new routine has when it has been asked for the names `refs`. -/
structure Follows (firstSlot : UInt16) (r : RoutineScope) (refs : List Reference) : Prop where
  eq_noteAll : r = (new r.name firstSlot).noteAll refs
  fits : r.Fits

variable {r : RoutineScope} {firstSlot : UInt16} {refs : List Reference}

theorem follows_new (name : String) (firstSlot : UInt16) :
    Follows firstSlot (new name firstSlot) [] :=
  ⟨rfl, fits_new name firstSlot⟩

theorem Follows.note (h : Follows firstSlot r refs) {ref : Reference}
    (hfits : r.Fits → (r.note ref).Fits) : Follows firstSlot (r.note ref) (refs ++ [ref]) := by
  refine ⟨?_, hfits h.fits⟩
  rw [r.name_note, noteAll_append, ← h.eq_noteAll]
  rfl

theorem Follows.numberedBy (h : Follows firstSlot r refs) : r.NumberedBy firstSlot refs := by
  obtain ⟨heq, hr⟩ := h
  have hfirst : r.firstSlot = firstSlot := by
    rw [heq, noteAll_eq]
    rfl
  have hknows : ∀ ref, r.Knows ref ↔ ref ∈ refs := by
    rw [heq]
    exact knows_noteAll_iff r.name firstSlot refs
  have hvars : r.vars.Lists (variablesOf refs) := heq ▸ lists_vars r.name firstSlot refs
  have hlabels : r.labels.Lists (labelsOf refs) := heq ▸ lists_labels r.name firstSlot refs
  subst hfirst
  refine
    { knows_iff := hknows
      maxLocals_eq := by rw [maxLocals, slotCount, hr.vars.size_eq]
      maxLocals_le := hr.maxLocals_le
      slots_bijOn := hr.slots_bijOn hvars
      slots_inOrder := hr.slots_inOrder hvars
      marks_bijOn := hr.marks_bijOn hlabels
      marks_inOrder := hr.marks_inOrder hlabels
      slotFor_ok := fun v slot r' hslot => ?_
      markFor_ok := fun l mark r' hmark => ?_
      slotFor_fails := fun v => ?_ }
  · obtain ⟨rfl, hslot, -⟩ := RoutineScope.slotFor_ok hslot
    exact ⟨hslot, r.extends_note _⟩
  · obtain ⟨rfl, hmark, -⟩ := RoutineScope.markFor_ok hmark
    exact ⟨hmark, r.extends_note _⟩
  · have hle := hr.maxLocals_le
    rw [slotFor_error_iff, hknows]
    apply and_congr_right'
    omega

end RoutineScope

/-- The routine at a place, where containers and their routines are counted from the outermost. -/
def ScopeStack.routineAt (s : ScopeStack) (i j : Nat) : Option RoutineScope :=
  s.containers.reverse[i]?.bind (·.routines.reverse[j]?)

namespace Scope

open ScopeStack (keepOutermost suffix_keepOutermost)

/-- The names that every open routine has been asked for since it was opened, laid out as the open
scopes are. -/
abbrev Requests := List (List (List Reference))

def Requests.after (requests : Requests) : Change → Requests
  | .openContainer _ => [] :: requests
  | .closeContainer _ => requests.tail
  | .openRoutine _ => requests.modifyHead ([] :: ·)
  | .closeRoutine _ => requests.modifyHead List.tail
  | .resolve ref => requests.modifyHead (·.modifyHead (· ++ [ref]))
  | .declare _ => requests
  | .unwindContainers n => keepOutermost n requests
  | .unwindRoutines n m =>
    if (keepOutermost n requests).length < n then keepOutermost n requests
    else (keepOutermost n requests).modifyHead (keepOutermost m)

def requestsOf (changes : List Change) : Requests := changes.foldl Requests.after []

def Tracked (firstSlot : UInt16) (containers : List ContainerScope) (requests : Requests) : Prop :=
  List.Forall₂ (fun c routines => List.Forall₂ (RoutineScope.Follows firstSlot) c.routines routines)
    containers requests

section

variable {α β : Type} {R : α → β → Prop} {l : List α} {l' : List β}

theorem forall₂_keepOutermost (h : List.Forall₂ R l l') (n : Nat) :
    List.Forall₂ R (keepOutermost n l) (keepOutermost n l') := by
  rw [keepOutermost, keepOutermost, h.length_eq]
  exact List.forall₂_drop _ h

theorem forall₂_modifyHead (h : List.Forall₂ R l l') {f : α → α} {g : β → β}
    (hfg : ∀ a b, R a b → R (f a) (g b)) : List.Forall₂ R (l.modifyHead f) (l'.modifyHead g) := by
  cases h with
  | nil => exact .nil
  | cons hhead htail => exact .cons (hfg _ _ hhead) htail

end

theorem Becomes.tracked {firstSlot : UInt16} {s t : ScopeStack} {change : Change}
    {requests : Requests} (h : Becomes s change t) (hfirst : s.firstSlot = firstSlot)
    (hs : Tracked firstSlot s.containers requests) :
    t.firstSlot = firstSlot ∧ Tracked firstSlot t.containers (requests.after change) := by
  cases change with
  | openContainer name =>
    cases h
    exact ⟨hfirst, .cons .nil hs⟩
  | closeContainer name =>
    obtain ⟨c, -, -, rfl⟩ := h.closeContainer_ok
    cases hs with
    | cons _ houter => exact ⟨hfirst, houter⟩
  | openRoutine name =>
    obtain ⟨c, outer, hc, rfl⟩ := h.openRoutine_ok
    rw [hc] at hs
    cases hs with
    | cons hroutines houter =>
      rw [hfirst]
      exact ⟨rfl, .cons (.cons (RoutineScope.follows_new _ _) hroutines) houter⟩
  | closeRoutine name =>
    obtain ⟨c, r, routines, outer, -, hc, hr, rfl⟩ := h.closeRoutine_ok
    rw [hc] at hs
    cases hs with
    | cons hroutines houter =>
      rw [hr] at hroutines
      cases hroutines with
      | cons _ hrest => exact ⟨hfirst, .cons hrest houter⟩
  | resolve ref =>
    obtain ⟨c, r, routines, outer, hc, hr, hfits, rfl⟩ := h.resolve_ok
    rw [hc] at hs
    cases hs with
    | cons hroutines houter =>
      rw [hr] at hroutines
      cases hroutines with
      | cons hinner hrest => exact ⟨hfirst, .cons (.cons (hinner.note hfits) hrest) houter⟩
  | declare field =>
    obtain ⟨c, fields, outer, hc, rfl⟩ := h.declare_ok
    rw [hc] at hs
    cases hs with
    | cons hroutines houter => exact ⟨hfirst, .cons hroutines houter⟩
  | unwindContainers n =>
    cases h
    exact ⟨hfirst, forall₂_keepOutermost hs n⟩
  | unwindRoutines n m =>
    cases h
    have hkept := forall₂_keepOutermost hs n
    rw [ScopeStack.unwindRoutines_eq, Tracked, Requests.after, hkept.length_eq]
    refine ⟨hfirst, ?_⟩
    dsimp only
    split
    · exact hkept
    · exact forall₂_modifyHead hkept fun c routines h => forall₂_keepOutermost h m

theorem History.tracked {firstSlot : UInt16} {changes : List Change} {t : ScopeStack}
    (h : History (.new firstSlot) changes t) :
    t.firstSlot = firstSlot ∧ Tracked firstSlot t.containers (requestsOf changes) := by
  induction h with
  | start => exact ⟨rfl, .nil⟩
  | step _ hchange ih =>
    rw [requestsOf, List.foldl_append]
    exact hchange.tracked ih.1 ih.2

/-- The elements at the same place in both lists, counted from the end, stand in the relation. -/
def Aligned {α : Type} (R : α → α → Prop) (l l' : List α) : Prop :=
  ∀ (i : Nat) (a b : α), l.reverse[i]? = some a → l'.reverse[i]? = some b → R a b

section

variable {α : Type} {R : α → α → Prop} (hR : ∀ a, R a a)
include hR

theorem aligned_cons (a : α) (l : List α) : Aligned R l (a :: l) := by
  intro i b c hb hc
  obtain ⟨hi, -⟩ := List.getElem?_eq_some_iff.1 hb
  rw [List.reverse_cons, List.getElem?_append_left hi, hb] at hc
  cases hc
  exact hR b

theorem aligned_head {a b : α} (hab : R a b) (l : List α) : Aligned R (a :: l) (b :: l) := by
  intro i c d hc hd
  rw [List.reverse_cons] at hc hd
  by_cases hi : i < l.reverse.length
  · rw [List.getElem?_append_left hi] at hc hd
    rw [hc] at hd
    cases hd
    exact hR c
  · rw [List.getElem?_append_right (by omega)] at hc hd
    cases hn : i - l.reverse.length with
    | zero =>
      rw [hn] at hc hd
      cases hc
      cases hd
      exact hab
    | succ n =>
      rw [hn] at hc
      cases hc

omit hR in
theorem Aligned.of_suffix {l k k' : List α} (hk : k <:+ l) (hlength : k'.length = k.length)
    (h : Aligned R k k') : Aligned R l k' := by
  intro i a b ha hb
  obtain ⟨front, rfl⟩ := hk
  obtain ⟨hi, -⟩ := List.getElem?_eq_some_iff.1 hb
  rw [List.length_reverse, hlength] at hi
  rw [List.reverse_append, List.getElem?_append_left (by rwa [List.length_reverse])] at ha
  exact h i a b ha hb

theorem aligned_suffix {l k : List α} (hk : k <:+ l) : Aligned R l k := by
  refine Aligned.of_suffix hk rfl fun i a b ha hb => ?_
  rw [ha] at hb
  cases hb
  exact hR a

end

structure LaterRoutine (r r' : RoutineScope) : Prop where
  name_eq : r'.name = r.name
  extends_names : r'.Extends r

def LaterContainer (c c' : ContainerScope) : Prop :=
  Aligned LaterRoutine c.routines c'.routines

theorem LaterRoutine.refl (r : RoutineScope) : LaterRoutine r r := ⟨rfl, .refl r⟩

theorem LaterContainer.refl (c : ContainerScope) : LaterContainer c c :=
  aligned_suffix LaterRoutine.refl (List.suffix_refl _)

theorem Becomes.aligned {s t : ScopeStack} {change : Change} (h : Becomes s change t) :
    Aligned LaterContainer s.containers t.containers := by
  have hsuffix : ∀ {c : ContainerScope} {fields : List String} {routines : List RoutineScope},
      routines <:+ c.routines → LaterContainer c ⟨c.name, fields, routines⟩ :=
    aligned_suffix LaterRoutine.refl
  cases change with
  | openContainer name =>
    cases h
    exact aligned_cons LaterContainer.refl _ _
  | closeContainer name =>
    obtain ⟨c, -, -, rfl⟩ := h.closeContainer_ok
    exact aligned_suffix LaterContainer.refl (List.suffix_cons _ _)
  | openRoutine name =>
    obtain ⟨c, outer, hc, rfl⟩ := h.openRoutine_ok
    have hopened : LaterContainer c
        { c with routines := .new name s.firstSlot :: c.routines } :=
      aligned_cons LaterRoutine.refl _ _
    rw [hc]
    exact aligned_head LaterContainer.refl hopened outer
  | closeRoutine name =>
    obtain ⟨c, r, routines, outer, -, hc, hr, rfl⟩ := h.closeRoutine_ok
    rw [hc]
    exact aligned_head LaterContainer.refl (hsuffix (hr ▸ List.suffix_cons r routines)) outer
  | resolve ref =>
    obtain ⟨c, r, routines, outer, hc, hr, -, rfl⟩ := h.resolve_ok
    have hnote : LaterRoutine r (r.note ref) := ⟨r.name_note ref, r.extends_note ref⟩
    rw [hc]
    apply aligned_head LaterContainer.refl
    rw [LaterContainer, hr]
    exact aligned_head LaterRoutine.refl hnote routines
  | declare field =>
    obtain ⟨c, fields, outer, hc, rfl⟩ := h.declare_ok
    rw [hc]
    exact aligned_head LaterContainer.refl (hsuffix (List.suffix_refl c.routines)) outer
  | unwindContainers n =>
    cases h
    exact aligned_suffix LaterContainer.refl (suffix_keepOutermost n _)
  | unwindRoutines n m =>
    cases h
    have hkept := suffix_keepOutermost n s.containers
    rw [ScopeStack.unwindRoutines_eq]
    dsimp only
    split
    · exact aligned_suffix LaterContainer.refl hkept
    · refine Aligned.of_suffix hkept (List.length_modifyHead ..) ?_
      cases keepOutermost n s.containers with
      | nil => exact aligned_suffix LaterContainer.refl (List.suffix_refl [])
      | cons c outer =>
        exact aligned_head LaterContainer.refl (hsuffix (suffix_keepOutermost m c.routines)) outer

/-- The routine at the place `i`, `j` is open from `s` on to the end of the history. -/
inductive StaysOpen (i j : Nat) (s : ScopeStack) : List Change → ScopeStack → Prop
  | start : (s.routineAt i j).isSome → StaysOpen i j s [] s
  | step {changes : List Change} {change : Change} {t u : ScopeStack} :
      StaysOpen i j s changes t → Becomes t change u → (u.routineAt i j).isSome →
        StaysOpen i j s (changes ++ [change]) u

theorem Becomes.laterRoutine {s t : ScopeStack} {change : Change} (h : Becomes s change t)
    {i j : Nat} {r r' : RoutineScope} (hr : s.routineAt i j = some r)
    (hr' : t.routineAt i j = some r') : LaterRoutine r r' := by
  obtain ⟨c, hc, hr⟩ := Option.bind_eq_some_iff.1 hr
  obtain ⟨c', hc', hr'⟩ := Option.bind_eq_some_iff.1 hr'
  exact h.aligned i c c' hc hc' j r r' hr hr'

theorem StaysOpen.laterRoutine {s t : ScopeStack} {changes : List Change} {i j : Nat}
    (h : StaysOpen i j s changes t) {r : RoutineScope} (hr : s.routineAt i j = some r) :
    ∃ r', t.routineAt i j = some r' ∧ LaterRoutine r r' := by
  induction h with
  | start => exact ⟨r, hr, .refl r⟩
  | step _ hchange hopen ih =>
    obtain ⟨r₁, hr₁, hlater⟩ := ih
    obtain ⟨r₂, hr₂⟩ := Option.isSome_iff_exists.1 hopen
    have hnext := hchange.laterRoutine hr₁ hr₂
    exact ⟨r₂, hr₂, hnext.name_eq.trans hlater.name_eq,
      hnext.extends_names.trans hlater.extends_names⟩

/-- In every state that operations and guards can bring about, the scope of every open routine is
numbered by the names that the routine has been asked for since it was opened. Whatever is done
next leads to such a state again, and as long as a routine stays open, its names keep their slots
and marks. -/
theorem History.numbers_open_routines {firstSlot : UInt16} {changes : List Change} {t : ScopeStack}
    (h : History (.new firstSlot) changes t) :
    List.Forall₂ (fun c routines =>
        List.Forall₂ (fun r refs => r.NumberedBy firstSlot refs) c.routines routines)
      t.containers (requestsOf changes) ∧
    (∀ steps, ∃ more, History (.new firstSlot) (changes ++ more) (runAll steps t).2) ∧
    ∀ i j more u, StaysOpen i j t more u → ∀ r, t.routineAt i j = some r →
      ∃ r', u.routineAt i j = some r' ∧ r'.name = r.name ∧ r'.Extends r := by
  refine ⟨?_, fun steps => ?_, fun i j more u hopen r hr => ?_⟩
  · apply h.tracked.2.imp
    intro c routines hroutines
    exact hroutines.imp fun r refs hr => hr.numberedBy
  · obtain ⟨more, hmore⟩ := exists_history_runAll t steps
    exact ⟨more, h.trans hmore⟩
  · obtain ⟨r', hr', hlater⟩ := hopen.laterRoutine hr
    exact ⟨r', hr', hlater.name_eq, hlater.extends_names⟩

theorem numbers_open_routines_resumed :
    ∃ t c r, History (.new 65534)
        [.openContainer "C", .openRoutine "m", .resolve (.var ⟨"x"⟩), .resolve (.label ⟨7⟩),
          .openContainer "D", .openRoutine "k", .resolve (.var ⟨"y"⟩), .unwindContainers 1,
          .resolve (.var ⟨"y"⟩), .resolve (.var ⟨"x"⟩)] t ∧
      t.containers = [c] ∧ c.routines = [r] ∧
      r.NumberedBy 65534 [.var ⟨"x"⟩, .label ⟨7⟩, .var ⟨"y"⟩, .var ⟨"x"⟩] ∧
      r.slotOf ⟨"x"⟩ = ⟨65534⟩ ∧ r.slotOf ⟨"y"⟩ = ⟨65535⟩ ∧
      ∃ x r', (RoutineScope.slotFor ⟨"z"⟩).run r = .error x r' := by
  have hopened := (History.start (s := .new 65534)).step (.openContainer "C")
  have hentered := hopened.step
    (.openRoutine (show (ScopeStack.enterRoutine "m").run _ = _ from rfl))
  have hasked := (hentered.step (.slot (v := ⟨"x"⟩) rfl)).step (.mark (l := ⟨7⟩) rfl)
  -- Another class is opened with a routine of its own, and both are closed by the end of a guard.
  have hinside := (hasked.step (.openContainer "D")).step
    (.openRoutine (show (ScopeStack.enterRoutine "k").run _ = _ from rfl))
  have hclosed := (hinside.step (.slot (v := ⟨"y"⟩) rfl)).step (.unwindContainers 1)
  have h := (hclosed.step (.slot (v := ⟨"y"⟩) rfl)).step (.slot (v := ⟨"x"⟩) rfl)
  obtain ⟨hall, -, -⟩ := h.numbers_open_routines
  cases hall with
  | cons hroutines _ =>
    cases hroutines with
    | cons hr _ =>
      exact ⟨_, _, _, h, rfl, rfl, hr, rfl, rfl, (hr.slotFor_fails _).2 ⟨by decide, rfl⟩⟩

end Scope

end StackBackend
