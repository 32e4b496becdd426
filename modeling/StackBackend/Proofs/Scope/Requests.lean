import StackBackend.Proofs.Scope.Slots

/-!
# Requests to the scope of one routine

A routine scope that is used on its own is asked for names in any order and any number of times, and
goes on after a refusal. A request for a label is never refused: the labels that have marks are
distinct, and there are as many marks as there are labels. A variable is refused only when it is new
and all slots are taken, and then it is refused for ever.
-/
namespace StackBackend

open Code (Slot Mark)
open Scope (Answer)

namespace RoutineScope

def request (r : RoutineScope) : Reference → Answer × RoutineScope
  | .var v => Scope.answer .slot ((slotFor v).run r)
  | .label l => Scope.answer .mark ((markFor l).run r)

def requests (r : RoutineScope) : List Reference → List Answer × RoutineScope
  | [] => ([], r)
  | ref :: rest =>
    let (first, r) := r.request ref
    let (answers, r) := r.requests rest
    (first :: answers, r)

/-- What a request has been answered with, told by the scope that the routine has in the end. -/
inductive Answers (r : RoutineScope) : Reference → Answer → Prop where
  | slot {v : Variable} : r.Knows (.var v) → r.Answers (.var v) (.slot (r.slotOf v))
  | mark {l : Label} : r.Knows (.label l) → r.Answers (.label l) (.mark (r.markOf l))
  | full {v : Variable} : ¬ r.Knows (.var v) → r.maxLocals = slotLimit →
      r.Answers (.var v) (.failed (.tooManyLocals r.name))

/-- The scope `s` may come after `r`. Once all slots are taken, there are no new variables. -/
structure Follower (s r : RoutineScope) : Prop where
  name_eq : s.name = r.name
  extends_names : s.Extends r
  vars_eq : r.maxLocals = slotLimit → s.vars = r.vars

theorem Follower.refl (r : RoutineScope) : r.Follower r := ⟨rfl, .refl r, fun _ => rfl⟩

theorem Follower.maxLocals_eq {s r : RoutineScope} (h : s.Follower r)
    (hr : r.maxLocals = slotLimit) : s.maxLocals = slotLimit := by
  rw [← hr, maxLocals, maxLocals, h.vars_eq hr, h.extends_names.firstSlot]

theorem Follower.trans {r s t : RoutineScope} (hts : t.Follower s) (hsr : s.Follower r) :
    t.Follower r where
  name_eq := hts.name_eq.trans hsr.name_eq
  extends_names := hts.extends_names.trans hsr.extends_names
  vars_eq hr := (hts.vars_eq (hsr.maxLocals_eq hr)).trans (hsr.vars_eq hr)

theorem Answers.later {r s : RoutineScope} {ref : Reference} {a : Answer} (h : r.Answers ref a)
    (hs : s.Follower r) : s.Answers ref a := by
  cases h with
  | slot hv =>
    rw [← hs.extends_names.slotOf_eq hv]
    exact .slot (hs.extends_names.knows hv)
  | mark hl =>
    rw [← hs.extends_names.markOf_eq hl]
    exact .mark (hs.extends_names.knows hl)
  | full hv hr =>
    rw [← hs.name_eq]
    refine .full ?_ (hs.maxLocals_eq hr)
    rwa [Knows, hs.vars_eq hr]

theorem slotFor_error_eq {r r' : RoutineScope} {v : Variable} {x : Error}
    (h : (slotFor v).run r = .error x r') : x = .tooManyLocals r.name := by
  rw [run_slotFor] at h
  split at h
  · cases h
  · split at h
    · cases h
      rfl
    · cases h

theorem markFor_error_iff (r : RoutineScope) (l : Label) :
    (∃ x r', (markFor l).run r = .error x r') ↔
      ¬ r.Knows (.label l) ∧ markLimit ≤ r.labels.next := by
  rw [run_markFor]
  cases hl : r.labels.get? l with
  | some number => simp [Knows, hl]
  | none => by_cases hfull : markLimit ≤ r.labels.next <;> simp [Knows, hl, hfull]

section

variable {r : RoutineScope} {firstSlot : UInt16} {refs : List Reference}
  (h : Follows firstSlot r refs)
include h

theorem Follows.lists_labels : r.labels.Lists (labelsOf refs) :=
  h.eq_noteAll ▸ RoutineScope.lists_labels r.name firstSlot refs

theorem Follows.labels_next_lt {l : Label} (hl : ¬ r.Knows (.label l)) :
    r.labels.next < markLimit := by
  have hnew : l ∉ labelsOf refs := by rwa [← h.lists_labels.isSome_iff]
  have hle := length_le_markLimit (List.nodup_cons.2 ⟨hnew, h.lists_labels.nodup⟩)
  rwa [List.length_cons, ← h.lists_labels.next_eq] at hle

theorem Follows.markFor_eq (l : Label) :
    (markFor l).run r = .ok ((r.note (.label l)).markOf l) (r.note (.label l)) := by
  cases hmark : (markFor l).run r with
  | ok mark s =>
    obtain ⟨rfl, rfl, -⟩ := markFor_ok hmark
    rfl
  | error x s =>
    obtain ⟨hl, hle⟩ := (r.markFor_error_iff l).1 ⟨x, s, hmark⟩
    have hlt := h.labels_next_lt hl
    omega

theorem Follows.note_label (l : Label) :
    Follows firstSlot (r.note (.label l)) (refs ++ [.label l]) :=
  h.note (markFor_ok (h.markFor_eq l)).2.2

theorem Follows.request (ref : Reference) :
    (r.request ref).2.Answers ref (r.request ref).1 ∧ (r.request ref).2.Follower r ∧
      ∃ refs', Follows firstSlot (r.request ref).2 refs' := by
  cases ref with
  | label l =>
    simp only [RoutineScope.request, h.markFor_eq l, Scope.answer]
    refine ⟨.mark (r.knows_note _), ⟨rfl, r.extends_note _, fun _ => rfl⟩, _, h.note_label l⟩
  | var v =>
    cases hslot : (slotFor v).run r with
    | ok slot s =>
      obtain ⟨rfl, rfl, hfits⟩ := slotFor_ok hslot
      simp only [RoutineScope.request, hslot, Scope.answer]
      refine ⟨.slot (r.knows_note _), ⟨rfl, r.extends_note _, fun hr => ?_⟩, _, h.note hfits⟩
      -- With all slots taken, the variable has one already.
      have hknown : r.Knows (.var v) := by
        by_contra hv
        obtain ⟨x, s, hx⟩ := (r.slotFor_error_iff v).2 ⟨hv, hr.ge⟩
        rw [hx] at hslot
        cases hslot
      obtain ⟨number, hnumber⟩ := Option.isSome_iff_exists.1 hknown
      simp only [RoutineScope.note, Scope.Numbering.note, hnumber]
    | error x s =>
      obtain ⟨hv, hle⟩ := (r.slotFor_error_iff v).1 ⟨x, s, hslot⟩
      simp only [RoutineScope.request, hslot, Scope.answer, slotFor_error_eq hslot]
      rw [atomic_slotFor v r x s hslot]
      exact ⟨.full hv (h.fits.maxLocals_le.antisymm hle), .refl r, refs, h⟩

theorem Follows.requests (more : List Reference) :
    List.Forall₂ (r.requests more).2.Answers more (r.requests more).1 ∧
      (r.requests more).2.Follower r ∧ ∃ refs', Follows firstSlot (r.requests more).2 refs' := by
  induction more generalizing r refs with
  | nil => exact ⟨.nil, .refl r, refs, h⟩
  | cons ref rest ih =>
    obtain ⟨hfirst, hstep, refs', hnext⟩ := h.request ref
    obtain ⟨hrest, hrun, hend⟩ := ih hnext
    exact ⟨.cons (hfirst.later hrun) hrest, hrun.trans hstep, hend⟩

end

/-- However often a new routine scope is asked for slots and marks, the answers are those that the
scope in the end gives: every label has a mark, and the next label has one too. -/
theorem requests_answered (name : String) (firstSlot : UInt16) (refs : List Reference) :
    List.Forall₂ ((new name firstSlot).requests refs).2.Answers refs
        ((new name firstSlot).requests refs).1 ∧
      ∀ l, ∃ mark r,
        (markFor l).run ((new name firstSlot).requests refs).2 = .ok mark r := by
  obtain ⟨hanswers, -, noted, hend⟩ := (follows_new name firstSlot).requests refs
  exact ⟨hanswers, fun l => ⟨_, _, hend.markFor_eq l⟩⟩

-- One slot is left here, and its variable keeps it. The labels are served all the same.
example : ((new "m" 65535).requests
    [.var ⟨"a"⟩, .var ⟨"b"⟩, .label ⟨7⟩, .var ⟨"a"⟩, .label ⟨3⟩, .label ⟨7⟩]).1 =
      [.slot ⟨65535⟩, .failed (.tooManyLocals "m"), .mark ⟨0⟩, .slot ⟨65535⟩, .mark ⟨1⟩,
        .mark ⟨0⟩] := by
  cbv

end RoutineScope

end StackBackend
