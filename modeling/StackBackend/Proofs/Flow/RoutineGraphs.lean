import StackBackend.Compile
import StackBackend.Proofs.Flow.Outcome

/-!
# The graphs of all routines

Each routine is built with labels of its own, so that what its labels allow does not depend on the
routines before it. As long as labels suffice, the routines that have a graph and the errors of the
others are told from the labels of the streams one by one.
-/
namespace StackBackend

namespace Error

def repeatsLabel : Error → Bool
  | .duplicateLabel .. => true
  | _ => false

def unresolved : Error → List String
  | .unresolvedLabels _ labels => labels
  | _ => []

end Error

namespace Method

def placesOnce (m : Method) : Bool := (placedLabels m.instrs).Nodup

def missing (m : Method) : List Label := missingLabels m.instrs

def resolved (m : Method) : Bool := m.placesOnce && m.missing.isEmpty

end Method

namespace Graphs

structure Accounts (g : Graphs) (rs : List Routine) : Prop where
  built : g.built.map (·.path) = (rs.filter (·.method.resolved)).map (·.path)
  repeats : (∀ x ∈ g.errors, x.repeatsLabel = false) ↔ ∀ r ∈ rs, r.method.placesOnce
  unresolved : g.errors.flatMap Error.unresolved =
    (rs.filter (·.method.placesOnce)).flatMap fun r => r.method.missing.map Label.text

variable {supply : Flow.Supply} {r : Routine} {rs : List Routine} {g : Graphs} {o : Flow.Outcome}

theorem Accounts.cons (h : g.Accounts rs) (ho : Flow.Allows r.method.instrs o.graph)
    (hlabels : .labelSpaceExhausted ∉ (g.cons r.path o).errors) :
    (g.cons r.path o).Accounts (r :: rs) := by
  obtain ⟨graph, supply, events⟩ := o
  obtain ⟨hbuilt, hrepeats, hunresolved⟩ := h
  cases ho with
  | exhausted => exact absurd List.mem_cons_self hlabels
  | repeated routine label hdup =>
    have honce : r.method.placesOnce = false := decide_eq_false hdup
    have hresolved : r.method.resolved = false := by rw [Method.resolved, honce, Bool.false_and]
    constructor
    · simpa [Graphs.cons, hresolved] using hbuilt
    · simp [Graphs.cons, Error.repeatsLabel, honce]
    · simpa [Graphs.cons, Error.unresolved, honce] using hunresolved
  | missing routine hnodup hmissing =>
    have honce : r.method.placesOnce = true := decide_eq_true hnodup
    have hresolved : r.method.resolved = false := by
      rw [Method.resolved, Method.missing, List.isEmpty_eq_false_iff.2 hmissing, Bool.and_false]
    constructor
    · simpa [Graphs.cons, hresolved] using hbuilt
    · rw [List.forall_mem_cons, and_iff_right honce, ← hrepeats]
      exact List.forall_mem_cons.trans (and_iff_right rfl)
    · simpa [Graphs.cons, Error.unresolved, honce, Method.missing] using hunresolved
  | built graph hnodup hmissing =>
    have honce : r.method.placesOnce = true := decide_eq_true hnodup
    have hnone : r.method.missing = [] := hmissing
    have hresolved : r.method.resolved = true := by rw [Method.resolved, honce, hnone]; rfl
    constructor
    · simpa [Graphs.cons, hresolved] using hbuilt
    · rwa [List.forall_mem_cons, and_iff_right honce]
    · simpa [Graphs.cons, honce, hnone] using hunresolved

theorem accounts_ofRoutines (h : .labelSpaceExhausted ∉ (ofRoutines supply rs).errors) :
    (ofRoutines supply rs).Accounts rs := by
  induction rs generalizing supply with
  | nil => exact ⟨rfl, by simp [ofRoutines, none], rfl⟩
  | cons r rest ih =>
    rw [ofRoutines] at h ⊢
    refine Accounts.cons (ih fun hmem => h ?_) (Flow.allows_build _ r.path r.method.instrs) h
    unfold Graphs.cons
    split
    · exact hmem
    · exact List.mem_cons_of_mem _ hmem

theorem Accounts.all_built (h : g.Accounts rs) :
    g.built.map (·.path) = rs.map (·.path) ↔ ∀ r ∈ rs, r.method.resolved := by
  rw [h.built, ← List.filter_eq_self]
  constructor
  · intro heq
    have hlength := congrArg List.length heq
    rw [List.length_map, List.length_map] at hlength
    exact List.filter_sublist.eq_of_length hlength
  · exact congrArg (List.map Routine.path)

end Graphs

end StackBackend
