import Mathlib
import StackBackend.Proofs.Lower.OutlineParts
import StackBackend.Proofs.Lower.Refusal
import StackBackend.Proofs.Scope.FirstReferences

/-!
# When lowering fails

A routine takes one slot for each of its variables, from the first slot on. So lowering fails just
when the variables of some routine are more than the slots that are left for them, and it says which
routine this is. No other error comes up: scopes are opened and closed in order, and there are as
many marks as labels.
-/
namespace StackBackend

open RoutineScope (slotLimit)

def Operand.var? : Operand → Option Variable
  | .variable v => some v
  | _ => none

/-- The variables that an instruction works on: where its result goes, and those it evaluates. -/
def Instruction.vars (i : Instruction) : List Variable :=
  i.result?.toList ++ i.evaluated.filterMap Operand.var?

def Method.vars (m : Method) : List Variable := m.instrs.flatMap Instruction.vars

theorem Operand.var_mem_references {o : Operand} {v : Variable} :
    .var v ∈ o.references ↔ o.var? = some v := by
  cases o <;> simp [references, var?, eq_comm]

theorem Instruction.var_mem_references {i : Instruction} {v : Variable} :
    .var v ∈ i.references ↔ v ∈ i.vars := by
  cases i with
  | call result _ args =>
    cases result <;>
      simp [references, vars, result?, evaluated, Operand.var_mem_references, or_comm, eq_comm]
  | _ =>
    simp [references, vars, result?, evaluated, Operand.var_mem_references, or_comm, eq_comm]

namespace Method

variable {m : Method} {firstSlot : UInt16}

theorem length_variablesOf (m : Method) :
    (variablesOf (m.instrs.flatMap Instruction.references)).length = m.vars.toFinset.card := by
  rw [variablesOf, length_eraseDups]
  congr 1
  ext v
  rw [List.mem_toFinset, List.mem_toFinset, ← List.mem_eraseDups, ← variablesOf, mem_variablesOf,
    vars, List.mem_flatMap, List.mem_flatMap]
  exact exists_congr fun i => and_congr_right fun _ => i.var_mem_references

theorem fits_scope_iff :
    (m.scope firstSlot).Fits ↔ m.vars.toFinset.card ≤ 65536 - firstSlot.toNat := by
  have hfirst := firstSlot.toNat_lt
  rw [scope, RoutineScope.fits_noteAll, length_variablesOf, slotLimit, UInt16.size]
  omega

theorem eq_tooManyLocals_of_refuses {x : Error}
    (h : (RoutineScope.new m.name firstSlot).Refuses (m.instrs.flatMap Instruction.references) x) :
    65536 - firstSlot.toNat < m.vars.toFinset.card ∧ x = .tooManyLocals m.name := by
  have hlabels := RoutineScope.lists_labels m.name firstSlot
    (m.instrs.flatMap Instruction.references)
  refine ⟨Nat.lt_of_not_le fun hle => h.not_fits (fits_scope_iff.2 hle), ?_⟩
  rcases h with ⟨hx, -⟩ | ⟨-, hlt⟩
  · exact hx
  · rw [hlabels.next_eq] at hlt
    exact absurd (length_le_markLimit hlabels.nodup) (Nat.not_le_of_lt hlt)

end Method

namespace Script

variable {s : Script} {e e' : Emitter} {x : Error}

theorem exists_refuses (h : s.lower.run e = .error x e') :
    ∃ r ∈ s.root.routines,
      (RoutineScope.new r.method.name e.scopes.firstSlot).Refuses
        (r.method.instrs.flatMap Instruction.references) x := by
  rw [lower_apply, outline, Outline.lower, Outline.lower, bind_pure] at h
  obtain ⟨e₁, hbody⟩ := Emit.container_error h
  have hinside : ScopeStack.Holds
      (Emitter.openContainer { e with source := s.fileName } s.root.name).scopes []
      (.new "" e.scopes.firstSlot) .inClass :=
    ⟨s.root.name, [], e.scopes.containers, rfl⟩
  rcases s.root.contents.lower_error s.root.name hbody hinside with href | ⟨t, ht, href⟩
  · -- Directly in a class no names are resolved.
    rw [s.root.contents.references_eq_nil (by decide)] at href
    exact absurd (RoutineScope.fits_new _ _) href.not_fits
  · rw [s.root.routines_contents] at ht
    obtain ⟨r, hr, rfl⟩ := List.mem_map.1 ht
    rw [r.references_outlined] at href
    exact ⟨r, hr, href⟩

theorem lower_succeeds_iff (s : Script) (e : Emitter) :
    (∃ e', s.lower.run e = .ok () e') ↔
      ∀ r ∈ s.root.routines, (r.method.scope e.scopes.firstSlot).Fits := by
  constructor
  · rintro ⟨e', h⟩
    exact (s.fits_outline_iff _).1 (lower_emits h).2
  · intro hfits
    cases h : s.lower.run e with
    | ok _ e' => exact ⟨e', rfl⟩
    | error x e' =>
      obtain ⟨r, hr, hrefuses⟩ := exists_refuses h
      exact absurd (hfits r hr) hrefuses.not_fits

/-- Lowering a script fails if and only if some routine has more variables than there are slots
from the first one on. Then the error names such a routine. -/
theorem lower_fails_iff (s : Script) (firstSlot : UInt16) :
    ((∃ x e, s.lower.run (.new (.new firstSlot)) = .error x e) ↔
      ∃ r ∈ s.root.routines, 65536 - firstSlot.toNat < r.method.vars.toFinset.card) ∧
    ∀ x e, s.lower.run (.new (.new firstSlot)) = .error x e →
      ∃ r ∈ s.root.routines, 65536 - firstSlot.toNat < r.method.vars.toFinset.card ∧
        x = .tooManyLocals r.method.name := by
  have hnamed : ∀ x e, s.lower.run (.new (.new firstSlot)) = .error x e →
      ∃ r ∈ s.root.routines, 65536 - firstSlot.toNat < r.method.vars.toFinset.card ∧
        x = .tooManyLocals r.method.name := by
    intro x e h
    obtain ⟨r, hr, hrefuses⟩ := exists_refuses h
    exact ⟨r, hr, Method.eq_tooManyLocals_of_refuses hrefuses⟩
  refine ⟨⟨fun ⟨x, e, h⟩ => ?_, fun ⟨r, hr, hlt⟩ => ?_⟩, hnamed⟩
  · obtain ⟨r, hr, hlt, -⟩ := hnamed x e h
    exact ⟨r, hr, hlt⟩
  · cases h : s.lower.run (.new (.new firstSlot)) with
    | error x e => exact ⟨x, e, rfl⟩
    | ok _ e =>
      have hfits := (s.lower_succeeds_iff _).1 ⟨e, h⟩ r hr
      exact absurd (Method.fits_scope_iff.1 hfits) (Nat.not_le_of_lt hlt)

example :
    ∃ e, (Script.lower ⟨"main", ⟨"Main", [.copy ⟨"x"⟩ (.variable ⟨"y"⟩)], [], []⟩⟩).run
      (.new (.new 65535)) = .error (.tooManyLocals "__class__") e :=
  ⟨_, rfl⟩

end Script

end StackBackend
