import StackBackend.Proofs.Lower.Faithful
import StackBackend.Proofs.Semantics.Machine

/-!
# The code of a stream

A stream that defines nothing is lowered to the code of its instructions, one after the other. The
code of an instruction begins where lowering the instructions before it ends, and a label has its
mark there and nowhere else.
-/
namespace StackBackend

open Code (Op Mark markPosition placedMarks withoutDeclarations)

namespace Instruction

def runs : Instruction → Bool
  | .label _ | .jump _ | .branch .. | .copy .. | .call .. | .getField .. | .putField ..
  | .ret _ => true
  | _ => false

theorem isDefinition_of_runs {i : Instruction} (h : i.runs) : i.isDefinition = false := by
  cases i <;> first | rfl | cases h

/-- The code of an instruction with what its class declares there. -/
def allOps (r : RoutineScope) (fields : List String) (i : Instruction) : List Op :=
  i.declaration fields ++ i.ops r

end Instruction

def streamCode (r : RoutineScope) (fields : List String) : List Instruction → List Op
  | [] => []
  | i :: rest => i.allOps r fields ++ streamCode r (i.declaredAfter fields) rest

def codePoint (r : RoutineScope) (fields : List String) (instrs : List Instruction)
    (position : Nat) : Nat :=
  (streamCode r fields (instrs.take position)).length

theorem code_streamOutline {instrs : List Instruction}
    (hinstrs : ∀ i ∈ instrs, i.isDefinition = false) (index : Nat) (firstSlot : UInt16)
    (source : String) (r : RoutineScope) (fields : List String) :
    (streamOutline index instrs).code firstSlot source r fields = streamCode r fields instrs := by
  induction instrs generalizing index fields with
  | nil => rfl
  | cons i rest ih =>
    obtain ⟨hi, hrest⟩ := List.forall_mem_cons.1 hinstrs
    have houtline : i.outline index (streamOutline (index + 1) rest) =
        .instr index i (streamOutline (index + 1) rest) := by
      cases i <;> first | rfl | cases hi
    rw [streamOutline, houtline, Outline.code, ih hrest, streamCode, Instruction.allOps]

theorem withoutDeclarations_streamCode (r : RoutineScope) (fields : List String)
    (instrs : List Instruction) :
    withoutDeclarations (streamCode r fields instrs) = instrs.flatMap (Instruction.ops r) := by
  induction instrs generalizing fields with
  | nil => rfl
  | cons i rest ih =>
    rw [streamCode, Code.withoutDeclarations_append, ih, List.flatMap_cons]
    exact congrArg (· ++ _) (i.withoutDeclarations_ops fields r)

theorem references_streamOutline (index : Nat) (instrs : List Instruction) :
    (streamOutline index instrs).references = instrs.flatMap Instruction.references := by
  rw [Outline.references, instrs_streamOutline,
    flatMap_filter_isDefinition fun i hi => (i.eq_nil_of_isDefinition hi).1]

section

variable {e e' : Emitter} {fields : List String} {r s : RoutineScope} {instrs : List Instruction}

theorem lowerStream_apply (he : e.scopes.Holds fields r .inMethod) (instrs : List Instruction) :
    (lowerStream instrs).run e = (lowerFrom 0 instrs).run e := by
  obtain ⟨name, routines, outer, he⟩ := he
  have hroutine : e.scopes.routine? = some r := by
    simp [ScopeStack.routine?, ScopeStack.container?, ContainerScope.routine?, he]
  simp only [lowerStream, EStateM.run, bind, EStateM.bind, get, getThe, MonadStateOf.get,
    EStateM.get, hroutine]

theorem lowerStream_emits (h : (lowerStream instrs).run e = .ok () e')
    (he : e.scopes.Holds fields r .inMethod) (hinstrs : ∀ i ∈ instrs, i.isDefinition = false)
    (hs : s.Extends (r.noteAll (instrs.flatMap Instruction.references))) :
    ∃ fields', Emits .inMethod e e' r (instrs.flatMap Instruction.references) fields'
      (streamCode s fields instrs) := by
  rw [lowerStream_apply he, ← lower_streamOutline] at h
  rw [← references_streamOutline 0] at hs
  have hemits := ((streamOutline 0 instrs).lower_ok h he hs).1
  rw [references_streamOutline, code_streamOutline hinstrs] at hemits
  exact ⟨_, hemits⟩

theorem lowerStream_ok (h : (lowerStream instrs).run e = .ok () e')
    (he : e.scopes.Holds fields r .inMethod) (hruns : ∀ i ∈ instrs, i.runs)
    (hs : s.Extends (r.noteAll (instrs.flatMap Instruction.references))) :
    ∃ fields', Emits .inMethod e e' r (instrs.flatMap Instruction.references) fields'
      (streamCode s fields instrs) :=
  lowerStream_emits h he (fun i hi => Instruction.isDefinition_of_runs (hruns i hi)) hs

theorem exists_lowerStream_take (h : (lowerStream instrs).run e = .ok () e')
    (he : e.scopes.Holds fields r .inMethod) (n : Nat) :
    ∃ e₁, (lowerStream (instrs.take n)).run e = .ok () e₁ := by
  rw [lowerStream_apply he] at h
  obtain ⟨e₁, h₁⟩ := exists_lowerFrom_take h n
  exact ⟨e₁, (lowerStream_apply he _).trans h₁⟩

end

section

variable {r : RoutineScope} {fields : List String} {instrs : List Instruction} {i : Instruction}

theorem codePoint_cons_succ (r : RoutineScope) (fields : List String) (i : Instruction)
    (rest : List Instruction) (position : Nat) :
    codePoint r fields (i :: rest) (position + 1) =
      (i.allOps r fields).length + codePoint r (i.declaredAfter fields) rest position := by
  simp [codePoint, streamCode]

theorem allOps_isPrefix {position : Nat} (hi : instrs[position]? = some i) :
    ∃ fields', i.allOps r fields' <+: (streamCode r fields instrs).drop
        (codePoint r fields instrs position) ∧
      codePoint r fields instrs (position + 1) =
        codePoint r fields instrs position + (i.allOps r fields').length := by
  induction instrs generalizing fields position with
  | nil => cases hi
  | cons j rest ih =>
    cases position with
    | zero =>
      cases hi
      exact ⟨fields, List.prefix_append _ _, by simp [codePoint, streamCode]⟩
    | succ n =>
      obtain ⟨fields', hprefix, hnext⟩ := @ih (j.declaredAfter fields) n hi
      refine ⟨fields', ?_, ?_⟩
      · rw [codePoint_cons_succ, streamCode, List.drop_length_add_append]
        exact hprefix
      · rw [codePoint_cons_succ, codePoint_cons_succ, hnext, Nat.add_assoc]

theorem markPosition_eq_none {code : List Op} {m : Mark} (h : m ∉ placedMarks code) :
    markPosition code m = none := by
  rw [markPosition, List.findIdx?_eq_none_iff]
  intro op hop
  rw [decide_eq_false_iff_not]
  exact fun hm => h (List.mem_filterMap.2 ⟨op, hop, hm⟩)

theorem placedMarks_allOps (r : RoutineScope) (fields : List String) (i : Instruction) :
    placedMarks (i.allOps r fields) = (i.placed?.map r.markOf).toList := by
  rw [← Code.placedMarks_withoutDeclarations, Instruction.allOps, i.withoutDeclarations_ops,
    placedMarks_ops]

theorem markPosition_streamCode {l : Label}
    (hmark : ∀ k ∈ instrs.filterMap Instruction.placed?, r.markOf k = r.markOf l → k = l) :
    markPosition (streamCode r fields instrs) (r.markOf l) =
      (labelPosition instrs l).map (codePoint r fields instrs) := by
  induction instrs generalizing fields with
  | nil => rfl
  | cons i rest ih =>
    have hrest : ∀ k ∈ rest.filterMap Instruction.placed?, r.markOf k = r.markOf l → k = l := by
      intro k hk
      obtain ⟨j, hj, hjk⟩ := List.mem_filterMap.1 hk
      exact hmark k (List.mem_filterMap.2 ⟨j, List.mem_cons_of_mem _ hj, hjk⟩)
    by_cases hi : i.placed? = some l
    · -- The label itself: its code is the mark.
      cases i with
      | label k =>
        cases hi
        simp [markPosition, labelPosition, streamCode, codePoint, Instruction.allOps,
          Instruction.declaration, Instruction.field?, Instruction.ops, Instruction.evaluated,
          Instruction.action, Instruction.placed?, Op.placed?, List.findIdx?_cons]
      | _ => cases hi
    · have hnone : markPosition (i.allOps r fields) (r.markOf l) = none := by
        refine markPosition_eq_none fun hmem => hi ?_
        rw [placedMarks_allOps] at hmem
        obtain ⟨k, hk, heq⟩ := Option.mem_toList.1 hmem |> Option.map_eq_some_iff.1
        rw [hk, hmark k (List.mem_filterMap.2 ⟨i, List.mem_cons_self, hk⟩) heq]
      have hcode : markPosition (streamCode r fields (i :: rest)) (r.markOf l) =
          (markPosition (streamCode r (i.declaredAfter fields) rest) (r.markOf l)).map
            (· + (i.allOps r fields).length) := by
        rw [streamCode, markPosition, List.findIdx?_append, ← markPosition, hnone, Option.none_or]
        rfl
      have hlabel : labelPosition (i :: rest) l = (labelPosition rest l).map (· + 1) := by
        rw [labelPosition, List.findIdx?_cons, if_neg (by simpa using hi)]
        rfl
      rw [hcode, ih hrest, hlabel, Option.map_map, Option.map_map]
      congr 1
      funext position
      rw [Function.comp_apply, Function.comp_apply, codePoint_cons_succ, Nat.add_comm]

end

end StackBackend
