import StackBackend.Proofs.Code.MarkErrors
import StackBackend.Proofs.Flow.RoutineGraphs
import StackBackend.Proofs.Lower.Faithful

/-!
# Label errors of graphs and of code

The labels of a script are looked at twice: when the graphs of its routines are built, and when the
code that the script is lowered to is verified. Different labels of a routine have different marks,
and the routine has a method of its own in the code. So both find a label placed again or none, and
both miss the same number of labels.
-/
namespace StackBackend

open Code (Verifier VerifyError MethodCode placedMarks)

namespace Method

variable {m : Method} {firstSlot : UInt16} {c : MethodCode}

theorem length_missing (hc : c.code = m.code firstSlot) (hfits : (m.scope firstSlot).Fits) :
    c.missing.length = m.missing.length := by
  have hknows : ∀ l ∈ m.missing, (m.scope firstSlot).Knows (.label l) := fun l hl =>
    knows_target (mem_missingLabels.1 hl).1
  have hmarks : (m.missing.map (m.scope firstSlot).markOf).Nodup :=
    List.Nodup.map_on (fun l hl k hk => hfits.markOf_injective (hknows l hl) (hknows k hk))
      (nodup_ascending _)
  -- Neither list has repetitions, so that it is enough to compare their members.
  have hperm : c.missing.Perm (m.missing.map (m.scope firstSlot).markOf) := by
    apply (List.perm_ext_iff_of_nodup c.nodup_missing hmarks).2
    intro t
    rw [MethodCode.mem_missing, (marks_of_code hc).2, List.mem_map, List.mem_map]
    constructor
    · rintro ⟨⟨l, hl, rfl⟩, hplaced⟩
      rw [mark_placed_iff hc hfits hl] at hplaced
      exact ⟨l, mem_missingLabels.2 ⟨hl, hplaced⟩, rfl⟩
    · rintro ⟨l, hl, rfl⟩
      obtain ⟨htarget, hplaced⟩ := mem_missingLabels.1 hl
      rw [mark_placed_iff hc hfits htarget]
      exact ⟨⟨l, htarget, rfl⟩, hplaced⟩
  rw [hperm.length_eq, List.length_map]

theorem marks_agree {methods : List MethodCode} {rs : List Routine}
    (hcode : methods.map MethodCode.code = rs.map (·.method.code firstSlot))
    (hfits : ∀ r ∈ rs, (r.method.scope firstSlot).Fits) :
    ((∀ c ∈ methods, (placedMarks c.ops).Nodup) ↔ ∀ r ∈ rs, r.method.placesOnce) ∧
      (methods.flatMap MethodCode.missing).length = (rs.flatMap (·.method.missing)).length := by
  induction rs generalizing methods with
  | nil =>
    rw [List.map_nil, List.map_eq_nil_iff] at hcode
    rw [hcode]
    exact ⟨by simp, rfl⟩
  | cons r rest ih =>
    obtain ⟨hr, hrest⟩ := List.forall_mem_cons.1 hfits
    cases methods with
    | nil => cases hcode
    | cons c methods =>
      rw [List.map_cons, List.map_cons, List.cons_eq_cons] at hcode
      obtain ⟨hc, hmethods⟩ := hcode
      obtain ⟨hnodup, hmissing⟩ := ih hmethods hrest
      have honce : r.method.placesOnce ↔ (placedLabels r.method.instrs).Nodup := decide_eq_true_iff
      constructor
      · rw [List.forall_mem_cons, List.forall_mem_cons, hnodup, nodup_marks hc hr, honce]
      · rw [List.flatMap_cons, List.flatMap_cons, List.length_append, List.length_append, hmissing,
          length_missing hc hr]

end Method

/-- Building the graphs of a script and verifying its code agree on labels: both find a label placed
again or none, and if none is, both miss the same number. Every routine gets its graph just when
the verifier finds neither. -/
theorem Script.label_errors_agree {s : Script} {firstSlot : UInt16} {e : Emitter}
    (h : s.lower.run (.new (.new firstSlot)) = .ok () e)
    (hlabels : .labelSpaceExhausted ∉ s.buildGraphs.errors) :
    ((∃ x ∈ s.buildGraphs.errors, x.repeatsLabel) ↔
        ∃ x ∈ (({} : Verifier).verify e.code.toList).errors, x.repeatsMark) ∧
      ((∀ x ∈ s.buildGraphs.errors, x.repeatsLabel = false) →
        (s.buildGraphs.errors.flatMap Error.unresolved).length =
          (({} : Verifier).verify e.code.toList).errors.countP VerifyError.missesMark) ∧
      (s.buildGraphs.built.map (·.path) = s.root.routines.map (·.path) ↔
        ∀ x ∈ (({} : Verifier).verify e.code.toList).errors,
          x.repeatsMark = false ∧ x.missesMark = false) := by
  obtain ⟨parts, hcode, hmethods, -, -, hfits⟩ := s.lower_ok h
  obtain ⟨hrepeats, hmisses⟩ := hcode.verify_marks
  obtain ⟨hanew, hmissing⟩ := Method.marks_agree hmethods hfits
  have hgraphs : s.buildGraphs.Accounts s.root.routines := Graphs.accounts_ofRoutines hlabels
  have hagree : (∀ x ∈ s.buildGraphs.errors, x.repeatsLabel = false) ↔
      ∀ x ∈ (({} : Verifier).verify e.code.toList).errors, x.repeatsMark = false := by
    rw [hgraphs.repeats, hrepeats, hanew]
  refine ⟨?_, fun honce => ?_, ?_⟩
  · simpa using not_congr hagree
  · rw [hgraphs.unresolved, List.filter_eq_self.2 (hgraphs.repeats.1 honce), hmisses, hmissing,
      List.length_flatMap, List.length_flatMap]
    simp only [List.length_map]
  · have hcount : (∀ x ∈ (({} : Verifier).verify e.code.toList).errors, x.missesMark = false) ↔
        ∀ r ∈ s.root.routines, r.method.missing = [] := by
      rw [← List.flatMap_eq_nil_iff, ← List.length_eq_zero_iff, ← hmissing, ← hmisses,
        List.countP_eq_zero]
      simp
    rw [hgraphs.all_built]
    simp only [Method.resolved, Bool.and_eq_true, List.isEmpty_iff, forall_and]
    rw [hcount, hrepeats, hanew]

theorem label_errors_agree_nested :
    ∃ e, (⟨"main", ⟨"Main", [.label ⟨4⟩, .jump ⟨9⟩, .defineInstanceMethod
          ⟨"run", [.jump ⟨4⟩, .label ⟨4⟩, .branch (.constant .nil) (.variable ⟨"x"⟩) ⟨9⟩]⟩],
        [], []⟩⟩ : Script).lower.run (.new (.new 0)) = .ok () e ∧
      (∀ x ∈ (({} : Verifier).verify e.code.toList).errors, x.repeatsMark = false) ∧
      (({} : Verifier).verify e.code.toList).errors.countP VerifyError.missesMark = 2 := by
  have hlower : Emit.code? (Script.lower ⟨"main", ⟨"Main", [.label ⟨4⟩, .jump ⟨9⟩,
        .defineInstanceMethod
          ⟨"run", [.jump ⟨4⟩, .label ⟨4⟩, .branch (.constant .nil) (.variable ⟨"x"⟩) ⟨9⟩]⟩],
        [], []⟩⟩) (.new (.new 0)) =
      some [.beginClass "Main" "main", .beginMethod "__class__" .onClass, .mark ⟨0⟩, .goto ⟨1⟩,
        .beginMethod "run" .onInstance, .goto ⟨0⟩, .mark ⟨0⟩, .push .nil, .load ⟨0⟩,
        .gotoIfEqual ⟨1⟩, .endMethod, .endMethod, .endClass] := by cbv
  obtain ⟨e, he, -⟩ := Emit.exists_of_code? _ hlower
  obtain ⟨hrepeats, hmisses, -⟩ := Script.label_errors_agree he (by decide +kernel)
  refine ⟨e, he, ?_, (hmisses (by decide +kernel)).symm.trans (by decide +kernel)⟩
  have hnone := mt hrepeats.2 (by decide +kernel)
  simpa using hnone

end StackBackend
