import Mathlib.Data.List.Nodup
import StackBackend.Proofs.Flow.Reading

/-!
# What building a graph comes to

A build stops at the first position of the stream at which something is wrong: a label is placed
again there, or a block is begun that finds no label left. If there is none, the labels that the
stream leads to and does not place are told at the end. So a stream has a graph just when it places
no label twice, places every label that it leads to, and the labels suffice.
-/
namespace StackBackend.Flow

def faultAt? (routine : String) (first : Nat) (instrs : List Instruction) (p : Nat) :
    Option Error :=
  match labelAt? instrs p with
  | some l =>
    if l ∈ placedLabels (instrs.take p) then some (.duplicateLabel routine l.text) else none
  | none =>
    if beginsAt instrs p ∧ LabelSupply.capacity ≤ first + 2 + unlabelledBefore instrs p then
      some .labelSpaceExhausted
    else none

/-- What a build comes to, told from the stream and the supply. -/
def verdict (supply : Supply) (routine : String) (instrs : List Instruction) : Except Error Unit :=
  let first := supply.firstIssued instrs
  if first + 1 < LabelSupply.capacity then
    match (List.range instrs.length).findSome? (faultAt? routine first instrs) with
    | some x => .error x
    | none =>
      match missingLabels instrs with
      | [] => .ok ()
      | labels => .error (.unresolvedLabels routine (labels.map Label.text))
  else .error .labelSpaceExhausted

/-- What the labels of a stream allow as the result of a build. -/
inductive Allows (instrs : List Instruction) : Except Error Graph → Prop
  | exhausted : Allows instrs (.error .labelSpaceExhausted)
  | repeated (routine label : String) :
      ¬ (placedLabels instrs).Nodup → Allows instrs (.error (.duplicateLabel routine label))
  | missing (routine : String) : (placedLabels instrs).Nodup → missingLabels instrs ≠ [] →
      Allows instrs (.error (.unresolvedLabels routine ((missingLabels instrs).map Label.text)))
  | built (g : Graph) : (placedLabels instrs).Nodup → missingLabels instrs = [] →
      Allows instrs (.ok g)

theorem target?_eq_none {i : Instruction} (h : i.endsBlock = false) : i.target? = none := by
  cases i <;> first | rfl | cases h

section Segment

variable {seg : List Instruction} {segs : List (List Instruction)} {l : Label}

theorem IsSegment.placedLabels_eq (h : IsSegment seg) :
    placedLabels seg = (segmentLabel? seg).toList := by
  obtain ⟨hne, hplaced, -⟩ := h
  cases seg with
  | nil => exact absurd rfl hne
  | cons i rest =>
    have hrest : rest.filterMap Instruction.placed? = [] := List.filterMap_eq_nil_iff.2 hplaced
    rw [placedLabels, List.filterMap_cons, hrest, segmentLabel?, List.head?_cons, Option.bind_some]
    cases i.placed? <;> rfl

theorem IsSegment.targetLabels_eq (h : IsSegment seg) :
    targetLabels seg = (segmentTarget? seg).toList := by
  obtain ⟨hne, -, hends⟩ := h
  have hinit : seg.dropLast.filterMap Instruction.target? = [] :=
    List.filterMap_eq_nil_iff.2 fun i hi => target?_eq_none (hends i hi)
  have hall : targetLabels seg = [seg.getLast hne].filterMap Instruction.target? := by
    conv_lhs => rw [targetLabels, ← List.dropLast_append_getLast hne, List.filterMap_append, hinit]
    rfl
  rw [hall, segmentTarget?, List.getLast?_eq_some_getLast hne, Option.bind_some,
    List.filterMap_cons]
  cases (seg.getLast hne).target? <;> rfl

theorem mem_placedLabels_flatten (hsegs : ∀ seg ∈ segs, IsSegment seg) :
    l ∈ placedLabels segs.flatten ↔ labelIndex segs l ≠ none := by
  have hflatten : l ∈ placedLabels segs.flatten ↔ ∃ seg ∈ segs, l ∈ placedLabels seg := by
    simp [placedLabels, List.filterMap_flatten]
  rw [hflatten, Ne, labelIndex, List.findIdx?_eq_none_iff]
  simp only [decide_eq_false_iff_not, not_forall, not_not, exists_prop]
  apply exists_congr
  intro seg
  apply and_congr_right
  intro hseg
  rw [(hsegs seg hseg).placedLabels_eq, Option.mem_toList]

theorem mem_targetLabels_flatten (hsegs : ∀ seg ∈ segs, IsSegment seg) :
    l ∈ targetLabels segs.flatten ↔
      ∃ (n : Nat) (seg : List Instruction), segs[n]? = some seg ∧ segmentTarget? seg = some l := by
  have hflatten : l ∈ targetLabels segs.flatten ↔ ∃ seg ∈ segs, l ∈ targetLabels seg := by
    simp [targetLabels, List.filterMap_flatten]
  rw [hflatten]
  constructor
  · intro ⟨seg, hseg, hl⟩
    rw [(hsegs seg hseg).targetLabels_eq, Option.mem_toList] at hl
    obtain ⟨n, hn⟩ := List.mem_iff_getElem?.1 hseg
    exact ⟨n, seg, hn, hl⟩
  · intro ⟨n, seg, hn, hl⟩
    have hseg := List.mem_of_getElem? hn
    refine ⟨seg, hseg, ?_⟩
    rw [(hsegs seg hseg).targetLabels_eq, Option.mem_toList]
    exact hl

end Segment

theorem placedLabels_append_singleton (instrs : List Instruction) (i : Instruction) :
    placedLabels (instrs ++ [i]) = placedLabels instrs ++ i.placed?.toList := by
  rw [placedLabels, List.filterMap_append, List.filterMap_cons]
  cases i.placed? <;> rfl

section Faults

variable {routine : String} {first p : Nat} {done : List Instruction}

theorem faultAt?_append (hp : p < done.length) (more : List Instruction) :
    faultAt? routine first (done ++ more) p = faultAt? routine first done p := by
  rw [faultAt?, faultAt?, labelAt?_append hp, beginsAt_append hp,
    unlabelledBefore_append (Nat.le_of_lt hp), List.take_append_of_le_length (Nat.le_of_lt hp)]

theorem forall_faultAt?_eq_none (routine : String) (hfirst : first + 1 < LabelSupply.capacity)
    (instrs : List Instruction) :
    (∀ p < instrs.length, faultAt? routine first instrs p = none) ↔
      (placedLabels instrs).Nodup ∧
        first + 2 + unlabelledBefore instrs instrs.length ≤ LabelSupply.capacity := by
  induction instrs using List.reverseRecOn with
  | nil =>
    simp only [List.length_nil, Nat.not_lt_zero, IsEmpty.forall_iff, implies_true, true_iff]
    exact ⟨List.nodup_nil, hfirst⟩
  | append_singleton done i ih =>
    have hstep : (∀ p < (done ++ [i]).length, faultAt? routine first (done ++ [i]) p = none) ↔
        (∀ p < done.length, faultAt? routine first done p = none) ∧
          faultAt? routine first (done ++ [i]) done.length = none := by
      rw [List.length_append, List.length_singleton, Nat.forall_lt_succ_right]
      apply and_congr_left'
      apply forall₂_congr
      intro p hp
      rw [faultAt?_append hp]
    rw [hstep, ih, placedLabels_append_singleton, unlabelledBefore_concat, faultAt?,
      beginsUnlabelled, labelAt?_length, List.take_left, unlabelledBefore_append (Nat.le_refl _)]
    cases i.placed? with
    | some l =>
      have hnodup : (placedLabels done ++ [l]).Nodup ↔
          (placedLabels done).Nodup ∧ l ∉ placedLabels done := by
        rw [← List.concat_eq_append, List.nodup_concat, and_comm]
      simp [hnodup, and_right_comm]
    | none =>
      rw [Option.toList_none, List.append_nil, and_assoc]
      apply and_congr_right
      intro _
      cases beginsAt (done ++ [i]) done.length with
      | false => simp
      | true =>
        simp
        omega

theorem findSome?_faultAt? (routine : String) (hfirst : first + 1 < LabelSupply.capacity)
    (instrs : List Instruction) :
    (List.range instrs.length).findSome? (faultAt? routine first instrs) = none ↔
      (placedLabels instrs).Nodup ∧
        first + 2 + unlabelledBefore instrs instrs.length ≤ LabelSupply.capacity := by
  rw [List.findSome?_eq_none_iff, ← forall_faultAt?_eq_none routine hfirst]
  simp only [List.mem_range]

theorem faultAt?_eq_some {instrs : List Instruction} {x : Error} (hp : p < instrs.length)
    (h : faultAt? routine first instrs p = some x) :
    x = .labelSpaceExhausted ∨
      (∃ label, x = .duplicateLabel routine label) ∧ ¬ (placedLabels instrs).Nodup := by
  have hsplit : placedLabels instrs =
      placedLabels (instrs.take p) ++ placedLabels (instrs.drop p) := by
    rw [placedLabels, placedLabels, placedLabels, ← List.filterMap_append, List.take_append_drop]
  unfold faultAt? labelAt? at h
  rw [List.getElem?_eq_getElem hp, Option.bind_some] at h
  split at h
  · rename_i l hl
    split at h
    · rename_i hmem
      cases h
      refine .inr ⟨⟨_, rfl⟩, fun hnodup => ?_⟩
      rw [hsplit, List.drop_eq_getElem_cons hp, placedLabels, placedLabels,
        List.filterMap_cons_some hl, List.nodup_append] at hnodup
      exact hnodup.2.2 l hmem l List.mem_cons_self rfl
    · cases h
  · split at h <;> cases h
    exact .inl rfl

end Faults

theorem verdict_eq_ok {supply : Supply} {routine : String} {instrs : List Instruction} :
    verdict supply routine instrs = .ok () ↔
      (placedLabels instrs).Nodup ∧ missingLabels instrs = [] ∧
        supply.firstIssued instrs + 2 + unlabelledBefore instrs instrs.length ≤
          LabelSupply.capacity := by
  unfold verdict
  dsimp only
  by_cases hfirst : supply.firstIssued instrs + 1 < LabelSupply.capacity
  · have hfault := findSome?_faultAt? routine hfirst instrs
    rw [if_pos hfirst]
    split
    · rename_i x hx
      rw [hx] at hfault
      simp only [reduceCtorEq, false_iff] at hfault ⊢
      exact fun h => hfault ⟨h.1, h.2.2⟩
    · rename_i hnone
      obtain ⟨hnodup, hfits⟩ := hfault.1 hnone
      cases hmissing : missingLabels instrs <;> simp [hnodup, hfits]
  · rw [if_neg hfirst]
    simp only [reduceCtorEq, false_iff]
    intro h
    omega

theorem verdict_eq_error {supply : Supply} {routine : String} {instrs : List Instruction}
    {x : Error} (h : verdict supply routine instrs = .error x) :
    x = .labelSpaceExhausted ∨
      (∃ label, x = .duplicateLabel routine label) ∧ ¬ (placedLabels instrs).Nodup ∨
      (placedLabels instrs).Nodup ∧ missingLabels instrs ≠ [] ∧
        x = .unresolvedLabels routine ((missingLabels instrs).map Label.text) := by
  unfold verdict at h
  dsimp only at h
  split at h
  · rename_i hfirst
    split at h
    · rename_i y hy
      cases h
      obtain ⟨p, hp, hfault⟩ := List.exists_of_findSome?_eq_some hy
      rcases faultAt?_eq_some (List.mem_range.1 hp) hfault with hexhausted | hrepeated
      · exact .inl hexhausted
      · exact .inr (.inl hrepeated)
    · rename_i hnone
      obtain ⟨hnodup, -⟩ := (findSome?_faultAt? routine hfirst instrs).1 hnone
      cases hmissing : missingLabels instrs with
      | nil =>
        rw [hmissing] at h
        cases h
      | cons l rest =>
        rw [hmissing] at h
        cases h
        exact .inr (.inr ⟨hnodup, List.cons_ne_nil l rest, rfl⟩)
  · cases h
    exact .inl rfl

section Result

variable {used : List Label} {routine : String} {first : Nat} {done instrs : List Instruction}
  {w w' : Walk} {i : Instruction}

def error? {σ α : Type} : EStateM.Result Error σ α → Option Error
  | .ok _ _ => none
  | .error x _ => some x

theorem Walk.HasRead.step_result (h : w.HasRead used routine first done)
    (hi : ∀ l ∈ i.labels, l ∈ used) (rest : List Instruction) :
    error? ((Walk.step i).run w) = faultAt? routine first (done ++ i :: rest) done.length := by
  rw [faultAt?, labelAt?_length, List.take_left, unlabelledBefore_append (Nat.le_refl _)]
  cases hplaced : i.placed? with
  | some l =>
    obtain rfl := Instruction.eq_label_of_placed? hplaced
    have hl : l ∈ placedLabels done ↔ labelIndex (cut done) l ≠ none := by
      rw [← mem_placedLabels_flatten fun _ => isSegment_of_mem_cut, flatten_cut]
    rw [Walk.step, EStateM.run, placeLabel, h.routine,
      h.describes.hasBlocks.blockForLabel? (hi l List.mem_cons_self)]
    dsimp only
    cases hindex : labelIndex (cut done) l with
    | some n =>
      rw [if_pos (hl.2 (by rw [hindex]; exact Option.some_ne_none n))]
      rfl
    | none =>
      rw [if_neg (mt hl.1 (by rw [hindex]; exact fun hne => hne rfl))]
      rfl
  | none =>
    have hbegins := h.describes.begins_iff hplaced rest
    rw [run_step hplaced, EStateM.run, ensureOpen, Supply.run_labelledBlock, h.next]
    by_cases htail : w.tail = .growing
    · rw [if_pos htail, if_neg fun hfault => hbegins.1 hfault.1 htail]
      rfl
    · rw [if_neg htail]
      by_cases hlimit : LabelSupply.capacity ≤ first + 2 + unlabelledBefore done done.length
      · rw [if_pos hlimit, if_pos ⟨hbegins.2 htail, hlimit⟩]
        rfl
      · rw [if_neg hlimit, if_neg fun hfault => hlimit hfault.2]
        rfl

theorem Walk.HasRead.run_result (h : w.HasRead used routine first done)
    (hused : ∀ l ∈ streamLabels instrs, l ∈ used) :
    (w.run instrs).2 =
      match (List.range' done.length instrs.length).findSome?
        (faultAt? routine first (done ++ instrs)) with
      | some x => .error x
      | none => .ok () := by
  induction instrs generalizing w done with
  | nil => rfl
  | cons i rest ih =>
    have hlabels : streamLabels (i :: rest) = i.labels ++ streamLabels rest := List.flatMap_cons
    rw [hlabels] at hused
    have hi : ∀ l ∈ i.labels, l ∈ used := fun l hl => hused l (List.mem_append_left _ hl)
    have hresult := h.step_result hi rest
    rw [Walk.run, List.length_cons, List.range'_succ, List.findSome?_cons]
    rw [← hresult]
    cases hstep : (Walk.step i).run w with
    | error x w₁ => rfl
    | ok _ w₁ =>
      have hrest := ih (h.step hi hstep) fun l hl => hused l (List.mem_append_right _ hl)
      rw [List.length_append, List.length_singleton, ← List.append_cons] at hrest
      exact hrest

theorem Walk.Describes.unresolved_eq (h : w.Describes used (cut instrs)) :
    w.unresolved = missingLabels instrs := by
  have hsegs : ∀ seg ∈ cut instrs, IsSegment seg := fun _ => isSegment_of_mem_cut
  apply ascending_congr
  intro l
  rw [List.mem_filter, decide_eq_true_eq, ← flatten_cut instrs, mem_targetLabels_flatten hsegs,
    mem_placedLabels_flatten hsegs, not_not, List.mem_map]
  constructor
  · intro ⟨⟨k, u⟩, hmem, hk⟩
    cases hk
    obtain ⟨n, seg, -, hn, htarget, hnone⟩ := (h.pending _ u).1 hmem
    exact ⟨⟨n, seg, hn, htarget⟩, hnone⟩
  · intro ⟨⟨n, seg, hn, htarget⟩, hnone⟩
    exact ⟨(l, n + 2), (h.pending l (n + 2)).2 ((waits_node hn).2 ⟨htarget, hnone⟩), rfl⟩

theorem Walk.HasRead.finish_result (h : w.HasRead used routine first instrs) :
    w.finish.2.map (fun _ => ()) =
      match missingLabels instrs with
      | [] => .ok ()
      | labels => .error (.unresolvedLabels routine (labels.map Label.text)) := by
  have hmissing : (w.fallThrough Graph.exit).unresolved = missingLabels instrs := by
    rw [← h.describes.unresolved_eq, unresolved, fallThrough_pending, unresolved]
  rw [Walk.finish, hmissing, routine_fallThrough, h.routine]
  cases missingLabels instrs <;> rfl

end Result

theorem build_result (supply : Supply) (routine : String) (instrs : List Instruction) :
    (build supply routine instrs).graph.map (fun _ => ()) = verdict supply routine instrs := by
  rw [build_graph, verdict]
  dsimp only
  by_cases hexit : supply.firstIssued instrs + 1 < LabelSupply.capacity
  · rw [if_pos hexit, if_pos hexit]
    have hopening := Walk.hasRead_firstIssued routine hexit
    have hresult := hopening.run_result fun l hl => hl
    rw [List.length_nil, List.nil_append, ← List.range_eq_range'] at hresult
    cases hrun : (Walk.opening routine (supply.skipPast (streamLabels instrs))).run instrs with
    | mk w result =>
      rw [hrun] at hresult
      dsimp only at hresult ⊢
      rw [hresult]
      cases hfault : (List.range instrs.length).findSome?
        (faultAt? routine (supply.firstIssued instrs) instrs) with
      | some x => rfl
      | none =>
        rw [hfault] at hresult
        subst hresult
        exact (hopening.run (fun l hl => hl) hrun).finish_result
  · rw [if_neg hexit, if_neg hexit]
    rfl

theorem allows_build (supply : Supply) (routine : String) (instrs : List Instruction) :
    Allows instrs (build supply routine instrs).graph := by
  have hresult := build_result supply routine instrs
  cases hgraph : (build supply routine instrs).graph with
  | ok g =>
    rw [hgraph] at hresult
    obtain ⟨hnodup, hmissing, -⟩ := verdict_eq_ok.1 hresult.symm
    exact .built g hnodup hmissing
  | error x =>
    rw [hgraph] at hresult
    rcases verdict_eq_error hresult.symm with rfl | ⟨⟨label, rfl⟩, hdup⟩ | ⟨hnodup, hne, rfl⟩
    · exact .exhausted
    · exact .repeated routine label hdup
    · exact .missing routine hnodup hne

/-- What building a graph comes to, for every stream and every supply. It fails at the first
position at which something is wrong with the stream, or at the end if labels are missing, which are
listed in ascending order; otherwise there is a graph. -/
theorem build_verdict (supply : Supply) (routine : String) (instrs : List Instruction) :
    (build supply routine instrs).graph.map (fun _ => ()) = verdict supply routine instrs ∧
      ((∃ g, (build supply routine instrs).graph = .ok g) ↔
        (placedLabels instrs).Nodup ∧ (∀ l ∈ targetLabels instrs, l ∈ placedLabels instrs) ∧
          supply.firstIssued instrs + 2 + unlabelledBefore instrs instrs.length ≤
            LabelSupply.capacity) ∧
      (missingLabels instrs).Pairwise (fun k l => k.id < l.id) ∧
      ∀ l, l ∈ missingLabels instrs ↔ l ∈ targetLabels instrs ∧ l ∉ placedLabels instrs := by
  have hresult := build_result supply routine instrs
  have hmissing : missingLabels instrs = [] ↔
      ∀ l ∈ targetLabels instrs, l ∈ placedLabels instrs := by
    rw [List.eq_nil_iff_forall_not_mem]
    simp only [mem_missingLabels, not_and, not_not]
  refine ⟨hresult, ?_, ?_, fun l => mem_missingLabels⟩
  · rw [← hmissing, ← verdict_eq_ok, ← hresult]
    cases (build supply routine instrs).graph <;> simp [Except.map]
  · apply (isAscending_ascending _).imp
    intro k l hlt
    exact Std.compare_eq_lt.1 hlt

/-- A label that is placed again is told before one that is missing. -/
example : verdict .fresh "run" [.label ⟨1⟩, .jump ⟨9⟩, .label ⟨1⟩] =
    .error (.duplicateLabel "run" "L1") := by
  cbv

end StackBackend.Flow
