import Mathlib.Data.List.Basic
import StackBackend.Proofs.Flow.Graph
import StackBackend.Proofs.Program.Labels

/-!
# The segments of a stream

A stream is cut into segments, one for each block: a label can stand only at the beginning of a
segment, and what ends a block only at its end. Segment `n` is the node `n + 2` of the graph. The
successors of a node follow from the segments: it leads to the segment that is entered at its
target, and falls through to the next one.
-/
namespace StackBackend.Flow

def segmentLabel? (seg : List Instruction) : Option Label := seg.head?.bind Instruction.placed?

def segmentTarget? (seg : List Instruction) : Option Label := seg.getLast?.bind Instruction.target?

def segmentJumps (seg : List Instruction) : Bool := seg.getLast?.any Instruction.isJump

def segmentBody (seg : List Instruction) : List Instruction := seg.filter fun i => !i.startsBlock

def labelIndex (segs : List (List Instruction)) (l : Label) : Option Nat :=
  segs.findIdx? fun seg => segmentLabel? seg = some l

def segmentLeads (segs : List (List Instruction)) (seg : List Instruction) : List Nat :=
  (((segmentTarget? seg).bind (labelIndex segs)).map (· + 2)).toList

def segmentFalls (next : Option Nat) (seg : List Instruction) : List Nat :=
  if segmentJumps seg then [] else next.toList

/-- The successors of node `n + 2`. An edge back is there before the block is left, an edge forward
comes when its target is placed. -/
def segmentSuccessors (segs : List (List Instruction)) (next : Option Nat) (n : Nat)
    (seg : List Instruction) : List Nat :=
  if ∀ t ∈ segmentLeads segs seg, t ≤ n + 2 then
    (segmentFalls next seg).foldl link (segmentLeads segs seg)
  else (segmentLeads segs seg).foldl link (segmentFalls next seg)

variable {segs : List (List Instruction)} {seg last : List Instruction} {l : Label} {n : Nat}

theorem lt_of_getElem? (h : segs[n]? = some seg) : n < segs.length :=
  (List.getElem?_eq_some_iff.1 h).1

theorem eq_concat_of_last (hn : segs[n]? = some seg) (hlast : segs.length ≤ n + 1) :
    segs = segs.dropLast ++ [seg] := by
  have hseg : segs.getLast? = some seg := by
    have hlength : segs.length - 1 = n := by
      have hlt := lt_of_getElem? hn
      omega
    rw [List.getLast?_eq_getElem?, hlength, hn]
  exact (List.dropLast_append_getLast? seg hseg).symm

theorem labelIndex_eq_some (h : labelIndex segs l = some n) :
    ∃ seg, segs[n]? = some seg ∧ segmentLabel? seg = some l := by
  obtain ⟨hlt, hlabel, -⟩ := List.findIdx?_eq_some_iff_getElem.1 h
  exact ⟨segs[n], List.getElem?_eq_getElem hlt, of_decide_eq_true hlabel⟩

theorem labelIndex_lt (h : labelIndex segs l = some n) : n < segs.length :=
  (List.findIdx?_eq_some_iff_getElem.1 h).1

theorem labelIndex_eq_none (h : labelIndex segs l = none) (hn : segs[n]? = some seg) :
    segmentLabel? seg ≠ some l := by
  have hall := List.findIdx?_eq_none_iff.1 h seg (List.mem_of_getElem? hn)
  exact of_decide_eq_false hall

theorem labelIndex_concat (segs : List (List Instruction)) (last : List Instruction) (l : Label) :
    labelIndex (segs ++ [last]) l =
      (labelIndex segs l).or (if segmentLabel? last = some l then some segs.length else none) := by
  rw [labelIndex, List.findIdx?_append, ← labelIndex, List.findIdx?_singleton]
  by_cases h : segmentLabel? last = some l <;> simp [h]

theorem labelIndex_congr {segs' : List (List Instruction)}
    (h : segs.map segmentLabel? = segs'.map segmentLabel?) (l : Label) :
    labelIndex segs l = labelIndex segs' l := by
  have hmap : ∀ segs : List (List Instruction), labelIndex segs l =
      (segs.map segmentLabel?).findIdx? (fun label => decide (label = some l)) := by
    intro segs
    rw [List.findIdx?_map]
    rfl
  rw [hmap, hmap, h]

theorem segmentLeads_congr {segs' : List (List Instruction)}
    (h : segs.map segmentLabel? = segs'.map segmentLabel?) (seg : List Instruction) :
    segmentLeads segs seg = segmentLeads segs' seg := by
  rw [segmentLeads, segmentLeads, funext (labelIndex_congr h)]

theorem segmentSuccessors_congr {segs' : List (List Instruction)}
    (h : segs.map segmentLabel? = segs'.map segmentLabel?) (next : Option Nat) (n : Nat)
    (seg : List Instruction) :
    segmentSuccessors segs next n seg = segmentSuccessors segs' next n seg := by
  rw [segmentSuccessors, segmentSuccessors, segmentLeads_congr h]

theorem mem_segmentLeads {t : Nat} : t ∈ segmentLeads segs seg ↔
    ∃ l m, segmentTarget? seg = some l ∧ labelIndex segs l = some m ∧ t = m + 2 := by
  simp only [segmentLeads, Option.mem_toList, Option.map_eq_some_iff, Option.bind_eq_some_iff]
  constructor
  · rintro ⟨m, ⟨l, ht, hindex⟩, rfl⟩
    exact ⟨l, m, ht, hindex, rfl⟩
  · rintro ⟨l, m, ht, hindex, rfl⟩
    exact ⟨m, ⟨l, ht, hindex⟩, rfl⟩

theorem segmentSuccessors_next (hback : ∀ t ∈ segmentLeads segs seg, t ≤ n + 2) (next : Nat) :
    segmentSuccessors segs (some next) n seg =
      if segmentJumps seg then segmentSuccessors segs none n seg
      else link (segmentSuccessors segs none n seg) next := by
  rw [segmentSuccessors, segmentSuccessors, if_pos hback, if_pos hback]
  by_cases hjumps : segmentJumps seg <;> simp [segmentFalls, hjumps]

theorem foldl_link_falls (next : Option Nat) (seg : List Instruction) :
    (segmentFalls next seg).foldl link [] = segmentFalls next seg := by
  unfold segmentFalls
  split
  · rfl
  · cases next <;> rfl

theorem segmentSuccessors_none (segs : List (List Instruction)) (n : Nat) (seg : List Instruction) :
    segmentSuccessors segs none n seg = segmentLeads segs seg := by
  have hfalls : segmentFalls none seg = [] := by
    simp [segmentFalls]
  have hlink : (segmentLeads segs seg).foldl link [] = segmentLeads segs seg := by
    unfold segmentLeads
    cases (segmentTarget? seg).bind (labelIndex segs) <;> rfl
  rw [segmentSuccessors, hfalls, hlink, List.foldl_nil, ite_self]

theorem segmentSuccessors_concat (hn : n < segs.length) (next : Option Nat) :
    segmentSuccessors (segs ++ [last]) next n seg =
      if ∃ l, segmentTarget? seg = some l ∧ labelIndex segs l = none ∧ segmentLabel? last = some l
      then link (segmentSuccessors segs next n seg) (segs.length + 2)
      else segmentSuccessors segs next n seg := by
  by_cases hwait : ∃ l, segmentTarget? seg = some l ∧ labelIndex segs l = none ∧
      segmentLabel? last = some l
  · rw [if_pos hwait]
    obtain ⟨l, htarget, hnone, hlabel⟩ := hwait
    have hbefore : segmentLeads segs seg = [] := by
      simp [segmentLeads, htarget, hnone]
    have hafter : segmentLeads (segs ++ [last]) seg = [segs.length + 2] := by
      simp [segmentLeads, htarget, labelIndex_concat, hnone, hlabel]
    have hahead : ¬ ∀ t ∈ [segs.length + 2], t ≤ n + 2 := by
      simp
      omega
    rw [segmentSuccessors, segmentSuccessors, hbefore, hafter, if_neg hahead, if_pos (by simp),
      foldl_link_falls]
    rfl
  · rw [if_neg hwait]
    have hsame : segmentLeads (segs ++ [last]) seg = segmentLeads segs seg := by
      cases htarget : segmentTarget? seg with
      | none => simp [segmentLeads, htarget]
      | some l =>
        cases hindex : labelIndex segs l with
        | some t => simp [segmentLeads, htarget, labelIndex_concat, hindex]
        | none =>
          have hlabel : segmentLabel? last ≠ some l := fun h => hwait ⟨l, htarget, hindex, h⟩
          simp [segmentLeads, htarget, labelIndex_concat, hindex, hlabel]
    rw [segmentSuccessors, segmentSuccessors, hsame]

section Extend

variable {init : List (List Instruction)} {i : Instruction}

theorem segmentLabel?_extend (hi : i.placed? = none) (last : List Instruction) :
    segmentLabel? (last ++ [i]) = segmentLabel? last := by
  cases last with
  | nil => exact hi
  | cons j rest => rfl

theorem map_segmentLabel?_extend (hi : i.placed? = none) (init : List (List Instruction))
    (last : List Instruction) :
    (init ++ [last ++ [i]]).map segmentLabel? = (init ++ [last]).map segmentLabel? := by
  rw [List.map_append, List.map_append, List.map_singleton, List.map_singleton,
    segmentLabel?_extend hi]

theorem getElem?_concat {seg : List Instruction} {n : Nat} :
    (init ++ [last])[n]? = some seg ↔ init[n]? = some seg ∨ n = init.length ∧ seg = last := by
  rcases Nat.lt_trichotomy n init.length with hlt | rfl | hgt
  · rw [List.getElem?_append_left hlt]
    simp [Nat.ne_of_lt hlt]
  · simp [eq_comm]
  · have hnone : init[n]? = none := List.getElem?_eq_none (Nat.le_of_lt hgt)
    have hnone' : (init ++ [last])[n]? = none := List.getElem?_eq_none (by simp; omega)
    simp [hnone, hnone', Nat.ne_of_gt hgt]

theorem segmentTarget?_concat (seg : List Instruction) (i : Instruction) :
    segmentTarget? (seg ++ [i]) = i.target? := by
  simp [segmentTarget?]

theorem open_end (hopen : ∀ j ∈ last.getLast?, j.endsBlock = false) :
    segmentTarget? last = none ∧ segmentJumps last = false := by
  unfold segmentTarget? segmentJumps
  cases hlast : last.getLast? with
  | none => exact ⟨rfl, rfl⟩
  | some j =>
    have hj := hopen j hlast
    cases j <;> first | exact ⟨rfl, rfl⟩ | cases hj

/-- The segment of node `u` leads to a label that is not placed yet. -/
def Waits (segs : List (List Instruction)) (l : Label) (u : Nat) : Prop :=
  ∃ n seg, u = n + 2 ∧ segs[n]? = some seg ∧ segmentTarget? seg = some l ∧ labelIndex segs l = none

theorem waits_node (hn : segs[n]? = some seg) :
    Waits segs l (n + 2) ↔ segmentTarget? seg = some l ∧ labelIndex segs l = none := by
  constructor
  · intro ⟨m, seg', hm, hseg, htarget, hnone⟩
    cases Nat.add_right_cancel hm
    rw [hn] at hseg
    cases hseg
    exact ⟨htarget, hnone⟩
  · intro ⟨htarget, hnone⟩
    exact ⟨n, seg, rfl, hn, htarget, hnone⟩

theorem Waits.bounds {u : Nat} (h : Waits segs l u) : 2 ≤ u ∧ u < segs.length + 2 := by
  obtain ⟨n, seg, rfl, hn, -⟩ := h
  have hlt := lt_of_getElem? hn
  omega

theorem waits_concat {u : Nat} (hopen : segmentTarget? last = none) :
    Waits (segs ++ [last]) l u ↔ Waits segs l u ∧ segmentLabel? last ≠ some l := by
  constructor
  · intro ⟨n, seg, hu, hn, htarget, hnone⟩
    rw [labelIndex_concat, Option.or_eq_none_iff] at hnone
    have hlabel : segmentLabel? last ≠ some l := by
      intro heq
      simp [heq] at hnone
    rcases getElem?_concat.1 hn with hn | ⟨rfl, rfl⟩
    · exact ⟨⟨n, seg, hu, hn, htarget, hnone.1⟩, hlabel⟩
    · rw [hopen] at htarget
      cases htarget
  · intro ⟨⟨n, seg, hu, hn, htarget, hnone⟩, hlabel⟩
    refine ⟨n, seg, hu, getElem?_concat.2 (.inl hn), htarget, ?_⟩
    rw [labelIndex_concat, hnone, Option.none_or, if_neg hlabel]

theorem waits_extend {u : Nat} (hopen : segmentTarget? last = none) (hi : i.placed? = none) :
    Waits (init ++ [last ++ [i]]) l u ↔ Waits (init ++ [last]) l u ∨
      i.target? = some l ∧ u = init.length + 2 ∧ labelIndex (init ++ [last ++ [i]]) l = none := by
  have hindex := labelIndex_congr (map_segmentLabel?_extend hi init last) l
  constructor
  · intro ⟨n, seg, hu, hn, htarget, hnone⟩
    rcases getElem?_concat.1 hn with hn | ⟨rfl, rfl⟩
    · exact .inl ⟨n, seg, hu, getElem?_concat.2 (.inl hn), htarget, hindex ▸ hnone⟩
    · rw [segmentTarget?_concat] at htarget
      exact .inr ⟨htarget, hu, hnone⟩
  · rintro (⟨n, seg, hu, hn, htarget, hnone⟩ | ⟨htarget, hu, hnone⟩)
    · rcases getElem?_concat.1 hn with hn | ⟨rfl, rfl⟩
      · exact ⟨n, seg, hu, getElem?_concat.2 (.inl hn), htarget, hindex ▸ hnone⟩
      · rw [hopen] at htarget
        cases htarget
    · refine ⟨init.length, last ++ [i], hu, getElem?_concat.2 (.inr ⟨rfl, rfl⟩), ?_, hnone⟩
      rw [segmentTarget?_concat, htarget]

end Extend

end StackBackend.Flow
