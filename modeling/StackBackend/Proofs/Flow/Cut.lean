import Mathlib.Data.List.SplitBy
import StackBackend.Proofs.Flow.Layout
import StackBackend.Proofs.Flow.Segments

/-!
# Where a stream is cut

A stream is cut behind what ends a block and before a label, and nowhere else. One more instruction
begins a segment where a block is begun, and extends the last segment elsewhere.
-/
namespace StackBackend.Flow

def joined (i j : Instruction) : Bool := !i.endsBlock && !j.startsBlock

def cut (instrs : List Instruction) : List (List Instruction) := instrs.splitBy joined

/-- Labels stand at the beginning of segments, and what ends a block stands at their end. -/
def IsSegment (seg : List Instruction) : Prop :=
  seg ≠ [] ∧ (∀ i ∈ seg.tail, i.placed? = none) ∧ ∀ i ∈ seg.dropLast, i.endsBlock = false

variable {instrs seg : List Instruction} {i j : Instruction}

theorem isSegment_of_isChain (hne : seg ≠ []) (h : seg.IsChain fun i j => joined i j) :
    IsSegment seg := by
  induction seg with
  | nil => exact absurd rfl hne
  | cons i rest ih =>
    cases rest with
    | nil => simp [IsSegment]
    | cons j rest =>
      obtain ⟨hij, hrest⟩ := List.isChain_cons_cons.1 h
      obtain ⟨-, hplaced, hends⟩ := ih (List.cons_ne_nil j rest) hrest
      simp only [joined, Bool.and_eq_true, Bool.not_eq_true'] at hij
      refine ⟨hne, ?_, ?_⟩
      · simpa [placed?_eq_none.2 hij.2] using hplaced
      · simpa [hij.1] using hends

theorem isSegment_of_mem_cut (h : seg ∈ cut instrs) : IsSegment seg :=
  isSegment_of_isChain (List.ne_nil_of_mem_splitBy h) (List.isChain_of_mem_splitBy h)

theorem flatten_cut (instrs : List Instruction) : (cut instrs).flatten = instrs :=
  List.flatten_splitBy joined instrs

theorem cut_eq_nil : cut instrs = [] ↔ instrs = [] := List.splitBy_eq_nil

theorem getLast?_of_cut {init : List (List Instruction)} {last : List Instruction}
    (h : cut instrs = init ++ [last]) : last.getLast? = instrs.getLast? := by
  have hne : last ≠ [] := (isSegment_of_mem_cut (h ▸ List.mem_concat_self)).1
  have hflat : instrs = init.flatten ++ last := by
    rw [← flatten_cut instrs, h]
    simp
  rw [hflat, List.getLast?_append_of_ne_nil _ hne]

theorem cut_concat_apart (h : ∀ j ∈ instrs.getLast?, joined j i = false) :
    cut (instrs ++ [i]) = cut instrs ++ [[i]] := by
  rw [cut, List.splitBy_append_cons [] h]
  rfl

theorem cut_concat_joined {init : List (List Instruction)} {last : List Instruction}
    (hcut : cut instrs = init ++ [last]) (hj : j ∈ instrs.getLast?) (hjoined : joined j i) :
    cut (instrs ++ [i]) = init ++ [last ++ [i]] := by
  have hne : last ≠ [] := (isSegment_of_mem_cut (hcut ▸ List.mem_concat_self)).1
  have hchain : last.IsChain fun i j => joined i j :=
    List.isChain_of_mem_splitBy (hcut ▸ List.mem_concat_self : last ∈ cut instrs)
  have happart := List.isChain_getLast_head_splitBy joined instrs
  rw [← cut, hcut, List.isChain_append] at happart
  have hflat : instrs ++ [i] = (init ++ [last ++ [i]]).flatten := by
    rw [← flatten_cut instrs, hcut]
    simp
  rw [hflat]
  apply List.splitBy_flatten
  · intro hmem
    rcases List.mem_append.1 hmem with hinit | hlast
    · have hmem' : [] ∈ cut instrs := hcut ▸ List.mem_append_left _ hinit
      exact (isSegment_of_mem_cut hmem').1 rfl
    · simp at hlast
  · intro seg hseg
    rcases List.mem_append.1 hseg with hinit | hlast
    · exact List.isChain_of_mem_splitBy (hcut ▸ List.mem_append_left _ hinit : seg ∈ cut instrs)
    · rw [List.mem_singleton.1 hlast, List.isChain_append]
      refine ⟨hchain, List.isChain_singleton i, fun x hx y hy => ?_⟩
      rw [getLast?_of_cut hcut] at hx
      cases hy
      cases Option.mem_unique hx hj
      exact hjoined
  · -- The last segment begins as before.
    obtain ⟨hinit, -, hends⟩ := happart
    refine List.isChain_append.2 ⟨hinit, List.isChain_singleton _, fun x hx y hy => ?_⟩
    cases hy
    obtain ⟨hxne, hlastne, hfalse⟩ := hends x hx last rfl
    exact ⟨hxne, by simp, by rwa [List.head_append_of_ne_nil hlastne]⟩

theorem cut_concat (instrs : List Instruction) (i : Instruction) :
    cut (instrs ++ [i]) = cut instrs ++ [[i]] ∧ beginsAt (instrs ++ [i]) instrs.length = true ∨
      (∃ init last, cut instrs = init ++ [last] ∧ cut (instrs ++ [i]) = init ++ [last ++ [i]]) ∧
        beginsAt (instrs ++ [i]) instrs.length = false := by
  rw [beginsAt_length]
  by_cases h : ∀ j ∈ instrs.getLast?, joined j i = false
  · refine .inl ⟨cut_concat_apart h, ?_⟩
    cases hlast : instrs.getLast? with
    | none => simp
    | some j =>
      have hj := h j hlast
      simp only [joined, Bool.and_eq_false_iff, Bool.not_eq_false'] at hj
      simp [or_comm, hj]
  · push Not at h
    obtain ⟨j, hj, hjoined⟩ := h
    rw [Ne, Bool.not_eq_false] at hjoined
    have hne : cut instrs ≠ [] := by
      rw [Ne, cut_eq_nil]
      rintro rfl
      cases hj
    obtain ⟨init, last, hcut⟩ := (List.eq_nil_or_concat' (cut instrs)).resolve_left hne
    refine .inr ⟨⟨init, last, hcut, cut_concat_joined hcut hj hjoined⟩, ?_⟩
    simp only [joined, Bool.and_eq_true, Bool.not_eq_true'] at hjoined
    simp [Option.mem_def.1 hj, hjoined]

end StackBackend.Flow
