import StackBackend.Flow.Build
import StackBackend.Proofs.Flow.Cut

/-!
# The walk of the builder

What the builder has after a part of the stream is told from the segments of that part. An
instruction either extends the last segment or begins a new one, and in both cases the walk stays
described. The labels that are made up for blocks lie past those that the stream uses, so that no
instruction can lead to them.
-/
namespace StackBackend.Flow

def tailAfter : Option Instruction → Tail
  | none => .growing
  | some i => if i.isJump then .jumped else if i.endsBlock then .ended else .growing

/-- How the current block stands. The entry counts as ended. -/
def tailOf (segs : List (List Instruction)) : Tail :=
  match segs.getLast? with
  | none => .ended
  | some seg => tailAfter seg.getLast?

def nextNode (segs : List (List Instruction)) (n : Nat) : Option Nat :=
  if n + 1 < segs.length then some (n + 3) else none

/-- The block of a segment. Where no label of the stream leads to the segment, the block has a label
that the stream does not use. -/
structure IsBlockOf (used : List Label) (seg : List Instruction) (b : Block) : Prop where
  instrs : b.instrs = segmentBody seg
  label : ∀ l, segmentLabel? seg = some l → b.label = l
  fresh : segmentLabel? seg = none → b.label ∉ used

/-- The graph has the blocks of the segments behind its entry and its exit. -/
structure Graph.HasBlocks (g : Graph) (used : List Label) (segs : List (List Instruction)) :
    Prop where
  size : g.size = segs.length + 2
  sentinels : ∀ u < 2, ∃ b, g.block? u = some b ∧ b.instrs = [] ∧ b.label ∉ used
  blocks : ∀ n seg, segs[n]? = some seg → ∃ b, g.block? (n + 2) = some b ∧ IsBlockOf used seg b
  unique : ∀ n seg l, segs[n]? = some seg → segmentLabel? seg = some l →
    l ∈ used ∧ labelIndex segs l = some n

/-- The walk has come through the segments. -/
structure Walk.Describes (w : Walk) (used : List Label) (segs : List (List Instruction)) :
    Prop where
  hasBlocks : w.graph.HasBlocks used segs
  current : w.current = if segs = [] then Graph.entry else segs.length + 1
  tail : w.tail = tailOf segs
  entry : w.graph.successors Graph.entry = if segs = [] then [] else [2]
  exit : w.graph.successors Graph.exit = []
  successors : ∀ n seg, segs[n]? = some seg →
    w.graph.successors (n + 2) = segmentSuccessors segs (nextNode segs n) n seg
  pending : ∀ l u, (l, u) ∈ w.pending ↔ Waits segs l u
  supply : LabelSupply.firstUnused used ≤ w.supply.labels.next

variable {used : List Label} {segs : List (List Instruction)}

theorem Graph.HasBlocks.blockForLabel? {g : Graph} (h : g.HasBlocks used segs) {l : Label}
    (hl : l ∈ used) : g.blockForLabel? l = (labelIndex segs l).map (· + 2) := by
  -- A block with this label is the block of a segment with this label.
  have hblock : ∀ v b, g.block? v = some b → b.label = l →
      ∃ n seg, v = n + 2 ∧ segs[n]? = some seg ∧ segmentLabel? seg = some l := by
    intro v b hb hlabel
    have hlt := lt_size_of_block? hb
    rw [h.size] at hlt
    rcases Nat.lt_or_ge v 2 with hsmall | hlarge
    · obtain ⟨b', hb', -, hfresh⟩ := h.sentinels v hsmall
      rw [hb] at hb'
      cases hb'
      exact absurd (hlabel ▸ hl) hfresh
    · obtain ⟨n, rfl⟩ := Nat.exists_eq_add_of_le' hlarge
      have hn : segs[n]? = some segs[n] := List.getElem?_eq_getElem (by omega)
      obtain ⟨b', hb', hof⟩ := h.blocks n _ hn
      rw [hb] at hb'
      cases hb'
      refine ⟨n, _, rfl, hn, ?_⟩
      cases hseg : segmentLabel? segs[n] with
      | none => exact absurd (hlabel ▸ hl) (hof.fresh hseg)
      | some k => rw [← hof.label k hseg, hlabel]
  cases hindex : labelIndex segs l with
  | some n =>
    obtain ⟨seg, hn, hseg⟩ := labelIndex_eq_some hindex
    obtain ⟨b, hb, hof⟩ := h.blocks n seg hn
    refine blockForLabel?_eq_some hb (hof.label l hseg) fun v b' hb' hlabel => ?_
    obtain ⟨m, seg', rfl, hm, hseg'⟩ := hblock v b' hb' hlabel
    have hindex' := (h.unique m seg' l hm hseg').2
    rw [hindex] at hindex'
    cases hindex'
    rfl
  | none =>
    refine blockForLabel?_eq_none fun v b hb hlabel => ?_
    obtain ⟨m, seg', -, hm, hseg'⟩ := hblock v b hb hlabel
    exact labelIndex_eq_none hindex hm hseg'

theorem Graph.HasBlocks.congr {g g' : Graph} (h : g.HasBlocks used segs) (hsize : g'.size = g.size)
    (hblock : ∀ u, g'.block? u = g.block? u) : g'.HasBlocks used segs where
  size := hsize.trans h.size
  sentinels u hu := by
    rw [hblock]
    exact h.sentinels u hu
  blocks n seg hn := by
    rw [hblock]
    exact h.blocks n seg hn
  unique := h.unique

theorem Walk.Describes.current_lt {w : Walk} (h : w.Describes used segs) :
    w.current < w.graph.size := by
  rw [h.current, h.hasBlocks.size]
  split
  · exact Nat.zero_lt_succ _
  · omega

theorem Walk.Describes.current_ne_exit {w : Walk} (h : w.Describes used segs) :
    w.current ≠ Graph.exit := by
  rw [h.current, Graph.exit, Graph.entry]
  split
  · exact Nat.zero_ne_one
  · rename_i hsegs
    have hpos := List.length_pos_iff.2 hsegs
    omega

theorem Supply.run_newLabel (s : Supply) :
    newLabel.run s =
      if LabelSupply.capacity ≤ s.labels.next then .error .labelSpaceExhausted s
      else .ok ⟨.ofNat s.labels.next⟩ { s with labels := ⟨s.labels.next + 1⟩ } := by
  rw [EStateM.run, newLabel, LabelSupply.run_issue]
  by_cases hlimit : LabelSupply.capacity ≤ s.labels.next
  · rw [if_pos hlimit, if_pos hlimit]
  · rw [if_neg hlimit, if_neg hlimit]

theorem Supply.run_labelledBlock (s : Supply) :
    labelledBlock.run s =
      if LabelSupply.capacity ≤ s.labels.next then .error .labelSpaceExhausted s
      else .ok (.new s.nextBlock ⟨.ofNat s.labels.next⟩)
        ⟨s.nextBlock + 1, ⟨s.labels.next + 1⟩⟩ := by
  rw [labelledBlock, EStateM.run_bind, run_newLabel]
  by_cases hlimit : LabelSupply.capacity ≤ s.labels.next
  · rw [if_pos hlimit, if_pos hlimit]
  · rw [if_neg hlimit, if_neg hlimit]
    rfl

theorem Supply.atomic_labelledBlock : Atomic labelledBlock := by
  intro s e t h
  rw [run_labelledBlock] at h
  split at h <;> cases h
  rfl

namespace Walk

variable {w w' : Walk} {i : Instruction}

theorem run_step (hi : i.placed? = none) (w : Walk) :
    (step i).run w =
      match ensureOpen.run w with
      | .ok () w => .ok () (w.append i)
      | .error e w => .error e w := by
  have hstep : step i = (do ensureOpen; modify (·.append i)) := by
    cases i <;> first | rfl | cases hi
  rw [hstep, EStateM.run_bind]
  cases ensureOpen.run w <;> rfl

/-- What a step can do: it places a label, or it appends an instruction to the current block, or to
a block that it starts for it. The start of a block is only traced. -/
theorem step_cases (h : (step i).run w = .ok () w') :
    (∃ l e, i = .label l ∧ e.level = .trace ∧ w.graph.blockForLabel? l = none ∧
      w' = ((w.startBlock (w.supply.block l).1 (w.supply.block l).2).resolve l).log e) ∨
    (i.placed? = none ∧ w.tail = .growing ∧ w' = w.append i) ∨
    (i.placed? = none ∧ w.tail ≠ .growing ∧ ∃ b s e,
      Supply.labelledBlock.run w.supply = .ok b s ∧ e.level = .trace ∧
      w' = ((w.startBlock b s).log e).append i) := by
  cases hi : i.placed? with
  | some l =>
    obtain rfl := Instruction.eq_label_of_placed? hi
    rw [step, EStateM.run, placeLabel] at h
    split at h
    · cases h
    · rename_i hnone
      cases h
      exact .inl ⟨l, _, rfl, rfl, hnone, rfl⟩
  | none =>
    right
    rw [run_step hi, EStateM.run, ensureOpen] at h
    by_cases htail : w.tail = .growing
    · rw [if_pos htail] at h
      cases h
      exact .inl ⟨rfl, htail, rfl⟩
    · rw [if_neg htail] at h
      cases hblock : Supply.labelledBlock.run w.supply with
      | error x supply =>
        rw [hblock] at h
        cases h
      | ok block supply =>
        rw [hblock] at h
        cases h
        exact .inr ⟨rfl, htail, block, supply, _, rfl, rfl, rfl⟩

theorem atomic_ensureOpen : Atomic ensureOpen := by
  intro w e w' h
  rw [EStateM.run, ensureOpen] at h
  split at h
  · cases h
  · split at h
    · cases h
    · rename_i hblock
      cases h
      rw [Supply.atomic_labelledBlock _ _ _ hblock]

theorem atomic_step (i : Instruction) : Atomic (step i) := by
  intro w e w' h
  cases hi : i.placed? with
  | some l =>
    obtain rfl := Instruction.eq_label_of_placed? hi
    rw [step, EStateM.run, placeLabel] at h
    split at h <;> cases h
    rfl
  | none =>
    rw [run_step hi] at h
    split at h
    · cases h
    · rename_i hopen
      cases h
      exact atomic_ensureOpen _ _ _ hopen

end Walk

section Append

theorem Walk.append_graph (w : Walk) (i : Instruction) :
    (w.append i).graph =
      match i.target?.bind (w.graph.modifyBlock w.current (·.append i)).blockForLabel? with
      | some v => (w.graph.modifyBlock w.current (·.append i)).addEdge w.current v
      | none => w.graph.modifyBlock w.current (·.append i) := by
  unfold append leadTo
  cases i.target? with
  | none => by_cases hjump : i.isJump <;> by_cases hends : i.endsBlock <;> simp [hjump, hends]
  | some l =>
    simp only [Option.bind_some]
    cases (w.graph.modifyBlock w.current (·.append i)).blockForLabel? l <;>
      by_cases hjump : i.isJump <;> by_cases hends : i.endsBlock <;> simp [hjump, hends]

theorem Walk.mem_append_pending {w : Walk} {i : Instruction} {l : Label} {u : Nat} :
    (l, u) ∈ (w.append i).pending ↔ (l, u) ∈ w.pending ∨ i.target? = some l ∧ u = w.current ∧
      (w.graph.modifyBlock w.current (·.append i)).blockForLabel? l = none := by
  have hpending : (w.append i).pending = w.pending ++ (i.target?.toList.filter fun l =>
      (w.graph.modifyBlock w.current (·.append i)).blockForLabel? l = none).map
        (·, w.current) := by
    unfold append leadTo
    cases i.target? with
    | none => by_cases hjump : i.isJump <;> by_cases hends : i.endsBlock <;> simp [hjump, hends]
    | some k =>
      cases hblock : (w.graph.modifyBlock w.current (·.append i)).blockForLabel? k <;>
        by_cases hjump : i.isJump <;> by_cases hends : i.endsBlock <;> simp [hjump, hends, hblock]
  rw [hpending]
  simp [and_comm, and_left_comm, and_assoc, eq_comm]

theorem Walk.append_tail {w : Walk} (h : w.tail = .growing) (i : Instruction) :
    (w.append i).tail = tailAfter (some i) := by
  unfold append leadTo tailAfter
  dsimp only
  (repeat' split) <;> first | rfl | exact h

theorem Walk.append_current (w : Walk) (i : Instruction) : (w.append i).current = w.current := by
  unfold append leadTo
  dsimp only
  (repeat' split) <;> rfl

theorem Walk.append_supply (w : Walk) (i : Instruction) : (w.append i).supply = w.supply := by
  unfold append leadTo
  dsimp only
  (repeat' split) <;> rfl

end Append

section Extend

variable {w : Walk} {init : List (List Instruction)} {last : List Instruction} {i : Instruction}

theorem Graph.HasBlocks.extend {g : Graph} (h : g.HasBlocks used (init ++ [last]))
    (hi : i.placed? = none) :
    (g.modifyBlock (init.length + 2) (·.append i)).HasBlocks used (init ++ [last ++ [i]]) where
  size := by
    rw [size_modifyBlock, h.size]
    simp
  sentinels u hu := by
    rw [block?_modifyBlock, if_neg (by omega)]
    exact h.sentinels u hu
  blocks n seg hn := by
    rcases getElem?_concat.1 hn with hn | ⟨rfl, rfl⟩
    · have hlt := lt_of_getElem? hn
      rw [block?_modifyBlock, if_neg (by omega)]
      exact h.blocks n seg (getElem?_concat.2 (.inl hn))
    · obtain ⟨b, hb, hof⟩ := h.blocks init.length last (getElem?_concat.2 (.inr ⟨rfl, rfl⟩))
      rw [block?_modifyBlock, if_pos rfl, hb]
      refine ⟨b.append i, rfl, ?_, ?_, ?_⟩
      · simp [Block.append, hof.instrs, segmentBody, placed?_eq_none.1 hi]
      · rw [segmentLabel?_extend hi]
        exact hof.label
      · rw [segmentLabel?_extend hi]
        exact hof.fresh
  unique n seg l hn hl := by
    rw [labelIndex_congr (map_segmentLabel?_extend hi init last)]
    rcases getElem?_concat.1 hn with hn | ⟨rfl, rfl⟩
    · exact h.unique n seg l (getElem?_concat.2 (.inl hn)) hl
    · rw [segmentLabel?_extend hi] at hl
      exact h.unique init.length last l (getElem?_concat.2 (.inr ⟨rfl, rfl⟩)) hl

theorem tailOf_open (hopen : ∀ j ∈ last.getLast?, j.endsBlock = false)
    (init : List (List Instruction)) : tailOf (init ++ [last]) = .growing := by
  simp only [tailOf, List.getLast?_append, List.getLast?_singleton, Option.some_or]
  cases hlast : last.getLast? with
  | none => rfl
  | some j =>
    have hj := hopen j hlast
    cases j <;> first | rfl | cases hj

theorem Walk.Describes.current_concat (h : w.Describes used (init ++ [last])) :
    w.current = init.length + 2 := by
  rw [h.current]
  simp

theorem Walk.Describes.hasBlocks_append (h : w.Describes used (init ++ [last]))
    (hi : i.placed? = none) : (w.append i).graph.HasBlocks used (init ++ [last ++ [i]]) := by
  have hblocks := h.hasBlocks.extend hi
  rw [← h.current_concat] at hblocks
  apply hblocks.congr
  · rw [append_graph]
    split <;> simp
  · intro u
    rw [append_graph]
    split <;> simp [Graph.block?_addEdge]

theorem Walk.Describes.blockForLabel?_append (h : w.Describes used (init ++ [last]))
    (hi : i.placed? = none) {l : Label} (hl : l ∈ used) :
    (w.graph.modifyBlock w.current (·.append i)).blockForLabel? l =
      (labelIndex (init ++ [last ++ [i]]) l).map (· + 2) := by
  rw [h.current_concat]
  exact (h.hasBlocks.extend hi).blockForLabel? hl

theorem Walk.Describes.successors_append (h : w.Describes used (init ++ [last]))
    (hopen : segmentTarget? last = none) (hi : i.placed? = none)
    (htarget : ∀ l, i.target? = some l → l ∈ used) (u : Nat) :
    (w.append i).graph.successors u =
      if u = w.current then segmentLeads (init ++ [last ++ [i]]) (last ++ [i])
      else w.graph.successors u := by
  have hleads : i.target?.bind (w.graph.modifyBlock w.current (·.append i)).blockForLabel? =
      (i.target?.bind (labelIndex (init ++ [last ++ [i]]))).map (· + 2) := by
    cases ht : i.target? with
    | none => rfl
    | some l => exact h.blockForLabel?_append hi (htarget l ht)
  -- The last segment has led nowhere so far, and nothing stands behind it.
  have hempty : w.graph.successors w.current = [] := by
    rw [h.current_concat, h.successors init.length last (getElem?_concat.2 (.inr ⟨rfl, rfl⟩))]
    simp [nextNode, segmentSuccessors_none, segmentLeads, hopen]
  rw [append_graph, hleads, segmentLeads, segmentTarget?_concat]
  cases hbind : i.target?.bind (labelIndex (init ++ [last ++ [i]])) with
  | none =>
    rw [Option.map_none, Graph.successors_modifyBlock]
    by_cases hu : u = w.current <;> simp [hu, hempty]
  | some n =>
    have hn : n + 2 < w.graph.size := by
      obtain ⟨l, -, hl⟩ := Option.bind_eq_some_iff.1 hbind
      obtain ⟨seg, hseg, -⟩ := labelIndex_eq_some hl
      have hlt := lt_of_getElem? hseg
      rw [h.hasBlocks.size]
      simpa using hlt
    rw [Option.map_some, Graph.successors_addEdge (by simpa using h.current_lt) (by simpa using hn),
      Graph.successors_modifyBlock]
    by_cases hu : u = w.current <;> simp [hu, hempty, link]

theorem Walk.Describes.extend (h : w.Describes used (init ++ [last]))
    (hopen : ∀ j ∈ last.getLast?, j.endsBlock = false) (hi : i.placed? = none)
    (htarget : ∀ l, i.target? = some l → l ∈ used) :
    (w.append i).Describes used (init ++ [last ++ [i]]) := by
  have hend := (open_end hopen).1
  have hcurrent := h.current_concat
  have hsuccessors := h.successors_append hend hi htarget
  have hlength : (init ++ [last ++ [i]]).length = (init ++ [last]).length := by
    simp
  refine ⟨h.hasBlocks_append hi, ?_, ?_, ?_, ?_, ?_, ?_, ?_⟩
  · rw [append_current, hcurrent]
    simp
  · rw [append_tail (h.tail.trans (tailOf_open hopen init))]
    simp [tailOf]
  · rw [hsuccessors, if_neg (by rw [hcurrent]; exact Nat.noConfusion), h.entry]
    simp
  · rw [hsuccessors, if_neg (by rw [hcurrent]; simp [Graph.exit]), h.exit]
  · intro n seg hn
    rw [hsuccessors, nextNode, hlength, ← nextNode]
    rcases getElem?_concat.1 hn with hn | ⟨rfl, rfl⟩
    · have hlt := lt_of_getElem? hn
      rw [if_neg (by omega), segmentSuccessors_congr (map_segmentLabel?_extend hi init last)]
      exact h.successors n seg (getElem?_concat.2 (.inl hn))
    · rw [if_pos hcurrent.symm]
      simp [nextNode, segmentSuccessors_none]
  · intro l u
    rw [mem_append_pending, h.pending, waits_extend hend hi, ← hcurrent]
    apply or_congr_right
    apply and_congr_right
    intro hl
    rw [h.blockForLabel?_append hi (htarget l hl), Option.map_eq_none_iff]
  · rw [append_supply]
    exact h.supply

end Extend

end StackBackend.Flow
