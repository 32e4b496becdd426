import StackBackend.Proofs.Flow.Traversal

/-!
# How a built graph is represented

The successors and the predecessors of the blocks are separate lists, and a label leads to a block by
a search. In a graph that has been built, the two kinds of lists say the same, each edge once, and
each block is found by its label and by no other. For a label that is placed has been looked up
before, and the labels that are issued lie past all those of the stream.

A map from labels to blocks, in which a later block takes the place of an earlier one with the same
label, finds the same blocks: no two blocks have the same label.
-/
namespace StackBackend.Flow

/-- The map of the labels that results when the blocks are added one after another. -/
def labelMap (blocks : List Block) : Std.TreeMap Label Nat :=
  blocks.zipIdx.foldl (fun map x => map.insert x.1.label x.2) ∅

theorem labelMap_concat (blocks : List Block) (b : Block) :
    labelMap (blocks ++ [b]) = (labelMap blocks).insert b.label blocks.length := by
  simp [labelMap, List.zipIdx_append]

theorem getElem?_labelMap {blocks : List Block} (h : (blocks.map (·.label)).Nodup) {l : Label}
    {u : Nat} : (labelMap blocks)[l]? = some u ↔ (blocks.map (·.label))[u]? = some l := by
  induction blocks using List.reverseRecOn with
  | nil => simp [labelMap]
  | append_singleton blocks b ih =>
    rw [List.map_append, List.map_singleton] at h ⊢
    obtain ⟨hnodup, -, hne⟩ := List.nodup_append.1 h
    rw [labelMap_concat, Std.TreeMap.getElem?_insert]
    by_cases hl : b.label = l
    · subst hl
      have hlast : (blocks.map (·.label) ++ [b.label])[blocks.length]? = some b.label := by
        simp
      constructor
      · intro hu
        rw [if_pos Std.ReflCmp.compare_self] at hu
        cases hu
        exact hlast
      · intro hu
        have hlt := (List.getElem?_eq_some_iff.1 hlast).1
        have heq := (List.getElem?_inj hlt h).1 (hlast.trans hu.symm)
        rw [if_pos Std.ReflCmp.compare_self, heq]
    · rw [if_neg (mt Std.LawfulEqCmp.eq_of_compare hl), ih hnodup]
      by_cases hu : u < (blocks.map (·.label)).length
      · rw [List.getElem?_append_left hu]
      · rw [List.getElem?_eq_none (Nat.le_of_not_lt hu),
          List.getElem?_append_right (Nat.le_of_not_lt hu)]
        cases u - (blocks.map (·.label)).length <;> simp [hl]

namespace Graph

variable {g : Graph}

theorem getElem?_labels {l : Label} {u : Nat} :
    (g.blocks.map (·.label))[u]? = some l ↔ ∃ b, g.block? u = some b ∧ b.label = l := by
  rw [List.getElem?_map, Option.map_eq_some_iff, block?_eq_getElem?]

theorem blockForLabel?_iff (h : (g.blocks.map (·.label)).Nodup) {l : Label} {u : Nat} :
    g.blockForLabel? l = some u ↔ ∃ b, g.block? u = some b ∧ b.label = l := by
  constructor
  · exact label_of_blockForLabel?
  · rintro ⟨b, hb, hl⟩
    refine blockForLabel?_eq_some hb hl fun v b' hb' hl' => ?_
    have hu := getElem?_labels.2 ⟨b, hb, hl⟩
    have hv := getElem?_labels.2 ⟨b', hb', hl'⟩
    have hlt := (List.getElem?_eq_some_iff.1 hv).1
    exact (List.getElem?_inj hlt h).1 (hv.trans hu.symm)

theorem notMem_labels {l : Label} (h : g.blockForLabel? l = none) :
    l ∉ g.blocks.map (·.label) := by
  intro hl
  obtain ⟨u, hu⟩ := List.mem_iff_getElem?.1 hl
  obtain ⟨b, hb, hlabel⟩ := getElem?_labels.1 hu
  obtain ⟨v, hv⟩ := exists_blockForLabel? hb hlabel
  rw [h] at hv
  cases hv

theorem mem_edges {u v : Nat} : (u, v) ∈ g.edges ↔ v ∈ g.successors u := by
  simp only [edges, List.mem_flatMap, List.mem_range, List.mem_map, Prod.mk.injEq]
  constructor
  · rintro ⟨i, -, j, hj, rfl, rfl⟩
    exact hj
  · intro hv
    refine ⟨u, ?_, v, hv, rfl, rfl⟩
    by_contra hge
    rw [successors_eq_nil (Nat.le_of_not_lt hge)] at hv
    cases hv

theorem length_edges (g : Graph) : g.edges.length = g.edgeCount := by
  have hnodes : g.nodes.toList.map (·.successors.length) =
      (List.range g.size).map fun i => (g.successors i).length := by
    apply List.ext_getElem
    · simp [size]
    · intro n hn _
      rw [List.length_map, Array.length_toList] at hn
      simp [successors, Array.getElem?_eq_getElem hn]
  rw [edges, edgeCount, List.length_flatMap, List.length_flatMap, hnodes]
  simp only [List.length_map]

end Graph

/-- The blocks of the walk have different labels, and the supply has been moved past all of them and
past the labels that the stream uses. -/
structure Walk.Named (w : Walk) (used : List Label) : Prop where
  nodup : (w.graph.blocks.map (·.label)).Nodup
  lt_next : ∀ l ∈ w.graph.blocks.map (·.label), l.id.toNat < w.supply.labels.next
  used_lt_next : ∀ l ∈ used, l.id.toNat < w.supply.labels.next

section Step

variable {used : List Label} {w w' : Walk} {i : Instruction} {instrs : List Instruction}

theorem Walk.Named.concat (h : w.Named used) {l : Label}
    (hlabels : w'.graph.blocks.map (·.label) = w.graph.blocks.map (·.label) ++ [l])
    (hnew : l ∉ w.graph.blocks.map (·.label)) (hl : l.id.toNat < w'.supply.labels.next)
    (hnext : w.supply.labels.next ≤ w'.supply.labels.next) : w'.Named used := by
  refine ⟨?_, fun k hk => ?_, fun k hk => Nat.lt_of_lt_of_le (h.used_lt_next k hk) hnext⟩
  · rw [hlabels]
    exact List.concat_eq_append ▸ h.nodup.concat hnew
  · rw [hlabels, List.mem_append, List.mem_singleton] at hk
    rcases hk with hk | rfl
    · exact Nat.lt_of_lt_of_le (h.lt_next k hk) hnext
    · exact hl

theorem Walk.Named.append (h : w.Named used) (i : Instruction) : (w.append i).Named used := by
  have hlabels := map_blocks_append (f := (·.label)) (i := i) (fun _ => rfl) w
  refine ⟨hlabels ▸ h.nodup, ?_, ?_⟩
  · rw [hlabels, append_supply]
    exact h.lt_next
  · rw [append_supply]
    exact h.used_lt_next

theorem Walk.Named.step (h : w.Named used) (hi : ∀ l ∈ i.labels, l ∈ used)
    (hstep : (Walk.step i).run w = .ok () w') : w'.Named used := by
  rcases Walk.step_cases hstep with ⟨l, e, rfl, -, hnone, rfl⟩ | ⟨-, -, rfl⟩ |
    ⟨-, -, b, supply, e, hblock, -, rfl⟩
  · -- No block has the label that is placed, for it has been looked up.
    have hsupply : (w.supply.block l).2.labels = w.supply.labels := rfl
    apply h.concat (l := l)
    · rw [log, blocks_resolve, blocks_startBlock, List.map_append]
      rfl
    · exact Graph.notMem_labels hnone
    · rw [log, resolve, startBlock_supply, hsupply]
      exact h.used_lt_next l (hi l List.mem_cons_self)
    · rw [log, resolve, startBlock_supply, hsupply]
  · exact h.append i
  · -- The label that is issued lies past those of the blocks.
    apply Named.append
    rw [Supply.run_labelledBlock] at hblock
    split at hblock
    · cases hblock
    · rename_i hlimit
      cases hblock
      have hid : (UInt32.ofNat w.supply.labels.next).toNat = w.supply.labels.next :=
        UInt32.toNat_ofNat_of_lt' (Nat.lt_of_not_le hlimit)
      apply h.concat (l := ⟨.ofNat w.supply.labels.next⟩)
      · rw [log, blocks_startBlock, List.map_append]
        rfl
      · intro hmem
        have hlt := h.lt_next _ hmem
        rw [hid] at hlt
        exact absurd hlt (Nat.lt_irrefl _)
      · rw [log, startBlock_supply, hid]
        exact Nat.lt_succ_self _
      · rw [log, startBlock_supply]
        exact Nat.le_succ _

theorem Walk.Named.run (h : w.Named used) (hused : ∀ l ∈ streamLabels instrs, l ∈ used)
    (hrun : w.run instrs = (w', .ok ())) : w'.Named used := by
  induction instrs generalizing w with
  | nil =>
    cases hrun
    exact h
  | cons i rest ih =>
    have hlabels : streamLabels (i :: rest) = i.labels ++ streamLabels rest := List.flatMap_cons
    rw [hlabels] at hused
    rw [Walk.run] at hrun
    cases hstep : (Walk.step i).run w with
    | error e w₁ =>
      rw [hstep] at hrun
      cases hrun
    | ok _ w₁ =>
      rw [hstep] at hrun
      exact ih (h.step (fun l hl => hused l (List.mem_append_left _ hl)) hstep)
        (fun l hl => hused l (List.mem_append_right _ hl)) hrun

theorem Walk.named_opening (routine : String) {s : Supply}
    (hfirst : LabelSupply.firstUnused used ≤ s.labels.next)
    (hexit : s.labels.next + 1 < LabelSupply.capacity) : (Walk.opening routine s).Named used := by
  have hlabels : (Walk.opening routine s).graph.blocks.map (·.label) =
      [⟨.ofNat s.labels.next⟩, ⟨.ofNat (s.labels.next + 1)⟩] := rfl
  have hnext : (Walk.opening routine s).supply.labels.next = s.labels.next + 2 := rfl
  have hentry : (UInt32.ofNat s.labels.next).toNat = s.labels.next :=
    UInt32.toNat_ofNat_of_lt' (Nat.lt_of_succ_lt hexit)
  have hid : (UInt32.ofNat (s.labels.next + 1)).toNat = s.labels.next + 1 :=
    UInt32.toNat_ofNat_of_lt' hexit
  refine ⟨?_, fun l hl => ?_, fun l hl => ?_⟩
  · rw [hlabels, List.nodup_cons, List.mem_singleton]
    refine ⟨fun heq => ?_, List.nodup_singleton _⟩
    have hnat := congrArg (fun l : Label => l.id.toNat) heq
    dsimp only at hnat
    omega
  · rw [hlabels, List.mem_cons, List.mem_singleton] at hl
    rcases hl with rfl | rfl
    · rw [hentry]
      omega
    · rw [hid]
      omega
  · have hlt := LabelSupply.lt_firstUnused hl
    omega

end Step

structure Graph.Consistent (g : Graph) : Prop where
  mirrored : ∀ u v, v ∈ g.successors u ↔ u ∈ g.predecessors v
  nodup : ∀ u, (g.successors u).Nodup ∧ (g.predecessors u).Nodup
  successors_lt : ∀ u, ∀ v ∈ g.successors u, v < g.size
  predecessors_lt : ∀ u, ∀ v ∈ g.predecessors u, v < g.size
  mem_edges : ∀ u v, (u, v) ∈ g.edges ↔ v ∈ g.successors u
  edgeCount_eq : g.edgeCount = g.edges.length
  labels_nodup : (g.blocks.map (·.label)).Nodup
  blockForLabel?_label : ∀ u b, g.block? u = some b → g.blockForLabel? b.label = some u
  blockForLabel?_other : ∀ l, (∀ b ∈ g.blocks, b.label ≠ l) → g.blockForLabel? l = none
  labelMap_eq : ∀ l, (labelMap g.blocks)[l]? = g.blockForLabel? l

theorem Graph.Linked.consistent {g : Graph} (h : g.Linked)
    (hlabels : (g.blocks.map (·.label)).Nodup) : g.Consistent where
  mirrored u v := (h.mirrored u v).symm
  nodup u := ⟨h.nodup_successors u, h.nodup_predecessors u⟩
  successors_lt u v hv := h.mirrored.lt_size hv
  predecessors_lt u v hv := by
    by_contra hge
    rw [h.mirrored v u, successors_eq_nil (Nat.le_of_not_lt hge)] at hv
    cases hv
  mem_edges u v := Graph.mem_edges
  edgeCount_eq := g.length_edges.symm
  labels_nodup := hlabels
  blockForLabel?_label u b hb := (blockForLabel?_iff hlabels).2 ⟨b, hb, rfl⟩
  blockForLabel?_other l hl := by
    apply blockForLabel?_eq_none
    intro v b hb
    rw [block?_eq_getElem?] at hb
    exact hl b (List.mem_of_getElem? hb)
  labelMap_eq l := by
    apply Option.ext
    intro u
    rw [getElem?_labelMap hlabels, getElem?_labels, blockForLabel?_iff hlabels]

/-- In a graph that has been built, each edge is listed once at both of its ends, and each block is
found by its own label and by no other. -/
theorem build_consistent {supply : Supply} {routine : String} {instrs : List Instruction}
    {g : Graph} (h : (build supply routine instrs).graph = .ok g) : g.Consistent := by
  obtain ⟨w, hexit, hrun, -, hfinish⟩ := exists_walk h
  have hopening := Walk.named_opening routine
    (Nat.le_max_right _ _ : LabelSupply.firstUnused (streamLabels instrs) ≤ _) hexit
  have hnamed := hopening.run (fun l hl => hl) hrun
  have hlabels : (g.blocks.map (·.label)).Nodup := by
    obtain ⟨-, rfl⟩ := Walk.finish_ok hfinish
    rw [Walk.blocks_fallThrough]
    exact hnamed.nodup
  exact (builtFrom_of_build h).linked.consistent hlabels

/-- The fourth block goes on to the fifth, which its branch has been waiting for. The edge is listed
once. -/
theorem build_consistent_turns :
    ∃ g, (build .fresh "turns" turns).graph = .ok g ∧ g.successors 4 = [5] ∧
      g.predecessors 5 = [4, 2] ∧ g.edgeCount = 7 ∧ g.blockForLabel? ⟨2⟩ = some 5 ∧
      g.Consistent := by
  have hfacts : (build .fresh "turns" turns).graph.toOption.map
      (fun g => (g.successors 4, g.predecessors 5, g.edgeCount, g.blockForLabel? ⟨2⟩)) =
      some ([5], [4, 2], 7, some 5) := by
    decide +kernel
  obtain ⟨g, hbuild, hfacts⟩ := exists_of_toOption hfacts
  simp only [Prod.mk.injEq] at hfacts
  obtain ⟨hsuccessors, hpredecessors, hcount, hlabel⟩ := hfacts
  exact ⟨g, hbuild, hsuccessors, hpredecessors, hcount, hlabel, build_consistent hbuild⟩

end StackBackend.Flow
