import StackBackend.Proofs.Flow.Partition
import StackBackend.Proofs.Flow.Runs

/-!
# The edges of a graph, one by one

What a block leads to is told from its last instruction. A jump leads to its target only. A branch
leads to its target and to the following block, in the order in which the two are known to the
builder: a target that is placed already comes first. Every other block leads to the following one.
-/
namespace StackBackend.Flow

def Graph.following (g : Graph) (u : Nat) : Nat :=
  let v := if u = entry then 2 else u + 1
  if v < g.size then v else exit

def BegunAt (instrs : List Instruction) (u p : Nat) : Prop :=
  2 ≤ u ∧ (blockStarts instrs)[u - 2]? = some p

variable {segs : List (List Instruction)} {seg : List Instruction} {instrs : List Instruction}
  {g : Graph} {l : Label} {first n m p q : Nat}

section Segment

variable {next : Nat}

theorem segmentSuccessors_jump (htarget : segmentTarget? seg = some l)
    (hjumps : segmentJumps seg = true) (hindex : labelIndex segs l = some m) :
    segmentSuccessors segs (some next) n seg = [m + 2] := by
  have hleads : segmentLeads segs seg = [m + 2] := by
    simp [segmentLeads, htarget, hindex]
  have hfalls : segmentFalls (some next) seg = [] := if_pos hjumps
  rw [segmentSuccessors, hleads, hfalls]
  split <;> rfl

theorem segmentSuccessors_branch (htarget : segmentTarget? seg = some l)
    (hjumps : segmentJumps seg = false) (hindex : labelIndex segs l = some m) :
    segmentSuccessors segs (some next) n seg =
      if m + 2 = next then [m + 2] else if m ≤ n then [m + 2, next] else [next, m + 2] := by
  have hleads : segmentLeads segs seg = [m + 2] := by
    simp [segmentLeads, htarget, hindex]
  have hfalls : segmentFalls (some next) seg = [next] := by
    simp [segmentFalls, hjumps]
  rw [segmentSuccessors, hleads, hfalls]
  simp only [List.foldl_cons, List.foldl_nil, link, List.mem_singleton]
  by_cases hmerged : m + 2 = next
  · simp [hmerged]
  · simp [hmerged, Ne.symm hmerged]

theorem segmentSuccessors_plain (htarget : segmentTarget? seg = none)
    (hjumps : segmentJumps seg = false) :
    segmentSuccessors segs (some next) n seg = [next] := by
  have hleads : segmentLeads segs seg = [] := by
    simp [segmentLeads, htarget]
  have hfalls : segmentFalls (some next) seg = [next] := by
    simp [segmentFalls, hjumps]
  rw [segmentSuccessors, hleads, hfalls]
  rfl

end Segment

theorem pairwise_blockStarts (instrs : List Instruction) : (blockStarts instrs).Pairwise (· < ·) :=
  List.pairwise_lt_range.filter _

theorem le_iff_of_blockStarts (hm : (blockStarts instrs)[m]? = some q)
    (hn : (blockStarts instrs)[n]? = some p) : q ≤ p ↔ m ≤ n := by
  have hpairwise := List.pairwise_iff_getElem.1 (pairwise_blockStarts instrs)
  obtain ⟨hmlt, rfl⟩ := List.getElem?_eq_some_iff.1 hm
  obtain ⟨hnlt, rfl⟩ := List.getElem?_eq_some_iff.1 hn
  rcases Nat.lt_trichotomy m n with hlt | rfl | hgt
  · have := hpairwise m n hmlt hnlt hlt
    omega
  · simp
  · have := hpairwise n m hnlt hmlt hgt
    omega

theorem begunAt_node (hn : (cut instrs)[n]? = some seg) :
    BegunAt instrs (n + 2) (segmentStart (cut instrs) n) :=
  ⟨Nat.le_add_left 2 n, getElem?_blockStarts.2 ⟨lt_of_getElem? hn, rfl⟩⟩

theorem Graph.Realizes.following (h : g.Realizes segs) :
    g.following Graph.entry = nodeAt segs 0 ∧ ∀ n, g.following (n + 2) = nodeAt segs (n + 1) := by
  constructor
  · rw [Graph.following, nodeAt, if_pos rfl, h.size]
    simp
  · intro n
    have hentry : n + 2 ≠ Graph.entry := Nat.succ_ne_zero _
    have hbehind : n + 2 + 1 < segs.length + 2 ↔ n + 1 < segs.length := by omega
    rw [Graph.following, nodeAt, if_neg hentry, h.size]
    simp only [hbehind]

theorem nodeAt_ne_entry (segs : List (List Instruction)) (n : Nat) :
    nodeAt segs n ≠ Graph.entry := by
  unfold nodeAt
  split
  · exact Nat.succ_ne_zero _
  · exact Nat.one_ne_zero

theorem Graph.Realizes.edge_cases (h : g.Realizes segs) {u v : Nat} (hv : v ∈ g.successors u) :
    u = Graph.entry ∧ v = nodeAt segs 0 ∨ ∃ n seg m, u = n + 2 ∧ segs[n]? = some seg ∧
      SegmentGoes segs n seg m ∧ v = nodeAt segs m := by
  match u with
  | 0 =>
    rw [← Graph.entry, h.entry, List.mem_singleton] at hv
    exact .inl ⟨rfl, hv⟩
  | 1 =>
    rw [← Graph.exit, h.exit] at hv
    cases hv
  | n + 2 =>
    cases hn : segs[n]? with
    | none =>
      have hle := List.getElem?_eq_none_iff.1 hn
      have hsize := h.size
      rw [Graph.successors_eq_nil (by omega)] at hv
      cases hv
    | some seg =>
      obtain ⟨m, hm, rfl⟩ := (h.mem_successors hn).1 hv
      exact .inr ⟨n, seg, m, rfl, hn, hm, rfl⟩

theorem Graph.Realizes.predecessors_entry (h : g.Realizes segs) (hmirrored : g.Mirrored) :
    g.predecessors Graph.entry = [] := by
  rw [List.eq_nil_iff_forall_not_mem]
  intro u hu
  rw [hmirrored] at hu
  rcases h.edge_cases hu with ⟨-, hentry⟩ | ⟨-, -, m, -, -, -, hentry⟩
  · exact nodeAt_ne_entry segs 0 hentry.symm
  · exact nodeAt_ne_entry segs m hentry.symm

theorem Graph.BuiltFrom.target (h : g.BuiltFrom first instrs) (hn : (cut instrs)[n]? = some seg)
    (htarget : segmentTarget? seg = some l) :
    ∃ m seg', (cut instrs)[m]? = some seg' ∧ labelIndex (cut instrs) l = some m ∧
      g.blockForLabel? l = some (m + 2) ∧
      instrs[segmentStart (cut instrs) m]? = some (.label l) := by
  have hused : l ∈ streamLabels instrs := by
    obtain ⟨i, hi, htarget⟩ := Option.bind_eq_some_iff.1 htarget
    have hmem : i ∈ (cut instrs).flatten :=
      List.mem_flatten_of_mem (List.mem_of_getElem? hn) (List.mem_of_getLast? hi)
    rw [flatten_cut] at hmem
    exact List.mem_flatMap_of_mem hmem (Instruction.mem_labels_of_target? htarget)
  obtain ⟨m, hm⟩ := Option.isSome_iff_exists.1
    (h.realizes.targets seg (List.mem_of_getElem? hn) l htarget)
  obtain ⟨seg', hseg', hlabel⟩ := labelIndex_eq_some hm
  have hat := getElem?_segmentStart hseg' hlabel
  rw [flatten_cut] at hat
  refine ⟨m, seg', hseg', hm, ?_, hat⟩
  rw [h.hasBlocks.blockForLabel? hused, hm, Option.map_some]

/-- The edges of a graph that is built from a stream, in the order in which they are listed. -/
theorem build_successors {supply : Supply} {routine : String}
    (h : (build supply routine instrs).graph = .ok g) :
    g.successors Graph.exit = [] ∧ g.predecessors Graph.entry = [] ∧
      ∀ u b, u ≠ Graph.exit → g.block? u = some b →
        match b.last? with
        | some (.jump l) => ∃ t, g.blockForLabel? l = some t ∧ g.successors u = [t]
        | some (.branch _ _ l) => ∃ t p q, g.blockForLabel? l = some t ∧
          BegunAt instrs u p ∧ BegunAt instrs t q ∧ instrs[q]? = some (.label l) ∧
          g.successors u =
            if t = g.following u then [t]
            else if q ≤ p then [t, g.following u] else [g.following u, t]
        | _ => g.successors u = [g.following u] := by
  have hbuilt := builtFrom_of_build h
  have hgraph := hbuilt.realizes
  obtain ⟨hfirst, hnext⟩ := hgraph.following
  refine ⟨hgraph.exit, hgraph.predecessors_entry hbuilt.mirrored, ?_⟩
  intro u b hu hb
  rcases hgraph.block_cases hb with ⟨hsmall, hinstrs⟩ | ⟨n, seg, rfl, hn, hinstrs⟩
  · have hentry : u = Graph.entry := by
      rw [Graph.exit] at hu
      rw [Graph.entry]
      omega
    rw [Block.last?, hinstrs, hentry, hfirst]
    exact hgraph.entry
  · have hseg := isSegment_of_mem_cut (List.mem_of_getElem? hn)
    have hsuccessors := hgraph.successors n seg hn
    rw [← hnext] at hsuccessors
    have hlast := List.getLast?_eq_some_getLast hseg.1
    generalize seg.getLast hseg.1 = i at hlast
    have htarget : segmentTarget? seg = i.target? := by
      rw [segmentTarget?, hlast, Option.bind_some]
    have hjumps : segmentJumps seg = i.isJump := by
      rw [segmentJumps, hlast, Option.any_some]
    rw [Block.last?, hinstrs, hseg.getLast?_segmentBody, hlast, hsuccessors]
    cases i with
    | jump l =>
      obtain ⟨m, -, -, hindex, hlabel, -⟩ := hbuilt.target hn htarget
      exact ⟨m + 2, hlabel, segmentSuccessors_jump htarget hjumps hindex⟩
    | branch lhs rhs l =>
      obtain ⟨m, seg', hm, hindex, hlabel, hat⟩ := hbuilt.target hn htarget
      have hp := begunAt_node hn
      have hq := begunAt_node hm
      refine ⟨m + 2, _, _, hlabel, hp, hq, hat, ?_⟩
      simp only [le_iff_of_blockStarts hq.2 hp.2, Nat.add_sub_cancel]
      exact segmentSuccessors_branch htarget hjumps hindex
    | _ => exact segmentSuccessors_plain htarget hjumps

/-- A branch ahead, a branch back to its own block, a branch to the following block and a jump. -/
def turns : List Instruction :=
  [.branch (.variable ⟨"x"⟩) (.constant .nil) ⟨2⟩, .label ⟨1⟩,
    .branch (.variable ⟨"x"⟩) (.constant .nil) ⟨1⟩, .branch (.variable ⟨"x"⟩) (.constant .nil) ⟨2⟩,
    .label ⟨2⟩, .jump ⟨1⟩]

theorem build_successors_turns :
    ∃ g, (build .fresh "turns" turns).graph = .ok g ∧ g.successors 2 = [3, 5] ∧
      g.successors 3 = [3, 4] ∧ g.successors 4 = [5] ∧ g.successors 5 = [3] := by
  have hfacts : (build .fresh "turns" turns).graph.toOption.map
      (fun g => (g.size, g.blocks.map (·.last?), g.blockForLabel? ⟨1⟩, g.blockForLabel? ⟨2⟩)) =
      some (6, [none, none, turns[0]?, turns[2]?, turns[3]?, turns[5]?], some 3, some 5) := by cbv
  obtain ⟨g, hbuild, hfacts⟩ := exists_of_toOption hfacts
  simp only [Prod.mk.injEq] at hfacts
  obtain ⟨hsize, hlast, hone, htwo⟩ := hfacts
  obtain ⟨-, -, hedges⟩ := build_successors hbuild
  have hstarts : blockStarts turns = [0, 1, 3, 4] := by decide
  have hblock : ∀ u i, (g.blocks.map (·.last?))[u]? = some (some i) →
      ∃ b, g.block? u = some b ∧ b.last? = some i := by
    intro u i hu
    rw [List.getElem?_map, ← Graph.block?_eq_getElem?, Option.map_eq_some_iff] at hu
    exact hu
  have hbranch : ∀ u t p q l lhs rhs, u ≠ Graph.exit →
      (g.blocks.map (·.last?))[u]? = some (some (.branch lhs rhs l)) →
      g.blockForLabel? l = some t → (blockStarts turns)[u - 2]? = some p →
      (blockStarts turns)[t - 2]? = some q → g.successors u =
        if t = g.following u then [t]
        else if q ≤ p then [t, g.following u] else [g.following u, t] := by
    intro u t p q l lhs rhs hu hi ht hp hq
    obtain ⟨b, hb, hi⟩ := hblock u _ hi
    have h := hedges u b hu hb
    rw [hi] at h
    obtain ⟨t', p', q', ht', ⟨-, hp'⟩, ⟨-, hq'⟩, -, hsuccessors⟩ := h
    cases ht.symm.trans ht'
    cases hp.symm.trans hp'
    cases hq.symm.trans hq'
    exact hsuccessors
  have hfollowing : g.following 2 = 3 ∧ g.following 3 = 4 ∧ g.following 4 = 5 := by
    simp [Graph.following, Graph.entry, hsize]
  obtain ⟨hnext₂, hnext₃, hnext₄⟩ := hfollowing
  rw [hlast, hstarts] at hbranch
  refine ⟨g, hbuild, ?_, ?_, ?_, ?_⟩
  · rw [hbranch 2 5 0 4 ⟨2⟩ _ _ (by decide) rfl htwo rfl rfl, hnext₂]
    rfl
  · rw [hbranch 3 3 1 1 ⟨1⟩ _ _ (by decide) rfl hone rfl rfl, hnext₃]
    rfl
  · rw [hbranch 4 5 3 4 ⟨2⟩ _ _ (by decide) rfl htwo rfl rfl, hnext₄]
    rfl
  · obtain ⟨b, hb, hi⟩ := hblock 5 (.jump ⟨1⟩) (by rw [hlast]; rfl)
    have h := hedges 5 b (by decide) hb
    rw [hi] at h
    obtain ⟨t, ht, hsuccessors⟩ := h
    cases hone.symm.trans ht
    exact hsuccessors

end StackBackend.Flow
