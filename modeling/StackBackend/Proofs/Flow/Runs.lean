import Mathlib
import StackBackend.Proofs.Flow.Contents
import StackBackend.Proofs.Flow.Reading

/-!
# The runs of a stream and the paths of its graph

Control goes on behind an instruction unless it jumps, and to the label that it leads to. A run from
the beginning of a stream executes a sequence of positions, and a path from the entry of a graph
reads off a sequence of positions from the blocks it comes through. If the graph was built from the
stream, a run stands within the last block of a path, and the runs and the paths have the same
sequences.
-/
namespace StackBackend.Flow

/-- Control can go from one position of a stream to another. -/
inductive Goes (instrs : List Instruction) : Nat → Nat → Prop where
  | next {p : Nat} {i : Instruction} :
      instrs[p]? = some i → i.isJump = false → Goes instrs p (p + 1)
  | lead {p q : Nat} {i : Instruction} {l : Label} :
      instrs[p]? = some i → i.target? = some l → instrs[q]? = some (.label l) → Goes instrs p q

/-- A run that has come to a position, and the positions it has executed on the way. Labels are
passed without a trace. -/
inductive StreamRun (instrs : List Instruction) : Nat → List Nat → Prop where
  | start : StreamRun instrs 0 []
  | step {p q : Nat} {i : Instruction} {seq : List Nat} :
      StreamRun instrs p seq → instrs[p]? = some i → Goes instrs p q →
      StreamRun instrs q (seq ++ if i.startsBlock then [] else [p])

/-- A path that has come through a block, and the positions that the blocks on the way hold. -/
inductive Graph.Path (g : Graph) (instrs : List Instruction) : Nat → List Nat → Prop where
  | entry : g.Path instrs Graph.entry (g.contents instrs Graph.entry)
  | step {u v : Nat} {seq : List Nat} :
      g.Path instrs u seq → v ∈ g.successors u → g.Path instrs v (seq ++ g.contents instrs v)

variable {instrs : List Instruction} {g : Graph} {segs : List (List Instruction)}
  {seg : List Instruction} {i : Instruction} {seq : List Nat} {n j p q v : Nat}

theorem StreamRun.of_isPrefix (h : StreamRun instrs p seq) {before : List Nat}
    (hbefore : before <+: seq) : ∃ q, StreamRun instrs q before := by
  induction h with
  | start =>
    cases List.prefix_nil.1 hbefore
    exact ⟨0, .start⟩
  | @step p q i seq hrun hp hgoes ih =>
    by_cases hi : i.startsBlock
    · rw [if_pos hi, List.append_nil] at hbefore
      exact ih hbefore
    · rw [if_neg hi, List.prefix_concat_iff] at hbefore
      rcases hbefore with rfl | hbefore
      · have hrun' := hrun.step hp hgoes
        rw [if_neg hi] at hrun'
        exact ⟨q, hrun'⟩
      · exact ih hbefore

theorem goes_iff (hp : instrs[p]? = some i) :
    Goes instrs p q ↔ i.isJump = false ∧ q = p + 1 ∨
      ∃ l, i.target? = some l ∧ instrs[q]? = some (.label l) := by
  constructor
  · rintro (⟨hp', hjump⟩ | ⟨hp', htarget, hq⟩)
    · rw [hp] at hp'
      cases hp'
      exact .inl ⟨hjump, rfl⟩
    · rw [hp] at hp'
      cases hp'
      exact .inr ⟨_, htarget, hq⟩
  · rintro (⟨hjump, rfl⟩ | ⟨l, htarget, hq⟩)
    · exact .next hp hjump
    · exact .lead hp htarget hq

theorem goes_within (hsegs : ∀ seg ∈ segs, IsSegment seg) (hn : segs[n]? = some seg)
    (hj : j + 1 < seg.length) :
    Goes segs.flatten (segmentStart segs n + j) q ↔ q = segmentStart segs n + (j + 1) := by
  have hlt : j < seg.length := by omega
  have hi : seg[j]? = some seg[j] := List.getElem?_eq_getElem hlt
  -- What ends a block stands at the end of its segment only.
  have hends : seg[j].endsBlock = false := by
    apply (hsegs seg (List.mem_of_getElem? hn)).2.2
    have hlt' : j < seg.dropLast.length := by
      rw [List.length_dropLast]
      omega
    have heq : seg.dropLast[j] = seg[j] := List.getElem_dropLast hlt'
    rw [← heq]
    exact List.getElem_mem hlt'
  have hopen : seg[j].isJump = false ∧ seg[j].target? = none := by
    cases hcase : seg[j] <;> rw [hcase] at hends <;> first | exact ⟨rfl, rfl⟩ | cases hends
  rw [goes_iff ((getElem?_flatten hn hlt).trans hi)]
  simp [hopen, Nat.add_assoc]

theorem exists_segment_of_label {l : Label} (hsegs : ∀ seg ∈ segs, IsSegment seg)
    (hq : segs.flatten[q]? = some (.label l)) :
    ∃ m seg, segs[m]? = some seg ∧ segmentLabel? seg = some l ∧ q = segmentStart segs m := by
  obtain ⟨m, seg, j, hm, hj, rfl⟩ := exists_segment_at (List.getElem?_eq_some_iff.1 hq).1
  rw [getElem?_flatten hm hj] at hq
  cases seg with
  | nil => exact absurd hj (Nat.not_lt_zero j)
  | cons i rest =>
    cases j with
    | zero =>
      cases hq
      exact ⟨m, _, hm, rfl, rfl⟩
    | succ j =>
      have hmem : Instruction.label l ∈ rest := List.mem_of_getElem? hq
      exact absurd ((hsegs _ (List.mem_of_getElem? hm)).2.1 _ hmem) (Option.some_ne_none l)

theorem getElem?_segmentStart {l : Label} (hn : segs[n]? = some seg)
    (hl : segmentLabel? seg = some l) : segs.flatten[segmentStart segs n]? = some (.label l) := by
  cases seg with
  | nil => cases hl
  | cons i rest =>
    have hi : i = .label l := Instruction.eq_label_of_placed? hl
    have hat := getElem?_flatten (j := 0) hn (Nat.succ_pos _)
    rw [Nat.add_zero] at hat
    rw [hat, hi]
    rfl

/-- Control goes from the end of segment `n` to segment `m`, or behind all segments. -/
def SegmentGoes (segs : List (List Instruction)) (n : Nat) (seg : List Instruction) (m : Nat) :
    Prop :=
  (∃ l, segmentTarget? seg = some l ∧ labelIndex segs l = some m) ∨
    segmentJumps seg = false ∧ m = n + 1

theorem SegmentGoes.le {m : Nat} (h : SegmentGoes segs n seg m) (hn : segs[n]? = some seg) :
    m ≤ segs.length := by
  rcases h with ⟨l, -, hindex⟩ | ⟨-, rfl⟩
  · exact Nat.le_of_lt (labelIndex_lt hindex)
  · exact lt_of_getElem? hn

theorem Graph.Realizes.goes_last (h : g.Realizes segs) (hsegs : ∀ seg ∈ segs, IsSegment seg)
    (hn : segs[n]? = some seg) (hj : j + 1 = seg.length) :
    Goes segs.flatten (segmentStart segs n + j) q ↔
      ∃ m, SegmentGoes segs n seg m ∧ q = segmentStart segs m := by
  have hlt : j < seg.length := by omega
  have hi : seg[j]? = some seg[j] := List.getElem?_eq_getElem hlt
  have hlast : seg.getLast? = some seg[j] := by
    rw [List.getLast?_eq_getElem?, ← hi, ← hj, Nat.add_sub_cancel]
  have htarget : segmentTarget? seg = seg[j].target? := by
    rw [segmentTarget?, hlast, Option.bind_some]
  have hjumps : segmentJumps seg = seg[j].isJump := by
    rw [segmentJumps, hlast, Option.any_some]
  rw [goes_iff ((getElem?_flatten hn hlt).trans hi), ← htarget, ← hjumps]
  constructor
  · rintro (⟨hjump, rfl⟩ | ⟨l, hl, hq⟩)
    · refine ⟨n + 1, .inr ⟨hjump, rfl⟩, ?_⟩
      rw [segmentStart_succ hn, Nat.add_assoc, hj]
    · obtain ⟨m, seg', hm, hlabel, rfl⟩ := exists_segment_of_label hsegs hq
      exact ⟨m, .inl ⟨l, hl, h.unique m seg' l hm hlabel⟩, rfl⟩
  · rintro ⟨m, ⟨l, hl, hindex⟩ | ⟨hjump, rfl⟩, rfl⟩
    · obtain ⟨seg', hm, hlabel⟩ := labelIndex_eq_some hindex
      exact .inr ⟨l, hl, getElem?_segmentStart hm hlabel⟩
    · refine .inl ⟨hjump, ?_⟩
      rw [segmentStart_succ hn, Nat.add_assoc, hj]

theorem mem_foldl_link {l base : List Nat} {v : Nat} :
    v ∈ l.foldl link base ↔ v ∈ base ∨ v ∈ l := by
  induction l generalizing base with
  | nil => simp
  | cons t rest ih =>
    rw [List.foldl_cons, ih, mem_link, List.mem_cons, or_assoc]

theorem Graph.Realizes.mem_successors (h : g.Realizes segs) (hn : segs[n]? = some seg) :
    v ∈ g.successors (n + 2) ↔ ∃ m, SegmentGoes segs n seg m ∧ v = nodeAt segs m := by
  have hmem : v ∈ g.successors (n + 2) ↔ v ∈ segmentLeads segs seg ∨
      v ∈ segmentFalls (some (nodeAt segs (n + 1))) seg := by
    rw [h.successors n seg hn, segmentSuccessors]
    split
    · exact mem_foldl_link
    · rw [mem_foldl_link, or_comm]
  have hfalls : v ∈ segmentFalls (some (nodeAt segs (n + 1))) seg ↔
      segmentJumps seg = false ∧ v = nodeAt segs (n + 1) := by
    unfold segmentFalls
    by_cases hjumps : segmentJumps seg <;> simp [hjumps]
  rw [hmem, mem_segmentLeads, hfalls]
  constructor
  · rintro (⟨l, m, hl, hindex, rfl⟩ | ⟨hjump, rfl⟩)
    · exact ⟨m, .inl ⟨l, hl, hindex⟩, by rw [nodeAt, if_pos (labelIndex_lt hindex)]⟩
    · exact ⟨n + 1, .inr ⟨hjump, rfl⟩, rfl⟩
  · rintro ⟨m, ⟨l, hl, hindex⟩ | ⟨hjump, rfl⟩, rfl⟩
    · exact .inl ⟨l, m, hl, hindex, by rw [nodeAt, if_pos (labelIndex_lt hindex)]⟩
    · exact .inr ⟨hjump, rfl⟩

theorem Graph.Realizes.exists_segmentGoes (h : g.Realizes segs) (hn : segs[n]? = some seg) :
    ∃ m, SegmentGoes segs n seg m := by
  cases hjumps : segmentJumps seg with
  | false => exact ⟨n + 1, .inr ⟨hjumps, rfl⟩⟩
  | true =>
    obtain ⟨l, hl⟩ : ∃ l, segmentTarget? seg = some l := by
      unfold segmentJumps at hjumps
      unfold segmentTarget?
      cases hlast : seg.getLast? with
      | none =>
        rw [hlast] at hjumps
        cases hjumps
      | some i =>
        rw [hlast] at hjumps
        cases i <;> first | exact ⟨_, rfl⟩ | cases hjumps
    obtain ⟨m, hm⟩ := Option.isSome_iff_exists.1 (h.targets seg (List.mem_of_getElem? hn) l hl)
    exact ⟨m, .inl ⟨l, hl, hm⟩⟩

/-- Where a run stands: within the last block of a path, or behind a path to the exit. -/
inductive Stands (g : Graph) (segs : List (List Instruction)) : Nat → List Nat → Prop where
  | within {n j : Nat} {seg : List Instruction} {before : List Nat} :
      segs[n]? = some seg → j < seg.length →
      g.Path segs.flatten (n + 2) (before ++ positionsFrom (segmentStart segs n) seg) →
      Stands g segs (segmentStart segs n + j)
        (before ++ positionsFrom (segmentStart segs n) (seg.take j))
  | behind {seq : List Nat} :
      g.Path segs.flatten Graph.exit seq → Stands g segs segs.flatten.length seq

theorem Graph.Realizes.stands_at (h : g.Realizes segs) (hsegs : ∀ seg ∈ segs, IsSegment seg)
    {m : Nat} (hm : m ≤ segs.length) {before : List Nat}
    (hpath : g.Path segs.flatten (nodeAt segs m)
      (before ++ g.contents segs.flatten (nodeAt segs m))) :
    Stands g segs (segmentStart segs m) before := by
  rcases Nat.lt_or_eq_of_le hm with hlt | rfl
  · have hseg : segs[m]? = some segs[m] := List.getElem?_eq_getElem hlt
    have hne : 0 < segs[m].length := List.length_pos_iff.2 (hsegs _ (List.getElem_mem hlt)).1
    rw [nodeAt, if_pos hlt, h.contents_node hseg] at hpath
    have hstands := Stands.within hseg hne hpath
    rw [List.take_zero, positionsFrom, List.append_nil] at hstands
    exact hstands
  · rw [nodeAt, if_neg (Nat.lt_irrefl _), h.contents_exit,
      List.append_nil] at hpath
    rw [segmentStart_length]
    exact .behind hpath

theorem Stands.step (h : g.Realizes segs) (hsegs : ∀ seg ∈ segs, IsSegment seg)
    (hstands : Stands g segs p seq) (hp : segs.flatten[p]? = some i)
    (hgoes : Goes segs.flatten p q) :
    Stands g segs q (seq ++ if i.startsBlock then [] else [p]) := by
  cases hstands with
  | @within n j seg before hn hj hpath =>
    rw [getElem?_flatten hn hj] at hp
    have hnext := positionsFrom_take_succ (segmentStart segs n) hp
    rw [List.append_assoc, ← hnext]
    by_cases hlast : j + 1 < seg.length
    · -- The run stays in the block.
      rw [goes_within hsegs hn hlast] at hgoes
      rw [hgoes]
      exact .within hn hlast hpath
    · -- The run leaves the block, along an edge to the segment it comes to.
      have hend : j + 1 = seg.length := by omega
      obtain ⟨m, hm, rfl⟩ := (h.goes_last hsegs hn hend).1 hgoes
      rw [hend, List.take_length]
      have hedge := (h.mem_successors hn).2 ⟨m, hm, rfl⟩
      exact h.stands_at hsegs (hm.le hn) (hpath.step hedge)
  | behind hpath =>
    rw [List.getElem?_eq_none (Nat.le_refl _)] at hp
    cases hp

theorem StreamRun.stands (h : g.Realizes segs) (hsegs : ∀ seg ∈ segs, IsSegment seg)
    (hrun : StreamRun segs.flatten p seq) : Stands g segs p seq := by
  induction hrun with
  | start =>
    have hentry : nodeAt segs 0 ∈ g.successors Graph.entry := by
      rw [h.entry]
      exact List.mem_cons_self
    have hpath : g.Path segs.flatten (nodeAt segs 0) _ := .step .entry hentry
    rw [h.contents_entry] at hpath
    exact h.stands_at hsegs (Nat.zero_le _) hpath
  | step hrun hp hgoes ih => exact ih.step h hsegs hp hgoes

theorem Stands.path_exit (hstands : Stands g segs p seq) (hp : p = segs.flatten.length) :
    g.Path segs.flatten Graph.exit seq := by
  cases hstands with
  | @within n j seg before hn hj hpath =>
    have hi : segs.flatten[segmentStart segs n + j]? = some seg[j] :=
      (getElem?_flatten hn hj).trans (List.getElem?_eq_getElem hj)
    rw [hp, List.getElem?_eq_none (Nat.le_refl _)] at hi
    cases hi
  | behind hpath => exact hpath

theorem StreamRun.within (hsegs : ∀ seg ∈ segs, IsSegment seg) (hn : segs[n]? = some seg)
    (hrun : StreamRun segs.flatten (segmentStart segs n) seq) (hj : j < seg.length) :
    StreamRun segs.flatten (segmentStart segs n + j)
      (seq ++ positionsFrom (segmentStart segs n) (seg.take j)) := by
  induction j with
  | zero => simpa [positionsFrom] using hrun
  | succ j ih =>
    have hlt : j < seg.length := by omega
    have hi : seg[j]? = some seg[j] := List.getElem?_eq_getElem hlt
    have hgoes := (goes_within hsegs hn hj).2 rfl
    have hrun' := (ih hlt).step ((getElem?_flatten hn hlt).trans hi) hgoes
    rw [List.append_assoc, ← positionsFrom_take_succ _ hi] at hrun'
    exact hrun'

theorem StreamRun.through (h : g.Realizes segs) (hsegs : ∀ seg ∈ segs, IsSegment seg)
    (hn : segs[n]? = some seg) (hrun : StreamRun segs.flatten (segmentStart segs n) seq) {m : Nat}
    (hm : SegmentGoes segs n seg m) :
    StreamRun segs.flatten (segmentStart segs m)
      (seq ++ positionsFrom (segmentStart segs n) seg) := by
  have hne : 0 < seg.length := List.length_pos_iff.2 (hsegs _ (List.mem_of_getElem? hn)).1
  have hlt : seg.length - 1 < seg.length := by omega
  have hend : seg.length - 1 + 1 = seg.length := by omega
  have hi : seg[seg.length - 1]? = some seg[seg.length - 1] := List.getElem?_eq_getElem hlt
  have hgoes := (h.goes_last hsegs hn hend).2 ⟨m, hm, rfl⟩
  have hrun' := (hrun.within hsegs hn hlt).step ((getElem?_flatten hn hlt).trans hi) hgoes
  rw [List.append_assoc, ← positionsFrom_take_succ _ hi, hend, List.take_length] at hrun'
  exact hrun'

theorem Graph.Path.run (h : g.Realizes segs) (hsegs : ∀ seg ∈ segs, IsSegment seg)
    {full : List Nat} (hpath : g.Path segs.flatten v full) :
    v = Graph.entry ∧ full = [] ∨ ∃ n before, n ≤ segs.length ∧ v = nodeAt segs n ∧
      full = before ++ g.contents segs.flatten v ∧
      StreamRun segs.flatten (segmentStart segs n) before := by
  induction hpath with
  | entry => exact .inl ⟨rfl, h.contents_entry _⟩
  | @step u v full hpath hedge ih =>
    right
    rcases ih with ⟨rfl, rfl⟩ | ⟨n, before, hle, rfl, rfl, hrun⟩
    · rw [h.entry, List.mem_singleton] at hedge
      exact ⟨0, [], Nat.zero_le _, hedge, rfl, .start⟩
    · rcases Nat.lt_or_eq_of_le hle with hlt | rfl
      · have hn : segs[n]? = some segs[n] := List.getElem?_eq_getElem hlt
        rw [nodeAt, if_pos hlt] at hedge ⊢
        obtain ⟨m, hm, rfl⟩ := (h.mem_successors hn).1 hedge
        rw [h.contents_node hn]
        exact ⟨m, _, hm.le hn, rfl, rfl, hrun.through h hsegs hn hm⟩
      · rw [nodeAt, if_neg (Nat.lt_irrefl _), h.exit] at hedge
        cases hedge

theorem Graph.Path.exists_run (h : g.Realizes segs) (hsegs : ∀ seg ∈ segs, IsSegment seg)
    {full : List Nat} (hpath : g.Path segs.flatten v full) :
    ∃ p, StreamRun segs.flatten p full := by
  rcases hpath.run h hsegs with ⟨-, rfl⟩ | ⟨n, before, hle, rfl, rfl, hrun⟩
  · exact ⟨0, .start⟩
  · rcases Nat.lt_or_eq_of_le hle with hlt | rfl
    · have hn : segs[n]? = some segs[n] := List.getElem?_eq_getElem hlt
      obtain ⟨m, hm⟩ := h.exists_segmentGoes hn
      rw [nodeAt, if_pos hlt, h.contents_node hn]
      exact ⟨_, hrun.through h hsegs hn hm⟩
    · rw [nodeAt, if_neg (Nat.lt_irrefl _), h.contents_exit, List.append_nil]
      exact ⟨_, hrun⟩

theorem Graph.Path.run_exit (h : g.Realizes segs) (hsegs : ∀ seg ∈ segs, IsSegment seg)
    {full : List Nat} (hpath : g.Path segs.flatten Graph.exit full) :
    StreamRun segs.flatten segs.flatten.length full := by
  rcases hpath.run h hsegs with ⟨hexit, -⟩ | ⟨n, before, hle, hexit, rfl, hrun⟩
  · exact absurd hexit Nat.one_ne_zero
  · rcases Nat.lt_or_eq_of_le hle with hlt | rfl
    · rw [nodeAt, if_pos hlt, Graph.exit] at hexit
      omega
    · rw [h.contents_exit, List.append_nil, ← segmentStart_length]
      exact hrun

/-- The runs of a stream and the paths of the graph that is built from it. The blocks hold the
instructions at the positions that are read off from them. What runs execute is what is read off
along paths, cut anywhere; what runs to the end execute is what is read off along paths to the exit.
-/
theorem build_runs {supply : Supply} {routine : String} {instrs : List Instruction} {g : Graph}
    (h : (build supply routine instrs).graph = .ok g) :
    (∀ v b, g.block? v = some b → (g.contents instrs v).map (instrs[·]?) = b.instrs.map some) ∧
      (∀ seq, (∃ p, StreamRun instrs p seq) ↔ ∃ v full, g.Path instrs v full ∧ seq <+: full) ∧
      ∀ seq, StreamRun instrs instrs.length seq ↔ g.Path instrs Graph.exit seq := by
  obtain ⟨segs, rfl, hsegs, hgraph⟩ := exists_segments h
  refine ⟨fun v b hb => hgraph.map_contents hb, fun seq => ⟨?_, ?_⟩, fun seq => ⟨?_, ?_⟩⟩
  · rintro ⟨p, hrun⟩
    cases hrun.stands hgraph hsegs with
    | @within n j seg before hn hj hpath =>
      refine ⟨n + 2, _, hpath, (List.prefix_append_right_inj before).2 ?_⟩
      exact positionsFrom_take_isPrefix ..
    | behind hpath => exact ⟨Graph.exit, seq, hpath, List.prefix_refl seq⟩
  · rintro ⟨v, full, hpath, hprefix⟩
    obtain ⟨p, hrun⟩ := hpath.exists_run hgraph hsegs
    exact hrun.of_isPrefix hprefix
  · intro hrun
    exact (hrun.stands hgraph hsegs).path_exit rfl
  · intro hpath
    exact hpath.run_exit hgraph hsegs

def crossing : List Instruction :=
  [.branch (.variable ⟨"x"⟩) (.constant .nil) ⟨2⟩, .copy ⟨"y"⟩ (.variable ⟨"x"⟩), .label ⟨1⟩,
    .label ⟨2⟩, .dispatch (.variable ⟨"y"⟩), .branch (.variable ⟨"y"⟩) (.constant .nil) ⟨1⟩]

theorem build_runs_crossing :
    ∃ g, (build .fresh "crossing" crossing).graph = .ok g ∧
      g.edges = [(0, 2), (2, 3), (2, 5), (3, 4), (4, 5), (5, 6), (6, 4), (6, 1)] ∧
      g.Path crossing Graph.exit [0, 1, 4, 5] ∧
      ∃ v full, g.Path crossing v full ∧ [0, 4] <+: full := by
  have hedges : ((build .fresh "crossing" crossing).graph.map Graph.edges).toOption =
      some [(0, 2), (2, 3), (2, 5), (3, 4), (4, 5), (5, 6), (6, 4), (6, 1)] := by cbv
  cases hbuild : (build .fresh "crossing" crossing).graph with
  | error e =>
    rw [hbuild] at hedges
    cases hedges
  | ok g =>
    rw [hbuild] at hedges
    obtain ⟨-, hruns, hexits⟩ := build_runs hbuild
    have hnext : ∀ p i, crossing[p]? = some i → i.isJump = false → Goes crossing p (p + 1) :=
      fun p i => .next
    have hbranch : Goes crossing 0 3 := .lead (l := ⟨2⟩) rfl rfl rfl
    have hfalls : StreamRun crossing 6 [0, 1, 4, 5] :=
      (((((StreamRun.start.step (i := crossing[0]) rfl (hnext 0 _ rfl rfl)).step rfl
        (hnext 1 _ rfl rfl)).step rfl (hnext 2 _ rfl rfl)).step rfl (hnext 3 _ rfl rfl)).step rfl
          (hnext 4 _ rfl rfl)).step rfl (hnext 5 _ rfl rfl)
    have hleads : StreamRun crossing 5 [0, 4] :=
      ((StreamRun.start.step (i := crossing[0]) rfl hbranch).step rfl (hnext 3 _ rfl rfl)).step rfl
        (hnext 4 _ rfl rfl)
    exact ⟨g, rfl, Option.some.inj hedges, (hexits _).1 hfalls, (hruns _).1 ⟨5, hleads⟩⟩

end StackBackend.Flow
