import StackBackend.Proofs.Flow.Walk

/-!
# From the stream to the graph

The walk begins a block at a label and behind an instruction that has ended the last block. A new
block is reached from the block before it and from those that have been waiting for its label. So
every step of the builder keeps the walk described, and the graph that it ends with is told from the
segments of the whole stream.
-/
namespace StackBackend.Flow

variable {used : List Label} {segs : List (List Instruction)}

section Concat

variable {g g' : Graph} {w w' : Walk} {b : Block} {seg : List Instruction}

theorem Graph.HasBlocks.concat (h : g.HasBlocks used segs) (hsize : g'.size = g.size + 1)
    (hblock : ∀ u, g'.block? u = if u = g.size then some b else g.block? u)
    (hof : IsBlockOf used seg b)
    (hnew : ∀ l, segmentLabel? seg = some l → l ∈ used ∧ labelIndex segs l = none) :
    g'.HasBlocks used (segs ++ [seg]) where
  size := by
    rw [hsize, h.size]
    simp
  sentinels u hu := by
    rw [hblock, if_neg (by rw [h.size]; omega)]
    exact h.sentinels u hu
  blocks n seg' hn := by
    rw [hblock]
    rcases getElem?_concat.1 hn with hn | ⟨rfl, rfl⟩
    · have hlt := lt_of_getElem? hn
      rw [if_neg (by rw [h.size]; omega)]
      exact h.blocks n seg' hn
    · rw [if_pos h.size.symm]
      exact ⟨b, rfl, hof⟩
  unique n seg' l hn hl := by
    rw [labelIndex_concat]
    rcases getElem?_concat.1 hn with hn | ⟨rfl, rfl⟩
    · obtain ⟨hused, hindex⟩ := h.unique n seg' l hn hl
      exact ⟨hused, by rw [hindex, Option.some_or]⟩
    · obtain ⟨hused, hindex⟩ := hnew l hl
      exact ⟨hused, by rw [hindex, Option.none_or, if_pos hl]⟩

/-- The walk `w'` has begun a block behind `w`, which is entered at a label unless control comes to
it from the block before only. -/
structure Walk.Begins (w w' : Walk) (b : Block) (label? : Option Label) : Prop where
  size : w'.graph.size = w.graph.size + 1
  block : ∀ u, w'.graph.block? u = if u = w.graph.size then some b else w.graph.block? u
  current : w'.current = w.graph.size
  tail : w'.tail = .growing
  successors : ∀ u, w'.graph.successors u =
    if ∃ l, label? = some l ∧ (l, u) ∈ w.pending then
      link (if u = w.current ∧ w.tail ≠ .jumped then link (w.graph.successors u) w.graph.size
        else w.graph.successors u) w.graph.size
    else if u = w.current ∧ w.tail ≠ .jumped then link (w.graph.successors u) w.graph.size
      else w.graph.successors u
  pending : ∀ l u, (l, u) ∈ w'.pending ↔ (l, u) ∈ w.pending ∧ label? ≠ some l

theorem Walk.startBlock_supply (w : Walk) (b : Block) (supply : Supply) :
    (w.startBlock b supply).supply = supply := by
  unfold startBlock Walk.fallThrough
  split <;> rfl

theorem Walk.fallThrough_pending (w : Walk) (target : Nat) :
    (w.fallThrough target).pending = w.pending := by
  unfold fallThrough
  split <;> rfl

theorem Walk.fallThrough_graph (hcurrent : w.current < w.graph.size) {target : Nat}
    (htarget : target < w.graph.size) :
    (w.fallThrough target).graph.size = w.graph.size ∧
      ∀ u, (w.fallThrough target).graph.block? u = w.graph.block? u ∧
        (w.fallThrough target).graph.successors u =
          if u = w.current ∧ w.tail ≠ .jumped then link (w.graph.successors u) target
          else w.graph.successors u := by
  unfold fallThrough
  by_cases htail : w.tail = .jumped
  · simp [htail]
  · rw [if_neg htail]
    refine ⟨Graph.size_addEdge .., fun u => ⟨Graph.block?_addEdge .., ?_⟩⟩
    rw [Graph.successors_addEdge hcurrent htarget]
    simp [htail]

theorem Walk.begins_startBlock (hcurrent : w.current < w.graph.size) (b : Block)
    (supply : Supply) : w.Begins (w.startBlock b supply) b none := by
  have hadded := Graph.size_addBlock w.graph b
  have htarget : w.graph.size < (w.graph.addBlock b).size := by omega
  obtain ⟨hsize, hgraph⟩ := fallThrough_graph
    (w := { w with graph := w.graph.addBlock b, supply }) (by dsimp only; omega) htarget
  refine ⟨hsize.trans (Graph.size_addBlock ..), fun u => ?_, rfl, rfl, fun u => ?_, fun l u => ?_⟩
  · exact (hgraph u).1.trans (Graph.block?_addBlock ..)
  · have hu := (hgraph u).2
    rw [Graph.successors_addBlock] at hu
    simpa [startBlock] using hu
  · simp [startBlock, fallThrough_pending]

theorem Graph.foldl_addEdge (g : Graph) (sources : List Nat) (hsources : ∀ s ∈ sources, s < g.size)
    {target : Nat} (htarget : target < g.size) :
    (sources.foldl (fun g source => g.addEdge source target) g).size = g.size ∧
      ∀ u, (sources.foldl (fun g source => g.addEdge source target) g).block? u = g.block? u ∧
        (sources.foldl (fun g source => g.addEdge source target) g).successors u =
          if u ∈ sources then link (g.successors u) target else g.successors u := by
  induction sources generalizing g with
  | nil => simp
  | cons s rest ih =>
    have hs := hsources s List.mem_cons_self
    obtain ⟨hsize, hrest⟩ := ih (g.addEdge s target)
      (by simpa using fun t ht => hsources t (List.mem_cons_of_mem s ht)) (by simpa using htarget)
    refine ⟨hsize.trans (size_addEdge g s target), fun u => ?_⟩
    obtain ⟨hblock, hsuccessors⟩ := hrest u
    refine ⟨hblock.trans (block?_addEdge g s target u), ?_⟩
    rw [List.foldl_cons, hsuccessors, successors_addEdge hs htarget]
    by_cases hu : u = s
    · subst hu
      by_cases hmem : u ∈ rest <;> simp [hmem, link_link]
    · simp [hu]

theorem Walk.begins_resolve (hcurrent : w.current < w.graph.size)
    (hpending : ∀ l u, (l, u) ∈ w.pending → u < w.graph.size) (b : Block) (supply : Supply)
    (l : Label) : w.Begins ((w.startBlock b supply).resolve l) b (some l) := by
  have h := begins_startBlock hcurrent b supply
  have hwaiting : (w.startBlock b supply).pending = w.pending := fallThrough_pending ..
  have hsources : ∀ s, s ∈ ((w.startBlock b supply).pending.filter (·.1 = l)).map (·.2) ↔
      (l, s) ∈ w.pending := by
    intro s
    rw [hwaiting]
    simp
  have htarget : (w.startBlock b supply).current < (w.startBlock b supply).graph.size := by
    rw [h.current, h.size]
    exact Nat.lt_succ_self _
  obtain ⟨hsize, hgraph⟩ := Graph.foldl_addEdge (w.startBlock b supply).graph
    (((w.startBlock b supply).pending.filter (·.1 = l)).map (·.2))
    (fun s hs => by
      have hlt := hpending l s ((hsources s).1 hs)
      rw [h.size]
      omega)
    htarget
  refine ⟨hsize.trans h.size, fun u => (hgraph u).1.trans (h.block u), h.current, h.tail, ?_, ?_⟩
  · intro u
    have hu := (hgraph u).2
    rw [resolve, hu, h.successors, h.current]
    simp [hsources]
  · intro k u
    simp only [resolve, hwaiting, List.mem_filter, decide_eq_true_eq, ne_eq, Option.some.injEq]
    rw [eq_comm]

theorem tailOf_concat_eq_jumped (init : List (List Instruction)) (last : List Instruction) :
    tailOf (init ++ [last]) = .jumped ↔ segmentJumps last = true := by
  simp only [tailOf, List.getLast?_append, List.getLast?_singleton, Option.some_or, segmentJumps]
  cases last.getLast? with
  | none => simp [tailAfter]
  | some j => cases j <;> simp [tailAfter, Instruction.isJump, Instruction.endsBlock]

theorem Walk.Describes.fallThrough (h : w.Describes used segs) {n : Nat}
    (hn : segs[n]? = some seg) (next : Nat) :
    (if n + 2 = w.current ∧ w.tail ≠ .jumped then link (w.graph.successors (n + 2)) next
      else w.graph.successors (n + 2)) =
      segmentSuccessors segs (some (if n + 1 < segs.length then n + 3 else next)) n seg := by
  have hlt := lt_of_getElem? hn
  have hsegs : segs ≠ [] := by
    rintro rfl
    exact absurd hlt (Nat.not_lt_zero n)
  have hcurrent : w.current = segs.length + 1 := by
    rw [h.current, if_neg hsegs]
  rw [h.successors n seg hn]
  by_cases hnext : n + 1 < segs.length
  · rw [if_neg (by omega), nextNode, if_pos hnext, if_pos hnext]
  · have hlast : n + 1 = segs.length := by omega
    -- What the last segment leads to is there already, so that the way on comes after it.
    have hback : ∀ t ∈ segmentLeads segs seg, t ≤ n + 2 := by
      intro t ht
      obtain ⟨l, m, -, hindex, rfl⟩ := mem_segmentLeads.1 ht
      have hm := labelIndex_lt hindex
      omega
    have htail : w.tail = .jumped ↔ segmentJumps seg = true := by
      rw [h.tail, eq_concat_of_last hn (Nat.le_of_eq hlast.symm)]
      exact tailOf_concat_eq_jumped _ seg
    have hnone : nextNode segs n = none := by
      rw [nextNode, if_neg hnext]
    rw [hnone, if_neg hnext, segmentSuccessors_next hback]
    by_cases hjumps : segmentJumps seg
    · rw [if_pos hjumps, if_neg fun hcond => hcond.2 (htail.2 hjumps)]
    · rw [if_neg hjumps, if_pos ⟨by omega, mt htail.1 hjumps⟩]

theorem Walk.Begins.successors_of_ne (hbegins : w.Begins w' b (segmentLabel? seg)) {u : Nat}
    (hcurrent : u ≠ w.current) (hpending : ∀ l, (l, u) ∉ w.pending) :
    w'.graph.successors u = w.graph.successors u := by
  have hnot : ¬∃ l, segmentLabel? seg = some l ∧ (l, u) ∈ w.pending :=
    fun ⟨l, _, hmem⟩ => hpending l hmem
  rw [hbegins.successors, if_neg hnot, if_neg fun hcond => hcurrent hcond.1]

theorem Walk.Describes.successors_begins (h : w.Describes used segs)
    (hbegins : w.Begins w' b (segmentLabel? seg)) {n : Nat} {seg' : List Instruction}
    (hn : segs[n]? = some seg') :
    w'.graph.successors (n + 2) = segmentSuccessors (segs ++ [seg]) (some (n + 3)) n seg' := by
  have hlt := lt_of_getElem? hn
  have hsize := h.hasBlocks.size
  have hnext : (if n + 1 < segs.length then n + 3 else w.graph.size) = n + 3 := by
    split <;> omega
  -- The sources that are resolved are the segments that lead to the new one.
  have hwaits : (∃ l, segmentLabel? seg = some l ∧ (l, n + 2) ∈ w.pending) ↔
      ∃ l, segmentTarget? seg' = some l ∧ labelIndex segs l = none ∧
        segmentLabel? seg = some l := by
    apply exists_congr
    intro l
    rw [h.pending, waits_node hn, and_comm, and_assoc]
  rw [hbegins.successors, h.fallThrough hn, hnext, segmentSuccessors_concat hlt, hsize]
  simp only [hwaits]

theorem Walk.Describes.concat (h : w.Describes used segs)
    (hbegins : w.Begins w' b (segmentLabel? seg)) (hof : IsBlockOf used seg b)
    (hnew : ∀ l, segmentLabel? seg = some l → l ∈ used ∧ labelIndex segs l = none)
    (hopen : ∀ j ∈ seg.getLast?, j.endsBlock = false)
    (hsupply : LabelSupply.firstUnused used ≤ w'.supply.labels.next) :
    w'.Describes used (segs ++ [seg]) := by
  have hsize := h.hasBlocks.size
  have hlength : (segs ++ [seg]).length = segs.length + 1 := by
    simp
  have hpending : ∀ l u, (l, u) ∈ w.pending → 2 ≤ u ∧ u < segs.length + 2 :=
    fun l u hmem => ((h.pending l u).1 hmem).bounds
  refine ⟨h.hasBlocks.concat hbegins.size hbegins.block hof hnew, ?_, ?_, ?_, ?_, ?_, ?_, hsupply⟩
  · rw [hbegins.current, hsize]
    simp
  · rw [hbegins.tail, tailOf_open hopen]
  · have hnot : ¬∃ l, segmentLabel? seg = some l ∧ (l, Graph.entry) ∈ w.pending := by
      intro ⟨l, _, hmem⟩
      have hge := (hpending l _ hmem).1
      simp [Graph.entry] at hge
    rw [hbegins.successors, if_neg hnot, h.entry, h.current, h.tail, hsize]
    by_cases hsegs : segs = []
    · simp [hsegs, tailOf, link]
    · simp [hsegs, Graph.entry]
  · rw [hbegins.successors_of_ne h.current_ne_exit.symm, h.exit]
    intro l hmem
    have hge := (hpending l _ hmem).1
    simp [Graph.exit] at hge
  · intro n seg' hn
    rw [nextNode, hlength]
    rcases getElem?_concat.1 hn with hn | ⟨rfl, rfl⟩
    · have hlt := lt_of_getElem? hn
      rw [if_pos (Nat.succ_lt_succ hlt)]
      exact h.successors_begins hbegins hn
    · have hcurrent : segs.length + 2 ≠ w.current := by
        have hlt := h.current_lt
        omega
      rw [hbegins.successors_of_ne hcurrent, if_neg (Nat.lt_irrefl _),
        Graph.successors_eq_nil (by omega), segmentSuccessors_none, segmentLeads,
        (open_end hopen).1]
      · rfl
      · intro l hmem
        have hlt := (hpending l _ hmem).2
        omega
  · intro l u
    rw [hbegins.pending, h.pending, waits_concat (open_end hopen).1]

end Concat

theorem labelledBlock_fresh {s s' : Supply} {b : Block}
    (h : Supply.labelledBlock.run s = .ok b s')
    (hs : LabelSupply.firstUnused used ≤ s.labels.next) :
    b.instrs = [] ∧ b.label ∉ used ∧ LabelSupply.firstUnused used ≤ s'.labels.next := by
  rw [Supply.run_labelledBlock] at h
  split at h
  · cases h
  · rename_i hlimit
    cases h
    have hissue := s.labels.run_issue
    rw [if_neg hlimit] at hissue
    obtain ⟨hfresh, hnext⟩ := LabelSupply.issue_fresh hissue hs
    exact ⟨rfl, hfresh, hnext⟩

section Step

variable {w w' : Walk} {i : Instruction} {done : List Instruction}

theorem tailOf_cut (done : List Instruction) :
    tailOf (cut done) = .growing ↔ done.getLast?.all (·.endsBlock) = false := by
  rcases List.eq_nil_or_concat' (cut done) with hnil | ⟨init, last, hcut⟩
  · rw [hnil, cut_eq_nil.1 hnil]
    simp [tailOf]
  · have hne : done ≠ [] := by
      rw [Ne, ← cut_eq_nil, hcut]
      simp
    rw [hcut, tailOf, List.getLast?_concat]
    dsimp only
    rw [getLast?_of_cut hcut, List.getLast?_eq_some_getLast hne]
    cases done.getLast hne <;> simp [tailAfter, Instruction.isJump, Instruction.endsBlock]

theorem Walk.Describes.log (h : w.Describes used segs) (e : Event) :
    (w.log e).Describes used segs :=
  ⟨h.hasBlocks, h.current, h.tail, h.entry, h.exit, h.successors, h.pending, h.supply⟩

theorem Walk.Describes.pending_lt (h : w.Describes used segs) {l : Label} {u : Nat}
    (hmem : (l, u) ∈ w.pending) : u < w.graph.size := by
  rw [h.hasBlocks.size]
  exact ((h.pending l u).1 hmem).bounds.2

theorem Walk.Describes.placeLabel {l : Label} (h : w.Describes used segs) (hl : l ∈ used)
    (hnone : w.graph.blockForLabel? l = none) :
    ((w.startBlock (w.supply.block l).1 (w.supply.block l).2).resolve l).Describes used
      (segs ++ [[.label l]]) := by
  have hbegins : w.Begins _ (w.supply.block l).1 (segmentLabel? [.label l]) :=
    begins_resolve h.current_lt (fun _ _ => h.pending_lt) _ (w.supply.block l).2 l
  rw [h.hasBlocks.blockForLabel? hl, Option.map_eq_none_iff] at hnone
  refine h.concat hbegins ⟨rfl, ?_, nofun⟩ ?_ ?_ ?_
  · rintro k ⟨⟩
    rfl
  · rintro k ⟨⟩
    exact ⟨hl, hnone⟩
  · rintro j ⟨⟩
    rfl
  · rw [resolve, startBlock_supply]
    exact h.supply

theorem Walk.Describes.startBlock {b : Block} {supply : Supply} (h : w.Describes used segs)
    (hblock : Supply.labelledBlock.run w.supply = .ok b supply) :
    (w.startBlock b supply).Describes used (segs ++ [[]]) := by
  obtain ⟨hinstrs, hfresh, hnext⟩ := labelledBlock_fresh hblock h.supply
  have hbegins : w.Begins (w.startBlock b supply) b (segmentLabel? []) :=
    begins_startBlock h.current_lt b supply
  refine h.concat hbegins ⟨hinstrs, nofun, fun _ => hfresh⟩ nofun nofun ?_
  rw [startBlock_supply]
  exact hnext

theorem Walk.Describes.begins_iff (h : w.Describes used (cut done)) (hi : i.placed? = none)
    (rest : List Instruction) :
    beginsAt (done ++ i :: rest) done.length = true ↔ w.tail ≠ .growing := by
  rw [beginsAt_length, placed?_eq_none.1 hi, Bool.false_or, Ne, h.tail, tailOf_cut,
    Bool.not_eq_false]

theorem Walk.Describes.step (h : w.Describes used (cut done)) (hi : ∀ l ∈ i.labels, l ∈ used)
    (hstep : (step i).run w = .ok () w') : w'.Describes used (cut (done ++ [i])) := by
  have htarget : ∀ l, i.target? = some l → l ∈ used := by
    intro l hl
    exact hi l (Instruction.mem_labels_of_target? hl)
  rcases Walk.step_cases hstep with ⟨l, e, rfl, -, hnone, rfl⟩ | ⟨hplaced, hgrowing, rfl⟩ |
    ⟨hplaced, hended, b, supply, e, hblock, -, rfl⟩
  · rw [cut_concat_apart fun j _ => by simp [joined, Instruction.startsBlock]]
    exact (h.placeLabel (hi l List.mem_cons_self) hnone).log e
  · have hextends : ¬ beginsAt (done ++ [i]) done.length = true := fun hbegins =>
      (h.begins_iff hplaced []).1 hbegins hgrowing
    rcases cut_concat done i with ⟨-, hbegins⟩ | ⟨⟨init, last, hdone, hcut⟩, -⟩
    · exact absurd hbegins hextends
    · have hopen := (tailOf_cut done).1 (h.tail.symm.trans hgrowing)
      rw [hdone] at h
      rw [hcut]
      refine h.extend (fun j hj => ?_) hplaced htarget
      rw [← getLast?_of_cut hdone, Option.mem_def.1 hj] at hopen
      exact hopen
  · have hbegins := (h.begins_iff hplaced []).2 hended
    rcases cut_concat done i with ⟨hcut, -⟩ | ⟨-, hextends⟩
    · rw [hcut]
      refine ((h.startBlock hblock).log e).extend (fun j hj => ?_) hplaced htarget
      cases hj
    · rw [hbegins] at hextends
      cases hextends

end Step

/-- The node of segment `n`, and the exit behind the last segment. -/
def nodeAt (segs : List (List Instruction)) (n : Nat) : Nat :=
  if n < segs.length then n + 2 else Graph.exit

/-- The graph of a stream that is cut into the segments. -/
structure Graph.Realizes (g : Graph) (segs : List (List Instruction)) : Prop where
  size : g.size = segs.length + 2
  sentinels : ∀ u < 2, ∃ b, g.block? u = some b ∧ b.instrs = []
  blocks : ∀ n seg, segs[n]? = some seg →
    ∃ b, g.block? (n + 2) = some b ∧ b.instrs = segmentBody seg
  unique : ∀ n seg l, segs[n]? = some seg → segmentLabel? seg = some l →
    labelIndex segs l = some n
  entry : g.successors Graph.entry = [nodeAt segs 0]
  exit : g.successors Graph.exit = []
  successors : ∀ n seg, segs[n]? = some seg →
    g.successors (n + 2) = segmentSuccessors segs (some (nodeAt segs (n + 1))) n seg
  targets : ∀ seg ∈ segs, ∀ l, segmentTarget? seg = some l → (labelIndex segs l).isSome

theorem Walk.finish_ok {w : Walk} {g : Graph} (h : w.finish.2 = .ok g) :
    w.unresolved = [] ∧ g = (w.fallThrough Graph.exit).graph := by
  unfold finish at h
  dsimp only at h
  split at h
  · rename_i hresolved
    cases h
    rw [unresolved, fallThrough_pending, ← unresolved] at hresolved
    exact ⟨hresolved, rfl⟩
  · cases h

theorem Walk.Describes.exit_lt {w : Walk} (h : w.Describes used segs) :
    Graph.exit < w.graph.size := by
  rw [h.hasBlocks.size, Graph.exit]
  omega

theorem Walk.Describes.finish {w : Walk} {g : Graph} (h : w.Describes used segs)
    (hfinish : w.finish.2 = .ok g) : g.Realizes segs := by
  obtain ⟨hresolved, rfl⟩ := finish_ok hfinish
  obtain ⟨hsize, hgraph⟩ := fallThrough_graph h.current_lt h.exit_lt
  refine ⟨hsize.trans h.hasBlocks.size, ?_, ?_, ?_, ?_, ?_, ?_, ?_⟩
  · intro u hu
    obtain ⟨b, hb, hinstrs, -⟩ := h.hasBlocks.sentinels u hu
    exact ⟨b, (hgraph u).1.trans hb, hinstrs⟩
  · intro n seg hn
    obtain ⟨b, hb, hof⟩ := h.hasBlocks.blocks n seg hn
    exact ⟨b, (hgraph (n + 2)).1.trans hb, hof.instrs⟩
  · intro n seg l hn hl
    exact (h.hasBlocks.unique n seg l hn hl).2
  · rw [(hgraph _).2, h.entry, h.current, h.tail, nodeAt]
    by_cases hsegs : segs = []
    · simp [hsegs, tailOf, link]
    · have hpos := List.length_pos_iff.2 hsegs
      simp [hsegs, hpos, Graph.entry]
  · have hcurrent := h.current_ne_exit
    rw [(hgraph _).2, if_neg (fun h => hcurrent h.1.symm), h.exit]
  · intro n seg hn
    rw [(hgraph _).2, h.fallThrough hn, nodeAt]
  · intro seg hseg l hl
    obtain ⟨n, hn⟩ := List.mem_iff_getElem?.1 hseg
    cases hindex : labelIndex segs l with
    | some m => rfl
    | none =>
      have hmem := (h.pending l (n + 2)).2 ((waits_node hn).2 ⟨hl, hindex⟩)
      have hlabel : l ∈ w.unresolved := by
        rw [unresolved, mem_ascending]
        exact List.mem_map_of_mem hmem
      rw [hresolved] at hlabel
      cases hlabel

theorem Walk.describes_start {supply : Supply} {entry exit : Block} (routine : String)
    (hentry : entry.instrs = [] ∧ entry.label ∉ used) (hexit : exit.instrs = [] ∧ exit.label ∉ used)
    (hsupply : LabelSupply.firstUnused used ≤ supply.labels.next) :
    (Walk.start routine entry exit supply).Describes used [] := by
  refine ⟨⟨rfl, ?_, nofun, nofun⟩, rfl, rfl, rfl, rfl, nofun, by simp [start, Waits], hsupply⟩
  intro u hu
  match u with
  | 0 => exact ⟨entry, rfl, hentry⟩
  | 1 => exact ⟨exit, rfl, hexit⟩

end StackBackend.Flow
