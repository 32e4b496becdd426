import StackBackend.Proofs.Flow.Building

/-!
# What the builder has read

After a part of the stream the walk is described by the segments of that part. Its blocks have the
labels of the layout, the supply has issued one label for each block without a label of the stream,
and each edge is listed once at both of its ends. Every step keeps this, so it holds of the graph
that is built in the end.
-/
namespace StackBackend.Flow

variable {used : List Label} {routine : String} {first : Nat} {done instrs : List Instruction}
  {w w' : Walk} {i : Instruction}

section Operations

variable {b : Block} {supply : Supply} {l : Label} {target : Nat}

theorem Graph.routine_addEdge (g : Graph) (source target : Nat) :
    (g.addEdge source target).routine = g.routine := by
  unfold addEdge
  repeat' split
  all_goals rfl

theorem Graph.routine_foldl_addEdge (g : Graph) (sources : List Nat) (target : Nat) :
    (sources.foldl (fun g source => g.addEdge source target) g).routine = g.routine := by
  induction sources generalizing g with
  | nil => rfl
  | cons source rest ih => rw [List.foldl_cons, ih, routine_addEdge]

namespace Walk

theorem routine_fallThrough (w : Walk) (target : Nat) :
    (w.fallThrough target).graph.routine = w.graph.routine := by
  unfold fallThrough
  split
  · rfl
  · exact Graph.routine_addEdge ..

theorem routine_startBlock (w : Walk) (b : Block) (supply : Supply) :
    (w.startBlock b supply).graph.routine = w.graph.routine :=
  routine_fallThrough { w with graph := w.graph.addBlock b, supply } w.graph.size

theorem routine_resolve (w : Walk) (l : Label) :
    (w.resolve l).graph.routine = w.graph.routine :=
  Graph.routine_foldl_addEdge ..

theorem routine_append (w : Walk) (i : Instruction) :
    (w.append i).graph.routine = w.graph.routine := by
  rw [append_graph]
  split
  · exact Graph.routine_addEdge ..
  · rfl

theorem blocks_fallThrough (w : Walk) (target : Nat) :
    (w.fallThrough target).graph.blocks = w.graph.blocks := by
  unfold fallThrough
  split
  · rfl
  · exact Graph.blocks_addEdge ..

theorem blocks_startBlock (w : Walk) (b : Block) (supply : Supply) :
    (w.startBlock b supply).graph.blocks = w.graph.blocks ++ [b] := by
  have hfall := blocks_fallThrough { w with graph := w.graph.addBlock b, supply } w.graph.size
  exact hfall.trans (Graph.blocks_addBlock ..)

theorem blocks_resolve (w : Walk) (l : Label) : (w.resolve l).graph.blocks = w.graph.blocks :=
  Graph.blocks_foldl_addEdge ..

theorem map_blocks_append {α : Type} {f : Block → α} {i : Instruction}
    (hf : ∀ b, f (b.append i) = f b) (w : Walk) :
    (w.append i).graph.blocks.map f = w.graph.blocks.map f := by
  have hmodify := Graph.map_blocks_modifyBlock hf w.graph w.current
  rw [append_graph]
  split
  · rw [Graph.blocks_addEdge, hmodify]
  · exact hmodify

theorem linked_fallThrough (h : w.graph.Linked) (hcurrent : w.current < w.graph.size)
    (htarget : target < w.graph.size) : (w.fallThrough target).graph.Linked := by
  unfold fallThrough
  split
  · exact h
  · exact h.addEdge hcurrent htarget

theorem linked_startBlock (h : w.graph.Linked) (hcurrent : w.current < w.graph.size)
    (b : Block) (supply : Supply) : (w.startBlock b supply).graph.Linked := by
  have hadded := h.addBlock b
  have hsize : (w.graph.addBlock b).size = w.graph.size + 1 := w.graph.size_addBlock b
  exact linked_fallThrough (w := { w with graph := w.graph.addBlock b, supply }) hadded
    (by dsimp only; omega) (by dsimp only; omega)

theorem Begins.linked_resolve {w₀ : Walk} {label? : Option Label} (hbegins : w₀.Begins w b label?)
    (hpending : ∀ l u, (l, u) ∈ w₀.pending → u < w₀.graph.size) (h : w.graph.Linked)
    (l : Label) : (w.resolve l).graph.Linked := by
  apply h.foldl_addEdge
  · intro s hs
    simp only [List.mem_map, List.mem_filter] at hs
    obtain ⟨⟨k, u⟩, ⟨hmem, -⟩, rfl⟩ := hs
    have hlt := hpending k u ((hbegins.pending k u).1 hmem).1
    rw [hbegins.size]
    exact Nat.lt_succ_of_lt hlt
  · rw [hbegins.current, hbegins.size]
    exact Nat.lt_succ_self _

theorem Describes.linked_append {segs : List (List Instruction)} (h : w.Describes used segs)
    (hlinked : w.graph.Linked) (i : Instruction) : (w.append i).graph.Linked := by
  have hmodified := hlinked.modifyBlock w.current (·.append i)
  rw [append_graph]
  split
  · rename_i v hv
    obtain ⟨l, -, hlabel⟩ := Option.bind_eq_some_iff.1 hv
    refine hmodified.addEdge ?_ (Graph.lt_size_of_blockForLabel? hlabel)
    rw [Graph.size_modifyBlock]
    exact h.current_lt
  · exact hmodified

end Walk

end Operations

/-- The walk has read a part of the stream. The labels that the supply issues are numbered from
`first` on. -/
structure Walk.HasRead (w : Walk) (used : List Label) (routine : String) (first : Nat)
    (done : List Instruction) : Prop where
  describes : w.Describes used (cut done)
  routine : w.graph.routine = routine
  labels : w.graph.blocks.map (·.label) =
    ⟨.ofNat first⟩ :: ⟨.ofNat (first + 1)⟩ :: (blockStarts done).map (blockLabel (first + 2) done)
  next : w.supply.labels.next = first + 2 + unlabelledBefore done done.length
  fits : w.supply.labels.next ≤ LabelSupply.capacity
  linked : w.graph.Linked

theorem Walk.HasRead.step (h : w.HasRead used routine first done) (hi : ∀ l ∈ i.labels, l ∈ used)
    (hstep : (Walk.step i).run w = .ok () w') : w'.HasRead used routine first (done ++ [i]) := by
  have hdescribes := h.describes.step hi hstep
  have hlabels := map_blockLabel_concat (first + 2) done i
  have hlabel := labelAt?_length done i []
  have hbefore : unlabelledBefore (done ++ [i]) done.length = unlabelledBefore done done.length :=
    unlabelledBefore_append (Nat.le_refl _) [i]
  have hnext := unlabelledBefore_concat done i
  rcases Walk.step_cases hstep with ⟨l, e, rfl, -, -, rfl⟩ | ⟨hplaced, hgrowing, rfl⟩ |
    ⟨hplaced, hended, b, supply, e, hblock, -, rfl⟩
  · -- A label begins a block, which has that label.
    have hbegins : beginsAt (done ++ [.label l]) done.length = true := by
      rw [beginsAt_length]
      rfl
    have hstarted := begins_startBlock h.describes.current_lt (w.supply.block l).1
      (w.supply.block l).2
    rw [if_pos hbegins, blockLabel, hlabel] at hlabels
    rw [beginsUnlabelled, hlabel, hbegins] at hnext
    refine ⟨hdescribes, ?_, ?_, ?_, ?_, ?_⟩
    · rw [log, routine_resolve, routine_startBlock, h.routine]
    · rw [log, blocks_resolve, blocks_startBlock, List.map_append, h.labels, hlabels]
      rfl
    · rw [log, resolve, startBlock_supply, hnext]
      exact h.next
    · rw [log, resolve, startBlock_supply]
      exact h.fits
    · exact hstarted.linked_resolve (fun _ _ => h.describes.pending_lt)
        (linked_startBlock h.linked h.describes.current_lt _ _) l
  · -- An instruction that extends the current block changes no label.
    have hextends : ¬ beginsAt (done ++ [i]) done.length = true := fun hbegins =>
      (h.describes.begins_iff hplaced []).1 hbegins hgrowing
    rw [if_neg hextends, List.append_nil] at hlabels
    rw [beginsUnlabelled, eq_false_of_ne_true hextends] at hnext
    refine ⟨hdescribes, ?_, ?_, ?_, ?_, ?_⟩
    · rw [routine_append, h.routine]
    · rw [map_blocks_append fun _ => rfl, h.labels, hlabels]
    · rw [append_supply, hnext]
      exact h.next
    · rw [append_supply]
      exact h.fits
    · exact h.describes.linked_append h.linked i
  · -- A block of its own has the next label that is issued.
    have hbegins := (h.describes.begins_iff hplaced []).2 hended
    have hstarted := linked_startBlock h.linked h.describes.current_lt b supply
    rw [if_pos hbegins, blockLabel, hlabel, hplaced, hbefore] at hlabels
    rw [beginsUnlabelled, hlabel, hplaced, hbegins] at hnext
    have hnew := h.describes.startBlock hblock
    rw [Supply.run_labelledBlock] at hblock
    split at hblock
    · cases hblock
    · rename_i hlimit
      cases hblock
      refine ⟨hdescribes, ?_, ?_, ?_, ?_, ?_⟩
      · rw [routine_append, log, routine_startBlock, h.routine]
      · rw [map_blocks_append fun _ => rfl, log, blocks_startBlock, List.map_append, h.labels,
          hlabels, h.next]
        rfl
      · rw [append_supply, log, startBlock_supply, hnext, h.next]
        rfl
      · rw [append_supply, log, startBlock_supply]
        exact Nat.lt_of_not_le hlimit
      · exact hnew.log e |>.linked_append hstarted i

theorem Walk.HasRead.run_part (h : w.HasRead used routine first done)
    (hused : ∀ l ∈ streamLabels instrs, l ∈ used) :
    ∃ read rest, instrs = read ++ rest ∧
      (w.run instrs).1.HasRead used routine first (done ++ read) ∧
      ((w.run instrs).2 = .ok () → rest = []) := by
  induction instrs generalizing w done with
  | nil =>
    rw [← List.append_nil done] at h
    exact ⟨[], [], rfl, h, fun _ => rfl⟩
  | cons i rest ih =>
    have hlabels : streamLabels (i :: rest) = i.labels ++ streamLabels rest := List.flatMap_cons
    rw [hlabels] at hused
    rw [Walk.run]
    cases hstep : (Walk.step i).run w with
    | error e w₁ =>
      rw [Walk.atomic_step i _ _ _ hstep]
      rw [← List.append_nil done] at h
      exact ⟨[], i :: rest, rfl, h, nofun⟩
    | ok _ w₁ =>
      obtain ⟨read, left, rfl, hread, hall⟩ :=
        ih (h.step (fun l hl => hused l (List.mem_append_left _ hl)) hstep)
          (fun l hl => hused l (List.mem_append_right _ hl))
      rw [← List.append_cons] at hread
      exact ⟨i :: read, left, rfl, hread, hall⟩

theorem Walk.HasRead.run (h : w.HasRead used routine first done)
    (hused : ∀ l ∈ streamLabels instrs, l ∈ used) (hrun : w.run instrs = (w', .ok ())) :
    w'.HasRead used routine first (done ++ instrs) := by
  obtain ⟨read, rest, rfl, hread, hall⟩ := h.run_part hused
  rw [hrun] at hread hall
  rwa [hall rfl, List.append_nil]

section Build

def Supply.firstIssued (supply : Supply) (instrs : List Instruction) : Nat :=
  (supply.skipPast (streamLabels instrs)).labels.next

def Walk.opening (routine : String) (s : Supply) : Walk :=
  .start routine (.new s.nextBlock ⟨.ofNat s.labels.next⟩)
    (.new (s.nextBlock + 1) ⟨.ofNat (s.labels.next + 1)⟩)
    ⟨s.nextBlock + 1 + 1, ⟨s.labels.next + 1 + 1⟩⟩

/-- The blocks that a build has started when it ends, also if it fails. -/
def startedBlocks (supply : Supply) (routine : String) (instrs : List Instruction) : List Block :=
  match Supply.labelledBlock.run (supply.skipPast (streamLabels instrs)) with
  | .error _ _ => []
  | .ok entry supply =>
    match Supply.labelledBlock.run supply with
    | .error _ _ => [entry]
    | .ok exit supply => ((Walk.start routine entry exit supply).run instrs).1.graph.blocks

theorem Walk.finish_supply (w : Walk) : w.finish.1.supply = w.supply := by
  have hfall : (w.fallThrough Graph.exit).supply = w.supply := by
    unfold fallThrough
    split <;> rfl
  unfold finish
  dsimp only
  split <;> exact hfall

theorem build_cases (supply : Supply) (routine : String) (instrs : List Instruction) :
    (LabelSupply.capacity ≤ supply.firstIssued instrs ∧
      (build supply routine instrs).graph = .error .labelSpaceExhausted ∧
      startedBlocks supply routine instrs = [] ∧
      (build supply routine instrs).supply = supply.skipPast (streamLabels instrs)) ∨
    (supply.firstIssued instrs + 1 = LabelSupply.capacity ∧
      (build supply routine instrs).graph = .error .labelSpaceExhausted ∧
      startedBlocks supply routine instrs =
        [.new supply.nextBlock ⟨.ofNat (supply.firstIssued instrs)⟩] ∧
      (build supply routine instrs).supply =
        ⟨supply.nextBlock + 1, ⟨supply.firstIssued instrs + 1⟩⟩) ∨
    (supply.firstIssued instrs + 1 < LabelSupply.capacity ∧
      ∃ w result,
        (Walk.opening routine (supply.skipPast (streamLabels instrs))).run instrs = (w, result) ∧
        (build supply routine instrs).graph = (result.bind fun _ => w.finish.2) ∧
        startedBlocks supply routine instrs = w.graph.blocks ∧
        (build supply routine instrs).supply = w.supply) := by
  rw [Supply.firstIssued, startedBlocks, build]
  dsimp only
  rw [Supply.run_labelledBlock]
  by_cases hentry : LabelSupply.capacity ≤ (supply.skipPast (streamLabels instrs)).labels.next
  · rw [if_pos hentry]
    exact .inl ⟨hentry, rfl, rfl, rfl⟩
  · rw [if_neg hentry]
    dsimp only
    rw [Supply.run_labelledBlock]
    by_cases hexit : LabelSupply.capacity ≤ (supply.skipPast (streamLabels instrs)).labels.next + 1
    · rw [if_pos hexit]
      exact .inr (.inl ⟨Nat.le_antisymm (Nat.lt_of_not_le hentry) hexit, rfl, rfl, rfl⟩)
    · rw [if_neg hexit]
      dsimp only
      rw [← Walk.opening]
      refine .inr (.inr ⟨Nat.lt_of_not_le hexit, _, _, rfl, ?_⟩)
      cases (Walk.opening routine (supply.skipPast (streamLabels instrs))).run instrs with
      | mk w result =>
        cases result with
        | error x => exact ⟨rfl, rfl, rfl⟩
        | ok => exact ⟨rfl, rfl, w.finish_supply⟩

theorem build_graph (supply : Supply) (routine : String) (instrs : List Instruction) :
    (build supply routine instrs).graph =
      if supply.firstIssued instrs + 1 < LabelSupply.capacity then
        let (w, result) :=
          (Walk.opening routine (supply.skipPast (streamLabels instrs))).run instrs
        result.bind fun _ => w.finish.2
      else .error .labelSpaceExhausted := by
  rcases build_cases supply routine instrs with ⟨hfull, hgraph, -⟩ | ⟨hlast, hgraph, -⟩ |
    ⟨hexit, w, result, hrun, hgraph, -⟩
  · rw [hgraph, if_neg (Nat.not_lt.2 (Nat.le_succ_of_le hfull))]
  · rw [hgraph, if_neg (Nat.not_lt.2 (Nat.le_of_eq hlast.symm))]
  · rw [hgraph, if_pos hexit, hrun]

theorem exists_walk {supply : Supply} {g : Graph}
    (h : (build supply routine instrs).graph = .ok g) :
    ∃ w, supply.firstIssued instrs + 1 < LabelSupply.capacity ∧
      (Walk.opening routine (supply.skipPast (streamLabels instrs))).run instrs = (w, .ok ()) ∧
      startedBlocks supply routine instrs = w.graph.blocks ∧ w.finish.2 = .ok g := by
  rcases build_cases supply routine instrs with ⟨-, hgraph, -⟩ | ⟨-, hgraph, -⟩ |
    ⟨hexit, w, result, hrun, hgraph, hstarted, -⟩
  · rw [hgraph] at h
    cases h
  · rw [hgraph] at h
    cases h
  · rw [hgraph] at h
    cases result with
    | error x => cases h
    | ok => exact ⟨w, hexit, hrun, hstarted, h⟩

theorem blocks_eq_startedBlocks {supply : Supply} {g : Graph}
    (h : (build supply routine instrs).graph = .ok g) :
    g.blocks = startedBlocks supply routine instrs := by
  obtain ⟨w, -, -, hstarted, hfinish⟩ := exists_walk h
  obtain ⟨-, rfl⟩ := Walk.finish_ok hfinish
  rw [hstarted]
  exact Walk.blocks_fallThrough ..

theorem Walk.hasRead_opening {s : Supply} (hfirst : LabelSupply.firstUnused used ≤ s.labels.next)
    (hexit : s.labels.next + 1 < LabelSupply.capacity) :
    (Walk.opening routine s).HasRead used routine s.labels.next [] := by
  have hfresh : ∀ n, s.labels.next ≤ n → n < LabelSupply.capacity →
      (⟨.ofNat n⟩ : Label) ∉ used := by
    intro n hn hlt hmem
    have hid := LabelSupply.lt_firstUnused hmem
    rw [UInt32.toNat_ofNat_of_lt' hlt] at hid
    omega
  refine ⟨?_, rfl, rfl, rfl, hexit, ?_⟩
  · exact describes_start routine ⟨rfl, hfresh _ (Nat.le_refl _) (Nat.lt_of_succ_lt hexit)⟩
      ⟨rfl, hfresh _ (Nat.le_succ _) hexit⟩ (Nat.le_trans hfirst (Nat.le_add_right _ 2))
  · exact ((Graph.linked_empty routine).addBlock _).addBlock _

theorem Walk.hasRead_firstIssued (routine : String) {supply : Supply}
    (hexit : supply.firstIssued instrs + 1 < LabelSupply.capacity) :
    (Walk.opening routine (supply.skipPast (streamLabels instrs))).HasRead (streamLabels instrs)
      routine (supply.firstIssued instrs) [] :=
  hasRead_opening (Nat.le_max_right ..) hexit

theorem exists_hasRead {supply : Supply} {g : Graph}
    (h : (build supply routine instrs).graph = .ok g) :
    ∃ w : Walk, w.HasRead (streamLabels instrs) routine (supply.firstIssued instrs) instrs ∧
      w.finish.2 = .ok g := by
  obtain ⟨w, hexit, hrun, -, hfinish⟩ := exists_walk h
  exact ⟨w, (Walk.hasRead_firstIssued routine hexit).run (fun l hl => hl) hrun, hfinish⟩

theorem exists_of_toOption {α β : Type} {result : Except Error β} {f : β → α} {a : α}
    (h : result.toOption.map f = some a) : ∃ b, result = .ok b ∧ f b = a := by
  cases result with
  | error x => cases h
  | ok b => exact ⟨b, rfl, Option.some.inj h⟩

structure Graph.BuiltFrom (g : Graph) (first : Nat) (instrs : List Instruction) : Prop where
  realizes : g.Realizes (cut instrs)
  hasBlocks : g.HasBlocks (streamLabels instrs) (cut instrs)
  labels : g.blocks.map (·.label) =
    ⟨.ofNat first⟩ :: ⟨.ofNat (first + 1)⟩ ::
      (blockStarts instrs).map (blockLabel (first + 2) instrs)
  fits : first + 2 + unlabelledBefore instrs instrs.length ≤ LabelSupply.capacity
  linked : g.Linked

theorem Graph.BuiltFrom.mirrored {g : Graph} (h : g.BuiltFrom first instrs) : g.Mirrored :=
  h.linked.mirrored

theorem builtFrom_of_build {supply : Supply} {g : Graph}
    (h : (build supply routine instrs).graph = .ok g) :
    g.BuiltFrom (supply.firstIssued instrs) instrs := by
  obtain ⟨w, hread, hfinish⟩ := exists_hasRead h
  have hrealizes := hread.describes.finish hfinish
  have hlt := hread.describes.current_lt
  have hexit := hread.describes.exit_lt
  obtain ⟨-, rfl⟩ := Walk.finish_ok hfinish
  obtain ⟨hsize, hgraph⟩ := Walk.fallThrough_graph hlt hexit
  refine ⟨hrealizes, hread.describes.hasBlocks.congr hsize fun u => (hgraph u).1, ?_, ?_, ?_⟩
  · rw [Walk.blocks_fallThrough, hread.labels]
  · rw [← hread.next]
    exact hread.fits
  · exact Walk.linked_fallThrough hread.linked hlt hexit

theorem exists_segments {supply : Supply} {g : Graph}
    (h : (build supply routine instrs).graph = .ok g) :
    ∃ segs, segs.flatten = instrs ∧ (∀ seg ∈ segs, IsSegment seg) ∧ g.Realizes segs :=
  ⟨cut instrs, flatten_cut instrs, fun _ => isSegment_of_mem_cut, (builtFrom_of_build h).realizes⟩

end Build

end StackBackend.Flow
