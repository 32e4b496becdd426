import StackBackend.Compile
import StackBackend.Proofs.Flow.Reading

/-!
# Block numbers

A build hands out block numbers one by one, and nothing else of it depends on them: a build that
starts at a later number comes to the same result, in which all numbers are shifted by as much. So
the routines of a script, which share one count, have the graphs and the errors that they have
alone, up to such a shift, and the numbers go up from graph to graph. What a failed build has used
up is left out.
-/
namespace StackBackend

namespace Flow

def Block.shift (k : Nat) (b : Block) : Block := { b with id := b.id + k }

def Node.shift (k : Nat) (n : Node) : Node := { n with block := n.block.shift k }

def Graph.shift (k : Nat) (g : Graph) : Graph := { g with nodes := g.nodes.map (Node.shift k) }

def Graph.ids (g : Graph) : List Nat := g.nodes.toList.map (·.block.id)

def Supply.shift (k : Nat) (s : Supply) : Supply := { s with nextBlock := s.nextBlock + k }

def Walk.shift (k : Nat) (w : Walk) : Walk :=
  { w with supply := w.supply.shift k, graph := w.graph.shift k }

def Outcome.shift (k : Nat) (o : Outcome) : Outcome :=
  { o with graph := o.graph.map (Graph.shift k), supply := o.supply.shift k }

variable (k : Nat)

theorem Node.map_shift_modify {f : Node → Node} (h : ∀ n, (f n).shift k = f (n.shift k))
    (nodes : Array Node) (u : Nat) :
    (nodes.modify u f).map (Node.shift k) = (nodes.map (Node.shift k)).modify u f := by
  apply Array.ext_getElem?
  intro v
  simp only [Array.getElem?_map, Array.getElem?_modify]
  split
  · simp [Option.map_map, Function.comp_def, h]
  · rfl

namespace Graph

variable (g : Graph)

@[simp]
theorem size_shift : (g.shift k).size = g.size := by simp [shift, size]

@[simp]
theorem successors_shift (u : Nat) : (g.shift k).successors u = g.successors u := by
  simp [shift, successors, Function.comp_def, Node.shift]

@[simp]
theorem edgeCount_shift : (g.shift k).edgeCount = g.edgeCount := by
  simp [shift, edgeCount, List.flatMap_map, Node.shift]

@[simp]
theorem blockForLabel?_shift (l : Label) : (g.shift k).blockForLabel? l = g.blockForLabel? l := by
  simp only [shift, blockForLabel?, Array.findIdx?_map]
  rfl

theorem shift_addBlock (b : Block) : (g.addBlock b).shift k = (g.shift k).addBlock (b.shift k) := by
  simp [shift, addBlock, Node.shift]

theorem shift_modifyBlock (u : Nat) (i : Instruction) :
    (g.modifyBlock u (·.append i)).shift k = (g.shift k).modifyBlock u (·.append i) := by
  simp only [modifyBlock, shift]
  rw [Node.map_shift_modify k]
  exact fun _ => rfl

theorem shift_addEdge (u v : Nat) : (g.addEdge u v).shift k = (g.shift k).addEdge u v := by
  unfold addEdge hasEdge
  rw [successors_shift, size_shift]
  repeat' split
  · rfl
  · rfl
  · apply congrArg (Graph.mk g.routine)
    dsimp only
    rw [Node.map_shift_modify k, Node.map_shift_modify k]
    · rfl
    · exact fun _ => rfl
    · exact fun _ => rfl

theorem shift_foldl_addEdge (sources : List Nat) (v : Nat) :
    (sources.foldl (fun g u => g.addEdge u v) g).shift k =
      sources.foldl (fun g u => g.addEdge u v) (g.shift k) := by
  induction sources generalizing g with
  | nil => rfl
  | cons u rest ih => rw [List.foldl_cons, List.foldl_cons, ih, shift_addEdge]

end Graph

theorem Supply.shift_block (s : Supply) (l : Label) :
    (s.shift k).block l = ((s.block l).1.shift k, (s.block l).2.shift k) := by
  simp only [block, shift, Block.shift, Block.new]
  rw [Nat.add_right_comm]

def moveResult {σ α : Type} (value : α → α) (state : σ → σ) :
    EStateM.Result Error σ α → EStateM.Result Error σ α
  | .ok a s => .ok (value a) (state s)
  | .error e s => .error e (state s)

theorem Supply.shift_labelledBlock (s : Supply) :
    labelledBlock.run (s.shift k) = moveResult (Block.shift k) (shift k) (labelledBlock.run s) := by
  rw [run_labelledBlock, run_labelledBlock]
  by_cases hlimit : LabelSupply.capacity ≤ s.labels.next
  · rw [if_pos hlimit, if_pos (show LabelSupply.capacity ≤ (s.shift k).labels.next from hlimit)]
    rfl
  · rw [if_neg hlimit, if_neg (show ¬LabelSupply.capacity ≤ (s.shift k).labels.next from hlimit)]
    simp only [moveResult, shift, Block.shift, Block.new]
    rw [Nat.add_right_comm]

namespace Walk

variable (w : Walk)

theorem shift_fallThrough (v : Nat) : (w.fallThrough v).shift k = (w.shift k).fallThrough v := by
  unfold fallThrough
  by_cases h : w.tail = .jumped
  · rw [if_pos h, if_pos (show (w.shift k).tail = .jumped from h)]
  · rw [if_neg h, if_neg (show (w.shift k).tail ≠ .jumped from h)]
    simp only [shift]
    rw [Graph.shift_addEdge]

theorem shift_startBlock (b : Block) (s : Supply) :
    (w.startBlock b s).shift k = (w.shift k).startBlock (b.shift k) (s.shift k) := by
  have hadd : ({ w with graph := w.graph.addBlock b, supply := s } : Walk).shift k =
      { w.shift k with graph := (w.shift k).graph.addBlock (b.shift k), supply := s.shift k } := by
    simp only [shift]
    rw [Graph.shift_addBlock]
  have hsize : (w.shift k).graph.size = w.graph.size := w.graph.size_shift k
  unfold startBlock
  dsimp only
  rw [hsize, ← hadd, ← shift_fallThrough]
  rfl

theorem shift_resolve (l : Label) : (w.resolve l).shift k = (w.shift k).resolve l := by
  simp only [resolve, shift]
  rw [Graph.shift_foldl_addEdge]

theorem shift_leadTo (l : Label) : (w.leadTo l).shift k = (w.shift k).leadTo l := by
  unfold leadTo
  rw [show (w.shift k).graph.blockForLabel? l = w.graph.blockForLabel? l from
    w.graph.blockForLabel?_shift k l]
  cases w.graph.blockForLabel? l with
  | none => rfl
  | some i =>
    simp only [shift]
    rw [Graph.shift_addEdge]

def endWith (i : Instruction) : Walk :=
  if i.isJump then { w with tail := .jumped }
  else if i.endsBlock then { w with tail := .ended }
  else w

theorem shift_endWith (i : Instruction) : (w.endWith i).shift k = (w.shift k).endWith i := by
  cases i <;> rfl

theorem shift_append (i : Instruction) : (w.append i).shift k = (w.shift k).append i := by
  have hmodify : ({ w with graph := w.graph.modifyBlock w.current (·.append i) } : Walk).shift k =
      { w.shift k with
        graph := (w.shift k).graph.modifyBlock (w.shift k).current (·.append i) } := by
    simp only [shift]
    rw [Graph.shift_modifyBlock]
  have hends : ∀ w : Walk, w.append i = endWith
      (i.target?.elim { w with graph := w.graph.modifyBlock w.current (·.append i) }
        (leadTo { w with graph := w.graph.modifyBlock w.current (·.append i) })) i := by
    intro w
    unfold append
    cases i.target? <;> rfl
  rw [hends, hends, shift_endWith]
  cases i.target? with
  | none => exact congrArg (endWith · i) hmodify
  | some l =>
    simp only [Option.elim_some]
    rw [shift_leadTo, hmodify]

theorem shift_placeLabel (l : Label) :
    (placeLabel l).run (w.shift k) = moveResult id (shift k) ((placeLabel l).run w) := by
  have hlabel : (w.shift k).graph.blockForLabel? l = w.graph.blockForLabel? l :=
    w.graph.blockForLabel?_shift k l
  have hblock : (w.shift k).supply.block l =
      ((w.supply.block l).1.shift k, (w.supply.block l).2.shift k) := w.supply.shift_block k l
  simp only [EStateM.run, placeLabel]
  rw [hlabel]
  cases w.graph.blockForLabel? l with
  | some i => rfl
  | none =>
    dsimp only
    rw [hblock, ← shift_startBlock, ← shift_resolve]
    rfl

theorem shift_ensureOpen :
    ensureOpen.run (w.shift k) = moveResult id (shift k) (ensureOpen.run w) := by
  have hblock := w.supply.shift_labelledBlock k
  simp only [EStateM.run, ensureOpen] at hblock ⊢
  by_cases h : w.tail = .growing
  · rw [if_pos h, if_pos (show (w.shift k).tail = .growing from h)]
    rfl
  · rw [if_neg h, if_neg (show (w.shift k).tail ≠ .growing from h)]
    rw [show (w.shift k).supply = w.supply.shift k from rfl, hblock]
    cases Supply.labelledBlock w.supply with
    | error x supply => rfl
    | ok block supply =>
      change EStateM.Result.ok () _ = EStateM.Result.ok () _
      rw [← shift_startBlock]
      rfl

theorem shift_step (i : Instruction) :
    (step i).run (w.shift k) = moveResult id (shift k) ((step i).run w) := by
  cases hi : i.placed? with
  | some l =>
    obtain rfl := Instruction.eq_label_of_placed? hi
    exact w.shift_placeLabel k l
  | none =>
    rw [run_step hi, run_step hi, shift_ensureOpen]
    cases ensureOpen.run w with
    | error x w' => rfl
    | ok _ w' => exact congrArg (EStateM.Result.ok ()) (w'.shift_append k i).symm

theorem shift_run (instrs : List Instruction) :
    (w.shift k).run instrs = ((w.run instrs).1.shift k, (w.run instrs).2) := by
  induction instrs generalizing w with
  | nil => rfl
  | cons i rest ih =>
    rw [run, run, shift_step]
    cases (step i).run w with
    | error x w' => rfl
    | ok _ w' => exact ih w'

theorem shift_finish :
    (w.shift k).finish = (w.finish.1.shift k, w.finish.2.map (Graph.shift k)) := by
  unfold finish
  rw [← shift_fallThrough]
  generalize w.fallThrough Graph.exit = w'
  have hunresolved : (w'.shift k).unresolved = w'.unresolved := rfl
  dsimp only
  rw [hunresolved]
  cases w'.unresolved with
  | cons l rest => rfl
  | nil =>
    have hsize : (w'.shift k).graph.size = w'.graph.size := w'.graph.size_shift k
    have hcount : (w'.shift k).graph.edgeCount = w'.graph.edgeCount := w'.graph.edgeCount_shift k
    dsimp only
    rw [hsize, hcount]
    rfl

end Walk

theorem shift_build (supply : Supply) (routine : String) (instrs : List Instruction) :
    build (supply.shift k) routine instrs = (build supply routine instrs).shift k := by
  have hskip : (supply.shift k).skipPast (streamLabels instrs) =
      (supply.skipPast (streamLabels instrs)).shift k := rfl
  unfold build
  dsimp only
  rw [hskip, Supply.shift_labelledBlock]
  cases Supply.labelledBlock.run (supply.skipPast (streamLabels instrs)) with
  | error x supply => rfl
  | ok entry supply =>
    dsimp only [moveResult]
    rw [Supply.shift_labelledBlock]
    cases Supply.labelledBlock.run supply with
    | error x supply => rfl
    | ok exit supply =>
      have hstart : (Walk.start routine entry exit supply).shift k =
          Walk.start routine (entry.shift k) (exit.shift k) (supply.shift k) := by
        have hempty : (⟨routine, #[]⟩ : Graph).shift k = ⟨routine, #[]⟩ := by simp [Graph.shift]
        simp only [Walk.start, Walk.shift, Graph.ofSentinels, Graph.shift_addBlock, hempty]
      dsimp only [moveResult]
      rw [← hstart, Walk.shift_run]
      cases (Walk.start routine entry exit supply).run instrs with
      | mk w result =>
        cases result with
        | error x => rfl
        | ok =>
          dsimp only
          rw [Walk.shift_finish]
          rfl

/-- A method does not need the labels of the supply, so only its numbers depend on what has been
built before. -/
theorem buildMethod_eq_shift {supply : Supply} (h : 1 ≤ supply.nextBlock) (routine : String)
    (m : Method) :
    (buildMethod supply routine m).graph =
      (buildMethod .fresh routine m).graph.map (Graph.shift (supply.nextBlock - 1)) := by
  have hsupply : { supply with labels := m.labelSupply } =
      ({ Supply.fresh with labels := m.labelSupply } : Supply).shift (supply.nextBlock - 1) := by
    simp only [Supply.shift, Supply.fresh]
    rw [Nat.add_sub_cancel' h]
  unfold buildMethod
  rw [hsupply, shift_build]
  rfl

theorem Graph.ids_eq (g : Graph) : g.ids = g.blocks.map (·.id) := by simp [ids, blocks]

theorem Graph.length_ids (g : Graph) : g.ids.length = g.size := by simp [ids, size]

/-- The blocks have the numbers from `start` on, and the next number is the one behind them. -/
structure Walk.Counts (start : Nat) (w : Walk) : Prop where
  ids : w.graph.ids = List.range' start w.graph.ids.length
  next : w.supply.nextBlock = start + w.graph.ids.length

namespace Walk

variable {start : Nat} {w w' : Walk}

theorem Counts.congr (h : w.Counts start) (hids : w'.graph.ids = w.graph.ids)
    (hnext : w'.supply.nextBlock = w.supply.nextBlock) : w'.Counts start := by
  refine ⟨?_, ?_⟩
  · rw [hids]
    exact h.ids
  · rw [hnext, hids]
    exact h.next

theorem Counts.log (h : w.Counts start) (e : Event) : (w.log e).Counts start := h.congr rfl rfl

theorem Counts.startBlock (h : w.Counts start) (l : Label) (labels : LabelSupply) :
    (w.startBlock (.new w.supply.nextBlock l) ⟨w.supply.nextBlock + 1, labels⟩).Counts start := by
  have hids : (w.startBlock (.new w.supply.nextBlock l)
      ⟨w.supply.nextBlock + 1, labels⟩).graph.ids = w.graph.ids ++ [w.supply.nextBlock] := by
    rw [Graph.ids_eq, Graph.ids_eq, blocks_startBlock, List.map_append]
    rfl
  refine ⟨?_, ?_⟩
  · rw [hids, List.length_append, List.length_singleton, List.range'_1_concat, ← h.ids, h.next]
  · rw [startBlock_supply, hids, List.length_append, List.length_singleton, h.next]
    rfl

theorem Counts.resolve (h : w.Counts start) (l : Label) : (w.resolve l).Counts start := by
  refine h.congr ?_ rfl
  rw [Graph.ids_eq, Graph.ids_eq, blocks_resolve]

theorem Counts.append (h : w.Counts start) (i : Instruction) : (w.append i).Counts start := by
  refine h.congr ?_ ?_
  · rw [Graph.ids_eq, Graph.ids_eq, map_blocks_append fun _ => rfl]
  · rw [append_supply]

theorem Counts.step {i : Instruction} (h : w.Counts start) (hstep : (Walk.step i).run w = .ok () w') :
    w'.Counts start := by
  rcases step_cases hstep with ⟨l, e, rfl, -, -, rfl⟩ | ⟨-, -, rfl⟩ | ⟨-, -, b, s, e, hblock, -, rfl⟩
  · exact ((h.startBlock l w.supply.labels).resolve l).log e
  · exact h.append i
  · rw [Supply.run_labelledBlock] at hblock
    split at hblock
    · cases hblock
    · cases hblock
      exact ((h.startBlock _ _).log e).append i

theorem Counts.run (h : w.Counts start) (instrs : List Instruction) :
    (w.run instrs).1.Counts start := by
  induction instrs generalizing w with
  | nil => exact h
  | cons i rest ih =>
    rw [Walk.run]
    cases hstep : (Walk.step i).run w with
    | error x w' =>
      rw [atomic_step i _ _ _ hstep]
      exact h
    | ok _ w' => exact ih (h.step hstep)

end Walk

theorem Walk.counts_opening (routine : String) (s : Supply) :
    (Walk.opening routine s).Counts s.nextBlock :=
  ⟨rfl, rfl⟩

theorem map_id_startedBlocks (supply : Supply) (routine : String) (instrs : List Instruction) :
    (startedBlocks supply routine instrs).map (·.id) =
        List.range' supply.nextBlock (startedBlocks supply routine instrs).length ∧
      (build supply routine instrs).supply.nextBlock =
        supply.nextBlock + (startedBlocks supply routine instrs).length := by
  rcases build_cases supply routine instrs with ⟨-, -, hstarted, hsupply⟩ |
    ⟨-, -, hstarted, hsupply⟩ | ⟨-, w, result, hrun, -, hstarted, hsupply⟩
  · rw [hstarted, hsupply]
    exact ⟨rfl, rfl⟩
  · rw [hstarted, hsupply]
    exact ⟨rfl, rfl⟩
  · obtain ⟨hids, hnext⟩ :=
      (Walk.counts_opening routine (supply.skipPast (streamLabels instrs))).run instrs
    rw [hrun, Graph.ids_eq, List.length_map] at hids hnext
    rw [hstarted, hsupply]
    exact ⟨hids, hnext⟩

theorem build_counts (supply : Supply) (routine : String) (instrs : List Instruction) :
    supply.nextBlock ≤ (build supply routine instrs).supply.nextBlock ∧
      ∀ g, (build supply routine instrs).graph = .ok g →
        g.ids = List.range' supply.nextBlock g.ids.length ∧
          (build supply routine instrs).supply.nextBlock = supply.nextBlock + g.ids.length := by
  obtain ⟨hids, hnext⟩ := map_id_startedBlocks supply routine instrs
  refine ⟨hnext ▸ Nat.le_add_right _ _, fun g hg => ?_⟩
  rw [Graph.ids_eq, blocks_eq_startedBlocks hg, List.length_map]
  exact ⟨hids, hnext⟩

theorem buildMethod_counts (supply : Supply) (routine : String) (m : Method) :
    supply.nextBlock ≤ (buildMethod supply routine m).supply.nextBlock ∧
      ∀ g, (buildMethod supply routine m).graph = .ok g →
        g.ids = List.range' supply.nextBlock g.ids.length ∧
          (buildMethod supply routine m).supply.nextBlock = supply.nextBlock + g.ids.length :=
  build_counts { supply with labels := m.labelSupply } routine m.instrs

end Flow

open StackBackend.Flow (Supply)

def Routine.graphAlone (r : Routine) : Except Error Flow.Graph :=
  (Flow.buildMethod .fresh r.path r.method).graph

namespace Graphs

def ids (g : Graphs) : List Nat := g.built.flatMap (·.graph.ids)

/-- A graph of the routine that differs from the one that it has alone by a shift of the numbers. -/
def IsShiftOf (g : RoutineGraph) (r : Routine) : Prop :=
  g.path = r.path ∧ ∃ alone k, r.graphAlone = .ok alone ∧ g.graph = alone.shift k

theorem ids_ofRoutines (supply : Supply) (rs : List Routine) :
    (∀ n ∈ (ofRoutines supply rs).ids, supply.nextBlock ≤ n) ∧
      (ofRoutines supply rs).ids.Pairwise (· < ·) := by
  induction rs generalizing supply with
  | nil => exact ⟨nofun, .nil⟩
  | cons r rest ih =>
    obtain ⟨hle, hgraph⟩ := Flow.buildMethod_counts supply r.path r.method
    obtain ⟨hrest, hpairwise⟩ := ih (Flow.buildMethod supply r.path r.method).supply
    rw [ofRoutines, cons]
    split
    · rename_i g hg
      obtain ⟨hids, hnext⟩ := hgraph g hg
      have hown : ∀ n ∈ g.ids, supply.nextBlock ≤ n ∧
          n < (Flow.buildMethod supply r.path r.method).supply.nextBlock := by
        intro n hn
        rw [hids, List.mem_range'_1] at hn
        rwa [hnext]
      refine ⟨fun n hn => ?_, ?_⟩
      · rw [ids, List.flatMap_cons, List.mem_append] at hn
        rcases hn with hn | hn
        · exact (hown n hn).1
        · exact Nat.le_trans hle (hrest n hn)
      · have hsorted : g.ids.Pairwise (· < ·) := hids ▸ List.pairwise_lt_range'
        rw [ids, List.flatMap_cons]
        refine List.pairwise_append.2 ⟨hsorted, hpairwise, fun n hn m hm => ?_⟩
        exact Nat.lt_of_lt_of_le (hown n hn).2 (hrest m hm)
    · exact ⟨fun n hn => Nat.le_trans hle (hrest n hn), hpairwise⟩

theorem ofRoutines_alone (supply : Supply) (h : 1 ≤ supply.nextBlock) (rs : List Routine) :
    List.Forall₂ IsShiftOf (ofRoutines supply rs).built (rs.filter (·.graphAlone.isOk)) ∧
      List.Forall₂ (fun x r => r.graphAlone = .error x) (ofRoutines supply rs).errors
        (rs.filter (!·.graphAlone.isOk)) := by
  induction rs generalizing supply with
  | nil => exact ⟨.nil, .nil⟩
  | cons r rest ih =>
    have hle := (Flow.buildMethod_counts supply r.path r.method).1
    have hshift := Flow.buildMethod_eq_shift h r.path r.method
    obtain ⟨hbuilt, herrors⟩ := ih _ (Nat.le_trans h hle)
    rw [ofRoutines, cons, hshift]
    cases halone : r.graphAlone with
    | ok alone =>
      rw [show (Flow.buildMethod .fresh r.path r.method).graph = .ok alone from halone]
      simp only [Except.map]
      rw [List.filter_cons_of_pos (by rw [halone]; rfl),
        List.filter_cons_of_neg (by rw [halone]; exact Bool.false_ne_true)]
      exact ⟨.cons ⟨rfl, alone, _, halone, rfl⟩ hbuilt, herrors⟩
    | error x =>
      rw [show (Flow.buildMethod .fresh r.path r.method).graph = .error x from halone]
      simp only [Except.map]
      rw [List.filter_cons_of_neg (by rw [halone]; exact Bool.false_ne_true),
        List.filter_cons_of_pos (by rw [halone]; rfl)]
      exact ⟨hbuilt, .cons halone herrors⟩

end Graphs

/-- The routines of a script that have a graph when they are built alone have the same one when all
are built, up to a shift of the block numbers; the others have the error that they have alone. The
graphs and the errors come in the order of the routines, and the block numbers go up from the first
block of the first graph to the last block of the last. -/
theorem Script.buildGraphs_isolated (s : Script) :
    List.Forall₂ Graphs.IsShiftOf s.buildGraphs.built
        (s.root.routines.filter (·.graphAlone.isOk)) ∧
      List.Forall₂ (fun x r => r.graphAlone = .error x) s.buildGraphs.errors
        (s.root.routines.filter (!·.graphAlone.isOk)) ∧
      s.buildGraphs.ids.Pairwise (· < ·) := by
  obtain ⟨hbuilt, herrors⟩ :=
    Graphs.ofRoutines_alone .fresh (Nat.le_refl 1) s.root.routines
  exact ⟨hbuilt, herrors, (Graphs.ids_ofRoutines .fresh s.root.routines).2⟩

/-- The numbers that the class body has used up before it failed are left out. -/
example : (Script.buildGraphs ⟨"main", ⟨"Main", [.jump ⟨7⟩], [⟨"ok", [.ret (.constant .nil)]⟩],
    []⟩⟩).ids = [4, 5, 6] := by
  cbv

end StackBackend
