import StackBackend.Proofs.Flow.Edges

/-!
# Loop headers

A loop header is told from the order of the blocks: an edge comes from the block itself or from a
later one. The exit stands before all blocks of the stream, so that any edge to it counts. An edge
to another block counts just when it leads back in program order. Control that falls through from
there to its source goes round; a jump on the way can keep it from coming back. No loop is missed.
-/
namespace StackBackend.Flow

def Graph.Reaches (g : Graph) : Nat → Nat → Prop :=
  Relation.ReflTransGen fun u v => v ∈ g.successors u

/-- A predecessor of the block can be reached from it. -/
def Graph.OnCycle (g : Graph) (v : Nat) : Prop := ∃ p ∈ g.predecessors v, g.Reaches v p

/-- The last instruction of a block leads to a block that does not come behind it. -/
def Graph.LeadsBack (g : Graph) (p v : Nat) : Prop :=
  v ≤ p ∧ ∃ b l, g.block? p = some b ∧ b.last?.bind Instruction.target? = some l ∧
    g.blockForLabel? l = some v

/-- No block from one up to another, which is left out, ends with a jump. -/
def Graph.FallsThrough (g : Graph) (v p : Nat) : Prop :=
  ∀ u b, v ≤ u → u < p → g.block? u = some b → b.last?.any Instruction.isJump = false

variable {instrs : List Instruction} {g : Graph} {first p v : Nat}

theorem Graph.Mirrored.isLoopHeader_iff (h : g.Mirrored) :
    g.isLoopHeader v = true ↔ ∃ p, v ≤ p ∧ p ≠ Graph.entry ∧ v ∈ g.successors p := by
  simp only [isLoopHeader, List.any_eq_true, h _ v, decide_eq_true_eq, Bool.and_eq_true]
  apply exists_congr
  intro p
  rw [and_comm, and_assoc]

theorem Graph.BuiltFrom.leadsBack_iff (h : g.BuiltFrom first instrs) :
    g.LeadsBack p v ↔ v ≤ p ∧ ∃ n seg l m, p = n + 2 ∧ (cut instrs)[n]? = some seg ∧
      segmentTarget? seg = some l ∧ labelIndex (cut instrs) l = some m ∧ v = m + 2 := by
  apply and_congr_right
  intro _
  constructor
  · rintro ⟨b, l, hb, htarget, hlabel⟩
    rcases h.realizes.block_cases hb with ⟨-, hinstrs⟩ | ⟨n, seg, rfl, hn, hinstrs⟩
    · rw [Block.last?, hinstrs] at htarget
      cases htarget
    · have hseg := isSegment_of_mem_cut (List.mem_of_getElem? hn)
      rw [Block.last?, hinstrs, hseg.ends_alike.1] at htarget
      obtain ⟨m, -, -, hindex, hlabel', -⟩ := h.target hn htarget
      rw [hlabel] at hlabel'
      cases hlabel'
      exact ⟨n, seg, l, m, rfl, hn, htarget, hindex, rfl⟩
  · rintro ⟨n, seg, l, m, rfl, hn, htarget, hindex, rfl⟩
    have hseg := isSegment_of_mem_cut (List.mem_of_getElem? hn)
    obtain ⟨b, hb, hinstrs⟩ := h.realizes.blocks n seg hn
    obtain ⟨m', -, -, hindex', hlabel, -⟩ := h.target hn htarget
    cases hindex.symm.trans hindex'
    refine ⟨b, l, hb, ?_, hlabel⟩
    rw [Block.last?, hinstrs, hseg.ends_alike.1, htarget]

theorem Graph.BuiltFrom.mem_successors_of_leadsBack (h : g.BuiltFrom first instrs)
    (hback : g.LeadsBack p v) : v ∈ g.successors p ∧ 2 ≤ v := by
  obtain ⟨-, n, seg, l, m, rfl, hn, htarget, hindex, rfl⟩ := h.leadsBack_iff.1 hback
  refine ⟨(h.realizes.mem_successors hn).2 ⟨m, .inl ⟨l, htarget, hindex⟩, ?_⟩, Nat.le_add_left 2 m⟩
  rw [nodeAt, if_pos (labelIndex_lt hindex)]

theorem Graph.BuiltFrom.exit_mem_successors (h : g.BuiltFrom first instrs) {i : Instruction}
    (hlast : instrs.getLast? = some i) (hi : i.isJump = false) :
    ∃ n, Graph.exit ∈ g.successors (n + 2) := by
  have hne : cut instrs ≠ [] := by
    rw [Ne, cut_eq_nil]
    rintro rfl
    cases hlast
  obtain ⟨init, seg, hcut⟩ := (List.eq_nil_or_concat' (cut instrs)).resolve_left hne
  have hn : (cut instrs)[init.length]? = some seg := by
    rw [hcut, List.getElem?_concat_length]
  have hjumps : segmentJumps seg = false := by
    rw [segmentJumps, getLast?_of_cut hcut, hlast, Option.any_some, hi]
  refine ⟨init.length, (h.realizes.mem_successors hn).2 ⟨_, .inr ⟨hjumps, rfl⟩, ?_⟩⟩
  rw [nodeAt, hcut, if_neg (by simp)]

theorem Graph.BuiltFrom.isLoopHeader_iff (h : g.BuiltFrom first instrs) :
    g.isLoopHeader v = true ↔
      (v = Graph.exit ∧ ∃ i, instrs.getLast? = some i ∧ i.isJump = false) ∨
        ∃ p, g.LeadsBack p v := by
  rw [h.mirrored.isLoopHeader_iff]
  constructor
  · rintro ⟨p, hle, hp, hv⟩
    rcases h.realizes.edge_cases hv with ⟨hentry, -⟩ | ⟨n, seg, m, rfl, hn, hgoes, rfl⟩
    · exact absurd hentry hp
    · rcases hgoes with ⟨l, htarget, hindex⟩ | ⟨hjumps, rfl⟩
      · refine .inr ⟨n + 2, h.leadsBack_iff.2 ⟨hle, n, seg, l, m, rfl, hn, htarget, hindex, ?_⟩⟩
        rw [nodeAt, if_pos (labelIndex_lt hindex)]
      · -- Control that falls through leads back only to the exit.
        have hend : ¬ n + 1 < (cut instrs).length := by
          intro hlt
          rw [nodeAt, if_pos hlt] at hle
          omega
        have hcut := eq_concat_of_last hn (Nat.le_of_not_lt hend)
        have hne := (isSegment_of_mem_cut (List.mem_of_getElem? hn)).1
        have hlast := List.getLast?_eq_some_getLast hne
        rw [segmentJumps, hlast] at hjumps
        rw [getLast?_of_cut hcut] at hlast
        exact .inl ⟨if_neg hend, _, hlast, hjumps⟩
  · rintro (⟨rfl, i, hlast, hi⟩ | ⟨p, hback⟩)
    · obtain ⟨n, hn⟩ := h.exit_mem_successors hlast hi
      exact ⟨n + 2, Nat.succ_pos _, Nat.succ_ne_zero _, hn⟩
    · obtain ⟨hv, htwo⟩ := h.mem_successors_of_leadsBack hback
      refine ⟨p, hback.1, ?_, hv⟩
      rintro rfl
      have hle := hback.1
      rw [Graph.entry] at hle
      omega

theorem Graph.FallsThrough.mono {q : Nat} (h : g.FallsThrough v p) (hle : q ≤ p) :
    g.FallsThrough v q :=
  fun u b hu hlt => h u b hu (Nat.lt_of_lt_of_le hlt hle)

theorem Graph.BuiltFrom.succ_mem_successors (h : g.BuiltFrom first instrs) (hv : 2 ≤ v)
    (hlt : v + 1 < g.size)
    (hfalls : ∀ b, g.block? v = some b → b.last?.any Instruction.isJump = false) :
    v + 1 ∈ g.successors v := by
  obtain ⟨n, rfl⟩ := Nat.exists_eq_add_of_le' hv
  rw [h.realizes.size] at hlt
  have hn : (cut instrs)[n]? = some (cut instrs)[n] := List.getElem?_eq_getElem (by omega)
  obtain ⟨b, hb, hinstrs⟩ := h.realizes.blocks n _ hn
  have hseg := isSegment_of_mem_cut (List.mem_of_getElem? hn)
  have hjumps := hfalls b hb
  rw [Block.last?, hinstrs, hseg.ends_alike.2] at hjumps
  refine (h.realizes.mem_successors hn).2 ⟨n + 1, .inr ⟨hjumps, rfl⟩, ?_⟩
  rw [nodeAt, if_pos (by omega)]

theorem Graph.BuiltFrom.reaches_of_fallsThrough (h : g.BuiltFrom first instrs) (hv : 2 ≤ v)
    (hle : v ≤ p) (hp : p < g.size) (hfalls : g.FallsThrough v p) : g.Reaches v p := by
  induction p, hle using Nat.le_induction with
  | base => exact .refl
  | succ p hle ih =>
    have hlt := Nat.lt_of_succ_lt hp
    have hnext : p + 1 ∈ g.successors p :=
      h.succ_mem_successors (Nat.le_trans hv hle) hp fun b => hfalls p b hle (Nat.lt_succ_self p)
    exact (ih hlt (hfalls.mono (Nat.le_succ p))).tail hnext

theorem Graph.BuiltFrom.onCycle_of_leadsBack (h : g.BuiltFrom first instrs)
    (hback : g.LeadsBack p v) (hfalls : g.FallsThrough v p) : g.OnCycle v := by
  obtain ⟨hv, htwo⟩ := h.mem_successors_of_leadsBack hback
  obtain ⟨hle, b, -, hb, -⟩ := hback
  exact ⟨p, (h.mirrored p v).2 hv,
    h.reaches_of_fallsThrough htwo hle (Graph.lt_size_of_block? hb) hfalls⟩

theorem Graph.not_onCycle_exit (hexit : g.successors Graph.exit = []) (hmirrored : g.Mirrored) :
    ¬ g.OnCycle Graph.exit := by
  rintro ⟨p, hp, hreach⟩
  rcases Relation.ReflTransGen.cases_head hreach with rfl | ⟨u, hu, -⟩
  · rw [hmirrored, hexit] at hp
    cases hp
  · rw [hexit] at hu
    cases hu

theorem Graph.BuiltFrom.exists_isLoopHeader (h : g.BuiltFrom first instrs) (hcycle : g.OnCycle v) :
    ∃ w, g.Reaches v w ∧ g.Reaches w v ∧ g.isLoopHeader w = true := by
  obtain ⟨w, ⟨hvw, hwv⟩, hmin⟩ :=
    Nat.lt_wfRel.wf.has_min {w | g.Reaches v w ∧ g.Reaches w v} ⟨v, .refl, .refl⟩
  -- It is entered from a block of the cycle, which does not come before it.
  obtain ⟨p, hp, hvp⟩ : ∃ p, w ∈ g.successors p ∧ g.Reaches v p := by
    rcases Relation.ReflTransGen.cases_tail hvw with rfl | ⟨p, hvp, hp⟩
    · obtain ⟨p, hp, hvp⟩ := hcycle
      exact ⟨p, (h.mirrored p w).1 hp, hvp⟩
    · exact ⟨p, hp, hvp⟩
  have hle : w ≤ p := Nat.le_of_not_lt (hmin p ⟨hvp, hwv.head hp⟩)
  refine ⟨w, hvw, hwv, h.mirrored.isLoopHeader_iff.2 ⟨p, hle, ?_, hp⟩⟩
  have hentry := h.realizes.predecessors_entry h.mirrored
  rintro rfl
  have hzero : w = Graph.entry := Nat.le_zero.1 hle
  have hmem := (h.mirrored Graph.entry w).2 hp
  rw [hzero, hentry] at hmem
  cases hmem

/-- The loop headers of a graph that is built from a stream. The exit is reported unless the stream
ends with a jump, and is on no cycle. Another block is reported just when a block that does not come
before it leads to it; it is on a cycle if control falls through from it to that block. Every block
on a cycle shares it with one that is reported. -/
theorem build_isLoopHeader {supply : Supply} {routine : String}
    (h : (build supply routine instrs).graph = .ok g) :
    (∀ v, g.isLoopHeader v = true ↔
      (v = Graph.exit ∧ ∃ i, instrs.getLast? = some i ∧ i.isJump = false) ∨
        ∃ p, g.LeadsBack p v) ∧
      ¬ g.OnCycle Graph.exit ∧
      (∀ p v, g.LeadsBack p v → g.FallsThrough v p → g.OnCycle v) ∧
      ∀ v, g.OnCycle v → ∃ w, g.Reaches v w ∧ g.Reaches w v ∧ g.isLoopHeader w = true := by
  have hbuilt := builtFrom_of_build h
  exact ⟨fun v => hbuilt.isLoopHeader_iff,
    Graph.not_onCycle_exit hbuilt.realizes.exit hbuilt.mirrored,
    fun p v => hbuilt.onCycle_of_leadsBack, fun v => hbuilt.exists_isLoopHeader⟩

/-- A loop that is left by a branch from its first block. -/
def circle : List Instruction :=
  [.label ⟨1⟩, .branch (.variable ⟨"x"⟩) (.constant .nil) ⟨2⟩, .jump ⟨1⟩, .label ⟨2⟩]

theorem build_isLoopHeader_circle :
    ∃ g, (build .fresh "circle" circle).graph = .ok g ∧ g.isLoopHeader 2 = true ∧ g.OnCycle 2 ∧
      ¬ g.OnCycle Graph.exit := by
  have hfacts : (build .fresh "circle" circle).graph.toOption.map
      (fun g => (g.blocks.map (·.last?), g.blockForLabel? ⟨1⟩)) =
      some ([none, none, circle[1]?, circle[2]?, none], some 2) := by cbv
  obtain ⟨g, hbuild, hfacts⟩ := exists_of_toOption hfacts
  obtain ⟨hlast, hlabel⟩ := Prod.mk.inj hfacts
  obtain ⟨hheaders, hexit, hcycles, -⟩ := build_isLoopHeader hbuild
  have hblock : ∀ u, (g.block? u).map (·.last?) =
      [none, none, circle[1]?, circle[2]?, none][u]? := by
    intro u
    rw [← hlast, List.getElem?_map, ← Graph.block?_eq_getElem?]
  have hback : g.LeadsBack 3 2 := by
    obtain ⟨b, hb, hjump⟩ := Option.map_eq_some_iff.1 (hblock 3)
    exact ⟨by decide, b, ⟨1⟩, hb, by rw [hjump]; rfl, hlabel⟩
  have hfalls : g.FallsThrough 2 3 := by
    intro u b hge hlt hb
    have hu : u = 2 := by omega
    have hbranch := hblock u
    rw [hb, hu] at hbranch
    have hlast : b.last? = circle[1]? := Option.some.inj hbranch
    rw [hlast]
    rfl
  exact ⟨g, hbuild, (hheaders 2).2 (.inr ⟨3, hback⟩), hcycles 3 2 hback hfalls, hexit⟩

/-- A jump back to a block from which control never comes to the jump. -/
def detour : List Instruction :=
  [.jump ⟨1⟩, .label ⟨0⟩, .jump ⟨2⟩, .label ⟨1⟩, .jump ⟨0⟩, .label ⟨2⟩]

/-- A block can be reported and be on no cycle: the exit, or a block behind a jump back. -/
theorem isLoopHeader_not_onCycle :
    (∃ g, (build .fresh "ends" [.ret (.constant .nil)]).graph = .ok g ∧
      g.isLoopHeader Graph.exit = true ∧ ¬ g.OnCycle Graph.exit) ∧
      ∃ g, (build .fresh "detour" detour).graph = .ok g ∧ g.isLoopHeader 3 = true ∧
        ¬ g.OnCycle 3 := by
  constructor
  · have hfacts : (build .fresh "ends" [.ret (.constant .nil)]).graph.toOption.map
        (fun g => g.isLoopHeader Graph.exit) = some true := by cbv
    obtain ⟨g, hbuild, hheader⟩ := exists_of_toOption hfacts
    have hbuilt := builtFrom_of_build hbuild
    exact ⟨g, hbuild, hheader, Graph.not_onCycle_exit hbuilt.realizes.exit hbuilt.mirrored⟩
  · have hfacts : (build .fresh "detour" detour).graph.toOption.map
        (fun g => (g.isLoopHeader 3, [1, 3, 5].map g.successors)) =
        some (true, [[], [5], [1]]) := by cbv
    obtain ⟨g, hbuild, hfacts⟩ := exists_of_toOption hfacts
    simp only [List.map_cons, List.map_nil, Prod.mk.injEq, List.cons.injEq] at hfacts
    obtain ⟨hheader, hexit, hback, hlast, -⟩ := hfacts
    -- From there control comes to the last block and to the exit only.
    have hahead : ∀ u, g.Reaches 3 u → u = 3 ∨ u = 5 ∨ u = 1 := by
      intro u hreach
      induction hreach with
      | refl => exact .inl rfl
      | tail _ hnext ih =>
        rcases ih with rfl | rfl | rfl
        · rw [hback, List.mem_singleton] at hnext
          exact .inr (.inl hnext)
        · rw [hlast, List.mem_singleton] at hnext
          exact .inr (.inr hnext)
        · rw [hexit] at hnext
          cases hnext
    refine ⟨g, hbuild, hheader, ?_⟩
    rintro ⟨p, hp, hreach⟩
    rw [(builtFrom_of_build hbuild).mirrored] at hp
    rcases hahead p hreach with rfl | rfl | rfl
    · simp [hback] at hp
    · simp [hlast] at hp
    · simp [hexit] at hp

end StackBackend.Flow
