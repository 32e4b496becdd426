import Mathlib.Data.List.Nodup
import StackBackend.Flow.Graph

/-!
# What the operations on graphs change

A graph is read through the block at a position, its successors and predecessors, and the number of
blocks. Each operation is described by what it does to these. Adding an edge links its target to the
successors of its source, where a target that is there already stays where it is. A new edge is
listed at both of its ends, so that the predecessors mirror the successors.
-/
namespace StackBackend.Flow

def link (l : List Nat) (target : Nat) : List Nat := if target ∈ l then l else l ++ [target]

theorem mem_link {l : List Nat} {target u : Nat} : u ∈ link l target ↔ u ∈ l ∨ u = target := by
  unfold link
  split
  · rename_i h
    constructor
    · exact .inl
    · rintro (hu | rfl)
      · exact hu
      · exact h
  · simp

theorem link_link (l : List Nat) (target : Nat) : link (link l target) target = link l target := by
  have h : target ∈ link l target := mem_link.2 (.inr rfl)
  rw [link, if_pos h]

theorem nodup_link {l : List Nat} (h : l.Nodup) (target : Nat) : (link l target).Nodup := by
  unfold link
  split
  · exact h
  · rename_i hmem
    exact List.concat_eq_append ▸ h.concat hmem

namespace Graph

variable {g : Graph}

@[simp]
theorem size_addBlock (g : Graph) (b : Block) : (g.addBlock b).size = g.size + 1 := by
  simp [addBlock, size]

theorem block?_addBlock (g : Graph) (b : Block) (u : Nat) :
    (g.addBlock b).block? u = if u = g.size then some b else g.block? u := by
  simp only [addBlock, block?, size, Array.getElem?_push]
  by_cases h : u = g.nodes.size <;> simp [h]

theorem successors_addBlock (g : Graph) (b : Block) (u : Nat) :
    (g.addBlock b).successors u = g.successors u := by
  simp only [addBlock, successors, Array.getElem?_push]
  split
  · rename_i h
    simp [h]
  · rfl

@[simp]
theorem size_addEdge (g : Graph) (source target : Nat) :
    (g.addEdge source target).size = g.size := by
  unfold addEdge
  repeat' split
  · rfl
  · rfl
  · simp [size]

theorem block?_addEdge (g : Graph) (source target u : Nat) :
    (g.addEdge source target).block? u = g.block? u := by
  unfold addEdge
  repeat' split
  · rfl
  · rfl
  · simp only [block?, Array.getElem?_modify]
    cases g.nodes[u]? <;> split <;> split <;> rfl

theorem addEdge_eq {source target : Nat} (hsource : source < g.size) (htarget : target < g.size) :
    g.addEdge source target =
      if target ∈ g.successors source then g
      else { g with
        nodes := (g.nodes.modify source fun n => { n with successors := n.successors ++ [target] })
          |>.modify target fun n => { n with predecessors := n.predecessors ++ [source] } } := by
  have hinside : ¬(g.size ≤ source ∨ g.size ≤ target) := by omega
  simp [addEdge, hinside, hasEdge]

theorem successors_addEdge {source target : Nat} (hsource : source < g.size)
    (htarget : target < g.size) (u : Nat) :
    (g.addEdge source target).successors u =
      if u = source then link (g.successors u) target else g.successors u := by
  rw [addEdge_eq hsource htarget]
  by_cases hmem : target ∈ g.successors source
  · rw [if_pos hmem]
    by_cases hu : u = source
    · subst hu
      rw [if_pos rfl, link, if_pos hmem]
    · rw [if_neg hu]
  · rw [if_neg hmem]
    by_cases hu : u = source
    · subst hu
      have hlink : link (g.successors u) target = g.successors u ++ [target] := if_neg hmem
      rw [if_pos rfl, hlink]
      have hnode : g.nodes[u]? = some g.nodes[u] := Array.getElem?_eq_getElem hsource
      simp only [successors, Array.getElem?_modify, hnode]
      split <;> simp
    · rw [if_neg hu]
      simp only [successors, Array.getElem?_modify, if_neg (Ne.symm hu)]
      cases g.nodes[u]? <;> split <;> rfl

@[simp]
theorem size_modifyBlock (g : Graph) (i : Nat) (f : Block → Block) :
    (g.modifyBlock i f).size = g.size := by
  simp [modifyBlock, size]

theorem block?_modifyBlock (g : Graph) (i : Nat) (f : Block → Block) (u : Nat) :
    (g.modifyBlock i f).block? u = if u = i then (g.block? u).map f else g.block? u := by
  simp only [modifyBlock, block?, Array.getElem?_modify]
  by_cases h : i = u
  · subst h
    cases g.nodes[i]? <;> simp
  · simp [h, Ne.symm h]

theorem successors_modifyBlock (g : Graph) (i : Nat) (f : Block → Block) (u : Nat) :
    (g.modifyBlock i f).successors u = g.successors u := by
  simp only [modifyBlock, successors, Array.getElem?_modify]
  cases g.nodes[u]? <;> split <;> rfl

theorem predecessors_addBlock (g : Graph) (b : Block) (u : Nat) :
    (g.addBlock b).predecessors u = g.predecessors u := by
  simp only [addBlock, predecessors, Array.getElem?_push]
  split
  · rename_i h
    simp [h]
  · rfl

theorem predecessors_modifyBlock (g : Graph) (i : Nat) (f : Block → Block) (u : Nat) :
    (g.modifyBlock i f).predecessors u = g.predecessors u := by
  simp only [modifyBlock, predecessors, Array.getElem?_modify]
  cases g.nodes[u]? <;> split <;> rfl

theorem predecessors_addEdge {source target : Nat} (hsource : source < g.size)
    (htarget : target < g.size) (u : Nat) :
    (g.addEdge source target).predecessors u =
      if u = target ∧ target ∉ g.successors source then g.predecessors u ++ [source]
      else g.predecessors u := by
  rw [addEdge_eq hsource htarget]
  by_cases hmem : target ∈ g.successors source
  · rw [if_pos hmem, if_neg fun h => h.2 hmem]
  · rw [if_neg hmem]
    by_cases hu : u = target
    · subst hu
      have hnode : g.nodes[u]? = some g.nodes[u] := Array.getElem?_eq_getElem htarget
      rw [if_pos ⟨rfl, hmem⟩]
      simp only [predecessors, Array.getElem?_modify, hnode, if_true]
      split <;> simp
    · rw [if_neg fun h => hu h.1]
      simp only [predecessors, Array.getElem?_modify, if_neg (Ne.symm hu)]
      cases g.nodes[u]? <;> split <;> rfl

def blocks (g : Graph) : List Block := g.nodes.toList.map (·.block)

theorem block?_eq_getElem? (g : Graph) (u : Nat) : g.block? u = g.blocks[u]? := by
  simp [block?, blocks]

theorem blocks_addBlock (g : Graph) (b : Block) : (g.addBlock b).blocks = g.blocks ++ [b] := by
  simp [blocks, addBlock]

theorem blocks_addEdge (g : Graph) (source target : Nat) :
    (g.addEdge source target).blocks = g.blocks := by
  apply List.ext_getElem?
  intro u
  rw [← block?_eq_getElem?, ← block?_eq_getElem?, block?_addEdge]

theorem blocks_foldl_addEdge (g : Graph) (sources : List Nat) (target : Nat) :
    (sources.foldl (fun g source => g.addEdge source target) g).blocks = g.blocks := by
  induction sources generalizing g with
  | nil => rfl
  | cons source rest ih => rw [List.foldl_cons, ih, blocks_addEdge]

theorem map_blocks_modifyBlock {α : Type} {f : Block → α} {h : Block → Block}
    (hf : ∀ b, f (h b) = f b) (g : Graph) (u : Nat) :
    (g.modifyBlock u h).blocks.map f = g.blocks.map f := by
  apply List.ext_getElem?
  intro v
  rw [List.getElem?_map, List.getElem?_map, ← block?_eq_getElem?, ← block?_eq_getElem?,
    block?_modifyBlock]
  split
  · simp [Option.map_map, Function.comp_def, hf]
  · rfl

/-- Each edge is listed at both of its ends. -/
def Mirrored (g : Graph) : Prop := ∀ u v, u ∈ g.predecessors v ↔ v ∈ g.successors u

theorem Mirrored.addBlock (h : g.Mirrored) (b : Block) : (g.addBlock b).Mirrored := by
  intro u v
  rw [predecessors_addBlock, successors_addBlock]
  exact h u v

theorem Mirrored.modifyBlock (h : g.Mirrored) (i : Nat) (f : Block → Block) :
    (g.modifyBlock i f).Mirrored := by
  intro u v
  rw [predecessors_modifyBlock, successors_modifyBlock]
  exact h u v

theorem Mirrored.addEdge (h : g.Mirrored) {source target : Nat} (hsource : source < g.size)
    (htarget : target < g.size) : (g.addEdge source target).Mirrored := by
  intro u v
  rw [predecessors_addEdge hsource htarget, successors_addEdge hsource htarget]
  by_cases hu : u = source
  · subst hu
    rw [if_pos rfl, mem_link, ← h u v]
    by_cases hv : v = target
    · subst hv
      by_cases hmem : v ∈ g.successors u
      · simp [hmem, (h u v).2 hmem]
      · simp [hmem]
    · simp [hv]
  · rw [if_neg hu, ← h u v]
    split <;> simp [hu]

/-- Each edge is listed at both of its ends, and at none of them twice. -/
structure Linked (g : Graph) : Prop where
  mirrored : g.Mirrored
  nodup_successors : ∀ u, (g.successors u).Nodup
  nodup_predecessors : ∀ u, (g.predecessors u).Nodup

theorem linked_empty (routine : String) : (⟨routine, #[]⟩ : Graph).Linked := by
  refine ⟨fun u v => ?_, fun u => ?_, fun u => ?_⟩ <;> simp [predecessors, successors]

theorem Linked.addBlock (h : g.Linked) (b : Block) : (g.addBlock b).Linked where
  mirrored := h.mirrored.addBlock b
  nodup_successors u := by
    rw [successors_addBlock]
    exact h.nodup_successors u
  nodup_predecessors u := by
    rw [predecessors_addBlock]
    exact h.nodup_predecessors u

theorem Linked.modifyBlock (h : g.Linked) (i : Nat) (f : Block → Block) :
    (g.modifyBlock i f).Linked where
  mirrored := h.mirrored.modifyBlock i f
  nodup_successors u := by
    rw [successors_modifyBlock]
    exact h.nodup_successors u
  nodup_predecessors u := by
    rw [predecessors_modifyBlock]
    exact h.nodup_predecessors u

theorem Linked.addEdge (h : g.Linked) {source target : Nat} (hsource : source < g.size)
    (htarget : target < g.size) : (g.addEdge source target).Linked where
  mirrored := h.mirrored.addEdge hsource htarget
  nodup_successors u := by
    rw [successors_addEdge hsource htarget]
    split
    · exact nodup_link (h.nodup_successors u) target
    · exact h.nodup_successors u
  nodup_predecessors u := by
    rw [predecessors_addEdge hsource htarget]
    split
    · -- A source without the edge is not listed at its target.
      rename_i hnew
      obtain ⟨rfl, hmem⟩ := hnew
      have hnot : source ∉ g.predecessors u := mt (h.mirrored source u).1 hmem
      exact List.concat_eq_append ▸ (h.nodup_predecessors u).concat hnot
    · exact h.nodup_predecessors u

theorem Linked.foldl_addEdge (h : g.Linked) {sources : List Nat} {target : Nat}
    (hsources : ∀ s ∈ sources, s < g.size) (htarget : target < g.size) :
    (sources.foldl (fun g source => g.addEdge source target) g).Linked := by
  induction sources generalizing g with
  | nil => exact h
  | cons source rest ih =>
    apply ih (h.addEdge (hsources source List.mem_cons_self) htarget)
    · intro s hs
      rw [size_addEdge]
      exact hsources s (List.mem_cons_of_mem source hs)
    · rwa [size_addEdge]

theorem block?_eq_some {u : Nat} {b : Block} :
    g.block? u = some b ↔ ∃ n, g.nodes[u]? = some n ∧ n.block = b := by
  simp [block?]

theorem lt_size_of_block? {u : Nat} {b : Block} (h : g.block? u = some b) : u < g.size := by
  obtain ⟨n, hn, -⟩ := block?_eq_some.1 h
  exact (Array.getElem?_eq_some_iff.1 hn).1

theorem block?_eq_none {u : Nat} (h : g.size ≤ u) : g.block? u = none := by
  have hnone : g.nodes[u]? = none := Array.getElem?_eq_none h
  simp [block?, hnone]

theorem successors_eq_nil {u : Nat} (h : g.size ≤ u) : g.successors u = [] := by
  have hnone : g.nodes[u]? = none := Array.getElem?_eq_none h
  simp [successors, hnone]

theorem blockForLabel?_eq_some {l : Label} {u : Nat} {b : Block} (hb : g.block? u = some b)
    (hl : b.label = l) (hunique : ∀ v b', g.block? v = some b' → b'.label = l → v = u) :
    g.blockForLabel? l = some u := by
  obtain ⟨n, hn, rfl⟩ := block?_eq_some.1 hb
  obtain ⟨hlt, rfl⟩ := Array.getElem?_eq_some_iff.1 hn
  rw [blockForLabel?, Array.findIdx?_eq_some_iff_getElem]
  refine ⟨hlt, decide_eq_true hl, fun v hv hlabel => ?_⟩
  have hblock : g.block? v = some g.nodes[v].block :=
    block?_eq_some.2 ⟨_, Array.getElem?_eq_getElem (Nat.lt_trans hv hlt), rfl⟩
  have heq := hunique v _ hblock (of_decide_eq_true hlabel)
  omega

theorem lt_size_of_blockForLabel? {l : Label} {u : Nat} (h : g.blockForLabel? l = some u) :
    u < g.size :=
  (Array.findIdx?_eq_some_iff_getElem.1 h).1

theorem blockForLabel?_eq_none {l : Label} (h : ∀ v b, g.block? v = some b → b.label ≠ l) :
    g.blockForLabel? l = none := by
  rw [blockForLabel?, Array.findIdx?_eq_none_iff]
  intro n hn
  obtain ⟨v, hv, rfl⟩ := Array.getElem_of_mem hn
  exact decide_eq_false (h v _ (block?_eq_some.2 ⟨_, Array.getElem?_eq_getElem hv, rfl⟩))

theorem label_of_blockForLabel? {l : Label} {u : Nat} (h : g.blockForLabel? l = some u) :
    ∃ b, g.block? u = some b ∧ b.label = l := by
  obtain ⟨hlt, hlabel, -⟩ := Array.findIdx?_eq_some_iff_getElem.1 h
  exact ⟨_, block?_eq_some.2 ⟨_, Array.getElem?_eq_getElem hlt, rfl⟩, of_decide_eq_true hlabel⟩

theorem exists_blockForLabel? {l : Label} {u : Nat} {b : Block} (hb : g.block? u = some b)
    (hl : b.label = l) : ∃ v, g.blockForLabel? l = some v := by
  obtain ⟨n, hn, rfl⟩ := block?_eq_some.1 hb
  cases hnone : g.blockForLabel? l with
  | some v => exact ⟨v, rfl⟩
  | none =>
    have hne := Array.findIdx?_eq_none_iff.1 hnone n (Array.mem_of_getElem? hn)
    exact absurd hl (of_decide_eq_false hne)

end Graph

end StackBackend.Flow
