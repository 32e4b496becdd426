import Mathlib.Logic.Function.Iterate
import StackBackend.Flow.Traversal
import StackBackend.Proofs.Flow.LoopHeaders

/-!
# What the walks through a graph find

Both walks find the blocks to which a path leads from the entry, each of them once. The walk depth
first goes on in turns. Each turn leaves the block on top of the stack, or tries one successor of it,
so that the turns are counted by the blocks that are listed in the end and the edges that leave them.

The blocks on the stack form a path: each can be reached from those below it. A block is left when
all of its successors have been seen. Those that have been left before stand behind it in the order,
and the others are still on the stack, from where it can be reached. So an edge leads ahead in the
order unless it leads back to a block from which its source can be reached.
-/
namespace StackBackend.Flow.Graph

def ListedBefore (order : List Nat) (u v : Nat) : Prop := [u, v].Sublist order

variable {g : Graph}

theorem mem_positions {u : Nat} : u ∈ g.positions ↔ u < g.size := List.mem_range

theorem nodup_positions (g : Graph) : g.positions.Nodup := List.nodup_range

theorem predecessors_eq_nil {u : Nat} (h : g.size ≤ u) : g.predecessors u = [] := by
  have hnone : g.nodes[u]? = none := Array.getElem?_eq_none h
  simp [predecessors, hnone]

theorem Mirrored.lt_size (h : g.Mirrored) {u v : Nat} (hv : v ∈ g.successors u) : v < g.size := by
  by_contra hge
  rw [← h u v, predecessors_eq_nil (Nat.le_of_not_lt hge)] at hv
  cases hv

theorem Mirrored.lt_size_of_reaches (h : g.Mirrored) {u v : Nat} (hu : u < g.size)
    (hreach : g.Reaches u v) : v < g.size := by
  cases hreach with
  | refl => exact hu
  | tail _ hedge => exact h.lt_size hedge

theorem Reaches.mem_of_closed {found : List Nat}
    (hclosed : ∀ u ∈ found, ∀ v ∈ g.successors u, v ∈ found) {u v : Nat} (h : g.Reaches u v)
    (hu : u ∈ found) : v ∈ found := by
  induction h with
  | refl => exact hu
  | tail _ hedge ih => exact hclosed _ ih _ hedge

section Collect

variable {unseen stack found : List Nat} {i : Nat}

/-- What the first walk has when it has come to the blocks on the stack. -/
structure Collecting (g : Graph) (unseen stack found : List Nat) : Prop where
  positions : (unseen ++ found).Perm g.positions
  begun : entry ∈ stack ++ found
  reached : ∀ u ∈ stack ++ found, g.Reaches entry u
  closed : ∀ u ∈ found, ∀ v ∈ g.successors u, v ∈ stack ++ found

theorem Collecting.take (h : g.Collecting unseen (i :: stack) found) (hi : i ∈ unseen) :
    g.Collecting (unseen.erase i) ((g.successors i).reverse ++ stack) (i :: found) where
  positions := List.perm_middle.trans (((List.perm_cons_erase hi).append_right found).symm.trans
    h.positions)
  begun := by
    have hentry := h.begun
    simp only [List.cons_append, List.mem_cons, List.mem_append, List.mem_reverse] at hentry ⊢
    tauto
  reached u hu := by
    simp only [List.mem_append, List.mem_reverse, List.mem_cons] at hu
    rcases hu with (hu | hu) | rfl | hu
    · exact (h.reached i (by simp)).tail hu
    · exact h.reached u (by simp [hu])
    · exact h.reached u (by simp)
    · exact h.reached u (by simp [hu])
  closed u hu v hv := by
    simp only [List.mem_append, List.mem_reverse, List.mem_cons]
    rcases List.mem_cons.1 hu with rfl | hu
    · exact .inl (.inl hv)
    · have hmem := h.closed u hu v hv
      simp only [List.cons_append, List.mem_cons, List.mem_append] at hmem
      tauto

theorem Collecting.drop (hmirrored : g.Mirrored) (hsize : entry < g.size)
    (h : g.Collecting unseen (i :: stack) found) (hi : i ∉ unseen) :
    g.Collecting unseen stack found := by
  have hlt := hmirrored.lt_size_of_reaches hsize (h.reached i List.mem_cons_self)
  have hfound : i ∈ found := by
    have hmem := h.positions.mem_iff.2 (mem_positions.2 hlt)
    exact (List.mem_append.1 hmem).resolve_left hi
  have hdrop : ∀ u, u ∈ i :: stack ++ found → u ∈ stack ++ found := by
    intro u hu
    rcases List.mem_cons.1 hu with rfl | hu
    · exact List.mem_append_right stack hfound
    · exact hu
  exact ⟨h.positions, hdrop _ h.begun, fun u hu => h.reached u (List.mem_cons_of_mem i hu),
    fun u hu v hv => hdrop v (h.closed u hu v hv)⟩

theorem Collecting.collect (hmirrored : g.Mirrored) (hsize : entry < g.size)
    (h : g.Collecting unseen stack found) :
    (g.collect unseen stack found).Nodup ∧
      ∀ v, v ∈ g.collect unseen stack found ↔ g.Reaches entry v := by
  induction unseen, stack, found using Graph.collect.induct g with
  | case1 unseen found =>
    rw [Graph.collect]
    have hnodup := h.positions.nodup_iff.2 g.nodup_positions
    exact ⟨(List.nodup_append.1 hnodup).2.1, fun v =>
      ⟨fun hv => h.reached v hv, fun hv => hv.mem_of_closed h.closed h.begun⟩⟩
  | case2 unseen found i stack hi ih =>
    rw [Graph.collect, if_pos hi]
    exact ih (h.take hi)
  | case3 unseen found i stack hi ih =>
    rw [Graph.collect, if_neg hi]
    exact ih (h.drop hmirrored hsize hi)

theorem reachable_spec (hmirrored : g.Mirrored) (hsize : entry < g.size) :
    g.reachable.Nodup ∧ ∀ v, v ∈ g.reachable ↔ g.Reaches entry v := by
  apply Collecting.collect hmirrored hsize
  refine ⟨by rw [List.append_nil], List.mem_singleton_self _, fun u hu => ?_, nofun⟩
  rw [List.mem_singleton.1 hu]
  exact .refl

end Collect

structure Descent where
  unseen : List Nat
  stack : List (Nat × List Nat)
  order : List Nat

namespace Descent

def start (g : Graph) : Descent := ⟨g.positions.erase entry, [(entry, g.successors entry)], []⟩

/-- The blocks on the stack, from the one that has been entered last to the first. -/
def path (d : Descent) : List Nat := d.stack.map (·.1)

/-- One turn: the block on top is left if no successor is to be tried, else the next one is. -/
def turn (g : Graph) : Descent → Descent
  | ⟨unseen, [], order⟩ => ⟨unseen, [], order⟩
  | ⟨unseen, (i, []) :: stack, order⟩ => ⟨unseen, stack, i :: order⟩
  | ⟨unseen, (i, j :: rest) :: stack, order⟩ =>
    if j ∈ unseen then ⟨unseen.erase j, (j, g.successors j) :: (i, rest) :: stack, order⟩
    else ⟨unseen, (i, rest) :: stack, order⟩

end Descent

def extent (g : Graph) (blocks : List Nat) : Nat :=
  blocks.length + (blocks.flatMap g.successors).length

theorem extent_cons (g : Graph) (u : Nat) (blocks : List Nat) :
    g.extent (u :: blocks) = g.extent blocks + (g.successors u).length + 1 := by
  simp only [extent, List.length_cons, List.flatMap_cons, List.length_append]
  omega

theorem exists_turns (g : Graph) (unseen : List Nat) (stack : List (Nat × List Nat))
    (order : List Nat) :
    ∃ n rest, (Descent.turn g)^[n] ⟨unseen, stack, order⟩ =
        ⟨rest, [], g.descend unseen stack order⟩ ∧
      n + g.extent order + pendingWork (stack.map fun f => (f.1, g.successors f.1)) =
        g.extent (g.descend unseen stack order) + pendingWork stack := by
  induction unseen, stack, order using Graph.descend.induct g with
  | case1 unseen order =>
    rw [descend]
    exact ⟨0, unseen, rfl, by simp [pendingWork]⟩
  | case2 unseen order i stack ih =>
    obtain ⟨n, rest, hturns, hcount⟩ := ih
    rw [descend]
    refine ⟨n + 1, rest, hturns, ?_⟩
    rw [extent_cons] at hcount
    simp only [List.map_cons, pendingWork, List.length_nil]
    omega
  | case3 unseen order i stack j tries hj ih =>
    obtain ⟨n, rest, hturns, hcount⟩ := ih
    rw [descend, if_pos hj]
    refine ⟨n + 1, rest, ?_, ?_⟩
    · rw [Function.iterate_succ_apply, Descent.turn, if_pos hj, hturns]
    · simp only [List.map_cons, pendingWork, List.length_cons] at hcount ⊢
      omega
  | case4 unseen order i stack j tries hj ih =>
    obtain ⟨n, rest, hturns, hcount⟩ := ih
    rw [descend, if_neg hj]
    refine ⟨n + 1, rest, ?_, ?_⟩
    · rw [Function.iterate_succ_apply, Descent.turn, if_neg hj, hturns]
    · simp only [List.map_cons, pendingWork, List.length_cons] at hcount ⊢
      omega

theorem turns_reversePostorder (g : Graph) :
    ∃ rest, (Descent.turn g)^[g.extent g.reversePostorder] (.start g) =
      ⟨rest, [], g.reversePostorder⟩ := by
  obtain ⟨n, rest, hturns, hcount⟩ :=
    g.exists_turns (g.positions.erase entry) [(entry, g.successors entry)] []
  have hn : n = g.extent g.reversePostorder := by
    rw [reversePostorder]
    simp only [List.map_cons, List.map_nil, pendingWork] at hcount
    have hnil : g.extent [] = 0 := rfl
    omega
  rw [← hn]
  exact ⟨rest, hturns⟩

/-- What holds before and after each turn. -/
structure Descent.Sound (g : Graph) (d : Descent) : Prop where
  positions : (d.unseen ++ d.path ++ d.order).Perm g.positions
  first : (d.path.reverse ++ d.order).head? = some entry
  reached : ∀ u ∈ d.path ++ d.order, g.Reaches entry u
  path : d.path.Pairwise fun above below => g.Reaches below above
  tries : ∀ f ∈ d.stack, f.2 ⊆ g.successors f.1
  tried : ∀ f ∈ d.stack, ∀ v ∈ g.successors f.1, v ∈ f.2 ∨ v ∉ d.unseen
  left : ∀ u ∈ d.order, ∀ v ∈ g.successors u, v ∉ d.unseen
  ordered : ∀ u ∈ d.order, ∀ v ∈ g.successors u, ListedBefore d.order u v ∨ g.Reaches v u

namespace Descent

variable {unseen rest order : List Nat} {stack : List (Nat × List Nat)} {i j : Nat}

theorem sound_start (hsize : entry < g.size) : (start g).Sound g := by
  have hentry : entry ∈ g.positions := mem_positions.2 hsize
  refine ⟨?_, rfl, ?_, List.pairwise_singleton _ _, ?_, ?_, nofun, nofun⟩
  · have hperm := (List.perm_cons_erase hentry).symm
    simpa [start, Descent.path] using (List.perm_append_singleton _ _).trans hperm
  · intro u hu
    simp only [start, Descent.path, List.map_cons, List.map_nil, List.append_nil,
      List.mem_singleton] at hu
    rw [hu]
    exact .refl
  · intro f hf
    rw [List.mem_singleton.1 hf]
    exact List.Subset.refl _
  · intro f hf v hv
    rw [List.mem_singleton.1 hf] at hv ⊢
    exact .inl hv

theorem Sound.leave (hmirrored : g.Mirrored) (h : Sound g ⟨unseen, (i, []) :: stack, order⟩) :
    Sound g ⟨unseen, stack, i :: order⟩ := by
  obtain ⟨hpositions, hfirst, hreached, hpath, htries, htried, hleft, hordered⟩ := h
  simp only [Descent.path, List.map_cons] at hpositions hfirst hreached hpath
  have hseen : ∀ v ∈ g.successors i, v ∉ unseen := fun v hv =>
    (htried (i, []) List.mem_cons_self v hv).resolve_left List.not_mem_nil
  refine ⟨?_, ?_, ?_, hpath.of_cons, ?_, ?_, ?_, ?_⟩
  · have hperm : (stack.map (·.1) ++ i :: order).Perm (i :: stack.map (·.1) ++ order) :=
      List.perm_middle
    rw [List.append_assoc] at hpositions ⊢
    exact (hperm.append_left unseen).trans hpositions
  · simpa [Descent.path] using hfirst
  · intro u hu
    exact hreached u (List.perm_middle.mem_iff.1 hu)
  · exact fun f hf => htries f (List.mem_cons_of_mem _ hf)
  · exact fun f hf => htried f (List.mem_cons_of_mem _ hf)
  · intro u hu
    rcases List.mem_cons.1 hu with rfl | hu
    · exact hseen
    · exact hleft u hu
  · intro u hu v hv
    rcases List.mem_cons.1 hu with rfl | hu
    · have hmem := hpositions.mem_iff.2 (mem_positions.2 (hmirrored.lt_size hv))
      simp only [List.append_assoc, List.mem_append, List.mem_cons, hseen v hv, false_or] at hmem
      rcases hmem with (rfl | hstack) | hmem
      · exact .inr .refl
      · exact .inr (List.rel_of_pairwise_cons hpath hstack)
      · exact .inl ((List.singleton_sublist.2 hmem).cons_cons u)
    · exact (hordered u hu v hv).imp_left (List.Sublist.cons i)

theorem Sound.enter (h : Sound g ⟨unseen, (i, j :: rest) :: stack, order⟩) (hj : j ∈ unseen) :
    Sound g ⟨unseen.erase j, (j, g.successors j) :: (i, rest) :: stack, order⟩ := by
  obtain ⟨hpositions, hfirst, hreached, hpath, htries, htried, hleft, hordered⟩ := h
  simp only [Descent.path, List.map_cons] at hpositions hfirst hreached hpath
  have hedge : j ∈ g.successors i := htries (i, j :: rest) List.mem_cons_self List.mem_cons_self
  have hsub : ∀ v, v ∉ unseen → v ∉ unseen.erase j := fun v hv hmem =>
    hv (List.mem_of_mem_erase hmem)
  have hnodup : unseen.Nodup := by
    have hnodup := hpositions.nodup_iff.2 g.nodup_positions
    rw [List.append_assoc] at hnodup
    exact (List.nodup_append.1 hnodup).1
  refine ⟨?_, ?_, ?_, ?_, ?_, ?_, ?_, hordered⟩
  · have hperm : (unseen.erase j ++ j :: i :: stack.map (·.1)).Perm
        (unseen ++ i :: stack.map (·.1)) :=
      List.perm_middle.trans ((List.perm_cons_erase hj).symm.append_right _)
    exact (hperm.append_right order).trans hpositions
  · simpa [Descent.path] using hfirst
  · intro u hu
    rcases List.mem_cons.1 hu with rfl | hu
    · exact (hreached i List.mem_cons_self).tail hedge
    · exact hreached u hu
  · refine List.pairwise_cons.2 ⟨fun u hu => ?_, hpath⟩
    rcases List.mem_cons.1 hu with rfl | hu
    · exact .single hedge
    · exact (List.rel_of_pairwise_cons hpath hu).tail hedge
  · intro f hf
    rcases List.mem_cons.1 hf with rfl | hf
    · exact List.Subset.refl _
    · rcases List.mem_cons.1 hf with rfl | hf
      · exact List.subset_of_cons_subset (htries _ List.mem_cons_self)
      · exact htries f (List.mem_cons_of_mem _ hf)
  · intro f hf v hv
    rcases List.mem_cons.1 hf with rfl | hf
    · exact .inl hv
    · rcases List.mem_cons.1 hf with rfl | hf
      · rcases htried (i, j :: rest) List.mem_cons_self v hv with hmem | hseen
        · rcases List.mem_cons.1 hmem with rfl | hmem
          · exact .inr hnodup.not_mem_erase
          · exact .inl hmem
        · exact .inr (hsub v hseen)
      · exact (htried f (List.mem_cons_of_mem _ hf) v hv).imp_right (hsub v)
  · exact fun u hu v hv => hsub v (hleft u hu v hv)

theorem Sound.pass (h : Sound g ⟨unseen, (i, j :: rest) :: stack, order⟩) (hj : j ∉ unseen) :
    Sound g ⟨unseen, (i, rest) :: stack, order⟩ := by
  refine ⟨h.positions, h.first, h.reached, h.path, ?_, ?_, h.left, h.ordered⟩
  · intro f hf
    rcases List.mem_cons.1 hf with rfl | hf
    · exact List.subset_of_cons_subset (h.tries _ List.mem_cons_self)
    · exact h.tries f (List.mem_cons_of_mem _ hf)
  · intro f hf v hv
    rcases List.mem_cons.1 hf with rfl | hf
    · rcases h.tried _ List.mem_cons_self v hv with hmem | hseen
      · rcases List.mem_cons.1 hmem with rfl | hmem
        · exact .inr hj
        · exact .inl hmem
      · exact .inr hseen
    · exact h.tried f (List.mem_cons_of_mem _ hf) v hv

theorem Sound.turn (hmirrored : g.Mirrored) {d : Descent} (h : d.Sound g) :
    (d.turn g).Sound g := by
  match d with
  | ⟨unseen, [], order⟩ => exact h
  | ⟨unseen, (i, []) :: stack, order⟩ => exact h.leave hmirrored
  | ⟨unseen, (i, j :: rest) :: stack, order⟩ =>
    rw [Descent.turn]
    split
    · rename_i hj
      exact h.enter hj
    · rename_i hj
      exact h.pass hj

theorem Sound.turns (hmirrored : g.Mirrored) {d : Descent} (h : d.Sound g) (n : Nat) :
    ((Descent.turn g)^[n] d).Sound g := by
  induction n with
  | zero => exact h
  | succ n ih =>
    rw [Function.iterate_succ_apply']
    exact ih.turn hmirrored

end Descent

/-- What the reverse postorder lists, in which order, for a graph that mirrors its edges. -/
structure OrdersReachable (g : Graph) (order : List Nat) : Prop where
  nodup : order.Nodup
  mem_iff : ∀ v, v ∈ order ↔ g.Reaches entry v
  first : order.head? = some entry
  ordered : ∀ u v, g.Reaches entry u → v ∈ g.successors u → ListedBefore order u v ∨ g.Reaches v u

theorem Descent.Sound.ordersReachable (hmirrored : g.Mirrored) {rest order : List Nat}
    (h : Descent.Sound g ⟨rest, [], order⟩) : g.OrdersReachable order := by
  have hpositions : (rest ++ order).Perm g.positions := by
    simpa [Descent.path] using h.positions
  have hnodup := List.nodup_append.1 (hpositions.nodup_iff.2 g.nodup_positions)
  have hclosed : ∀ u ∈ order, ∀ v ∈ g.successors u, v ∈ order := by
    intro u hu v hv
    have hmem := hpositions.mem_iff.2 (mem_positions.2 (hmirrored.lt_size hv))
    exact (List.mem_append.1 hmem).resolve_left (h.left u hu v hv)
  have hmem : ∀ v, v ∈ order ↔ g.Reaches entry v := fun v =>
    ⟨fun hv => h.reached v hv, fun hv => hv.mem_of_closed hclosed (List.mem_of_head? h.first)⟩
  exact ⟨hnodup.2.1, hmem, h.first, fun u v hu => h.ordered u ((hmem u).2 hu) v⟩

theorem reversePostorder_ordersReachable (hmirrored : g.Mirrored) (hsize : entry < g.size) :
    g.OrdersReachable g.reversePostorder := by
  obtain ⟨rest, hturns⟩ := g.turns_reversePostorder
  have hsound := (Descent.sound_start hsize).turns hmirrored (g.extent g.reversePostorder)
  rw [hturns] at hsound
  exact hsound.ordersReachable hmirrored

end Graph

variable {supply : Supply} {routine : String} {instrs : List Instruction} {g : Graph}

/-- The reverse postorder of a graph that is built from a stream. The walk ends after one turn for
each block that it lists and one for each edge that leaves them. It lists the blocks to which a path
leads from the entry, as `reachable` does, each once and the entry first. An edge leads to a block
that is listed behind its source unless a path leads back; so all edges lead ahead in the order if
the graph has no cycle. -/
theorem build_reversePostorder (h : (build supply routine instrs).graph = .ok g) :
    (∃ rest, (Graph.Descent.turn g)^[g.reversePostorder.length +
        (g.reversePostorder.flatMap g.successors).length] (.start g) =
      ⟨rest, [], g.reversePostorder⟩) ∧
      (g.reachable.Nodup ∧ ∀ v, v ∈ g.reachable ↔ g.Reaches Graph.entry v) ∧
      (g.reversePostorder.Nodup ∧ ∀ v, v ∈ g.reversePostorder ↔ g.Reaches Graph.entry v) ∧
      g.reversePostorder.head? = some Graph.entry ∧
      (∀ u v, g.Reaches Graph.entry u → v ∈ g.successors u →
        Graph.ListedBefore g.reversePostorder u v ∨ g.Reaches v u) ∧
      ((∀ v, ¬ g.OnCycle v) → ∀ u v, g.Reaches Graph.entry u → v ∈ g.successors u →
        Graph.ListedBefore g.reversePostorder u v) := by
  have hbuilt := builtFrom_of_build h
  have hsize : Graph.entry < g.size := by
    rw [hbuilt.realizes.size]
    exact Nat.succ_pos _
  have horder := Graph.reversePostorder_ordersReachable hbuilt.mirrored hsize
  refine ⟨g.turns_reversePostorder, Graph.reachable_spec hbuilt.mirrored hsize,
    ⟨horder.nodup, horder.mem_iff⟩, horder.first, horder.ordered, fun hacyclic u v hu hv => ?_⟩
  rcases horder.ordered u v hu hv with hbefore | hback
  · exact hbefore
  · exact absurd ⟨u, (hbuilt.mirrored u v).2 hv, hback⟩ (hacyclic v)

def fork : List Instruction :=
  [.branch (.variable ⟨"x"⟩) (.constant .nil) ⟨1⟩, .jump ⟨2⟩, .ret (.constant .nil), .label ⟨1⟩,
    .label ⟨2⟩]

theorem build_reversePostorder_fork :
    ∃ g, (build .fresh "fork" fork).graph = .ok g ∧ (∀ v, ¬ g.OnCycle v) ∧
      (∀ v, v ∈ g.reversePostorder ↔ v ∈ g.reachable) ∧
      Graph.ListedBefore g.reversePostorder 3 6 ∧ Graph.ListedBefore g.reversePostorder 5 6 := by
  have hfacts : (build .fresh "fork" fork).graph.toOption.map
      (fun g => (g.size, (List.range 7).map g.successors)) =
      some (7, [[2], [], [3, 5], [6], [5], [6], [1]]) := by cbv
  obtain ⟨g, hbuild, hfacts⟩ := exists_of_toOption hfacts
  obtain ⟨hsize, hsuccessors⟩ := Prod.mk.inj hfacts
  have hat : ∀ u < 7, g.successors u = ([[2], [], [3, 5], [6], [5], [6], [1]][u]?).getD [] := by
    intro u hu
    rw [← hsuccessors, List.getElem?_map, List.getElem?_range hu, Option.map_some, Option.getD_some]
  -- The exit has no successor, and an edge to another block leads ahead.
  have hahead : ∀ u v, v ∈ g.successors u → u ≠ 1 ∧ (v = 1 ∨ u < v) := by
    have htable : ∀ u < 7, ∀ v ∈ ([[2], [], [3, 5], [6], [5], [6], [1]][u]?).getD [],
        u ≠ 1 ∧ (v = 1 ∨ u < v) := by decide
    intro u v hv
    have hu : u < 7 := by
      by_contra hge
      rw [Graph.successors_eq_nil (by omega)] at hv
      cases hv
    exact htable u hu v (hat u hu ▸ hv)
  have hacyclic : ∀ v, ¬ g.OnCycle v := by
    rintro v ⟨p, hp, hreach⟩
    have hbehind : ∀ w, g.Reaches v w → w = v ∨ v ≠ 1 ∧ (w = 1 ∨ v < w) := by
      intro w hw
      induction hw with
      | refl => exact .inl rfl
      | tail _ hedge ih =>
        have hnext := hahead _ _ hedge
        omega
    have hcome := hbehind p hreach
    have hback := hahead p v (((builtFrom_of_build hbuild).mirrored p v).1 hp)
    omega
  obtain ⟨-, ⟨-, hreachable⟩, ⟨-, hlisted⟩, -, -, hbefore⟩ := build_reversePostorder hbuild
  have hedge : ∀ u < 7, ∀ v ∈ ([[2], [], [3, 5], [6], [5], [6], [1]][u]?).getD [],
      v ∈ g.successors u := fun u hu v hv => (hat u hu).symm ▸ hv
  have htwo : g.Reaches Graph.entry 2 := .single (hedge 0 (by decide) 2 (by decide))
  refine ⟨g, hbuild, hacyclic, fun v => (hlisted v).trans (hreachable v).symm, ?_, ?_⟩
  · exact hbefore hacyclic 3 6 (htwo.tail (hedge 2 (by decide) 3 (by decide)))
      (hedge 3 (by decide) 6 (by decide))
  · exact hbefore hacyclic 5 6 (htwo.tail (hedge 2 (by decide) 5 (by decide)))
      (hedge 5 (by decide) 6 (by decide))

end StackBackend.Flow
