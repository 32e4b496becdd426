import Mathlib.Data.Finset.Card
import StackBackend.Proofs.Flow.Traversal

/-!
# The recursive search

A search visits a block by marking it, visiting those of its successors that are not marked, in the
order in which the edges were added, and leaving it. All calls share what has been marked, and
nothing is unmarked; so there are fewer blocks to visit from one call to the next.

The walk depth first is this search with its calls written out on a stack. A block on the stack
stands for a call that has not returned, with the successors that it has still to try. Let these
calls return, from the top of the stack down, each going on with what it has to try: what they leave
behind is the same before and after each turn of the walk. At the start it is what a visit of the
entry leaves behind, and at the end no call is pending.
-/
namespace StackBackend.Flow.Graph

/-- The blocks that have been visited, and those that have been left, in the order of leaving. -/
structure Search where
  visited : Finset Nat
  postorder : List Nat

namespace Search

def start : Search := ⟨∅, []⟩

def mark (s : Search) (u : Nat) : Search := { s with visited := insert u s.visited }

def leave (s : Search) (u : Nat) : Search := { s with postorder := s.postorder ++ [u] }

theorem subset_mark (s : Search) (u : Nat) : s.visited ⊆ (s.mark u).visited :=
  Finset.subset_insert u s.visited

end Search

def unvisited (g : Graph) (s : Search) : Finset Nat := Finset.range g.size \ s.visited

theorem unvisited_subset (g : Graph) {s t : Search} (h : s.visited ⊆ t.visited) :
    g.unvisited t ⊆ g.unvisited s :=
  Finset.sdiff_subset_sdiff (Finset.Subset.refl _) h

theorem card_unvisited_le (g : Graph) {s t : Search} (h : s.visited ⊆ t.visited) :
    (g.unvisited t).card ≤ (g.unvisited s).card :=
  Finset.card_le_card (g.unvisited_subset h)

theorem card_unvisited_mark (g : Graph) {s : Search} {u : Nat} (hu : u < g.size)
    (h : u ∉ s.visited) : (g.unvisited (s.mark u)).card < (g.unvisited s).card := by
  have hsub := g.unvisited_subset (s.subset_mark u)
  have hmem : u ∈ g.unvisited s := Finset.mem_sdiff.2 ⟨Finset.mem_range.2 hu, h⟩
  have hmarked : u ∉ g.unvisited (s.mark u) := fun hunvisited =>
    (Finset.mem_sdiff.1 hunvisited).2 (Finset.mem_insert_self u s.visited)
  exact Finset.card_lt_card ((Finset.ssubset_iff_of_subset hsub).2 ⟨u, hmem, hmarked⟩)

mutual

/-- Visits a block: marks it, visits the successors that have not been visited, and leaves it. -/
def visit (g : Graph) (s : Search) (u : Nat) :
    { t : Search // (s.mark u).visited ⊆ t.visited } :=
  let t := g.visitEach (s.mark u) (g.successors u)
  ⟨t.val.leave u, t.property⟩
termination_by ((g.unvisited (s.mark u)).card, 2 * (g.successors u).length + 1)
decreasing_by exact Prod.Lex.right _ (Nat.lt_succ_self _)

def visitEach (g : Graph) (s : Search) : List Nat → { t : Search // s.visited ⊆ t.visited }
  | [] => ⟨s, Finset.Subset.refl _⟩
  | v :: rest =>
    if v ∈ s.visited then g.visitEach s rest
    else
      let t := g.visit s v
      let w := g.visitEach t.val rest
      ⟨w.val, ((s.subset_mark v).trans t.property).trans w.property⟩
termination_by blocks => ((g.unvisited s).card, 2 * blocks.length)
decreasing_by
  · exact Prod.Lex.right _ (by simp)
  · rename_i hv
    by_cases hlt : v < g.size
    · exact Prod.Lex.left _ _ (g.card_unvisited_mark hlt hv)
    · -- A block that is not there is not counted, but nothing is left to do for it either.
      have hle := g.card_unvisited_le (s.subset_mark v)
      rw [successors_eq_nil (Nat.le_of_not_lt hlt)]
      exact Prod.Lex.right' _ hle (by simp only [List.length_nil, List.length_cons]; omega)
  · have hle := g.card_unvisited_le ((s.subset_mark v).trans t.property)
    exact Prod.Lex.right' _ hle (by simp)

end

def postorder (g : Graph) : List Nat := (g.visit .start entry).val.postorder

variable {g : Graph}

theorem visit_eq (g : Graph) (s : Search) (u : Nat) :
    (g.visit s u).val = (g.visitEach (s.mark u) (g.successors u)).val.leave u := by
  rw [visit]

@[simp] theorem visitEach_nil (g : Graph) (s : Search) : (g.visitEach s []).val = s := by
  rw [visitEach]

theorem visitEach_cons (g : Graph) (s : Search) (v : Nat) (rest : List Nat) :
    (g.visitEach s (v :: rest)).val =
      (g.visitEach (if v ∈ s.visited then s else (g.visit s v).val) rest).val := by
  rw [visitEach]
  by_cases hv : v ∈ s.visited
  · rw [if_pos hv, if_pos hv]
  · rw [if_neg hv, if_neg hv]

/-- The calls that are pending on a stack return, from the top down. Each of them goes on with the
successors that it has still to try and leaves its block. -/
def finishCalls (g : Graph) (s : Search) : List (Nat × List Nat) → Search
  | [] => s
  | (i, rest) :: stack => g.finishCalls ((g.visitEach s rest).val.leave i) stack

namespace Descent

variable {d : Descent} {unseen unseen' rest rest' order : List Nat} {stack : List (Nat × List Nat)}
  {i j : Nat}

/-- The blocks on the stack have been visited, and so have those that have been left. -/
def search (d : Descent) : Search := ⟨(d.path ++ d.order).toFinset, d.order.reverse⟩

def finished (g : Graph) (d : Descent) : Search := g.finishCalls d.search d.stack

theorem search_leave :
    search ⟨unseen, stack, i :: order⟩ = (search ⟨unseen, (i, rest) :: stack, order⟩).leave i := by
  have hvisited : (stack.map (·.1) ++ i :: order).toFinset =
      (i :: stack.map (·.1) ++ order).toFinset := List.toFinset_eq_of_perm _ _ List.perm_middle
  rw [search, search, Search.leave, Search.mk.injEq]
  exact ⟨hvisited, List.reverse_cons⟩

theorem search_enter :
    search ⟨unseen, (j, g.successors j) :: (i, rest) :: stack, order⟩ =
      (search ⟨unseen', (i, rest') :: stack, order⟩).mark j := by
  rw [search, search, Search.mark, Search.mk.injEq]
  exact ⟨List.toFinset_cons, rfl⟩

theorem Sound.mem_visited_iff (h : d.Sound g) (hj : j < g.size) :
    j ∈ d.search.visited ↔ j ∉ d.unseen := by
  have hpositions := h.positions
  rw [List.append_assoc] at hpositions
  have hdisjoint := List.disjoint_of_nodup_append (hpositions.nodup_iff.2 g.nodup_positions)
  have hmem := List.mem_append.1 (hpositions.mem_iff.2 (mem_positions.2 hj))
  rw [search, List.mem_toFinset]
  exact ⟨fun hvisited hunseen => hdisjoint hunseen hvisited, hmem.resolve_left⟩

theorem Sound.finished_turn (hmirrored : g.Mirrored) (h : d.Sound g) :
    (d.turn g).finished g = d.finished g := by
  match d with
  | ⟨unseen, [], order⟩ => rfl
  | ⟨unseen, (i, []) :: stack, order⟩ =>
    rw [Descent.turn, finished, finished, finishCalls, visitEach_nil, ← search_leave]
  | ⟨unseen, (i, j :: rest) :: stack, order⟩ =>
    have hedge : j ∈ g.successors i := h.tries (i, j :: rest) List.mem_cons_self List.mem_cons_self
    have hvisited := h.mem_visited_iff (hmirrored.lt_size hedge)
    rw [Descent.turn, finished, finished, finishCalls, visitEach_cons]
    split
    · -- The call for `j` returns first, and then the one for `i` goes on.
      rename_i hj
      rw [if_neg fun hmem => hvisited.1 hmem hj, visit_eq, finishCalls, finishCalls, search_enter]
    · rename_i hj
      rw [if_pos (hvisited.2 hj), finishCalls]
      rfl

theorem Sound.finished_turns (hmirrored : g.Mirrored) (h : d.Sound g) (n : Nat) :
    ((Descent.turn g)^[n] d).finished g = d.finished g := by
  induction n with
  | zero => rfl
  | succ n ih =>
    rw [Function.iterate_succ_apply', (h.turns hmirrored n).finished_turn hmirrored, ih]

theorem finished_start (g : Graph) : (start g).finished g = (g.visit .start entry).val := by
  rw [visit_eq]
  rfl

end Descent

theorem visit_entry (hmirrored : g.Mirrored) (hsize : entry < g.size) :
    (g.visit .start entry).val = ⟨g.reversePostorder.toFinset, g.reversePostorder.reverse⟩ := by
  obtain ⟨rest, hturns⟩ := g.turns_reversePostorder
  have hfinished := (Descent.sound_start hsize).finished_turns hmirrored
    (g.extent g.reversePostorder)
  rw [hturns, Descent.finished_start] at hfinished
  exact hfinished.symm

end Graph

variable {supply : Supply} {routine : String} {instrs : List Instruction} {g : Graph}

/-- In a graph that is built from a stream, the walk with a stack lists the blocks in the reverse of
the order in which the recursive search from the entry leaves them. -/
theorem build_reversePostorder_eq_reverse (h : (build supply routine instrs).graph = .ok g) :
    g.reversePostorder = g.postorder.reverse := by
  have hbuilt := builtFrom_of_build h
  have hsize : Graph.entry < g.size := by
    rw [hbuilt.realizes.size]
    exact Nat.succ_pos _
  rw [Graph.postorder, Graph.visit_entry hbuilt.mirrored hsize, List.reverse_reverse]

/-- A loop that is entered at both of its blocks, and a block to which no way leads. -/
def twoEntries : List Instruction :=
  [.branch (.variable ⟨"x"⟩) (.constant .nil) ⟨1⟩, .jump ⟨2⟩, .ret (.constant .nil), .label ⟨1⟩,
    .label ⟨2⟩, .branch (.variable ⟨"x"⟩) (.constant .nil) ⟨1⟩]

theorem build_reversePostorder_eq_reverse_twoEntries :
    ∃ g, (build .fresh "twoEntries" twoEntries).graph = .ok g ∧
      g.postorder = [5, 1, 6, 3, 2, 0] ∧ g.reversePostorder = [0, 2, 3, 6, 1, 5] := by
  have hfacts : (build .fresh "twoEntries" twoEntries).graph.toOption.map
      (fun g => (g.successors 0, g.successors 1, g.successors 2, g.successors 3, g.successors 5,
        g.successors 6)) = some ([2], [], [3, 5], [6], [6], [5, 1]) := by cbv
  obtain ⟨g, hbuild, hfacts⟩ := exists_of_toOption hfacts
  simp only [Prod.mk.injEq] at hfacts
  obtain ⟨hentry, hexit, htwo, hthree, hfive, hsix⟩ := hfacts
  -- The search comes to block 5 by way of block 6, so that block 2 does not visit it.
  have hpostorder : g.postorder = [5, 1, 6, 3, 2, 0] := by
    simp [Graph.postorder, Graph.visit_eq, Graph.visitEach_cons, Graph.Search.start,
      Graph.Search.mark, Graph.Search.leave, Graph.entry, hentry, hexit, htwo, hthree, hfive, hsix]
  refine ⟨g, hbuild, hpostorder, ?_⟩
  rw [build_reversePostorder_eq_reverse hbuild, hpostorder]
  rfl

end StackBackend.Flow
