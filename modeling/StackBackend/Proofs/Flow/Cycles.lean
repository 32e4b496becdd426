import Mathlib.Data.List.Cycle
import StackBackend.Proofs.Flow.LoopHeaders

/-!
# Cycles

A cycle is a closed way along edges, of any length. It keeps away from the entry, which no edge
enters, and from the exit, which no edge leaves. A way that goes ahead in program order with every
edge does not come back, so somewhere on a cycle an edge enters a block from that block itself or
from a later one. Such a block is a loop header.
-/
namespace StackBackend.Flow

/-- The blocks of a closed way, each of which leads to the next one. -/
def Graph.IsCycle (g : Graph) (c : Cycle Nat) : Prop :=
  c ≠ .nil ∧ c.Chain fun u v => v ∈ g.successors u

theorem chain_within {r : Nat → Nat → Prop} {c : Cycle Nat} (h : c.Chain r) :
    c.Chain fun u v => u ∈ c ∧ v ∈ c ∧ r u v := by
  induction c with
  | nil => trivial
  | cons a l _ =>
    rw [Cycle.chain_coe_cons] at h ⊢
    have hmem : ∀ u, u ∈ a :: (l ++ [a]) → u ∈ ((a :: l : List Nat) : Cycle Nat) := by
      intro u hu
      simpa [or_comm, or_left_comm] using hu
    exact (List.IsChain.iff_mem.1 h).imp fun u v ⟨hu, hv, huv⟩ => ⟨hmem u hu, hmem v hv, huv⟩

variable {instrs : List Instruction} {g : Graph} {c : Cycle Nat} {first u v : Nat}

theorem Graph.IsCycle.returns (hc : g.IsCycle c) (hv : v ∈ c) :
    Relation.TransGen (fun u v => v ∈ g.successors u) v v := by
  have hchain : c.Chain (Relation.TransGen fun u v => v ∈ g.successors u) :=
    hc.2.imp fun _ _ => .single
  exact Cycle.chain_iff_pairwise.1 hchain v hv v hv

theorem Graph.IsCycle.entry_notMem (hc : g.IsCycle c) (hmirrored : g.Mirrored)
    (hentry : g.predecessors Graph.entry = []) : Graph.entry ∉ c := by
  intro hmem
  obtain ⟨p, -, hp⟩ := Relation.TransGen.tail'_iff.1 (hc.returns hmem)
  rw [← hmirrored, hentry] at hp
  cases hp

theorem Graph.IsCycle.exit_notMem (hc : g.IsCycle c) (hexit : g.successors Graph.exit = []) :
    Graph.exit ∉ c := by
  intro hmem
  obtain ⟨u, hu, -⟩ := Relation.TransGen.head'_iff.1 (hc.returns hmem)
  rw [hexit] at hu
  cases hu

theorem not_chain_ahead {r : Nat → Nat → Prop} (hr : ∀ u v, r u v → u < v) (hc : c ≠ .nil) :
    ¬ c.Chain r :=
  fun hchain => hc (hchain.imp hr).eq_nil_of_irrefl

theorem Graph.IsCycle.exists_back (hc : g.IsCycle c) :
    ∃ p ∈ c, ∃ v ∈ c, v ∈ g.successors p ∧ v ≤ p := by
  by_contra hnone
  refine not_chain_ahead ?_ hc.1 (chain_within hc.2)
  rintro p v ⟨hp, hv, hedge⟩
  exact Nat.lt_of_not_le fun hle => hnone ⟨p, hp, v, hv, hedge, hle⟩

theorem Graph.BuiltFrom.isLoopHeader_of_back (h : g.BuiltFrom first instrs)
    (hedge : v ∈ g.successors u) (hle : v ≤ u) : g.isLoopHeader v = true := by
  refine h.mirrored.isLoopHeader_iff.2 ⟨u, hle, ?_, hedge⟩
  rintro rfl
  rw [Nat.le_zero.1 hle, ← h.mirrored, ← Graph.entry,
    h.realizes.predecessors_entry h.mirrored] at hedge
  cases hedge

/-- A cycle of a graph that is built from a stream keeps away from the entry and the exit, and
contains a loop header that is entered from within the cycle by an edge back. All edges back lead to
loop headers, and without them no cycle is left. -/
theorem build_cycles_marked {supply : Supply} {routine : String}
    (h : (build supply routine instrs).graph = .ok g) :
    (∀ c, g.IsCycle c → Graph.entry ∉ c ∧ Graph.exit ∉ c ∧
      ∃ p ∈ c, ∃ v ∈ c, v ∈ g.successors p ∧ v ≤ p ∧ g.isLoopHeader v = true) ∧
      (∀ u v, v ∈ g.successors u → v ≤ u → g.isLoopHeader v = true) ∧
      ∀ c : Cycle Nat, c ≠ .nil → ¬ c.Chain fun u v => v ∈ g.successors u ∧ ¬ v ≤ u := by
  have hbuilt := builtFrom_of_build h
  have hentry := hbuilt.realizes.predecessors_entry hbuilt.mirrored
  refine ⟨fun c hc => ?_, fun u v => hbuilt.isLoopHeader_of_back, fun c => ?_⟩
  · obtain ⟨p, hp, v, hv, hedge, hle⟩ := hc.exists_back
    exact ⟨hc.entry_notMem hbuilt.mirrored hentry, hc.exit_notMem hbuilt.realizes.exit, p, hp, v,
      hv, hedge, hle, hbuilt.isLoopHeader_of_back hedge hle⟩
  · exact not_chain_ahead fun u v hedge => Nat.lt_of_not_le hedge.2

/-- A way through two loops that begins behind the first block of both. -/
theorem build_cycles_marked_turns :
    ∃ g, (build .fresh "turns" turns).graph = .ok g ∧ g.IsCycle ↑[4, 5, 3, 3] ∧
      ∃ p ∈ ([4, 5, 3, 3] : Cycle Nat), ∃ v ∈ ([4, 5, 3, 3] : Cycle Nat),
        v ∈ g.successors p ∧ v ≤ p ∧ g.isLoopHeader v = true := by
  have hfacts : (build .fresh "turns" turns).graph.toOption.map
      (fun g => (g.successors 3, g.successors 4, g.successors 5)) = some ([3, 4], [5], [3]) := by
    cbv
  obtain ⟨g, hbuild, hfacts⟩ := exists_of_toOption hfacts
  simp only [Prod.mk.injEq] at hfacts
  obtain ⟨hthree, hfour, hfive⟩ := hfacts
  have hcycle : g.IsCycle ↑[4, 5, 3, 3] := by
    refine ⟨mt (Cycle.coe_eq_nil _).1 (List.cons_ne_nil 4 [5, 3, 3]), ?_⟩
    simp [hthree, hfour, hfive]
  exact ⟨g, hbuild, hcycle, ((build_cycles_marked hbuild).1 _ hcycle).2.2⟩

end StackBackend.Flow
