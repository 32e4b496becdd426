import StackBackend.Flow.Graph

/-!
# Walks through a graph

Both walks start at the entry and keep the list of the blocks they have not seen yet. The first one
collects the blocks it comes to. The second one goes depth first: its stack holds the blocks it has
entered and not yet left, each with the successors still to be tried, and a block is put in front of
the order when it is left. The order is then the reverse of the order of leaving.
-/
namespace StackBackend.Flow.Graph

def positions (g : Graph) : List Nat := List.range g.size

def collect (g : Graph) (unseen stack found : List Nat) : List Nat :=
  match stack with
  | [] => found
  | i :: stack =>
    if i ∈ unseen then
      g.collect (unseen.erase i) ((g.successors i).reverse ++ stack) (i :: found)
    else g.collect unseen stack found
termination_by (unseen.length, stack.length)
decreasing_by
  · rename_i h
    have := List.length_pos_of_mem h
    rw [List.length_erase_of_mem h]
    exact Prod.Lex.left _ _ (by omega)
  · exact Prod.Lex.right _ (Nat.lt_succ_self _)

def reachable (g : Graph) : List Nat := g.collect g.positions [entry] []

/-- The work that a stack holds: its blocks and the successors still to be tried. -/
def pendingWork : List (Nat × List Nat) → Nat
  | [] => 0
  | (_, rest) :: stack => rest.length + 1 + pendingWork stack

def descend (g : Graph) (unseen : List Nat) (stack : List (Nat × List Nat)) (order : List Nat) :
    List Nat :=
  match stack with
  | [] => order
  | (i, []) :: stack => g.descend unseen stack (i :: order)
  | (i, j :: rest) :: stack =>
    if j ∈ unseen then
      g.descend (unseen.erase j) ((j, g.successors j) :: (i, rest) :: stack) order
    else g.descend unseen ((i, rest) :: stack) order
termination_by (unseen.length, pendingWork stack)
decreasing_by
  · exact Prod.Lex.right _ (by simp [pendingWork])
  · rename_i h
    have := List.length_pos_of_mem h
    rw [List.length_erase_of_mem h]
    exact Prod.Lex.left _ _ (by omega)
  · exact Prod.Lex.right _ (by simp [pendingWork])

def reversePostorder (g : Graph) : List Nat :=
  g.descend (g.positions.erase entry) [(entry, g.successors entry)] []

end StackBackend.Flow.Graph
