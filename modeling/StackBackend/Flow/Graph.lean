import StackBackend.Flow.Block

/-!
# Control-flow graphs

A graph has one node for each basic block. Nodes are named by their position; the entry stands first
and the exit second, both without instructions, and the other blocks follow in program order. A node
lists its successors and its predecessors in the order in which the edges were added, none of them
twice.
-/
namespace StackBackend.Flow

structure Node where
  block : Block
  successors : List Nat
  predecessors : List Nat

structure Graph where
  routine : String
  nodes : Array Node

namespace Graph

def entry : Nat := 0
def exit : Nat := 1

def size (g : Graph) : Nat := g.nodes.size

def addBlock (g : Graph) (b : Block) : Graph := { g with nodes := g.nodes.push ⟨b, [], []⟩ }

def ofSentinels (routine : String) (entry exit : Block) : Graph :=
  ((⟨routine, #[]⟩ : Graph).addBlock entry).addBlock exit

def block? (g : Graph) (i : Nat) : Option Block := g.nodes[i]?.map (·.block)

def successors (g : Graph) (i : Nat) : List Nat := (g.nodes[i]?.map (·.successors)).getD []

def predecessors (g : Graph) (i : Nat) : List Nat := (g.nodes[i]?.map (·.predecessors)).getD []

def hasEdge (g : Graph) (source target : Nat) : Bool := (g.successors source).contains target

def addEdge (g : Graph) (source target : Nat) : Graph :=
  if g.size ≤ source ∨ g.size ≤ target then g
  else if g.hasEdge source target then g
  else { g with
    nodes := (g.nodes.modify source fun n => { n with successors := n.successors ++ [target] })
      |>.modify target fun n => { n with predecessors := n.predecessors ++ [source] } }

def modifyBlock (g : Graph) (i : Nat) (f : Block → Block) : Graph :=
  { g with nodes := g.nodes.modify i fun n => { n with block := f n.block } }

def blockForLabel? (g : Graph) (l : Label) : Option Nat :=
  g.nodes.findIdx? fun n => n.block.label = l

def edges (g : Graph) : List (Nat × Nat) :=
  (List.range g.size).flatMap fun i => (g.successors i).map fun j => (i, j)

def edgeCount (g : Graph) : Nat := (g.nodes.toList.flatMap (·.successors)).length

/-- An edge that leads here from this block or a later one is taken to close a loop, for the blocks
stand in program order. -/
def isLoopHeader (g : Graph) (i : Nat) : Bool :=
  (g.predecessors i).any fun p => i ≤ p && p ≠ entry

end Graph

end StackBackend.Flow
