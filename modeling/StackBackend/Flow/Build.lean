import StackBackend.Ascending
import StackBackend.Flow.Graph
import StackBackend.Trace

/-!
# Building a graph

The builder walks through a stream once. A label starts a block; so does an instruction behind one
that ends its block, under a label of its own. A block falls through to the next one, and the last
one to the exit, unless it ends with a jump. A jump or a branch adds an edge to the block of its
target, at once if the label is already placed and otherwise when it is placed.

Blocks are numbered in the order in which they are started, also by a build that fails later: what a
failed build has used up stays used up.
-/
namespace StackBackend.Flow

/-- How the current block stands when the next instruction comes. Control may go on behind a block
that has ended, but not behind one that has jumped. -/
inductive Tail where
  | growing
  | ended
  | jumped
deriving DecidableEq, Repr

structure Walk where
  supply : Supply
  graph : Graph
  current : Nat
  tail : Tail
  /-- Blocks that lead to labels not placed yet, in program order. -/
  pending : List (Label × Nat)
  events : Array Event

namespace Walk

def fallThrough (w : Walk) (target : Nat) : Walk :=
  if w.tail = .jumped then w else { w with graph := w.graph.addEdge w.current target }

def startBlock (w : Walk) (block : Block) (supply : Supply) : Walk :=
  let next := w.graph.size
  let w := { w with graph := w.graph.addBlock block, supply }.fallThrough next
  { w with current := next, tail := .growing }

def log (w : Walk) (e : Event) : Walk := { w with events := w.events.push e }

def resolve (w : Walk) (l : Label) : Walk :=
  let sources := (w.pending.filter (·.1 = l)).map (·.2)
  { w with
    graph := sources.foldl (fun g source => g.addEdge source w.current) w.graph
    pending := w.pending.filter (·.1 ≠ l) }

def placeLabel (l : Label) : EStateM Error Walk Unit := fun w =>
  match w.graph.blockForLabel? l with
  | some _ => .error (.duplicateLabel w.graph.routine l.text) w
  | none =>
    let (block, supply) := w.supply.block l
    let w := (w.startBlock block supply).resolve l
    .ok () (w.log (.labeledBlock w.graph.routine w.current l))

/-- Starts a block under a label of its own if the current one has ended. -/
def ensureOpen : EStateM Error Walk Unit := fun w =>
  if w.tail = .growing then .ok () w
  else match Supply.labelledBlock.run w.supply with
    | .ok block supply =>
      let w := w.startBlock block supply
      .ok () (w.log (.implicitBlock w.graph.routine w.current))
    | .error e supply => .error e { w with supply }

def leadTo (w : Walk) (target : Label) : Walk :=
  match w.graph.blockForLabel? target with
  | some i => { w with graph := w.graph.addEdge w.current i }
  | none => { w with pending := w.pending ++ [(target, w.current)] }

def append (w : Walk) (i : Instruction) : Walk :=
  let w := { w with graph := w.graph.modifyBlock w.current (·.append i) }
  let w := match i.target? with
    | some target => w.leadTo target
    | none => w
  if i.isJump then { w with tail := .jumped }
  else if i.endsBlock then { w with tail := .ended }
  else w

def step : Instruction → EStateM Error Walk Unit
  | .label l => placeLabel l
  | i => do
    ensureOpen
    modify (·.append i)

def run : Walk → List Instruction → Walk × Except Error Unit
  | w, [] => (w, .ok ())
  | w, i :: rest =>
    match (step i).run w with
    | .ok () w => w.run rest
    | .error e w => (w, .error e)

def unresolved (w : Walk) : List Label := ascending (w.pending.map (·.1))

def finish (w : Walk) : Walk × Except Error Graph :=
  let w := w.fallThrough Graph.exit
  match w.unresolved with
  | [] =>
    (w.log (.graphBuilt w.graph.routine w.graph.size w.graph.edgeCount), .ok w.graph)
  | labels => (w, .error (.unresolvedLabels w.graph.routine (labels.map Label.text)))

/-- The walk before the first instruction. The entry counts as ended. -/
def start (routine : String) (entry exit : Block) (supply : Supply) : Walk :=
  { supply, graph := .ofSentinels routine entry exit, current := Graph.entry, tail := .ended,
    pending := [], events := #[] }

end Walk

structure Outcome where
  graph : Except Error Graph
  supply : Supply
  events : Array Event

/-- Builds the graph of a stream. The labels of the stream are first taken out of the supply. -/
def build (supply : Supply) (routine : String) (instrs : List Instruction) : Outcome :=
  let supply := supply.skipPast (streamLabels instrs)
  match Supply.labelledBlock.run supply with
  | .error e supply => ⟨.error e, supply, #[]⟩
  | .ok entry supply =>
    match Supply.labelledBlock.run supply with
    | .error e supply => ⟨.error e, supply, #[]⟩
    | .ok exit supply =>
      match (Walk.start routine entry exit supply).run instrs with
      | (w, .error e) => ⟨.error e, w.supply, w.events⟩
      | (w, .ok ()) =>
        let (w, graph) := w.finish
        ⟨graph, w.supply, w.events⟩

/-- Builds the graph of a method with a label supply of its own; only block numbers are shared. -/
def buildMethod (supply : Supply) (routine : String) (m : Method) : Outcome :=
  let outcome := build { supply with labels := m.labelSupply } routine m.instrs
  { outcome with supply := { outcome.supply with labels := supply.labels } }

end StackBackend.Flow
