import StackBackend.Flow.Build

/-!
# Sessions of graph building

Several streams can share one supply. A session keeps the supply and the graph that was built last;
each step gives an answer and the session after it, also when it fails.
-/
namespace StackBackend.Flow

inductive Step where
  | build (routine : String) (instrs : List Instruction)
  | buildMethod (routine : String) (method : Method)
  | newLabel
  | resumeAfter (instrs : List Instruction)
  | skipPast (instrs : List Instruction)
  | nextId

inductive Answer where
  | done
  | graph (g : Graph)
  | label (l : Label)
  | id (n : Nat)
  | failed (e : Error)

structure Session where
  supply : Supply
  last : Option Graph

namespace Session

def new : Session := ⟨.fresh, none⟩

def built (s : Session) (o : Outcome) : Answer × Session :=
  match o.graph with
  | .ok g => (.graph g, ⟨o.supply, some g⟩)
  | .error e => (.failed e, { s with supply := o.supply })

def withLabels (s : Session) (labels : LabelSupply) : Session :=
  { s with supply := { s.supply with labels } }

def run (s : Session) : Step → Answer × Session
  | .build routine instrs => s.built (build s.supply routine instrs)
  | .buildMethod routine method => s.built (buildMethod s.supply routine method)
  | .newLabel =>
    match LabelSupply.issue.run s.supply.labels with
    | .ok l labels => (.label l, s.withLabels labels)
    | .error e labels => (.failed e, s.withLabels labels)
  | .resumeAfter instrs => (.done, s.withLabels (.resumeAfter (streamLabels instrs)))
  | .skipPast instrs => (.done, { s with supply := s.supply.skipPast (streamLabels instrs) })
  | .nextId =>
    (.id s.supply.nextBlock,
      { s with supply := { s.supply with nextBlock := s.supply.nextBlock + 1 } })

end Session

end StackBackend.Flow
