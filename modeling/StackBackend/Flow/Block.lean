import StackBackend.Program.Instruction

/-!
# Basic blocks

A block is a straight run of instructions, none of them a label, that is entered at its label. Block
numbers count up over a whole session and are never given back.
-/
namespace StackBackend.Flow

structure Block where
  id : Nat
  label : Label
  instrs : List Instruction
  live : Bool

namespace Block

def new (id : Nat) (label : Label) : Block := ⟨id, label, [], true⟩

def append (b : Block) (i : Instruction) : Block := { b with instrs := b.instrs ++ [i] }

def insertFirst (b : Block) (i : Instruction) : Block := { b with instrs := i :: b.instrs }

def last? (b : Block) : Option Instruction := b.instrs.getLast?

def isEmpty (b : Block) : Bool := b.instrs.isEmpty

def text (b : Block) : String := "BB<" ++ toString b.id ++ "," ++ b.label.text ++ ">"

end Block

/-- What a session hands out: the number of the next block, and labels. The numbers are unbounded
here. A counter of 32 bits gives the same ones as long as it does not overflow, that is for the
first `2 ^ 32 - 1` blocks. -/
structure Supply where
  nextBlock : Nat
  labels : LabelSupply
deriving DecidableEq, Repr

namespace Supply

def fresh : Supply := ⟨1, .fresh⟩

def block (s : Supply) (label : Label) : Block × Supply :=
  (.new s.nextBlock label, { s with nextBlock := s.nextBlock + 1 })

def newLabel : EStateM Error Supply Label := fun s =>
  match LabelSupply.issue.run s.labels with
  | .ok label labels => .ok label { s with labels }
  | .error e labels => .error e { s with labels }

/-- A block with a label of its own. No number is used up if there is no label left. -/
def labelledBlock : EStateM Error Supply Block := do
  let label ← newLabel
  modifyGet (·.block label)

def skipPast (s : Supply) (used : List Label) : Supply :=
  { s with labels := s.labels.skipPast used }

end Supply

end StackBackend.Flow
