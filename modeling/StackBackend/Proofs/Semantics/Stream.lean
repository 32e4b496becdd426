import Mathlib.Logic.Function.Basic
import Mathlib.Logic.Relation
import StackBackend.Proofs.Program.Labels

/-!
# Running a stream

What constants are and what comparing, calling and fields do is left to an interpretation, so that a
stream and the code that it is lowered to can be run in the same world. A run goes from instruction
to instruction. It records its effects: every call with the values of its arguments, every access to
a field, and the value that is returned. The instructions without code of their own do not run.
-/
namespace StackBackend

universe u

def Runs {σ : Type u} (step : σ → Option σ) : σ → σ → Prop :=
  Relation.ReflTransGen fun s t => step s = some t

/-- The meaning of what streams and code share. A call or an access that never comes back is `none`.
-/
structure Interpretation (Value World : Type u) where
  constant : Constant → Value
  equal : Value → Value → World → Bool
  call : String → List Value → World → Option (Value × World)
  getField : String → Value → World → Option (Value × World)
  putField : String → Value → Value → World → Option World

inductive Effect (Value : Type u) where
  | called (method : String) (args : List Value) (result : Value)
  | read (receiver : Value) (field : String) (value : Value)
  | wrote (receiver : Value) (field : String) (value : Value)
  | returned (value : Value)

inductive Control where
  | running (position : Nat)
  | returned
deriving DecidableEq

/-- A routine that is running, with locals named by `κ`. -/
structure Activation (κ : Type) (Value World : Type u) where
  control : Control
  locals : κ → Value
  world : World
  trace : List (Effect Value)

namespace Activation

variable {κ : Type} {Value World : Type u}

def goTo (a : Activation κ Value World) (position : Nat) : Activation κ Value World :=
  { a with control := .running position }

def setLocal [DecidableEq κ] (a : Activation κ Value World) (x : κ) (value : Value) :
    Activation κ Value World :=
  { a with locals := Function.update a.locals x value }

def record (a : Activation κ Value World) (effect : Effect Value) (world : World) :
    Activation κ Value World :=
  { a with world, trace := a.trace ++ [effect] }

def finish (a : Activation κ Value World) (value : Value) : Activation κ Value World :=
  { a.record (.returned value) a.world with control := .returned }

end Activation

variable {Value World : Type u}

def Operand.value? (I : Interpretation Value World) (locals : Variable → Value) :
    Operand → Option Value
  | .constant c => some (I.constant c)
  | .variable x => some (locals x)
  | _ => none

def Instruction.exec (I : Interpretation Value World) (instrs : List Instruction) (position : Nat)
    (a : Activation Variable Value World) : Instruction → Option (Activation Variable Value World)
  | .label _ => some (a.goTo (position + 1))
  | .jump target => (labelPosition instrs target).map a.goTo
  | .branch lhs rhs target => do
    let x ← lhs.value? I a.locals
    let y ← rhs.value? I a.locals
    if I.equal x y a.world then (labelPosition instrs target).map a.goTo
    else some (a.goTo (position + 1))
  | .copy result source => do
    let x ← source.value? I a.locals
    some ((a.setLocal result x).goTo (position + 1))
  | .call result method args => do
    let xs ← args.mapM (Operand.value? I a.locals)
    let (y, world) ← I.call method xs a.world
    let a := a.record (.called method xs y) world
    match result with
    | some result => some ((a.setLocal result y).goTo (position + 1))
    | none => some (a.goTo (position + 1))
  | .getField result receiver field => do
    let x ← receiver.value? I a.locals
    let (y, world) ← I.getField field.name x a.world
    some (((a.record (.read x field.name y) world).setLocal result y).goTo (position + 1))
  | .putField receiver field value => do
    let x ← receiver.value? I a.locals
    let y ← value.value? I a.locals
    let world ← I.putField field.name x y a.world
    some ((a.record (.wrote x field.name y) world).goTo (position + 1))
  | .ret value => do
    let x ← value.value? I a.locals
    some (a.finish x)
  | _ => none

/-- One step of a stream. There is none at the end of the stream and after a return. -/
def streamStep (I : Interpretation Value World) (instrs : List Instruction)
    (a : Activation Variable Value World) : Option (Activation Variable Value World) :=
  match a.control with
  | .running position => instrs[position]?.bind (Instruction.exec I instrs position a)
  | .returned => none

end StackBackend
