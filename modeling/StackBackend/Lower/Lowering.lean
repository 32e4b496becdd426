import StackBackend.Lower.Emitter

/-!
# Lowering scripts to code

A stream is lowered instruction by instruction in program order. Every instruction leaves the
operand stack as it found it. Variables become slots, labels become marks, and a class declares a
field before its first use. What a stream defines is lowered where it stands, in scopes of its own.

An instruction without code is left out and reported, and so is an operand without a value; lowering
goes on. It stops only when a routine has more variables than a method can address.
-/
namespace StackBackend

open Code (Op MethodKind)

namespace Emit

def operand (index : Nat) (instr : Instruction) : Operand → Emit Unit
  | .constant value => op (.push value)
  | .variable v => do op (.load (← slotFor v))
  | o => report index instr (.unsupportedOperand o.kindName)

def operands (index : Nat) (instr : Instruction) : List Operand → Emit Unit
  | [] => pure ()
  | o :: rest => do
    operand index instr o
    operands index instr rest

def storeResult : Option Variable → Emit Unit
  | some v => do op (.store (← slotFor v))
  | none => op .pop

/-- Lowers an instruction that defines nothing; a definition is left to its own rule. -/
def simple (index : Nat) (instr : Instruction) : Emit Unit :=
  match instr with
  | .label l => do op (.mark (← markFor l))
  | .jump target => do op (.goto (← markFor target))
  | .branch lhs rhs target => do
    operand index instr lhs
    operand index instr rhs
    op (.gotoIfEqual (← markFor target))
  | .copy result source => do
    let slot ← slotFor result
    operand index instr source
    op (.store slot)
  | .call result method args => do
    operands index instr args
    op (.invoke method args.length)
    storeResult result
  | .putField receiver field value => do
    declareField field
    operand index instr receiver
    operand index instr value
    op (.putField field.name)
  | .getField result receiver field => do
    declareField field
    operand index instr receiver
    op (.getField field.name)
    op (.store (← slotFor result))
  | .ret value => do
    operand index instr value
    op .returnValue
  | .receiveArg result position => do
    let slot ← slotFor result
    log (.argumentReserved result slot position.toNat)
  | .dispatch _ | .leave _ => report index instr (.unsupportedInstruction instr.kind)
  | .defineInstanceMethod _ | .defineClassMethod _ | .defineClass _ => pure ()

def logRoutine (name : String) (count : Nat) : Emit Unit := do
  if let some r := (← get).scopes.routine? then log (.routineLowered name count r.maxLocals)

/-- The code of a routine with `count` instructions, whose path is made of that of its class and of
its name. -/
def routine (path : String → String → String) (name : String) (kind : MethodKind) (count : Nat)
    (body : Emit Unit) : Emit Unit := do
  let owner := (← get).scopes.path
  atPath (path owner name) (inRoutine name do
    op (.beginMethod name kind)
    body
    logRoutine name count
    op .endMethod)

def container (name : String) (body : Emit Unit) : Emit Unit :=
  inContainer name do
    op (.beginClass name (← get).source)
    body
    op .endClass

end Emit

open Emit

mutual
def Instruction.lower (index : Nat) : Instruction → Emit Unit
  | .defineInstanceMethod m => m.lower instancePath .onInstance
  | .defineClassMethod m => m.lower classMethodPath .onClass
  | .defineClass c => c.lower
  | i => simple index i

def lowerFrom (index : Nat) : List Instruction → Emit Unit
  | [] => pure ()
  | i :: rest => do
    i.lower index
    lowerFrom (index + 1) rest

def Method.lower (path : String → String → String) (kind : MethodKind) : Method → Emit Unit
  | ⟨name, instrs⟩ => routine path name kind instrs.length (lowerFrom 0 instrs)

def Class.lower : Class → Emit Unit
  | ⟨name, instrs, methods, classes⟩ =>
    container name do
      routine instancePath classBodyName .onClass instrs.length (lowerFrom 0 instrs)
      lowerMethods methods
      lowerClasses classes

def lowerMethods : List Method → Emit Unit
  | [] => pure ()
  | m :: rest => do
    m.lower instancePath .onInstance
    lowerMethods rest

def lowerClasses : List Class → Emit Unit
  | [] => pure ()
  | c :: rest => do
    c.lower
    lowerClasses rest
end

def lowerStream (instrs : List Instruction) : Emit Unit := do
  match (← get).scopes.routine? with
  | none => throw (.noActiveRoutine "lower_instrs")
  | some _ => lowerFrom 0 instrs

def Script.lower (s : Script) : Emit Unit := do
  modify fun e => { e with source := s.fileName }
  s.root.lower

end StackBackend
