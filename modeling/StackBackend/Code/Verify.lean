import StackBackend.Ascending
import StackBackend.Code.Op

/-!
# Verifying code

The verifier walks through code from its first operation to its last. It follows the brackets of
classes and methods, keeps the operand-stack depth of every open method, and collects which marks
the method places and which it leads to. It goes on after an error: an operation that takes more
values than there are leaves none, and an operation that fits nowhere changes nothing.
-/
namespace StackBackend.Code

inductive VerifyError where
  | tooManyOps (count limit : Nat)
  | unmatchedEnd (offset : Nat) (what : String)
  | unclosedScopes (classes methods : Nat)
  | outsideClass (offset : Nat)
  | outsideMethod (offset : Nat)
  | undefinedMark (method : String) (mark : Mark)
  | duplicateMark (offset : Nat) (mark : Mark)
  | stackUnderflow (offset : Nat) (method : String)
deriving DecidableEq, Repr

def VerifyError.message : VerifyError → String
  | .tooManyOps count limit =>
    "Too many operations: " ++ toString count ++ " (limit: " ++ toString limit ++ ")"
  | .unmatchedEnd offset what => "Unmatched end of " ++ what ++ " at op " ++ toString offset
  | .unclosedScopes classes methods =>
    "Code ends with " ++ toString classes ++ " class(es) and " ++ toString methods ++
      " method(s) still open"
  | .outsideClass offset => "Declaration outside of any class at op " ++ toString offset
  | .outsideMethod offset => "Code outside of any method at op " ++ toString offset
  | .undefinedMark method mark =>
    "Branch to undefined label " ++ mark.text ++ " in method " ++ method
  | .duplicateMark offset mark =>
    "Label " ++ mark.text ++ " placed twice (op " ++ toString offset ++ ")"
  | .stackUnderflow offset method =>
    "Operand stack underflow at op " ++ toString offset ++ " in method " ++ method

inductive Warning where
  | repeatedField (name : String)
  | valuesLeft (method : String) (count : Nat)
deriving DecidableEq, Repr

def Warning.message : Warning → String
  | .repeatedField name => "Field " ++ name ++ " declared more than once"
  | .valuesLeft method count =>
    "Method " ++ method ++ " leaves " ++ toString count ++ " value(s) on the operand stack"

structure Stats where
  opCount : Nat := 0
  classCount : Nat := 0
  methodCount : Nat := 0
  fieldCount : Nat := 0
  maxStackDepth : Nat := 0
  maxLocals : Nat := 0
deriving DecidableEq, Repr

structure MethodFrame where
  name : String
  depth : Nat := 0
  /-- The marks placed so far, the last one first. -/
  placed : List Mark := []
  /-- The marks that are led to, the last one first. -/
  targets : List Mark := []

/-- A class that is open, with its open methods, the innermost one first. -/
structure ClassFrame where
  fields : List String := []
  methods : List MethodFrame := []

/-- What is known in the middle of the code. The classes are those open, the innermost one first. -/
structure Walk where
  classes : List ClassFrame := []
  errors : Array VerifyError := #[]
  warnings : Array Warning := #[]
  stats : Stats := {}

namespace Walk

def error (w : Walk) (e : VerifyError) : Walk := { w with errors := w.errors.push e }

def warn (w : Walk) (x : Warning) : Walk := { w with warnings := w.warnings.push x }

def beginClass (w : Walk) : Walk :=
  { w with
    classes := {} :: w.classes
    stats := { w.stats with classCount := w.stats.classCount + 1 } }

def endClass (w : Walk) (offset : Nat) : Walk :=
  match w.classes with
  | ⟨_, []⟩ :: outer => { w with classes := outer }
  | _ => w.error (.unmatchedEnd offset "class")

def declareField (w : Walk) (offset : Nat) (name : String) : Walk :=
  match w.classes with
  | [] => w.error (.outsideClass offset)
  | c :: outer =>
    if name ∈ c.fields then w.warn (.repeatedField name)
    else { w with
      classes := { c with fields := name :: c.fields } :: outer
      stats := { w.stats with fieldCount := w.stats.fieldCount + 1 } }

def beginMethod (w : Walk) (offset : Nat) (name : String) : Walk :=
  match w.classes with
  | [] => w.error (.outsideClass offset)
  | c :: outer => { w with
      classes := { c with methods := { name } :: c.methods } :: outer
      stats := { w.stats with methodCount := w.stats.methodCount + 1 } }

end Walk

def MethodFrame.undefined (f : MethodFrame) : List Mark :=
  ascending (f.targets.filter (· ∉ f.placed))

namespace Walk

def closeMethod (w : Walk) (f : MethodFrame) : Walk :=
  let w := f.undefined.foldl (fun w m => w.error (.undefinedMark f.name m)) w
  if f.depth = 0 then w else w.warn (.valuesLeft f.name f.depth)

def endMethod (w : Walk) (offset : Nat) : Walk :=
  match w.classes with
  | ⟨fields, f :: methods⟩ :: outer =>
    { w with classes := ⟨fields, methods⟩ :: outer }.closeMethod f
  | _ => w.error (.unmatchedEnd offset "method")

def placeMark (w : Walk) (offset : Nat) (f : MethodFrame) (m : Mark) : Walk × MethodFrame :=
  if m ∈ f.placed then (w.error (.duplicateMark offset m), f)
  else (w, { f with placed := m :: f.placed })

def useSlot (w : Walk) (s : Slot) : Walk :=
  { w with stats := { w.stats with maxLocals := max w.stats.maxLocals (s.index.toNat + 1) } }

def note (w : Walk) (offset : Nat) (f : MethodFrame) : Op → Walk × MethodFrame
  | .mark m => w.placeMark offset f m
  | .load s | .store s => (w.useSlot s, f)
  | .goto m | .gotoIfEqual m => (w, { f with targets := m :: f.targets })
  | _ => (w, f)

def balance (w : Walk) (offset : Nat) (f : MethodFrame) (op : Op) : Walk × MethodFrame :=
  let (pops, pushes) := op.stackEffect
  let w := if f.depth < pops then w.error (.stackUnderflow offset f.name) else w
  let depth := f.depth - pops + pushes
  ({ w with stats := { w.stats with maxStackDepth := max w.stats.maxStackDepth depth } },
    { f with depth })

def code (w : Walk) (offset : Nat) (op : Op) : Walk :=
  match w.classes with
  | ⟨fields, f :: methods⟩ :: outer =>
    let (w, f) := w.note offset f op
    let (w, f) := w.balance offset f op
    { w with classes := ⟨fields, f :: methods⟩ :: outer }
  | _ => w.error (.outsideMethod offset)

def step (w : Walk) (offset : Nat) : Op → Walk
  | .beginClass .. => w.beginClass
  | .endClass => w.endClass offset
  | .declareField name => w.declareField offset name
  | .beginMethod name _ => w.beginMethod offset name
  | .endMethod => w.endMethod offset
  | op => w.code offset op

def run (w : Walk) (offset : Nat) : List Op → Walk
  | [] => w
  | op :: rest => (w.step offset op).run (offset + 1) rest

def finish (w : Walk) : Walk :=
  match w.classes with
  | [] => w
  | classes =>
    w.error (.unclosedScopes classes.length (classes.flatMap (·.methods)).length)

end Walk

structure Verifier where
  maxOps : Option Nat := none
  /-- Code with warnings is not valid. -/
  strict : Bool := false

structure Report where
  valid : Bool
  errors : List VerifyError
  warnings : List Warning
  stats : Stats
deriving DecidableEq, Repr

def Verifier.limitErrors (v : Verifier) (count : Nat) : Array VerifyError :=
  match v.maxOps with
  | some limit => if limit < count then #[.tooManyOps count limit] else #[]
  | none => #[]

def Verifier.verify (v : Verifier) (code : List Op) : Report :=
  let start : Walk :=
    { errors := v.limitErrors code.length, stats := { opCount := code.length } }
  let w := (start.run 0 code).finish
  { valid := w.errors.isEmpty && (!v.strict || w.warnings.isEmpty)
    errors := w.errors.toList
    warnings := w.warnings.toList
    stats := w.stats }

end StackBackend.Code
