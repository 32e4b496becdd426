import StackBackend.Interchange.Record
import StackBackend.Interchange.Tagged
import StackBackend.Json.Reader
import StackBackend.Program.Instruction

/-!
# Scripts from documents

A script is decoded while its document is read: the first problem met is the one reported, be it a
flaw of the text or a value that does not fit. Instructions are the exception. Their tag may stand
behind their fields, so an instruction is first read as a whole, and only then are its fields
decoded; but the tag is decoded as soon as it is read.

At most `maxDepth` arrays and objects may be open at the same time, those in fields that are passed
over outside of instructions not counted.
-/
namespace StackBackend.Interchange

open Json (Cause Draft Items Members)

def maxDepth : Nat := 127

def integerIn (low high : Int) (expected : String) : Draft → Result Int
  | .integer i => if low ≤ i ∧ i ≤ high then .ok i else .error (.wrongValue (.integer i) expected)
  | d => .error (refusal expected d)

def readLabel (d : Draft) : Result Label :=
  (integerIn 0 0xFFFFFFFF "u32" d).map fun i => ⟨.ofNat i.toNat⟩

def readFixnum (d : Draft) : Result Int64 :=
  (integerIn (-0x8000000000000000) 0x7FFFFFFFFFFFFFFF "i64" d).map Int64.ofInt

def readIndex (d : Draft) : Result UInt64 :=
  (integerIn 0 0xFFFFFFFFFFFFFFFF "usize" d).map fun i => .ofNat i.toNat

def readDouble : Draft → Result Float
  | .float x => .ok x
  | .integer i => .ok (if i < 0 then -.ofNat i.natAbs else .ofNat i.natAbs)
  | d => .error (refusal "f64" d)

def readString : Draft → Result String
  | .string s => .ok s
  | d => .error (refusal "a string" d)

def readBool : Draft → Result Bool
  | .bool b => .ok b
  | d => .error (refusal "a boolean" d)

def readVariable (d : Draft) : Result Variable := (readString d).map Variable.mk

def readFieldRef (d : Draft) : Result FieldRef := (readString d).map FieldRef.mk

def optional {α : Type} (read : Draft → Result α) : Draft → Result (Option α)
  | .null => .ok none
  | d => (read d).map some

def readItems {α : Type} (read : Draft → Result α) : Items → Result (List α)
  | .closed => .ok []
  | .broken flaw => .error (.malformed flaw.cause)
  | .item first rest => do
    let a ← read first
    let as ← readItems read rest
    return a :: as

def readList {α : Type} (read : Draft → Result α) : Draft → Result (List α)
  | .array items => readItems read items
  | d => .error (refusal "a sequence" d)

inductive ConstantKind where
  | fixnum | float | str | bool | nil
deriving DecidableEq, Repr

def ConstantKind.content : ConstantKind → Draft → Result Constant
  | .fixnum, d => (readFixnum d).map .fixnum
  | .float, d => (readDouble d).map .float
  | .str, d => (readString d).map .str
  | .bool, d => (readBool d).map .bool
  | .nil, .null => .ok .nil
  | .nil, d => .error (refusal "unit variant Constant::Nil" d)

def constants : Tagged ConstantKind Constant where
  title := "adjacently tagged enum Constant"
  tagKey := "type"
  contentKey := "value"
  variants := [("fixnum", .fixnum), ("float", .float), ("str", .str), ("bool", .bool),
    ("nil", .nil)]
  content := ConstantKind.content
  empty := fun k => if k = .nil then some .nil else none

inductive OperandKind where
  | constant | variable | field | label
deriving DecidableEq, Repr

def OperandKind.content : OperandKind → Draft → Result Operand
  | .constant, d => (constants.read d).map .constant
  | .variable, d => (readVariable d).map .variable
  | .field, d => (readFieldRef d).map .field
  | .label, d => (readLabel d).map .label

def operands : Tagged OperandKind Operand where
  title := "adjacently tagged enum Operand"
  tagKey := "kind"
  contentKey := "value"
  variants := [("constant", .constant), ("variable", .variable), ("field", .field),
    ("label", .label)]
  content := OperandKind.content
  empty := fun _ => none

def instructionTags : List (String × InstructionKind) :=
  [("label", .label), ("jump", .jump), ("branch", .branch), ("case", .dispatch),
   ("break", .leave), ("copy", .copy), ("call", .call), ("get_field", .getField),
   ("put_field", .putField), ("receive_arg", .receiveArg), ("return", .ret),
   ("define_instance_method", .defineInstanceMethod),
   ("define_class_method", .defineClassMethod), ("define_class", .defineClass)]

/-- Only in a value that has been read before, a tag may be given by its position in the list. -/
def instructionTag (mode : Mode) : Draft → Result InstructionKind
  | .integer i =>
    match mode with
    | .direct => .error (refusal "variant identifier" (.integer i))
    | .held => readVariant instructionTags (.integer i)
  | d => readVariant instructionTags d

def findTag (mode : Mode) (room : Nat) : Option InstructionKind → Members →
    Result (Option InstructionKind)
  | kind, .closed => .ok kind
  | _, .broken flaw => .error (.malformed flaw.cause)
  | kind, .member key value rest => do
    if (← keyText key) = "op" then
      match kind with
      | some _ => .error (.duplicateField "op")
      | none => findTag mode room (some (← instructionTag mode value)) rest
    else
      lift (value.check room)
      findTag mode room kind rest

def labelField (name : String) : Field Label := { name, read := readLabel }
def operandField (name : String) : Field Operand := { name, read := operands.read }
def variableField (name : String) : Field Variable := { name, read := readVariable }
def fieldRefField (name : String) : Field FieldRef := { name, read := readFieldRef }

def optionalField {α : Type} (name : String) (read : Draft → Result α) : Field (Option α) :=
  { name, read := optional read, absent := some none }

def listField {α : Type} (name : String) (read : Draft → Result (List α)) : Field (List α) :=
  { name, read, absent := some [], cutOff := some [] }

def fields1 {α : Type} (a : Field α) : Shape (α × Unit) := .field a .done

def fields2 {α β : Type} (a : Field α) (b : Field β) : Shape (α × β × Unit) := .field a (fields1 b)

def fields3 {α β γ : Type} (a : Field α) (b : Field β) (c : Field γ) : Shape (α × β × γ × Unit) :=
  .field a (fields2 b c)

def instructionNamed {ρ : Type} (name : String) (shape : Shape ρ) (make : ρ → Instruction) :
    Record Instruction :=
  ⟨"struct variant Instruction::" ++ name, ρ, shape, make⟩

def instructionRecord (readMethod : Draft → Result Method) (readClass : Draft → Result Class) :
    InstructionKind → Record Instruction
  | .label => instructionNamed "Label" (fields1 (labelField "label")) fun (l, _) => .label l
  | .jump => instructionNamed "Jump" (fields1 (labelField "target")) fun (l, _) => .jump l
  | .branch =>
    instructionNamed "Branch"
      (fields3 (operandField "lhs") (operandField "rhs") (labelField "target"))
      fun (lhs, rhs, target, _) => .branch lhs rhs target
  | .dispatch => instructionNamed "Case" (fields1 (operandField "value")) fun (v, _) => .dispatch v
  | .leave =>
    instructionNamed "Break" (fields1 (optionalField "value" operands.read))
      fun (v, _) => .leave v
  | .copy =>
    instructionNamed "Copy" (fields2 (variableField "result") (operandField "source"))
      fun (result, source, _) => .copy result source
  | .call =>
    instructionNamed "Call"
      (fields3 (optionalField "result" readVariable)
        { name := "method", read := readString }
        { name := "args", read := readList operands.read })
      fun (result, method, args, _) => .call result method args
  | .getField =>
    instructionNamed "GetField"
      (fields3 (variableField "result") (operandField "receiver") (fieldRefField "field"))
      fun (result, receiver, field, _) => .getField result receiver field
  | .putField =>
    instructionNamed "PutField"
      (fields3 (operandField "receiver") (fieldRefField "field") (operandField "value"))
      fun (receiver, field, value, _) => .putField receiver field value
  | .receiveArg =>
    instructionNamed "ReceiveArg"
      (fields2 (variableField "result") { name := "index", read := readIndex })
      fun (result, index, _) => .receiveArg result index
  | .ret => instructionNamed "Return" (fields1 (operandField "value")) fun (v, _) => .ret v
  | .defineInstanceMethod =>
    instructionNamed "DefineInstanceMethod" (fields1 { name := "method", read := readMethod })
      fun (m, _) => .defineInstanceMethod m
  | .defineClassMethod =>
    instructionNamed "DefineClassMethod" (fields1 { name := "method", read := readMethod })
      fun (m, _) => .defineClassMethod m
  | .defineClass =>
    instructionNamed "DefineClass" (fields1 { name := "class", read := readClass })
      fun (c, _) => .defineClass c

def methodRecord (readInstrs : Draft → Result (List Instruction)) : Record Method :=
  ⟨"struct Method", _,
    fields2 { name := "name", read := readString } { name := "instrs", read := readInstrs },
    fun (name, instrs, _) => ⟨name, instrs⟩⟩

def classRecord (readInstrs : Draft → Result (List Instruction))
    (readMethods : Draft → Result (List Method)) (readClasses : Draft → Result (List Class)) :
    Record Class :=
  ⟨"struct Class", _,
    .field { name := "name", read := readString }
      (fields3 (listField "instrs" readInstrs) (listField "methods" readMethods)
        (listField "classes" readClasses)),
    fun (name, instrs, methods, classes, _) => ⟨name, instrs, methods, classes⟩⟩

def scriptRecord (readClass : Draft → Result Class) : Record Script :=
  ⟨"struct Script", _,
    fields2 { name := "file_name", read := readString } { name := "root", read := readClass },
    fun (fileName, root, _) => ⟨fileName, root⟩⟩

def decodeInstruction (record : InstructionKind → Record Instruction) (mode : Mode) (room : Nat) :
    Draft → Result Instruction
  | .object members => do
    match ← findTag mode room none members with
    | none => .error (.missingField "op")
    | some kind => (record kind).ofMembers members
  | .array (.item tag items) => do
    let kind ← instructionTag mode tag
    lift (items.check room)
    (record kind).ofItems .held items
  | .array .closed => .error (.missingField "op")
  | .array (.broken flaw) => .error (.malformed flaw.cause)
  | d => .error (refusal "internally tagged enum Instruction" d)

mutual
/-- Decodes an instruction where room is left for as many levels of arrays and objects as the number
says; the readers that follow take the room in the same way. -/
def readInstruction (mode : Mode) : Nat → Draft → Result Instruction
  | 0, d => .error (refusalAtLimit "internally tagged enum Instruction" d)
  | room + 1, d =>
    decodeInstruction (instructionRecord (readMethod .held room) (readClass .held room)) mode room d

def readInstructions (mode : Mode) : Nat → Draft → Result (List Instruction)
  | 0, d => .error (refusalAtLimit "a sequence" d)
  | room + 1, d => readList (readInstruction mode room) d

def readMethod (mode : Mode) : Nat → Draft → Result Method
  | 0, d => .error (refusalAtLimit "struct Method" d)
  | room + 1, d => (methodRecord (readInstructions mode room)).read mode d

def readMethods (mode : Mode) : Nat → Draft → Result (List Method)
  | 0, d => .error (refusalAtLimit "a sequence" d)
  | room + 1, d => readList (readMethod mode room) d

def readClass (mode : Mode) : Nat → Draft → Result Class
  | 0, d => .error (refusalAtLimit "struct Class" d)
  | room + 1, d =>
    (classRecord (readInstructions mode room) (readMethods mode room)
      (readClasses mode room)).read mode d

def readClasses (mode : Mode) : Nat → Draft → Result (List Class)
  | 0, d => .error (refusalAtLimit "a sequence" d)
  | room + 1, d => readList (readClass mode room) d
end

def readScript : Draft → Result Script :=
  (scriptRecord (readClass .direct (maxDepth - 1))).read .direct

def decode (cs : List Char) : Result Script := do
  let (draft, rest) := Draft.read cs
  let script ← readScript draft
  match rest with
  | .error flaw => .error (.malformed flaw.cause)
  | .ok rest =>
    if (Json.skipBlanks rest).isEmpty then return script
    else .error (.malformed .trailingCharacters)

end StackBackend.Interchange

namespace StackBackend

def Script.ofJson (text : String) : Except Error Script :=
  match Interchange.decode text.toList with
  | .ok script => .ok script
  | .error fault => .error (.invalidIr fault.message)

end StackBackend
