import StackBackend.Json.Value
import StackBackend.Program.Instruction

/-!
# Scripts as documents

Every record is written as an object with its fields in the order of their declaration, the tag
first. A result or a value that is missing is written as null, a list that is empty as an empty
array; only nil has no content beside its tag.
-/
namespace StackBackend

open Json

def beside (tagKey tag : String) (content : Json) : Json :=
  .object [(tagKey, .string tag), ("value", content)]

def Constant.encode : Constant → Json
  | .fixnum value => beside "type" "fixnum" (.integer value.toInt)
  | .float value => beside "type" "float" (.float value)
  | .str value => beside "type" "str" (.string value)
  | .bool value => beside "type" "bool" (.bool value)
  | .nil => .object [("type", .string "nil")]

def Label.encode (l : Label) : Json := .integer l.id.toNat
def Variable.encode (v : Variable) : Json := .string v.name
def FieldRef.encode (f : FieldRef) : Json := .string f.name

def Operand.encode : Operand → Json
  | .constant value => beside "kind" "constant" value.encode
  | .variable v => beside "kind" "variable" v.encode
  | .field f => beside "kind" "field" f.encode
  | .label l => beside "kind" "label" l.encode

def encodeOption {α : Type} (encode : α → Json) : Option α → Json
  | none => .null
  | some a => encode a

mutual
def Instruction.encode : Instruction → Json
  | .label l => .object [("op", .string "label"), ("label", l.encode)]
  | .jump target => .object [("op", .string "jump"), ("target", target.encode)]
  | .branch lhs rhs target =>
    .object [("op", .string "branch"), ("lhs", lhs.encode), ("rhs", rhs.encode),
      ("target", target.encode)]
  | .dispatch value => .object [("op", .string "case"), ("value", value.encode)]
  | .leave value =>
    .object [("op", .string "break"), ("value", encodeOption Operand.encode value)]
  | .copy result source =>
    .object [("op", .string "copy"), ("result", result.encode), ("source", source.encode)]
  | .call result method args =>
    .object [("op", .string "call"), ("result", encodeOption Variable.encode result),
      ("method", .string method), ("args", .array (args.map Operand.encode))]
  | .getField result receiver field =>
    .object [("op", .string "get_field"), ("result", result.encode),
      ("receiver", receiver.encode), ("field", field.encode)]
  | .putField receiver field value =>
    .object [("op", .string "put_field"), ("receiver", receiver.encode),
      ("field", field.encode), ("value", value.encode)]
  | .receiveArg result index =>
    .object [("op", .string "receive_arg"), ("result", result.encode),
      ("index", .integer index.toNat)]
  | .ret value => .object [("op", .string "return"), ("value", value.encode)]
  | .defineInstanceMethod method =>
    .object [("op", .string "define_instance_method"), ("method", method.encode)]
  | .defineClassMethod method =>
    .object [("op", .string "define_class_method"), ("method", method.encode)]
  | .defineClass definition =>
    .object [("op", .string "define_class"), ("class", definition.encode)]

def Method.encode : Method → Json
  | ⟨name, instrs⟩ => .object [("name", .string name), ("instrs", .array (encodeInstrs instrs))]

def Class.encode : Class → Json
  | ⟨name, instrs, methods, classes⟩ =>
    .object [("name", .string name), ("instrs", .array (encodeInstrs instrs)),
      ("methods", .array (encodeMethods methods)), ("classes", .array (encodeClasses classes))]

def encodeInstrs : List Instruction → List Json
  | [] => []
  | i :: rest => i.encode :: encodeInstrs rest

def encodeMethods : List Method → List Json
  | [] => []
  | m :: rest => m.encode :: encodeMethods rest

def encodeClasses : List Class → List Json
  | [] => []
  | c :: rest => c.encode :: encodeClasses rest
end

def Script.encode (s : Script) : Json :=
  .object [("file_name", .string s.fileName), ("root", s.root.encode)]

def Script.toJson (s : Script) : String := s.encode.pretty

end StackBackend
