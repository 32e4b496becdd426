import StackBackend.Error
import StackBackend.Json.Draft
import StackBackend.Json.Value
import StackBackend.Text.Quoted

/-!
# Why a document is not a script

A fault is a flaw of the text, or a value that does not fit where it stands. A message says what was
found and what was expected there; a number that is not an integer is cited as it would be written.
-/
namespace StackBackend.Interchange

open Json (Cause Draft Items Members)

inductive Found where
  | null
  | bool (value : Bool)
  | integer (value : Int)
  | float (value : Float)
  | string (value : String)
  | sequence
  | map

def cited (s : String) : String := "`" ++ s ++ "`"

def Found.text : Found → String
  | .null => "null"
  | .bool value => "boolean " ++ cited (if value then "true" else "false")
  | .integer value => "integer " ++ cited (String.ofList (Json.writeInteger value))
  | .float value => "floating point " ++ cited (String.ofList (Json.writeFloat value))
  | .string value => "string " ++ Text.quoted value
  | .sequence => "sequence"
  | .map => "map"

inductive Fault where
  | malformed (cause : Cause)
  | wrongType (found : Found) (expected : String)
  | wrongValue (found : Found) (expected : String)
  | wrongLength (length : Nat) (expected : String)
  | unknownVariant (name : String) (known : List String)
  | missingField (name : String)
  | duplicateField (name : String)

def Fault.message : Fault → String
  | .malformed cause => cause.message
  | .wrongType found expected => "invalid type: " ++ found.text ++ ", expected " ++ expected
  | .wrongValue found expected => "invalid value: " ++ found.text ++ ", expected " ++ expected
  | .wrongLength length expected =>
    "invalid length " ++ toString length ++ ", expected " ++ expected
  | .unknownVariant name known =>
    "unknown variant " ++ cited name ++ ", expected one of " ++ ", ".intercalate (known.map cited)
  | .missingField name => "missing field " ++ cited name
  | .duplicateField name => "duplicate field " ++ cited name

abbrev Result (α : Type) := Except Fault α

def elements (count : Nat) : String :=
  toString count ++ (if count = 1 then " element" else " elements")

def refusal (expected : String) : Draft → Fault
  | .null => .wrongType .null expected
  | .bool value => .wrongType (.bool value) expected
  | .integer value => .wrongType (.integer value) expected
  | .float value => .wrongType (.float value) expected
  | .string value => .wrongType (.string value) expected
  | .array _ => .wrongType .sequence expected
  | .object _ => .wrongType .map expected
  | .flawed flaw => .malformed flaw.cause

/-- Why a draft is refused where no room is left for another array or object. -/
def refusalAtLimit (expected : String) : Draft → Fault
  | .array _ | .object _ => .malformed .tooDeep
  | d => refusal expected d

def lift {α : Type} : Except Cause α → Result α
  | .ok a => .ok a
  | .error cause => .error (.malformed cause)

def keyText : Except Json.Flaw String → Result String
  | .ok name => .ok name
  | .error flaw => .error (.malformed flaw.cause)

end StackBackend.Interchange
