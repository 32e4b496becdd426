import StackBackend.Decimal.Layout

/-!
# JSON values and their written form

A number is an integer of 64 bits, signed or unsigned, or a double; the two are kept apart. A value
is written over several lines: every item and every member stands on a line of its own, indented by
two spaces for each array or object around it, and the members keep their order.
-/
namespace StackBackend

inductive Json where
  | null
  | bool (value : Bool)
  | integer (value : Int)
  | float (value : Float)
  | string (value : String)
  | array (items : List Json)
  | object (members : List (String × Json))

namespace Json

def controlEscape (c : Char) : List Char :=
  ['\\', 'u', '0', '0', Nat.digitChar (c.toNat / 16), Nat.digitChar (c.toNat % 16)]

def escaped : Char → List Char
  | '"' => ['\\', '"']
  | '\\' => ['\\', '\\']
  | '\x08' => ['\\', 'b']
  | '\x0C' => ['\\', 'f']
  | '\n' => ['\\', 'n']
  | '\r' => ['\\', 'r']
  | '\t' => ['\\', 't']
  | c => if c.toNat < 0x20 then controlEscape c else [c]

def writeString (s : String) : List Char := '"' :: s.toList.flatMap escaped ++ ['"']

def writeInteger (i : Int) : List Char :=
  if i < 0 then '-' :: Nat.toDigits 10 i.natAbs else Nat.toDigits 10 i.natAbs

def writeFloat (x : Float) : List Char :=
  if x.isFinite then Decimal.interchanged.text x else ['n', 'u', 'l', 'l']

def newLine (depth : Nat) : List Char := '\n' :: List.replicate (2 * depth) ' '

mutual
def write (depth : Nat) : Json → List Char
  | .null => ['n', 'u', 'l', 'l']
  | .bool true => ['t', 'r', 'u', 'e']
  | .bool false => ['f', 'a', 'l', 's', 'e']
  | .integer i => writeInteger i
  | .float x => writeFloat x
  | .string s => writeString s
  | .array [] => ['[', ']']
  | .array (item :: rest) =>
    '[' :: newLine (depth + 1) ++ item.write (depth + 1) ++ writeItems (depth + 1) rest ++
      newLine depth ++ [']']
  | .object [] => ['\x7b', '\x7d']
  | .object ((key, value) :: rest) =>
    '\x7b' :: newLine (depth + 1) ++ writeString key ++ [':', ' '] ++ value.write (depth + 1) ++
      writeMembers (depth + 1) rest ++ newLine depth ++ ['\x7d']

def writeItems (depth : Nat) : List Json → List Char
  | [] => []
  | item :: rest => ',' :: newLine depth ++ item.write depth ++ writeItems depth rest

def writeMembers (depth : Nat) : List (String × Json) → List Char
  | [] => []
  | (key, value) :: rest =>
    ',' :: newLine depth ++ writeString key ++ [':', ' '] ++ value.write depth ++
      writeMembers depth rest
end

def pretty (j : Json) : String := String.ofList (j.write 0)

example : (Json.object [("a", .array [.integer 1, .float 1.0]), ("b\n", .array [])]).pretty =
    "\x7b\n  \"a\": [\n    1,\n    1.0\n  ],\n  \"b\\n\": []\n\x7d" := by decide +kernel

end Json

end StackBackend
