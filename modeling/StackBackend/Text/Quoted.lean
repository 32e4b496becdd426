import StackBackend.Text.Visible

/-!
# Texts in double quotes

The form in which a string constant is displayed and in which a message cites a string. Single
quotes stay as they are; a character that is not shown as itself is written by its code point in
hexadecimal, without padding.
-/
namespace StackBackend.Text

def codePointEscape (c : Char) : List Char :=
  ['\\', 'u', '\x7b'] ++ Nat.toDigits 16 c.toNat ++ ['\x7d']

def quotedChar : Char → List Char
  | '"' => ['\\', '"']
  | '\\' => ['\\', '\\']
  | '\n' => ['\\', 'n']
  | '\r' => ['\\', 'r']
  | '\t' => ['\\', 't']
  | '\x00' => ['\\', '0']
  | c => if isVisible c then [c] else codePointEscape c

def quoted (s : String) : String :=
  String.ofList ('"' :: s.toList.flatMap quotedChar ++ ['"'])

example : quoted "it's \"a\\b\"\n" = "\"it's \\\"a\\\\b\\\"\\n\"" := by decide +kernel
example : quoted "\x07" = "\"\\u\x7b7\x7d\"" := by decide +kernel

end StackBackend.Text
