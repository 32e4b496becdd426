import StackBackend.Json.Draft

/-!
# Strings in a document

A string is read in two passes. The first one follows its escapes up to the closing quote and gives
a list of pieces: characters, and units of sixteen bits from hexadecimal escapes. That is all that a
reader looks at who passes over the string. The second pass joins the surrogate pairs among the
units. It finds the minor flaws: a surrogate without its other half.
-/
namespace StackBackend.Json.StringLiteral

inductive Piece where
  | char (c : Char)
  | unit (n : Nat)
deriving DecidableEq, Repr

inductive Break where
  | ended
  | control
  | unknownEscape
  | digitMissing
deriving DecidableEq, Repr

def Break.cause : Break → Cause
  | .ended => .endInString
  | .control => .controlCharacter
  | .unknownEscape | .digitMissing => .invalidEscape

abbrev Finish := Except Break (List Char)

def hexDigit? (c : Char) : Option Nat :=
  if c.isDigit then some (c.toNat - '0'.toNat)
  else if 'a' ≤ c ∧ c ≤ 'f' then some (c.toNat - 'a'.toNat + 10)
  else if 'A' ≤ c ∧ c ≤ 'F' then some (c.toNat - 'A'.toNat + 10)
  else none

def unit? (a b c d : Char) : Option Nat := do
  let a ← hexDigit? a
  let b ← hexDigit? b
  let c ← hexDigit? c
  let d ← hexDigit? d
  return ((a * 16 + b) * 16 + c) * 16 + d

def simpleEscape? : Char → Option Char
  | '"' => some '"'
  | '\\' => some '\\'
  | '/' => some '/'
  | 'b' => some '\x08'
  | 'f' => some '\x0C'
  | 'n' => some '\n'
  | 'r' => some '\r'
  | 't' => some '\t'
  | _ => none

/-- How an escape fails when less than four characters are left for its digits. It has come to the
end of the document only if there are less than four bytes. -/
def shortEscape (cs : List Char) : Break :=
  if (String.ofList cs).utf8ByteSize < 4 then .ended else .digitMissing

def prepend (p : Piece) (r : List Piece × Finish) : List Piece × Finish := (p :: r.1, r.2)

def pieces : List Char → List Piece × Finish
  | [] => ([], .error .ended)
  | '"' :: cs => ([], .ok cs)
  | ['\\'] => ([], .error .ended)
  | '\\' :: 'u' :: a :: b :: c :: d :: cs =>
    match unit? a b c d with
    | some n => prepend (.unit n) (pieces cs)
    | none => ([], .error .digitMissing)
  | '\\' :: 'u' :: cs => ([], .error (shortEscape cs))
  | '\\' :: e :: cs =>
    match simpleEscape? e with
    | some c => prepend (.char c) (pieces cs)
    | none => ([], .error .unknownEscape)
  | c :: cs =>
    if c.toNat < 0x20 then ([], .error .control) else prepend (.char c) (pieces cs)

def isLeading (n : Nat) : Bool := 0xD800 ≤ n && n ≤ 0xDBFF
def isTrailing (n : Nat) : Bool := 0xDC00 ≤ n && n ≤ 0xDFFF

def pairChar (leading trailing : Nat) : Char :=
  .ofNat (0x10000 + (leading - 0xD800) * 0x400 + (trailing - 0xDC00))

def missingTrailing : Finish → Cause
  | .error .ended => .endInString
  | .error .digitMissing => .invalidEscape
  | _ => .surrogateExpected

/-- The characters of the pieces; fails where a surrogate lacks its other half. -/
def join (finish : Finish) : List Piece → Except Cause (List Char)
  | [] => .ok []
  | .char c :: rest => (join finish rest).map (c :: ·)
  | .unit n :: rest =>
    if isTrailing n then .error .loneSurrogate
    else if isLeading n then
      match rest with
      | .unit m :: rest =>
        if isTrailing m then (join finish rest).map (pairChar n m :: ·)
        else .error .loneSurrogate
      | .char _ :: _ => .error .surrogateExpected
      | [] => .error (missingTrailing finish)
    else (join finish rest).map (.ofNat n :: ·)

/-- Reads a string after its opening quote: the string or its flaw, and what follows it unless
reading stops there. -/
def read (cs : List Char) : Except Flaw String × Except Flaw (List Char) :=
  let (pieces, finish) := pieces cs
  match finish, join finish pieces with
  | .ok rest, .ok s => (.ok (String.ofList s), .ok rest)
  | .ok rest, .error cause => (.error (.minor cause), .ok rest)
  | .error b, .ok _ => (.error (.plain b.cause), .error (.plain b.cause))
  | .error b, .error cause =>
    let flaw : Flaw := ⟨cause, some b.cause⟩
    (.error flaw, .error flaw)

end StackBackend.Json.StringLiteral
