/-!
# Documents as far as they can be read

A draft is what a text holds up to the first place where it can no longer be read, together with
the flaw found there. It keeps everything that stands before the flaw, so that whoever decodes it
in document order meets the first problem first, be it a flaw of the text or a value of the wrong
kind.

Not every reader minds every flaw: one that only passes over a value tells some flaws by another
cause, and does not mind a number out of range or half of a surrogate pair at all. So a flaw has a
cause for readers of the value and perhaps one for those that pass over it.
-/
namespace StackBackend.Json

inductive Cause where
  | endInValue | endInList | endInObject | endInString
  | valueExpected | literalExpected | colonExpected | itemEndExpected | memberEndExpected
  | trailingComma | keyExpected | invalidNumber | numberOutOfRange
  | invalidEscape | loneSurrogate | surrogateExpected | controlCharacter
  | trailingCharacters | tooDeep
deriving DecidableEq, Repr

def Cause.message : Cause → String
  | .endInValue => "EOF while parsing a value"
  | .endInList => "EOF while parsing a list"
  | .endInObject => "EOF while parsing an object"
  | .endInString => "EOF while parsing a string"
  | .valueExpected => "expected value"
  | .literalExpected => "expected ident"
  | .colonExpected => "expected `:`"
  | .itemEndExpected => "expected `,` or `]`"
  | .memberEndExpected => "expected `,` or `\x7d`"
  | .trailingComma => "trailing comma"
  | .keyExpected => "key must be a string"
  | .invalidNumber => "invalid number"
  | .numberOutOfRange => "number out of range"
  | .invalidEscape => "invalid escape"
  | .loneSurrogate => "lone leading surrogate in hex escape"
  | .surrogateExpected => "unexpected end of hex escape"
  | .controlCharacter => "control character (\\u0000-\\u001F) found while parsing a string"
  | .trailingCharacters => "trailing characters"
  | .tooDeep => "recursion limit exceeded"

structure Flaw where
  cause : Cause
  /-- What a reader reports that passes over the value; `none` if it does not mind. -/
  passing : Option Cause
deriving DecidableEq, Repr

def Flaw.plain (cause : Cause) : Flaw := ⟨cause, some cause⟩

/-- A flaw that is none for a reader that passes over the value. -/
def Flaw.minor (cause : Cause) : Flaw := ⟨cause, none⟩

mutual
inductive Draft where
  | null
  | bool (value : Bool)
  | integer (value : Int)
  | float (value : Float)
  | string (value : String)
  | array (items : Items)
  | object (members : Members)
  | flawed (flaw : Flaw)

inductive Items where
  | closed
  | broken (flaw : Flaw)
  | item (first : Draft) (rest : Items)

/-- The members of an object. A key can have a minor flaw. -/
inductive Members where
  | closed
  | broken (flaw : Flaw)
  | member (key : Except Flaw String) (value : Draft) (rest : Members)
end

mutual
def Draft.check (room : Nat) : Draft → Except Cause Unit
  | .flawed flaw => .error flaw.cause
  | .array items =>
    match room with
    | 0 => .error .tooDeep
    | room + 1 => items.check room
  | .object members =>
    match room with
    | 0 => .error .tooDeep
    | room + 1 => members.check room
  | _ => .ok ()

def Items.check (room : Nat) : Items → Except Cause Unit
  | .closed => .ok ()
  | .broken flaw => .error flaw.cause
  | .item first rest => do first.check room; rest.check room

def Members.check (room : Nat) : Members → Except Cause Unit
  | .closed => .ok ()
  | .broken flaw => .error flaw.cause
  | .member (.error flaw) _ _ => .error flaw.cause
  | .member (.ok _) value rest => do value.check room; rest.check room
end

def Flaw.pass (flaw : Flaw) : Except Cause Unit :=
  match flaw.passing with
  | some cause => .error cause
  | none => .ok ()

mutual
def Draft.pass : Draft → Except Cause Unit
  | .flawed flaw => flaw.pass
  | .array items => items.pass
  | .object members => members.pass
  | _ => .ok ()

def Items.pass : Items → Except Cause Unit
  | .closed => .ok ()
  | .broken flaw => flaw.pass
  | .item first rest => do first.pass; rest.pass

def Members.pass : Members → Except Cause Unit
  | .closed => .ok ()
  | .broken flaw => flaw.pass
  | .member (.error flaw) value rest => do flaw.pass; value.pass; rest.pass
  | .member (.ok _) value rest => do value.pass; rest.pass
end

def Items.length : Items → Nat
  | .closed | .broken _ => 0
  | .item _ rest => rest.length + 1

end StackBackend.Json
