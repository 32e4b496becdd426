import StackBackend.Interchange.Fault

/-!
# Records

A record is written as an object whose members are its fields, or as the array of its fields in the
order of their declaration. As an object it is decoded member by member: an unknown field is passed
over, a field that comes twice is refused at its second key, and when the object ends the first
field that is missing is refused. The values found so far stand in slots, one for each field.
-/
namespace StackBackend.Interchange

open Json (Cause Draft Items Members)

structure Field (α : Type) where
  name : String
  read : Draft → Result α
  absent : Option α := none
  /-- The value when an array ends before the field. -/
  cutOff : Option α := none

inductive Shape : Type → Type 1 where
  | done : Shape Unit
  | field {α β : Type} (first : Field α) (rest : Shape β) : Shape (α × β)

namespace Shape

def Slots : {ρ : Type} → Shape ρ → Type
  | _, .done => Unit
  | _, @field α _ _ rest => Option α × rest.Slots

def start : {ρ : Type} → (s : Shape ρ) → s.Slots
  | _, .done => ()
  | _, .field _ rest => (none, rest.start)

def count : {ρ : Type} → Shape ρ → Nat
  | _, .done => 0
  | _, .field _ rest => rest.count + 1

def put (key : String) (value : Draft) :
    {ρ : Type} → (s : Shape ρ) → s.Slots → Option (Result s.Slots)
  | _, .done, _ => none
  | _, .field first rest, slots =>
    if key = first.name then
      match Prod.fst slots with
      | some _ => some (.error (.duplicateField key))
      | none => some ((first.read value).map fun a => (some a, Prod.snd slots))
    else (rest.put key value (Prod.snd slots)).map (·.map ((Prod.fst slots, ·)))

def collect {ρ : Type} (s : Shape ρ) : s.Slots → Members → Result s.Slots
  | slots, .closed => .ok slots
  | _, .broken flaw => .error (.malformed flaw.cause)
  | slots, .member key value rest => do
    let name ← keyText key
    match s.put name value slots with
    | some slots => s.collect (← slots) rest
    | none =>
      lift value.pass
      s.collect slots rest

def finish : {ρ : Type} → (s : Shape ρ) → s.Slots → Result ρ
  | _, .done, _ => .ok ()
  | _, .field first rest, slots =>
    match (Prod.fst slots).or first.absent with
    | none => .error (.missingField first.name)
    | some a => (rest.finish (Prod.snd slots)).map ((a, ·))

def ofMembers {ρ : Type} (s : Shape ρ) (members : Members) : Result ρ := do
  s.finish (← s.collect s.start members)

/-- Decodes the first items of an array; `expected` tells what is expected if they are too few. The
items that follow are left. -/
def ofItems (expected : String) (position : Nat) :
    {ρ : Type} → Shape ρ → Items → Result (ρ × Items)
  | _, .done, items => .ok ((), items)
  | _, .field first rest, .item value items => do
    let a ← first.read value
    let (b, items) ← rest.ofItems expected (position + 1) items
    return ((a, b), items)
  | _, .field _ _, .broken flaw => .error (.malformed flaw.cause)
  | _, .field first rest, .closed =>
    match first.cutOff with
    | none => .error (.wrongLength position expected)
    | some a => do
      let (b, items) ← rest.ofItems expected (position + 1) .closed
      return ((a, b), items)

end Shape

/-- How a document is decoded: while it is read, or from a value that has been read before. -/
inductive Mode where
  | direct
  | held
deriving DecidableEq, Repr

/-- An array that is decoded while it is read must close after the last field. -/
def mustClose : Items → Result Unit
  | .closed => .ok ()
  | .item _ _ => .error (.malformed .trailingCharacters)
  | .broken flaw =>
    match flaw.cause with
    | .endInList => .error (.malformed .endInList)
    | .trailingComma => .error (.malformed .trailingComma)
    | _ => .error (.malformed .trailingCharacters)

def mustBeWhole (length count : Nat) : Result Unit :=
  if length = count then .ok ()
  else .error (.wrongLength length (elements count ++ " in sequence"))

structure Record (α : Type) : Type 1 where
  title : String
  Values : Type
  shape : Shape Values
  make : Values → α

namespace Record

def ofMembers {α : Type} (r : Record α) (members : Members) : Result α :=
  (r.shape.ofMembers members).map r.make

def ofItems {α : Type} (r : Record α) (mode : Mode) (items : Items) : Result α := do
  let expected := r.title ++ " with " ++ elements r.shape.count
  let (values, rest) ← r.shape.ofItems expected 0 items
  match mode with
  | .direct => mustClose rest
  | .held => mustBeWhole items.length (items.length - rest.length)
  return r.make values

def read {α : Type} (r : Record α) (mode : Mode) : Draft → Result α
  | .object members => r.ofMembers members
  | .array items => r.ofItems mode items
  | d => .error (refusal r.title d)

end Record

end StackBackend.Interchange
