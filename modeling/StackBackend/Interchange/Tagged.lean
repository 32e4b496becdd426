import StackBackend.Interchange.Fault

/-!
# Values beside their tag

Operands and constants are written as a tag that names their variant and, beside it, the value of
the variant. As an object the two may come in either order, and other members are passed over; as
an array the tag comes first, and the position of the variant in the list of variants may stand for
it. They only stand inside an instruction, which has been read as a whole before they are decoded.
-/
namespace StackBackend.Interchange

open Json (Cause Draft Items Members)

def variant {τ : Type} (known : List (String × τ)) (name : String) : Result τ :=
  match known.lookup name with
  | some t => .ok t
  | none => .error (.unknownVariant name (known.map (·.1)))

def readVariant {τ : Type} (known : List (String × τ)) : Draft → Result τ
  | .string name => variant known name
  | .integer i =>
    if i < 0 then .error (refusal "variant identifier" (.integer i))
    else match known[i.toNat]? with
      | some (_, t) => .ok t
      | none =>
        .error (.wrongValue (.integer i) ("variant index 0 <= i < " ++ toString known.length))
  | d => .error (refusal "variant identifier" d)

/-- The tag in an object is given by its name, or by an object whose only key is the name, with
nothing as its value. -/
def readTag {τ : Type} (known : List (String × τ)) : Draft → Result τ
  | .string name => variant known name
  | .object (.member key value .closed) => do
    let t ← variant known (← keyText key)
    match value with
    | .null | .object .closed => return t
    | value => .error (refusal "unit" value)
  | .object _ => .error (.wrongValue .map "map with a single key")
  | d => .error (refusal "string or map" d)

/-- How values of one type are written beside their tag. -/
structure Tagged (τ α : Type) where
  title : String
  tagKey : String
  contentKey : String
  variants : List (String × τ)
  content : τ → Draft → Result α
  empty : τ → Option α

inductive Tagged.Next where
  | none
  | tag (value : Draft) (rest : Members)
  | content (value : Draft) (rest : Members)

namespace Tagged

variable {τ α : Type}

def next (t : Tagged τ α) : Members → Next
  | .member (.ok key) value rest =>
    if key = t.tagKey then .tag value rest
    else if key = t.contentKey then .content value rest
    else t.next rest
  | .member (.error _) _ rest => t.next rest
  | .closed | .broken _ => .none

def noneLeft (t : Tagged τ α) (members : Members) : Result Unit :=
  match t.next members with
  | .none => .ok ()
  | .tag .. => .error (.duplicateField t.tagKey)
  | .content .. => .error (.duplicateField t.contentKey)

def decode (t : Tagged τ α) (tag : τ) (value : Draft) (rest : Members) : Result α := do
  let a ← t.content tag value
  t.noneLeft rest
  return a

def ofMembers (t : Tagged τ α) (members : Members) : Result α :=
  match t.next members with
  | .none => .error (.missingField t.tagKey)
  | .tag tag rest => do
    let tag ← readTag t.variants tag
    match t.next rest with
    | .content value rest => t.decode tag value rest
    | .tag .. => .error (.duplicateField t.tagKey)
    | .none =>
      match t.empty tag with
      | some a => return a
      | none => .error (.missingField t.contentKey)
  | .content value rest =>
    match t.next rest with
    | .tag tag rest => do t.decode (← readTag t.variants tag) value rest
    | .content .. => .error (.duplicateField t.contentKey)
    | .none => .error (.missingField t.tagKey)

def ofItems (t : Tagged τ α) : Items → Result α
  | .item tag (.item value rest) => do
    let a ← t.content (← readVariant t.variants tag) value
    if rest.length = 0 then return a
    else .error (.wrongLength (rest.length + 2) (elements 2 ++ " in sequence"))
  | .item tag _ => do
    let _ ← readVariant t.variants tag
    .error (.wrongLength 1 t.title)
  | _ => .error (.wrongLength 0 t.title)

def read (t : Tagged τ α) : Draft → Result α
  | .object members => t.ofMembers members
  | .array items => t.ofItems items
  | d => .error (refusal t.title d)

end Tagged

end StackBackend.Interchange
