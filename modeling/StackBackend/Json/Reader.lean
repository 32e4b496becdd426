import StackBackend.Json.Numeral
import StackBackend.Json.StringLiteral

/-!
# Reading a document

The reader turns a text into a draft in one pass. Any three steps that follow each other take at
least one character, so three times the number of characters bounds the steps. After a flaw that is
not minor nothing more is read: the arrays and objects around it are broken off there.
-/
namespace StackBackend.Json

abbrev Rest := Except Flaw (List Char)

def isBlank (c : Char) : Bool := c = ' ' || c = '\n' || c = '\t' || c = '\r'

def skipBlanks (cs : List Char) : List Char := cs.dropWhile isBlank

def stop (flaw : Flaw) : Draft × Rest := (.flawed flaw, .error flaw)

def readLiteral (value : Draft) : List Char → List Char → Draft × Rest
  | [], cs => (value, .ok cs)
  | _ :: _, [] => stop (.plain .endInValue)
  | l :: ls, c :: cs => if l = c then readLiteral value ls cs else stop (.plain .literalExpected)

def readNumber (negative : Bool) (cs : List Char) : Draft × Rest :=
  match Numeral.read negative cs with
  | .ok (n, rest) => (n.draft, .ok rest)
  | .error flaw => stop flaw

def readString (cs : List Char) : Draft × Rest :=
  match StringLiteral.read cs with
  | (.ok s, rest) => (.string s, rest)
  | (.error flaw, rest) => (.flawed flaw, rest)

def readColon (cs : List Char) : Rest :=
  match skipBlanks cs with
  | ':' :: cs => .ok cs
  | [] => .error (.plain .endInObject)
  | _ => .error (.plain .colonExpected)

mutual
def readValue : Nat → List Char → Draft × Rest
  | 0, _ => stop (.plain .endInValue)
  | fuel + 1, cs =>
    match skipBlanks cs with
    | [] => stop (.plain .endInValue)
    | 'n' :: cs => readLiteral .null ['u', 'l', 'l'] cs
    | 't' :: cs => readLiteral (.bool true) ['r', 'u', 'e'] cs
    | 'f' :: cs => readLiteral (.bool false) ['a', 'l', 's', 'e'] cs
    | '"' :: cs => readString cs
    | '[' :: cs =>
      let (items, rest) := readItems fuel cs
      (.array items, rest)
    | '\x7b' :: cs =>
      let (members, rest) := readMembers fuel cs
      (.object members, rest)
    | '-' :: cs => readNumber true cs
    | c :: cs => if c.isDigit then readNumber false (c :: cs) else stop (.plain .valueExpected)

def readItems : Nat → List Char → Items × Rest
  | 0, _ => (.broken (.plain .endInList), .error (.plain .endInList))
  | fuel + 1, cs =>
    match skipBlanks cs with
    | [] => (.broken (.plain .endInList), .error (.plain .endInList))
    | ']' :: cs => (.closed, .ok cs)
    | cs => readItem fuel cs

def readItem : Nat → List Char → Items × Rest
  | 0, _ => (.broken (.plain .endInValue), .error (.plain .endInValue))
  | fuel + 1, cs =>
    let (first, rest) := readValue fuel cs
    match rest with
    | .error flaw => (.item first (.broken flaw), .error flaw)
    | .ok cs =>
      let (items, rest) := readNextItem fuel cs
      (.item first items, rest)

def readNextItem : Nat → List Char → Items × Rest
  | 0, _ => (.broken (.plain .endInList), .error (.plain .endInList))
  | fuel + 1, cs =>
    match skipBlanks cs with
    | [] => (.broken (.plain .endInList), .error (.plain .endInList))
    | ']' :: cs => (.closed, .ok cs)
    | ',' :: cs =>
      match skipBlanks cs with
      | [] => (.broken (.plain .endInValue), .error (.plain .endInValue))
      | ']' :: _ =>
        let flaw : Flaw := ⟨.trailingComma, some .valueExpected⟩
        (.broken flaw, .error flaw)
      | cs => readItem fuel cs
    | _ => (.broken (.plain .itemEndExpected), .error (.plain .itemEndExpected))

def readMembers : Nat → List Char → Members × Rest
  | 0, _ => (.broken (.plain .endInObject), .error (.plain .endInObject))
  | fuel + 1, cs =>
    match skipBlanks cs with
    | [] => (.broken (.plain .endInObject), .error (.plain .endInObject))
    | '\x7d' :: cs => (.closed, .ok cs)
    | '"' :: cs => readMember fuel cs
    | _ => (.broken (.plain .keyExpected), .error (.plain .keyExpected))

def readMember : Nat → List Char → Members × Rest
  | 0, _ => (.broken (.plain .endInString), .error (.plain .endInString))
  | fuel + 1, cs =>
    match StringLiteral.read cs with
    | (_, .error flaw) => (.broken flaw, .error flaw)
    | (key, .ok cs) =>
      match readColon cs with
      | .error flaw => (.member key (.flawed flaw) (.broken flaw), .error flaw)
      | .ok cs =>
        let (value, rest) := readValue fuel cs
        match rest with
        | .error flaw => (.member key value (.broken flaw), .error flaw)
        | .ok cs =>
          let (members, rest) := readNextMember fuel cs
          (.member key value members, rest)

def readNextMember : Nat → List Char → Members × Rest
  | 0, _ => (.broken (.plain .endInObject), .error (.plain .endInObject))
  | fuel + 1, cs =>
    match skipBlanks cs with
    | [] => (.broken (.plain .endInObject), .error (.plain .endInObject))
    | '\x7d' :: cs => (.closed, .ok cs)
    | ',' :: cs =>
      match skipBlanks cs with
      | '"' :: cs => readMember fuel cs
      | [] =>
        let flaw : Flaw := ⟨.endInValue, some .endInObject⟩
        (.broken flaw, .error flaw)
      | '\x7d' :: _ =>
        let flaw : Flaw := ⟨.trailingComma, some .keyExpected⟩
        (.broken flaw, .error flaw)
      | _ => (.broken (.plain .keyExpected), .error (.plain .keyExpected))
    | _ => (.broken (.plain .memberEndExpected), .error (.plain .memberEndExpected))
end

def stepsFor (cs : List Char) : Nat := 3 * cs.length + 3

def Draft.read (cs : List Char) : Draft × Rest := readValue (stepsFor cs) cs

end StackBackend.Json
