import StackBackend.Json.Draft

/-!
# Numbers in a document

A numeral without fraction and exponent that fits 64 bits is an integer; negative zero and all other
numerals are doubles. A double is read in two steps, each rounded: the digits are gathered into an
integer of 64 bits, those that no longer fit being dropped, and the integer is multiplied or divided
by a power of ten. The result is the nearest double only if both steps are exact.
-/
namespace StackBackend.Json

structure Numeral where
  negative : Bool
  whole : List Nat
  fraction : Option (List Nat)
  /-- Whether the exponent is negative, and its digits. -/
  exponent : Option (Bool × List Nat)

namespace Numeral

def takeDigits (cs : List Char) : List Nat × List Char :=
  ((cs.takeWhile Char.isDigit).map (·.toNat - '0'.toNat), cs.dropWhile Char.isDigit)

def digitMissing : List Char → Flaw
  | [] => ⟨.endInValue, some .invalidNumber⟩
  | _ => .plain .invalidNumber

def someDigits (cs : List Char) : Except Flaw (List Nat × List Char) :=
  match takeDigits cs with
  | ([], rest) => .error (digitMissing rest)
  | (digits, rest) => .ok (digits, rest)

def readWhole (cs : List Char) : Except Flaw (List Nat × List Char) := do
  match ← someDigits cs with
  | (0 :: _ :: _, _) => .error (.plain .invalidNumber)
  | (digits, rest) => .ok (digits, rest)

def readFraction : List Char → Except Flaw (Option (List Nat) × List Char)
  | '.' :: cs => do
    let (digits, rest) ← someDigits cs
    return (some digits, rest)
  | cs => .ok (none, cs)

def readSign : List Char → Bool × List Char
  | '+' :: cs => (false, cs)
  | '-' :: cs => (true, cs)
  | cs => (false, cs)

def readExponent : List Char → Except Flaw (Option (Bool × List Nat) × List Char)
  | 'e' :: cs | 'E' :: cs => do
    let (negative, cs) := readSign cs
    let (digits, rest) ← someDigits cs
    return (some (negative, digits), rest)
  | cs => .ok (none, cs)

def read (negative : Bool) (cs : List Char) : Except Flaw (Numeral × List Char) := do
  let (whole, cs) ← readWhole cs
  let (fraction, cs) ← readFraction cs
  let (exponent, rest) ← readExponent cs
  return (⟨negative, whole, fraction, exponent⟩, rest)

/-- Appends digits to an integer as long as it stays below `2 ^ 64`, and counts those left. -/
def gather : Nat → List Nat → Nat × Nat
  | n, [] => (n, 0)
  | n, d :: rest =>
    if n * 10 + d < UInt64.size then gather (n * 10 + d) rest else (n, rest.length + 1)

def digitsValue (digits : List Nat) : Nat := digits.foldl (fun n d => n * 10 + d) 0

def powerOfTen (n : Nat) : Float := .ofScientific 1 false n

def greatestPower : Nat := 308

def divideRepeatedly : Nat → Float → Float
  | 0, x => x
  | n + 1, x => if x == 0 then x else divideRepeatedly n (x / powerOfTen greatestPower)

def scaleUp (x : Float) (n : Nat) : Option Float :=
  if n ≤ greatestPower then
    let y := x * powerOfTen n
    if y.isInf then none else some y
  else if x == 0 then some x else none

def scaleDown (x : Float) (n : Nat) : Float :=
  let steps := (n - 1) / greatestPower
  divideRepeatedly steps x / powerOfTen (n - steps * greatestPower)

def boundedExponent (digits : List Nat) : Option Nat :=
  let n := digitsValue digits
  if n < 0x80000000 then some n else none

def scale (x : Float) (e : Int) : Option Float :=
  if e < 0 then some (scaleDown x e.natAbs) else scaleUp x e.toNat

/-- The double `significand * 10 ^ (start + exponent)`, or `none` if it is too great. An exponent
that does not fit 31 bits makes zero of any number that it does not make too great. -/
def magnitude (significand : Nat) (start : Int) : Option (Bool × List Nat) → Option Float
  | none => scale (.ofNat significand) start
  | some (negative, digits) =>
    match boundedExponent digits with
    | some e => scale (.ofNat significand) (if negative then start - e else start + e)
    | none => if negative || significand == 0 then some 0 else none

def double (n : Numeral) : Option Float :=
  let fraction := n.fraction.getD []
  let (significand, raised) := gather 0 n.whole
  let (significand, dropped) := gather significand fraction
  let start : Int := raised - (fraction.length - dropped : Nat)
  (magnitude significand start n.exponent).map fun x => if n.negative then -x else x

/-- The integer that a numeral without fraction and exponent stands for, if it is one of 64 bits.
Negative zero is none. -/
def integer? (n : Numeral) : Option Int :=
  match n.fraction, n.exponent with
  | none, none =>
    let value := digitsValue n.whole
    if n.negative then
      if 0 < value ∧ value ≤ 0x8000000000000000 then some (-value) else none
    else if value < UInt64.size then some value else none
  | _, _ => none

def draft (n : Numeral) : Draft :=
  match n.integer? with
  | some i => .integer i
  | none =>
    match n.double with
    | some x => .float x
    | none => .flawed (.minor .numberOutOfRange)

end Numeral

end StackBackend.Json
