/-!
# The shortest decimal that reads back as a given double

A positive double is the exact product `mantissa * 2 ^ exponent`. The numbers that round to it form
an interval around it, with its ends when the mantissa is even. Of the decimals in that interval
those with the fewest digits are wanted, and of these the nearest to the double. For every number
of digits only the two neighbours of the double on the grid of such decimals have to be looked at.
All comparisons are made in exact arithmetic on natural numbers.
-/
namespace StackBackend.Decimal

inductive Tie
  | up
  | even
deriving DecidableEq, Repr

structure Scientific where
  digits : Nat
  exponent : Int
deriving DecidableEq, Repr

/-- The number `mantissa * 2 ^ exponent`; `lowest` says that the mantissa is the least one of its
binade, so that the double below is only half as far away as the one above. -/
structure Binary where
  mantissa : Nat
  exponent : Int
  lowest : Bool
deriving DecidableEq, Repr

def hiddenBit : Nat := 0x10000000000000

def Binary.ofBits (bits : UInt64) : Binary :=
  let field : Nat := bits.toNat / hiddenBit % 0x800
  let fraction : Nat := bits.toNat % hiddenBit
  if field = 0 then ⟨fraction, -1074, false⟩
  else ⟨hiddenBit + fraction, (field : Int) - 1075, fraction = 0 && 1 < field⟩

/-- A number with its rounding interval over one denominator. -/
structure Interval where
  low : Nat
  value : Nat
  high : Nat
  denominator : Nat
  closed : Bool

/-- The interval of a double, in units of `10 ^ grid`. -/
def Binary.interval (b : Binary) (grid : Int) : Interval :=
  let quarter := b.exponent - 2
  let scale := Nat.pow 2 quarter.toNat * Nat.pow 10 (-grid).toNat
  { low := (4 * b.mantissa - if b.lowest then 1 else 2) * scale
    value := 4 * b.mantissa * scale
    high := (4 * b.mantissa + 2) * scale
    denominator := Nat.pow 2 (-quarter).toNat * Nat.pow 10 grid.toNat
    closed := b.mantissa % 2 = 0 }

def Interval.contains (i : Interval) (n : Nat) : Bool :=
  let x := n * i.denominator
  if i.closed then i.low ≤ x && x ≤ i.high else i.low < x && x < i.high

/-- The integer in the interval that is nearest to the value, of the two next to the value. -/
def Interval.nearest (tie : Tie) (i : Interval) : Option Nat :=
  let below := i.value / i.denominator
  let above := below + 1
  match i.contains below, i.contains above with
  | false, false => none
  | true, false => some below
  | false, true => some above
  | true, true =>
    let left := i.value - below * i.denominator
    let right := above * i.denominator - i.value
    if left < right then some below
    else if right < left then some above
    else match tie with
      | .up => some above
      | .even => some (if below % 2 = 0 then below else above)

/-- The exponent `p` with `10 ^ (p - 1) ≤ b < 10 ^ p`, for a positive double. The double is first
scaled by a power of ten that makes the least of them greater than one. -/
def Binary.magnitude (b : Binary) : Int :=
  let scaled := b.interval (-330)
  (Nat.toDigits 10 (scaled.value / scaled.denominator)).length - 330

def Binary.search (tie : Tie) (b : Binary) (magnitude : Int) : Nat → Nat → Scientific
  | count, 0 => ⟨b.mantissa, magnitude - count⟩
  | count, more + 1 =>
    match (b.interval (magnitude - count)).nearest tie with
    | some digits => ⟨digits, magnitude - count⟩
    | none => b.search tie magnitude (count + 1) more

/-- Seventeen digits are enough to tell any two doubles apart. -/
def Binary.shortest (tie : Tie) (b : Binary) : Scientific :=
  b.search tie b.magnitude 1 17

example : (Binary.ofBits 0x3FF8000000000000).shortest .up = ⟨15, -1⟩ := by decide +kernel
example : (Binary.ofBits 1).shortest .even = ⟨5, -324⟩ := by decide +kernel
example : (Binary.ofBits 0x3E60000000000000).shortest .up = ⟨29802322387695313, -24⟩ := by
  decide +kernel
example : (Binary.ofBits 0x3E60000000000000).shortest .even = ⟨29802322387695312, -24⟩ := by
  decide +kernel

end StackBackend.Decimal
