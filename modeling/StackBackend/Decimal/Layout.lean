import StackBackend.Decimal.Shortest

/-!
# Doubles written in decimal

A layout says how the shortest digits of a finite double are set: up to which size it is written
out in full, always with at least one digit after the point, and how an exponent is written
otherwise. The two layouts are those of displayed constants and of the interchange format.
-/
namespace StackBackend.Decimal

structure Layout where
  /-- The least exponent of a leading digit for which the number is written out in full. -/
  leastPlain : Int
  endPlain : Int
  plusSign : Bool
  tie : Tie

/-- Constants on display: in full from `10 ^ -4` up to `10 ^ 16`, then as in `1e16` and `1.5e-5`. -/
def displayed : Layout := ⟨-4, 16, false, .up⟩

/-- Numbers in the interchange format: in full from `10 ^ -5` up to `10 ^ 16`, then as in `1e+16`
and `1.5e-6`. -/
def interchanged : Layout := ⟨-5, 16, true, .even⟩

def significant (digits : List Char) : List Char :=
  (digits.reverse.dropWhile (· = '0')).reverse

/-- The digits `d₀d₁d₂…` of the number `d₀.d₁d₂… * 10 ^ lead`, written out in full. -/
def plain (digits : List Char) (lead : Int) : List Char :=
  if lead < 0 then
    '0' :: '.' :: List.replicate (-lead - 1).toNat '0' ++ digits
  else
    let count := lead.toNat + 1
    let whole := digits.take count
    let fraction := digits.drop count
    whole ++ List.replicate (count - whole.length) '0' ++ '.' ::
      (if fraction.isEmpty then ['0'] else fraction)

def Layout.exponent (l : Layout) (lead : Int) : List Char :=
  let sign := if lead < 0 then ['-'] else if l.plusSign then ['+'] else []
  'e' :: sign ++ Nat.toDigits 10 lead.natAbs

def Layout.magnitude (l : Layout) (x : Scientific) : List Char :=
  let all := Nat.toDigits 10 x.digits
  let lead : Int := all.length - 1 + x.exponent
  let digits := significant all
  if l.leastPlain ≤ lead ∧ lead < l.endPlain then plain digits lead
  else match digits with
    | first :: second :: rest => first :: '.' :: second :: rest ++ l.exponent lead
    | _ => digits ++ l.exponent lead

def Layout.text (l : Layout) (x : Float) : List Char :=
  let bits := x.toBits
  let sign := if bits.toNat < 0x8000000000000000 then [] else ['-']
  let magnitude := Binary.ofBits bits
  sign ++ (if magnitude.mantissa = 0 then ['0', '.', '0']
    else l.magnitude (magnitude.shortest l.tie))

example : displayed.text (-1.5e-5) = "-1.5e-5".toList := by decide +kernel
example : interchanged.text 1e16 = "1e+16".toList := by decide +kernel
example : interchanged.text 0.00001 = "0.00001".toList := by decide +kernel
example : displayed.text 1234.5 = "1234.5".toList := by decide +kernel
example : displayed.text (-0.0) = "-0.0".toList := by decide +kernel

end StackBackend.Decimal
