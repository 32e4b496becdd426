import StackBackend.Json.Reader
import StackBackend.Json.Value
import Mathlib.Tactic.IntervalCases

/-!
# Numbers read back

A spelling is a number without its sign as it stands in a document. Reading its text gives the
numeral it spells and leaves what follows, as long as that begins with a character that stands
behind an item and not in a number.
-/
namespace StackBackend.Json

/-- A text that cannot go on with a number: it is empty, or begins with what follows an item. -/
def Delimited : List Char → Prop
  | [] => True
  | c :: _ => c = ',' ∨ c = '\n'

namespace Numeral

structure Digits (ds : List Char) : Prop where
  nonempty : ds ≠ []
  all : ∀ c ∈ ds, c.isDigit

def digitValues (ds : List Char) : List Nat := ds.map (·.toNat - '0'.toNat)

structure Spelling where
  whole : List Char
  fraction : Option (List Char)
  /-- Whether the exponent is negative, and its digits; its sign is always written. -/
  exponent : Option (Bool × List Char)

namespace Spelling

def fractionText : Option (List Char) → List Char
  | some ds => '.' :: ds
  | none => []

def exponentText : Option (Bool × List Char) → List Char
  | some (negative, ds) => 'e' :: (if negative then '-' else '+') :: ds
  | none => []

def text (s : Spelling) : List Char :=
  s.whole ++ (fractionText s.fraction ++ exponentText s.exponent)

def numeral (s : Spelling) (negative : Bool) : Numeral where
  negative
  whole := digitValues s.whole
  fraction := s.fraction.map digitValues
  exponent := s.exponent.map fun e => (e.1, digitValues e.2)

structure Valid (s : Spelling) : Prop where
  whole : Digits s.whole
  noLeadingZero : s.whole = ['0'] ∨ s.whole.head? ≠ some '0'
  fraction : ∀ ds ∈ s.fraction, Digits ds
  exponent : ∀ e ∈ s.exponent, Digits e.2

end Spelling

open Spelling

theorem takeDigits_append {ds rest : List Char} (hd : ∀ c ∈ ds, c.isDigit)
    (hr : ∀ c ∈ rest.head?, c.isDigit = false) :
    takeDigits (ds ++ rest) = (digitValues ds, rest) := by
  unfold takeDigits
  rw [List.takeWhile_append_of_pos hd, List.dropWhile_append_of_pos hd]
  cases rest with
  | nil => simp [digitValues]
  | cons c rest =>
    have hc := hr c rfl
    simp [hc, digitValues]

theorem someDigits_append {ds rest : List Char} (hd : Digits ds)
    (hr : ∀ c ∈ rest.head?, c.isDigit = false) :
    someDigits (ds ++ rest) = .ok (digitValues ds, rest) := by
  unfold someDigits
  rw [takeDigits_append hd.all hr]
  cases ds with
  | nil => exact absurd rfl hd.nonempty
  | cons c ds => rfl

theorem digit_eq_zero {c : Char} (hd : c.isDigit) (h : c.toNat - '0'.toNat = 0) : c = '0' := by
  simp only [Char.isDigit, Bool.and_eq_true, decide_eq_true_eq, ge_iff_le] at hd
  have low : '0'.toNat ≤ c.toNat := hd.1
  exact Char.toNat_inj.1 (by omega)

theorem readWhole_append {ds rest : List Char} (hd : Digits ds)
    (hz : ds = ['0'] ∨ ds.head? ≠ some '0') (hr : ∀ c ∈ rest.head?, c.isDigit = false) :
    readWhole (ds ++ rest) = .ok (digitValues ds, rest) := by
  unfold readWhole
  rw [someDigits_append hd hr]
  obtain rfl | hz := hz
  · rfl
  · cases ds with
    | nil => exact absurd rfl hd.nonempty
    | cons c ds =>
      have hc : c.toNat - '0'.toNat ≠ 0 := fun h =>
        hz (congrArg some (digit_eq_zero (hd.all c (.head _)) h))
      simp only [bind, Except.bind]
      split
      · next h => exact absurd (List.cons.inj (congrArg Prod.fst h)).1 hc
      · next h => exact congrArg Except.ok h.symm

theorem readFraction_append {fraction : Option (List Char)} {rest : List Char}
    (hf : ∀ ds ∈ fraction, Digits ds)
    (hr : ∀ c ∈ rest.head?, c.isDigit = false ∧ c ≠ '.') :
    readFraction (fractionText fraction ++ rest) = .ok (fraction.map digitValues, rest) := by
  cases fraction with
  | none =>
    change readFraction rest = _
    unfold readFraction
    split
    · exact absurd rfl (hr '.' rfl).2
    · rfl
  | some ds =>
    change readFraction ('.' :: (ds ++ rest)) = _
    rw [readFraction, someDigits_append (hf ds rfl) fun c hc => (hr c hc).1]
    rfl

theorem readExponent_append {exponent : Option (Bool × List Char)} {rest : List Char}
    (he : ∀ e ∈ exponent, Digits e.2)
    (hr : ∀ c ∈ rest.head?, c.isDigit = false ∧ c ≠ 'e' ∧ c ≠ 'E') :
    readExponent (exponentText exponent ++ rest) =
      .ok (exponent.map fun e => (e.1, digitValues e.2), rest) := by
  cases exponent with
  | none =>
    change readExponent rest = _
    unfold readExponent
    split
    · exact absurd rfl (hr 'e' rfl).2.1
    · exact absurd rfl (hr 'E' rfl).2.2
    · rfl
  | some e =>
    obtain ⟨negative, ds⟩ := e
    have hd := someDigits_append (he _ rfl) fun c hc => (hr c hc).1
    have hs : readSign ((if negative then '-' else '+') :: (ds ++ rest)) =
        (negative, ds ++ rest) := by
      cases negative <;> rfl
    change readExponent ('e' :: (if negative then '-' else '+') :: (ds ++ rest)) = _
    simp only [readExponent, hs, hd]
    rfl

theorem head_of_delimited {rest : List Char} (h : Delimited rest) :
    ∀ c ∈ rest.head?, c.isDigit = false ∧ c ≠ '.' ∧ c ≠ 'e' ∧ c ≠ 'E' := by
  cases rest with
  | nil => simp
  | cons c rest =>
    rintro _ ⟨⟩
    obtain rfl | rfl := h <;> decide

theorem head_exponentText (exponent : Option (Bool × List Char)) {rest : List Char}
    (h : Delimited rest) :
    ∀ c ∈ (exponentText exponent ++ rest).head?, c.isDigit = false ∧ c ≠ '.' := by
  cases exponent with
  | none => exact fun c hc => ⟨(head_of_delimited h c hc).1, (head_of_delimited h c hc).2.1⟩
  | some e =>
    rintro _ ⟨⟩
    decide

theorem head_fractionText (fraction : Option (List Char)) {rest : List Char}
    (h : ∀ c ∈ rest.head?, c.isDigit = false) :
    ∀ c ∈ (fractionText fraction ++ rest).head?, c.isDigit = false := by
  cases fraction with
  | none => exact h
  | some ds =>
    rintro _ ⟨⟩
    decide

theorem read_text {s : Spelling} (hs : s.Valid) (negative : Bool) {rest : List Char}
    (hr : Delimited rest) :
    Numeral.read negative (s.text ++ rest) = .ok (s.numeral negative, rest) := by
  have hexp := head_exponentText s.exponent hr
  have hfrac := head_fractionText s.fraction fun c hc => (hexp c hc).1
  have hend := head_of_delimited hr
  simp only [Spelling.text, List.append_assoc, Numeral.read]
  rw [readWhole_append hs.whole hs.noLeadingZero hfrac]
  simp only [bind, Except.bind]
  rw [readFraction_append hs.fraction hexp]
  simp only
  rw [readExponent_append hs.exponent fun c hc => ⟨(hend c hc).1, (hend c hc).2.2⟩]
  rfl

theorem digits_toDigits (n : Nat) : Digits (Nat.toDigits 10 n) :=
  ⟨Nat.toDigits_ne_nil, fun _ => Nat.isDigit_of_mem_toDigits (by omega) (Nat.le_refl 10)⟩

theorem head_toDigits {n : Nat} (h : 0 < n) : (Nat.toDigits 10 n).head? ≠ some '0' := by
  induction n using Nat.strongRecOn with
  | ind n ih =>
    obtain hlt | hle := Nat.lt_or_ge n 10
    · rw [Nat.toDigits_of_lt_base hlt]
      interval_cases n <;> decide
    · have hfirst := ih (n / 10) (by omega) (by omega)
      have hne : Nat.toDigits 10 (n / 10) ≠ [] := Nat.toDigits_ne_nil
      rwa [Nat.toDigits_of_base_le (by omega) hle, List.head?_append,
        Option.or_of_isSome (List.isSome_head?.2 hne)]

def Spelling.ofNat (n : Nat) : Spelling := ⟨Nat.toDigits 10 n, none, none⟩

theorem Spelling.valid_ofNat (n : Nat) : (Spelling.ofNat n).Valid where
  whole := digits_toDigits n
  noLeadingZero := by
    obtain rfl | h := Nat.eq_zero_or_pos n
    · exact .inl rfl
    · exact .inr (head_toDigits h)
  fraction := nofun
  exponent := nofun

@[simp]
theorem Spelling.text_ofNat (n : Nat) : (Spelling.ofNat n).text = Nat.toDigits 10 n :=
  List.append_nil _

theorem digitsValue_toDigits (n : Nat) : digitsValue (digitValues (Nat.toDigits 10 n)) = n := by
  have h := Nat.ofDigitChars_ten_toDigits (n := n)
  rw [Nat.ofDigitChars_eq_foldl] at h
  simpa only [digitsValue, digitValues, List.foldl_map, Nat.mul_comm] using h

def ofInt (i : Int) : Numeral := (Spelling.ofNat i.natAbs).numeral (i < 0)

theorem draft_ofInt {i : Int} (low : -0x8000000000000000 ≤ i) (high : i < 0x10000000000000000) :
    (ofInt i).draft = .integer i := by
  have hi : (ofInt i).integer? = some i := by
    simp only [integer?, ofInt, Spelling.numeral, Spelling.ofNat, Option.map_none,
      digitsValue_toDigits, UInt64.size, decide_eq_true_eq]
    split_ifs with hneg hbound hbound
    · congr 1; omega
    · omega
    · congr 1; omega
    · omega
  rw [draft, hi]

theorem integer?_decimal {s : Spelling} (h : s.fraction.isSome ∨ s.exponent.isSome)
    (negative : Bool) : (s.numeral negative).integer? = none := by
  obtain ⟨whole, _ | fraction, _ | exponent⟩ := s
  · simp at h
  all_goals rfl

theorem draft_eq_float_iff {n : Numeral} (h : n.integer? = none) {x : Float} :
    n.draft = .float x ↔ n.double = some x := by
  rw [draft, h]
  cases n.double <;> simp

theorem draft_ne_integer {n : Numeral} (h : n.integer? = none) (i : Int) :
    n.draft ≠ .integer i := by
  rw [draft, h]
  cases n.double <;> simp

end Numeral

end StackBackend.Json
