import StackBackend.Proofs.Json.Numerals
import Mathlib.Data.List.DropRight

/-!
# Doubles as they are written

The text of a double in the interchange format is always one that can be read: its shortest digits
are those of a positive number, so none of its layouts begins with a needless zero, and each of them
has a fraction or an exponent, so it is never taken for an integer.
-/
namespace StackBackend

namespace Decimal

theorem Interval.contains_nearest {tie : Tie} {i : Interval} {n : Nat}
    (h : i.nearest tie = some n) : i.contains n := by
  unfold Interval.nearest at h
  split at h <;> grind

theorem Binary.low_pos {b : Binary} (h : 0 < b.mantissa) (grid : Int) :
    0 < (b.interval grid).low := by
  have hscale : 0 < Nat.pow 2 (b.exponent - 2).toNat * Nat.pow 10 (-grid).toNat :=
    Nat.mul_pos (Nat.pow_pos (by omega)) (Nat.pow_pos (by omega))
  have hlow : 0 < 4 * b.mantissa - (if b.lowest then 1 else 2) := by split <;> omega
  exact Nat.mul_pos hlow hscale

theorem Interval.pos_of_contains {i : Interval} (h : 0 < i.low) {n : Nat} (hn : i.contains n) :
    0 < n := by
  refine Nat.pos_of_ne_zero fun hzero => ?_
  subst hzero
  simp only [Interval.contains, Nat.zero_mul] at hn
  split at hn <;> simp_all

theorem Binary.search_pos {b : Binary} (h : 0 < b.mantissa) (tie : Tie) (magnitude : Int)
    (count more : Nat) : 0 < (b.search tie magnitude count more).digits := by
  induction more generalizing count with
  | zero => exact h
  | succ more ih =>
    rw [Binary.search]
    split
    · next hdigits =>
      exact Interval.pos_of_contains (Binary.low_pos h _) (Interval.contains_nearest hdigits)
    · exact ih _

open Json Json.Numeral

/-- The text of a number with a fraction or an exponent. -/
def IsDecimal (cs : List Char) : Prop :=
  ∃ s : Spelling, s.Valid ∧ (s.fraction.isSome ∨ s.exponent.isSome) ∧ cs = s.text

theorem isDigit_replicate {k : Nat} : ∀ c ∈ List.replicate k '0', c.isDigit := by
  intro c hc
  rw [List.eq_of_mem_replicate hc]
  decide

theorem significant_digits {ds : List Char} (hd : Digits ds) (hz : ds.head? ≠ some '0') :
    Digits (significant ds) ∧ (significant ds).head? ≠ some '0' := by
  obtain ⟨zeros, hsplit⟩ : significant ds <+: ds := List.rdropWhile_prefix _ _
  have hne : significant ds ≠ [] := by
    intro hnil
    have hall := List.rdropWhile_eq_nil_iff.1 hnil
    cases ds with
    | nil => exact hd.nonempty rfl
    | cons c ds => exact hz (congrArg some (of_decide_eq_true (hall c (.head _))))
  refine ⟨⟨hne, fun c hc => hd.all c (hsplit ▸ List.mem_append_left _ hc)⟩, ?_⟩
  rwa [← hsplit, List.head?_append_of_ne_nil _ hne] at hz

theorem digits_zero : Digits ['0'] := ⟨nofun, List.forall_mem_singleton.2 rfl⟩

theorem isDecimal_point {whole fraction : List Char} (hw : Digits whole)
    (hz : whole = ['0'] ∨ whole.head? ≠ some '0') (hf : Digits fraction) :
    IsDecimal (whole ++ '.' :: fraction) := by
  refine ⟨⟨whole, some fraction, none⟩, ⟨hw, hz, ?_, nofun⟩, .inl rfl, ?_⟩
  · rintro _ ⟨⟩
    exact hf
  · simp [Spelling.text, Spelling.fractionText, Spelling.exponentText]

theorem interchanged_exponent (lead : Int) :
    interchanged.exponent lead =
      Spelling.exponentText (some (decide (lead < 0), Nat.toDigits 10 lead.natAbs)) := by
  by_cases h : lead < 0 <;> simp [Layout.exponent, Spelling.exponentText, interchanged, h]

theorem isDecimal_exponent {whole : List Char} (hw : Digits whole) (hz : whole.head? ≠ some '0')
    (fraction : Option (List Char)) (hf : ∀ ds ∈ fraction, Digits ds) (lead : Int) :
    IsDecimal (whole ++ (Spelling.fractionText fraction ++ interchanged.exponent lead)) := by
  rw [interchanged_exponent]
  refine ⟨⟨whole, fraction, some _⟩, ⟨hw, .inr hz, hf, ?_⟩, .inr rfl, rfl⟩
  rintro _ ⟨⟩
  exact digits_toDigits _

variable {ds : List Char}

theorem isDecimal_plain (hd : Digits ds) (hz : ds.head? ≠ some '0') (lead : Int) :
    IsDecimal (plain ds lead) := by
  unfold plain
  split
  · change IsDecimal (['0'] ++ '.' :: (List.replicate (-lead - 1).toNat '0' ++ ds))
    refine isDecimal_point digits_zero (.inl rfl) ⟨?_, ?_⟩
    · simp [hd.nonempty]
    · exact List.forall_mem_append.2 ⟨isDigit_replicate, hd.all⟩
  · have htake : ds.take (lead.toNat + 1) ≠ [] := by simp [hd.nonempty]
    refine isDecimal_point ⟨?_, ?_⟩ (.inr ?_) ?_
    · exact List.append_ne_nil_of_left_ne_nil htake _
    · exact List.forall_mem_append.2
        ⟨fun c hc => hd.all c (List.mem_of_mem_take hc), isDigit_replicate⟩
    · rwa [List.head?_append_of_ne_nil _ htake, List.head?_take, if_neg (by omega)]
    · split
      · exact digits_zero
      · next hrest =>
        exact ⟨by simpa using hrest, fun c hc => hd.all c (List.mem_of_mem_drop hc)⟩

theorem isDecimal_magnitude {x : Scientific} (h : 0 < x.digits) :
    IsDecimal (interchanged.magnitude x) := by
  obtain ⟨hd, hz⟩ := significant_digits (digits_toDigits x.digits) (head_toDigits h)
  unfold Layout.magnitude
  dsimp only
  split
  · exact isDecimal_plain hd hz _
  · generalize significant (Nat.toDigits 10 x.digits) = ds at hd hz
    split
    · next first second rest =>
      have hwhole : Digits [first] := ⟨nofun, fun c hc => hd.all c (by simp_all)⟩
      have hfraction : Digits (second :: rest) := ⟨nofun, fun c hc => hd.all c (.tail _ hc)⟩
      exact isDecimal_exponent hwhole hz (some (second :: rest)) (by rintro _ ⟨⟩; exact hfraction) _
    · exact isDecimal_exponent hd hz none nofun _

theorem text_decimal (x : Float) :
    ∃ (negative : Bool) (cs : List Char), IsDecimal cs ∧
      interchanged.text x = (if negative then ['-'] else []) ++ cs := by
  have hzero : IsDecimal (['0'] ++ '.' :: ['0']) :=
    isDecimal_point digits_zero (.inl rfl) digits_zero
  have hmagnitude : ∀ b : Binary, IsDecimal (if b.mantissa = 0 then ['0', '.', '0']
      else interchanged.magnitude (b.shortest interchanged.tie)) := by
    intro b
    split
    · exact hzero
    · next h => exact isDecimal_magnitude (Binary.search_pos (Nat.pos_of_ne_zero h) _ _ _ _)
  by_cases hsign : x.toBits.toNat < 0x8000000000000000
  · exact ⟨false, _, hmagnitude _, by simp only [Layout.text, hsign]; rfl⟩
  · exact ⟨true, _, hmagnitude _, by simp only [Layout.text, hsign]; rfl⟩

end Decimal

end StackBackend
