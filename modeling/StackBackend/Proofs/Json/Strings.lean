import StackBackend.Json.StringLiteral
import StackBackend.Json.Value
import Mathlib.Tactic.IntervalCases

/-!
# Strings read back

Every character is written as one piece of a string, and the pieces join to the characters again:
the units of sixteen bits that control characters are written as are never surrogates.
-/
namespace StackBackend.Json.StringLiteral

theorem hexDigit?_digitChar {d : Nat} (h : d < 16) : hexDigit? (Nat.digitChar d) = some d := by
  interval_cases d <;> rfl

theorem unit?_control {n : Nat} (h : n < 0x20) :
    unit? '0' '0' (Nat.digitChar (n / 16)) (Nat.digitChar (n % 16)) = some n := by
  have hzero : hexDigit? '0' = some 0 := rfl
  have hhigh := hexDigit?_digitChar (d := n / 16) (by omega)
  have hlow := hexDigit?_digitChar (d := n % 16) (by omega)
  simp only [unit?, hzero, hhigh, hlow, bind, Option.bind, pure]
  congr 1
  omega

inductive Stands (c : Char) : Piece → Prop
  | char : Stands c (.char c)
  | unit (h : c.toNat < 0x20) : Stands c (.unit c.toNat)

theorem join_stands {c : Char} {p : Piece} (h : Stands c p) (finish : Finish) (rest : List Piece) :
    join finish (p :: rest) = (join finish rest).map (c :: ·) := by
  cases h with
  | char => rfl
  | unit h =>
    have htrailing : isTrailing c.toNat = false := by simp [isTrailing]; omega
    have hleading : isLeading c.toNat = false := by simp [isLeading]; omega
    rw [join.eq_def]
    simp only [htrailing, hleading, Bool.false_eq_true, if_false, Char.ofNat_toNat]

theorem pieces_escaped (c : Char) (cs : List Char) :
    ∃ p, Stands c p ∧ pieces (escaped c ++ cs) = prepend p (pieces cs) := by
  unfold escaped
  split
  case h_8 hquote hbackslash _ _ _ _ _ =>
    split
    · next h =>
      refine ⟨_, .unit h, ?_⟩
      simp only [controlEscape, List.cons_append, List.nil_append, pieces, unit?_control h]
    · next h =>
      refine ⟨_, .char, ?_⟩
      rw [List.singleton_append, pieces.eq_def]
      split <;> simp_all
  all_goals exact ⟨_, .char, rfl⟩

theorem pieces_written (s : List Char) (rest : List Char) :
    ∃ ps, pieces (s.flatMap escaped ++ '"' :: rest) = (ps, .ok rest) ∧
      ∀ finish, join finish ps = .ok s := by
  induction s with
  | nil => exact ⟨[], rfl, fun _ => rfl⟩
  | cons c s ih =>
    obtain ⟨ps, hpieces, hjoin⟩ := ih
    obtain ⟨p, hp, hc⟩ := pieces_escaped c (s.flatMap escaped ++ '"' :: rest)
    refine ⟨p :: ps, ?_, fun finish => ?_⟩
    · rw [List.flatMap_cons, List.append_assoc, hc, hpieces]
      rfl
    · rw [join_stands hp, hjoin]
      rfl

theorem read_written (s : String) (rest : List Char) :
    read (s.toList.flatMap escaped ++ '"' :: rest) = (.ok s, .ok rest) := by
  obtain ⟨ps, hpieces, hjoin⟩ := pieces_written s.toList rest
  simp only [read, hpieces, hjoin, String.ofList_toList]

end StackBackend.Json.StringLiteral
