/-!
# Ascending lists

A list is put in ascending order, what is in it more than once being kept once. The main statements
say that the members stay the same and that each is less than all that follow it.
-/
namespace StackBackend

variable {α : Type} [Ord α]

def insertAscending (a : α) : List α → List α
  | [] => [a]
  | b :: rest =>
    match compare a b with
    | .lt => a :: b :: rest
    | .eq => b :: rest
    | .gt => b :: insertAscending a rest

def ascending (l : List α) : List α := l.foldr insertAscending []

def IsAscending (l : List α) : Prop := l.Pairwise fun a b => compare a b = .lt

variable [Std.LawfulEqOrd α]

theorem mem_insertAscending {a x : α} {l : List α} :
    x ∈ insertAscending a l ↔ x = a ∨ x ∈ l := by
  induction l with
  | nil => simp [insertAscending]
  | cons b rest ih =>
    simp only [insertAscending]
    split
    · simp
    · rename_i h
      cases Std.LawfulEqOrd.eq_of_compare h
      simp
    · simp only [List.mem_cons, ih]
      grind

theorem mem_ascending {x : α} {l : List α} : x ∈ ascending l ↔ x ∈ l := by
  induction l with
  | nil => rfl
  | cons a rest ih =>
    simp only [ascending, List.foldr_cons, mem_insertAscending, List.mem_cons]
    exact or_congr_right ih

variable [Std.TransOrd α]

theorem isAscending_insert {a : α} {l : List α} (h : IsAscending l) :
    IsAscending (insertAscending a l) := by
  induction l with
  | nil => simp [IsAscending, insertAscending]
  | cons b rest ih =>
    obtain ⟨hb, hr⟩ := List.pairwise_cons.1 h
    simp only [insertAscending]
    split
    · rename_i hab
      refine List.pairwise_cons.2 ⟨fun x hx => ?_, h⟩
      rcases List.mem_cons.1 hx with rfl | hx
      · exact hab
      · exact Std.TransCmp.lt_trans hab (hb x hx)
    · exact h
    · rename_i hab
      refine List.pairwise_cons.2 ⟨fun x hx => ?_, ih hr⟩
      rcases mem_insertAscending.1 hx with rfl | hx
      · exact Std.OrientedCmp.lt_of_gt hab
      · exact hb x hx

theorem isAscending_ascending (l : List α) : IsAscending (ascending l) := by
  induction l with
  | nil => exact List.Pairwise.nil
  | cons a rest ih => exact isAscending_insert ih

theorem nodup_ascending (l : List α) : (ascending l).Nodup := by
  apply (isAscending_ascending l).imp
  intro a b hlt heq
  subst heq
  simp at hlt

theorem ascending_congr {l l' : List α} (h : ∀ x, x ∈ l ↔ x ∈ l') : ascending l = ascending l' := by
  have hperm : (ascending l).Perm (ascending l') := by
    apply (List.perm_ext_iff_of_nodup (nodup_ascending l) (nodup_ascending l')).2
    intro x
    rw [mem_ascending, mem_ascending, h]
  apply hperm.eq_of_pairwise _ (isAscending_ascending l) (isAscending_ascending l')
  intro a b _ _ hlt hgt
  exact absurd hgt (Std.OrientedCmp.not_lt_of_lt hlt)

end StackBackend
