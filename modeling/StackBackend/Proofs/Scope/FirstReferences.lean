import Mathlib
import StackBackend.Proofs.Lower.Resolution

/-!
# Numbers by first reference

What a numbering has come to is told from the keys that were noted: the distinct ones among them, in
the order in which each was noted first, have the numbers from 0 on. So the variables of a routine
have its slots one after the other from the first slot on, and its labels have the marks from 0 on.
There are as many labels as marks, hence only variables can run out of room.
-/
namespace StackBackend

open Code (Slot Mark)

theorem eraseDups_concat {α : Type} [DecidableEq α] (l : List α) (a : α) :
    (l ++ [a]).eraseDups = if a ∈ l then l.eraseDups else l.eraseDups ++ [a] := by
  rw [List.eraseDups_append]
  by_cases h : a ∈ l <;> simp [List.removeAll, h, List.eraseDups_cons]

theorem nodup_eraseDups {α : Type} [DecidableEq α] (l : List α) : l.eraseDups.Nodup := by
  induction l using List.reverseRecOn with
  | nil => simp
  | append_singleton l a ih =>
    rw [eraseDups_concat]
    split
    · exact ih
    · rename_i h
      apply List.Nodup.append ih (List.nodup_singleton a)
      simpa [List.mem_eraseDups] using h

theorem length_eraseDups {α : Type} [DecidableEq α] (l : List α) :
    l.eraseDups.length = l.toFinset.card := by
  rw [← List.toFinset_card_of_nodup (nodup_eraseDups l)]
  congr 1
  ext a
  simp [List.mem_eraseDups]

namespace Scope.Numbering

variable {κ : Type} [Ord κ]

def noteAll (n : Numbering κ) (keys : List κ) : Numbering κ := keys.foldl note n

/-- The keys in the list are numbered by their positions, and no others are numbered. -/
structure Lists (n : Numbering κ) (keys : List κ) : Prop where
  nodup : keys.Nodup
  size_eq : n.size = keys.length
  next_eq : n.next = keys.length
  get?_iff : ∀ key number, n.get? key = some number ↔ keys[number]? = some key

variable {n : Numbering κ} {keys : List κ}

theorem Lists.dense (h : n.Lists keys) : n.Dense where
  lt_next hkey := by
    rw [h.next_eq]
    exact (List.getElem?_eq_some_iff.1 ((h.get?_iff _ _).1 hkey)).1
  injective hkey hother := by
    have hkey := (h.get?_iff _ _).1 hkey
    rw [(h.get?_iff _ _).1 hother] at hkey
    exact (Option.some.inj hkey).symm
  size_eq := h.size_eq.trans h.next_eq.symm

theorem Lists.isSome_iff (h : n.Lists keys) (key : κ) : (n.get? key).isSome ↔ key ∈ keys := by
  rw [Option.isSome_iff_exists, List.mem_iff_getElem?]
  exact exists_congr fun number => h.get?_iff key number

variable [Std.TransOrd κ]

theorem lists_empty : (empty : Numbering κ).Lists [] where
  nodup := List.nodup_nil
  size_eq := by simp
  next_eq := by simp
  get?_iff := by simp

variable [Std.LawfulEqOrd κ] [DecidableEq κ]

theorem Lists.note (h : n.Lists keys) (key : κ) :
    (n.note key).Lists (if key ∈ keys then keys else keys ++ [key]) := by
  by_cases hkey : key ∈ keys
  · rw [if_pos hkey]
    obtain ⟨number, hnumber⟩ := Option.isSome_iff_exists.1 ((h.isSome_iff key).2 hkey)
    simpa [Numbering.note, hnumber] using h
  · rw [if_neg hkey]
    have hnone : n.get? key = none := by
      rw [← Option.not_isSome_iff_eq_none, h.isSome_iff]
      exact hkey
    simp only [Numbering.note, hnone]
    refine ⟨h.nodup.append (List.nodup_singleton key) (by simpa using hkey), ?_, ?_,
      fun other m => ?_⟩
    · rw [size_add hnone, h.size_eq, List.length_append, List.length_singleton]
    · rw [next_add, h.next_eq, List.length_append, List.length_singleton]
    by_cases hother : key = other
    · -- The new key stands behind the others, and nowhere else.
      subst hother
      rw [get?_add_self, h.next_eq]
      constructor
      · rintro ⟨⟩
        simp
      · intro hm
        obtain ⟨hlt, -⟩ := List.getElem?_eq_some_iff.1 hm
        rw [List.length_append, List.length_singleton] at hlt
        by_cases hlast : m = keys.length
        · rw [hlast]
        · rw [List.getElem?_append_left (by omega)] at hm
          exact absurd (List.mem_of_getElem? hm) hkey
    · rw [get?_add_of_ne n hother, h.get?_iff]
      by_cases hm : m < keys.length
      · rw [List.getElem?_append_left hm]
      · rw [List.getElem?_eq_none (by omega), List.getElem?_append_right (by omega)]
        cases m - keys.length <;> simp [hother]

theorem lists_noteAll (keys : List κ) :
    ((empty : Numbering κ).noteAll keys).Lists keys.eraseDups := by
  induction keys using List.reverseRecOn with
  | nil => exact lists_empty
  | append_singleton keys key ih =>
    rw [noteAll, List.foldl_append, eraseDups_concat]
    have hnote := ih.note key
    simp only [List.mem_eraseDups] at hnote
    exact hnote

end Scope.Numbering

def Reference.var? : Reference → Option Variable
  | .var v => some v
  | .label _ => none

def Reference.label? : Reference → Option Label
  | .var _ => none
  | .label l => some l

def variablesOf (refs : List Reference) : List Variable :=
  (refs.filterMap Reference.var?).eraseDups

def labelsOf (refs : List Reference) : List Label := (refs.filterMap Reference.label?).eraseDups

theorem mem_variablesOf {refs : List Reference} {v : Variable} :
    v ∈ variablesOf refs ↔ .var v ∈ refs := by
  rw [variablesOf, List.mem_eraseDups, List.mem_filterMap]
  constructor
  · rintro ⟨_ | _, href, ⟨⟩⟩
    exact href
  · exact fun href => ⟨_, href, rfl⟩

theorem mem_labelsOf {refs : List Reference} {l : Label} :
    l ∈ labelsOf refs ↔ .label l ∈ refs := by
  rw [labelsOf, List.mem_eraseDups, List.mem_filterMap]
  constructor
  · rintro ⟨_ | _, href, ⟨⟩⟩
    exact href
  · exact fun href => ⟨_, href, rfl⟩

theorem length_le_markLimit {labels : List Label} (h : labels.Nodup) :
    labels.length ≤ RoutineScope.markLimit := by
  have hids : (labels.map fun l => l.id.toNat).Nodup := by
    apply h.map
    intro l k heq
    cases l
    cases k
    exact congrArg Label.mk (UInt32.toNat_inj.1 heq)
  have hwithin : (labels.map fun l => l.id.toNat) ⊆ List.range RoutineScope.markLimit := by
    intro id hid
    obtain ⟨l, -, rfl⟩ := List.mem_map.1 hid
    exact List.mem_range.2 l.id.toNat_lt
  have hle := (List.subperm_of_subset hids hwithin).length_le
  rwa [List.length_map, List.length_range] at hle

namespace RoutineScope

open Scope.Numbering (lists_noteAll)

theorem noteAll_eq (r : RoutineScope) (refs : List Reference) :
    r.noteAll refs =
      { r with
        vars := r.vars.noteAll (refs.filterMap Reference.var?)
        labels := r.labels.noteAll (refs.filterMap Reference.label?) } := by
  induction refs generalizing r with
  | nil => rfl
  | cons ref rest ih =>
    rw [noteAll, List.foldl_cons, ← noteAll, ih]
    cases ref <;> rfl

variable (name : String) (firstSlot : UInt16) (refs : List Reference)

theorem lists_vars : ((new name firstSlot).noteAll refs).vars.Lists (variablesOf refs) := by
  rw [noteAll_eq]
  exact lists_noteAll _

theorem lists_labels : ((new name firstSlot).noteAll refs).labels.Lists (labelsOf refs) := by
  rw [noteAll_eq]
  exact lists_noteAll _

theorem maxLocals_noteAll :
    ((new name firstSlot).noteAll refs).maxLocals =
      firstSlot.toNat + (variablesOf refs).length := by
  have hnext := (lists_vars name firstSlot refs).next_eq
  rw [maxLocals, hnext, noteAll_eq]
  rfl

theorem fits_noteAll :
    ((new name firstSlot).noteAll refs).Fits ↔
      firstSlot.toNat + (variablesOf refs).length ≤ slotLimit := by
  have hlabels := lists_labels name firstSlot refs
  rw [← maxLocals_noteAll name]
  refine ⟨Fits.maxLocals_le, fun hle => ?_⟩
  refine ⟨(lists_vars name firstSlot refs).dense, hlabels.dense, hle, ?_⟩
  rw [hlabels.next_eq]
  exact length_le_markLimit hlabels.nodup

theorem knows_noteAll_iff (ref : Reference) :
    ((new name firstSlot).noteAll refs).Knows ref ↔ ref ∈ refs := by
  cases ref with
  | var v => exact ((lists_vars name firstSlot refs).isSome_iff v).trans mem_variablesOf
  | label l => exact ((lists_labels name firstSlot refs).isSome_iff l).trans mem_labelsOf

end RoutineScope

end StackBackend
