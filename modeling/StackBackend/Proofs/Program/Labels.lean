import StackBackend.Ascending
import StackBackend.Program.Instruction

/-!
# The labels of a stream and new labels
-/
namespace StackBackend

def Instruction.placed? : Instruction → Option Label
  | .label l => some l
  | _ => none

theorem Instruction.eq_label_of_placed? {i : Instruction} {l : Label} (h : i.placed? = some l) :
    i = .label l := by
  cases i <;> cases h
  rfl

theorem Instruction.mem_labels_of_target? {i : Instruction} {l : Label} (h : i.target? = some l) :
    l ∈ i.labels := by
  cases i <;> cases h <;> exact List.mem_cons_self

def placedLabels (instrs : List Instruction) : List Label := instrs.filterMap Instruction.placed?

def targetLabels (instrs : List Instruction) : List Label := instrs.filterMap Instruction.target?

def missingLabels (instrs : List Instruction) : List Label :=
  ascending ((targetLabels instrs).filter (· ∉ placedLabels instrs))

theorem mem_missingLabels {instrs : List Instruction} {l : Label} :
    l ∈ missingLabels instrs ↔ l ∈ targetLabels instrs ∧ l ∉ placedLabels instrs := by
  rw [missingLabels, mem_ascending, List.mem_filter, decide_eq_true_eq]

def labelPosition (instrs : List Instruction) (l : Label) : Option Nat :=
  instrs.findIdx? fun i => i.placed? = some l

theorem LabelSupply.lt_firstUnused {used : List Label} {l : Label} (h : l ∈ used) :
    l.id.toNat < firstUnused used := by
  induction used with
  | nil => cases h
  | cons k rest ih =>
    rw [firstUnused]
    rcases List.mem_cons.1 h with rfl | h
    · exact Nat.lt_of_lt_of_le (Nat.lt_succ_self _) (Nat.le_max_left ..)
    · exact Nat.lt_of_lt_of_le (ih h) (Nat.le_max_right ..)

theorem LabelSupply.firstUnused_append (used more : List Label) :
    firstUnused (used ++ more) = max (firstUnused used) (firstUnused more) := by
  induction used with
  | nil => exact (Nat.zero_max _).symm
  | cons l rest ih => rw [List.cons_append, firstUnused, firstUnused, ih, Nat.max_assoc]

theorem LabelSupply.firstUnused_le (used : List Label) : firstUnused used ≤ capacity := by
  induction used with
  | nil => exact Nat.zero_le _
  | cons l rest ih => exact Nat.max_le.2 ⟨l.id.toNat_lt, ih⟩

theorem LabelSupply.atomic_issue : Atomic issue := by
  intro s e t h
  rw [run_issue] at h
  split at h <;> cases h
  rfl

theorem LabelSupply.issue_fresh {s s' : LabelSupply} {l : Label} {used : List Label}
    (h : issue.run s = .ok l s') (hs : firstUnused used ≤ s.next) :
    l ∉ used ∧ firstUnused used ≤ s'.next := by
  rw [run_issue] at h
  split at h
  · cases h
  · rename_i hlt
    cases h
    refine ⟨fun hmem => ?_, Nat.le_succ_of_le hs⟩
    have hid := lt_firstUnused hmem
    rw [UInt32.toNat_ofNat_of_lt' (Nat.lt_of_not_le hlt)] at hid
    omega

end StackBackend
