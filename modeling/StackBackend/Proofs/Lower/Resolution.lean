import StackBackend.Program.Instruction
import StackBackend.Scope.Routine

/-!
# Resolving names

What lowering refers to in a routine is noted in its scope: a name that is new takes the next
number. A scope that has noted more extends one that has noted less, so that a slot or a mark once
given stays the same. As long as the limits of a method are kept, different variables have different
slots and different labels have different marks.
-/
namespace StackBackend

open Code (Slot Mark)

namespace Scope.Numbering

variable {κ : Type} [Ord κ]

def note (n : Numbering κ) (key : κ) : Numbering κ :=
  match n.get? key with
  | some _ => n
  | none => n.add key

/-- The numbers in use are below the next one, no two keys share one, and none is left out. -/
structure Dense (n : Numbering κ) : Prop where
  lt_next : ∀ {key : κ} {number : Nat}, n.get? key = some number → number < n.next
  injective : ∀ {key other : κ} {number : Nat},
    n.get? key = some number → n.get? other = some number → key = other
  size_eq : n.size = n.next

def Extends (m n : Numbering κ) : Prop :=
  ∀ {key : κ} {number : Nat}, n.get? key = some number → m.get? key = some number

variable [Std.TransOrd κ]

theorem dense_empty : (empty : Numbering κ).Dense := by
  constructor <;> simp

variable [Std.LawfulEqOrd κ]

theorem isSome_note (n : Numbering κ) (key : κ) : ((n.note key).get? key).isSome := by
  cases h : n.get? key <;> simp [note, h]

theorem extends_note (n : Numbering κ) (key : κ) : (n.note key).Extends n := by
  intro other number hother
  cases h : n.get? key with
  | some _ => simpa [note, h] using hother
  | none =>
    have hne : key ≠ other := by
      intro he
      rw [← he, h] at hother
      cases hother
    simpa [note, h, get?_add_of_ne n hne] using hother

theorem Dense.note {n : Numbering κ} (hn : n.Dense) (key : κ) : (n.note key).Dense := by
  cases h : n.get? key with
  | some _ => simpa [Numbering.note, h] using hn
  | none =>
    -- A key other than the new one has the number that it had before.
    have hget : ∀ {other : κ} {number : Nat}, (n.add key).get? other = some number →
        key = other ∧ number = n.next ∨ n.get? other = some number := by
      intro other number hother
      by_cases he : key = other
      · subst he
        exact .inl ⟨rfl, by simpa using hother.symm⟩
      · exact .inr (by simpa [get?_add_of_ne n he] using hother)
    simp only [Numbering.note, h]
    constructor
    · intro other number hother
      rw [next_add]
      rcases hget hother with ⟨-, rfl⟩ | hold
      · omega
      · have := hn.lt_next hold
        omega
    · intro a b number ha hb
      rcases hget ha with ⟨rfl, rfl⟩ | ha <;> rcases hget hb with ⟨rfl, hb⟩ | hb
      · rfl
      · exact absurd (hn.lt_next hb) (Nat.lt_irrefl _)
      · exact absurd (hn.lt_next ha) (by omega)
      · exact hn.injective ha hb
    · rw [size_add h, next_add, hn.size_eq]

end Scope.Numbering

/-- A name that is resolved in a routine. -/
inductive Reference where
  | var (v : Variable)
  | label (l : Label)
deriving DecidableEq

def Operand.references : Operand → List Reference
  | .variable v => [.var v]
  | _ => []

def Instruction.references : Instruction → List Reference
  | .label l | .jump l => [.label l]
  | .branch lhs rhs target => lhs.references ++ rhs.references ++ [.label target]
  | .copy result source => .var result :: source.references
  | .call result _ args =>
    args.flatMap Operand.references ++ (result.map Reference.var).toList
  | .getField result receiver _ => receiver.references ++ [.var result]
  | .putField receiver _ value => receiver.references ++ value.references
  | .receiveArg result _ => [.var result]
  | .ret value => value.references
  | _ => []

namespace RoutineScope

/-- Takes note of a name, whatever the limits are. -/
def note (r : RoutineScope) : Reference → RoutineScope
  | .var v => { r with vars := r.vars.note v }
  | .label l => { r with labels := r.labels.note l }

def noteAll (r : RoutineScope) (refs : List Reference) : RoutineScope := refs.foldl note r

def slotOf (r : RoutineScope) (v : Variable) : Slot := r.slotAt ((r.vars.get? v).getD 0)

def markOf (r : RoutineScope) (l : Label) : Mark := ⟨.ofNat ((r.labels.get? l).getD 0)⟩

def Knows (r : RoutineScope) : Reference → Prop
  | .var v => (r.vars.get? v).isSome
  | .label l => (r.labels.get? l).isSome

structure Extends (s r : RoutineScope) : Prop where
  firstSlot : s.firstSlot = r.firstSlot
  vars : s.vars.Extends r.vars
  labels : s.labels.Extends r.labels

/-- The slots and marks are numbered one by one and fit into a method. -/
structure Fits (r : RoutineScope) : Prop where
  vars : r.vars.Dense
  labels : r.labels.Dense
  maxLocals_le : r.maxLocals ≤ slotLimit
  labels_le : r.labels.next ≤ markLimit

theorem Extends.refl (r : RoutineScope) : r.Extends r := ⟨rfl, id, id⟩

theorem Extends.trans {r s t : RoutineScope} (hts : t.Extends s) (hsr : s.Extends r) :
    t.Extends r :=
  ⟨hts.firstSlot.trans hsr.firstSlot, fun h => hts.vars (hsr.vars h),
    fun h => hts.labels (hsr.labels h)⟩

theorem name_note (r : RoutineScope) (ref : Reference) : (r.note ref).name = r.name := by
  cases ref <;> rfl

theorem extends_note (r : RoutineScope) (ref : Reference) : (r.note ref).Extends r := by
  cases ref with
  | var v => exact ⟨rfl, r.vars.extends_note v, id⟩
  | label l => exact ⟨rfl, id, r.labels.extends_note l⟩

theorem extends_noteAll (r : RoutineScope) (refs : List Reference) :
    (r.noteAll refs).Extends r := by
  induction refs generalizing r with
  | nil => exact .refl r
  | cons ref refs ih => exact (ih (r.note ref)).trans (r.extends_note ref)

theorem noteAll_append (r : RoutineScope) (refs more : List Reference) :
    r.noteAll (refs ++ more) = (r.noteAll refs).noteAll more :=
  List.foldl_append

theorem Extends.of_append {s r : RoutineScope} {refs : List Reference} (more : List Reference)
    (h : s.Extends (r.noteAll (refs ++ more))) : s.Extends (r.noteAll refs) := by
  rw [noteAll_append] at h
  exact h.trans (extends_noteAll _ more)

theorem Extends.knows {s r : RoutineScope} (h : s.Extends r) {ref : Reference}
    (hr : r.Knows ref) : s.Knows ref := by
  cases ref with
  | var v =>
    obtain ⟨number, hv⟩ := Option.isSome_iff_exists.1 hr
    exact Option.isSome_iff_exists.2 ⟨number, h.vars hv⟩
  | label l =>
    obtain ⟨number, hl⟩ := Option.isSome_iff_exists.1 hr
    exact Option.isSome_iff_exists.2 ⟨number, h.labels hl⟩

theorem knows_note (r : RoutineScope) (ref : Reference) : (r.note ref).Knows ref := by
  cases ref with
  | var v => exact r.vars.isSome_note v
  | label l => exact r.labels.isSome_note l

theorem knows_noteAll (r : RoutineScope) {refs : List Reference} {ref : Reference}
    (h : ref ∈ refs) : (r.noteAll refs).Knows ref := by
  obtain ⟨before, after, rfl⟩ := List.append_of_mem h
  rw [noteAll_append]
  exact (extends_noteAll _ after).knows ((r.noteAll before).knows_note ref)

theorem Extends.slotOf_eq {s r : RoutineScope} (h : s.Extends r) {v : Variable}
    (hv : r.Knows (.var v)) : s.slotOf v = r.slotOf v := by
  obtain ⟨number, hv⟩ := Option.isSome_iff_exists.1 hv
  simp [slotOf, slotAt, hv, h.vars hv, h.firstSlot]

theorem Extends.markOf_eq {s r : RoutineScope} (h : s.Extends r) {l : Label}
    (hl : r.Knows (.label l)) : s.markOf l = r.markOf l := by
  obtain ⟨number, hl⟩ := Option.isSome_iff_exists.1 hl
  simp [markOf, hl, h.labels hl]

theorem fits_new (name : String) (firstSlot : UInt16) : (new name firstSlot).Fits where
  vars := Scope.Numbering.dense_empty
  labels := Scope.Numbering.dense_empty
  maxLocals_le := by
    have := firstSlot.toNat_lt
    simp only [new, maxLocals, Scope.Numbering.next_empty, slotLimit, UInt16.size]
    omega
  labels_le := by simp [new]

theorem slotFor_ok {r s : RoutineScope} {v : Variable} {slot : Slot}
    (h : (slotFor v).run r = .ok slot s) :
    s = r.note (.var v) ∧ slot = s.slotOf v ∧ (r.Fits → s.Fits) := by
  rw [run_slotFor] at h
  split at h
  · rename_i number hv
    cases h
    exact ⟨by simp [note, Scope.Numbering.note, hv], by simp [slotOf, hv], id⟩
  · rename_i hv
    split at h
    · cases h
    · rename_i hlimit
      cases h
      have hnote : r.vars.note v = r.vars.add v := by simp [Scope.Numbering.note, hv]
      refine ⟨by simp [note, hnote], by simp [slotOf, slotAt], fun hr => ?_⟩
      refine ⟨hnote ▸ hr.vars.note v, hr.labels, ?_, hr.labels_le⟩
      simp only [maxLocals, Scope.Numbering.next_add] at hlimit ⊢
      omega

theorem markFor_ok {r s : RoutineScope} {l : Label} {mark : Mark}
    (h : (markFor l).run r = .ok mark s) :
    s = r.note (.label l) ∧ mark = s.markOf l ∧ (r.Fits → s.Fits) := by
  rw [run_markFor] at h
  split at h
  · rename_i number hl
    cases h
    exact ⟨by simp [note, Scope.Numbering.note, hl], by simp [markOf, hl], id⟩
  · rename_i hl
    split at h
    · cases h
    · rename_i hlimit
      cases h
      have hnote : r.labels.note l = r.labels.add l := by simp [Scope.Numbering.note, hl]
      refine ⟨by simp [note, hnote], by simp [markOf], fun hr => ?_⟩
      refine ⟨hr.vars, hnote ▸ hr.labels.note l, hr.maxLocals_le, ?_⟩
      simp only [Scope.Numbering.next_add]
      omega

theorem Fits.toNat_slotOf {r : RoutineScope} (hr : r.Fits) {v : Variable} {number : Nat}
    (hv : r.vars.get? v = some number) :
    (r.slotOf v).index.toNat = r.firstSlot.toNat + number := by
  have hlt := hr.vars.lt_next hv
  have hlimit := hr.maxLocals_le
  simp only [maxLocals, slotLimit, UInt16.size] at hlimit
  simp only [slotOf, slotAt, hv, Option.getD_some, UInt16.toNat_ofNat']
  exact Nat.mod_eq_of_lt (by omega)

theorem Fits.toNat_markOf {r : RoutineScope} (hr : r.Fits) {l : Label} {number : Nat}
    (hl : r.labels.get? l = some number) : (r.markOf l).id.toNat = number := by
  have hlt := hr.labels.lt_next hl
  have hlimit := hr.labels_le
  simp only [markLimit, UInt32.size] at hlimit
  simp only [markOf, hl, Option.getD_some, UInt32.toNat_ofNat']
  exact Nat.mod_eq_of_lt (by omega)

theorem Fits.slotOf_injective {r : RoutineScope} (hr : r.Fits) {v w : Variable}
    (hv : r.Knows (.var v)) (hw : r.Knows (.var w)) (h : r.slotOf v = r.slotOf w) :
    v = w := by
  obtain ⟨i, hv⟩ := Option.isSome_iff_exists.1 hv
  obtain ⟨j, hw⟩ := Option.isSome_iff_exists.1 hw
  have hnat := congrArg (fun s : Slot => s.index.toNat) h
  simp only [hr.toNat_slotOf hv, hr.toNat_slotOf hw] at hnat
  exact hr.vars.injective hv ((show j = i by omega) ▸ hw)

theorem Fits.markOf_injective {r : RoutineScope} (hr : r.Fits) {l k : Label}
    (hl : r.Knows (.label l)) (hk : r.Knows (.label k)) (h : r.markOf l = r.markOf k) :
    l = k := by
  obtain ⟨i, hl⟩ := Option.isSome_iff_exists.1 hl
  obtain ⟨j, hk⟩ := Option.isSome_iff_exists.1 hk
  have hnat := congrArg (fun m : Mark => m.id.toNat) h
  simp only [hr.toNat_markOf hl, hr.toNat_markOf hk] at hnat
  exact hr.labels.injective hl (hnat ▸ hk)

end RoutineScope

end StackBackend
