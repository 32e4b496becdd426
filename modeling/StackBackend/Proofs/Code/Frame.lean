import Mathlib.Data.List.Basic
import StackBackend.Code.Verify

/-!
# The operations of one method

What the verifier learns of a method depends on the operations directly in it alone, one after the
other: how deep the operand stack is, which marks are placed and which are led to. The method is in
order when no operation takes more values than there are, no mark is placed twice and every mark
that is led to is placed. The declaration of a field does nothing to the method in which it stands.
-/
namespace StackBackend.Code

namespace Op

def placed? : Op → Option Mark
  | .mark m => some m
  | _ => none

def isDeclaration : Op → Bool
  | .declareField _ => true
  | _ => false

/-- Operations that only a method can hold. -/
def isPlain : Op → Bool
  | .beginClass .. | .endClass | .declareField _ | .beginMethod .. | .endMethod => false
  | _ => true

/-- The depth after an operation. Where it takes more values than there are, it leaves none. -/
def depthFrom (depth : Nat) (op : Op) : Nat := depth - op.stackEffect.1 + op.stackEffect.2

theorem isDeclaration_of_isPlain {op : Op} (h : op.isPlain) : op.isDeclaration = false := by
  cases op <;> first | rfl | cases h

end Op

def placedMarks (ops : List Op) : List Mark := ops.filterMap Op.placed?

def targetMarks (ops : List Op) : List Mark := ops.filterMap Op.target?

def depthAfter (depth : Nat) (ops : List Op) : Nat := ops.foldl Op.depthFrom depth

/-- Every operation finds the values that it takes. -/
def Covers (depth : Nat) : List Op → Prop
  | [] => True
  | op :: rest => op.stackEffect.1 ≤ depth ∧ Covers (op.depthFrom depth) rest

def withoutDeclarations (ops : List Op) : List Op := ops.filter fun op => !op.isDeclaration

theorem depthAfter_append (depth : Nat) (ops more : List Op) :
    depthAfter depth (ops ++ more) = depthAfter (depthAfter depth ops) more :=
  List.foldl_append

theorem covers_append {depth : Nat} {ops more : List Op} :
    Covers depth (ops ++ more) ↔ Covers depth ops ∧ Covers (depthAfter depth ops) more := by
  induction ops generalizing depth with
  | nil => simp [Covers, depthAfter]
  | cons op rest ih =>
    rw [List.cons_append, Covers, Covers, ih, and_assoc]
    rfl

theorem placedMarks_append (ops more : List Op) :
    placedMarks (ops ++ more) = placedMarks ops ++ placedMarks more :=
  List.filterMap_append ..

theorem targetMarks_append (ops more : List Op) :
    targetMarks (ops ++ more) = targetMarks ops ++ targetMarks more :=
  List.filterMap_append ..

theorem withoutDeclarations_append (ops more : List Op) :
    withoutDeclarations (ops ++ more) = withoutDeclarations ops ++ withoutDeclarations more :=
  List.filter_append ..

theorem withoutDeclarations_cons {op : Op} (hop : op.isDeclaration = false) (ops : List Op) :
    withoutDeclarations (op :: ops) = op :: withoutDeclarations ops := by
  simp [withoutDeclarations, hop]

theorem withoutDeclarations_induction {P : List Op → List Op → Prop} (ops : List Op)
    (nil : P [] [])
    (declare : ∀ name rest, P rest (withoutDeclarations rest) →
      P (.declareField name :: rest) (withoutDeclarations rest))
    (other : ∀ op rest, op.isDeclaration = false → P rest (withoutDeclarations rest) →
      P (op :: rest) (op :: withoutDeclarations rest)) :
    P ops (withoutDeclarations ops) := by
  induction ops with
  | nil => exact nil
  | cons op rest ih =>
    cases hop : op.isDeclaration with
    | true =>
      cases op with
      | declareField name => exact declare name rest ih
      | _ => cases hop
    | false =>
      rw [withoutDeclarations_cons hop]
      exact other op rest hop ih

theorem placedMarks_withoutDeclarations (ops : List Op) :
    placedMarks (withoutDeclarations ops) = placedMarks ops := by
  refine withoutDeclarations_induction
    (P := fun all kept => placedMarks kept = placedMarks all) ops rfl
    (fun _ _ ih => ih) fun op rest _ ih => ?_
  simp only [placedMarks] at ih
  simp only [placedMarks, List.filterMap_cons, ih]

theorem targetMarks_withoutDeclarations (ops : List Op) :
    targetMarks (withoutDeclarations ops) = targetMarks ops := by
  refine withoutDeclarations_induction
    (P := fun all kept => targetMarks kept = targetMarks all) ops rfl
    (fun _ _ ih => ih) fun op rest _ ih => ?_
  simp only [targetMarks] at ih
  simp only [targetMarks, List.filterMap_cons, ih]

theorem depthAfter_withoutDeclarations (depth : Nat) (ops : List Op) :
    depthAfter depth (withoutDeclarations ops) = depthAfter depth ops :=
  withoutDeclarations_induction
    (P := fun all kept => ∀ depth, depthAfter depth kept = depthAfter depth all) ops
    (fun _ => rfl) (fun _ _ ih => ih) (fun op _ _ ih depth => ih (op.depthFrom depth)) depth

theorem covers_withoutDeclarations {depth : Nat} {ops : List Op} :
    Covers depth (withoutDeclarations ops) ↔ Covers depth ops :=
  withoutDeclarations_induction
    (P := fun all kept => ∀ depth, Covers depth kept ↔ Covers depth all) ops
    (fun _ => Iff.rfl)
    (fun _ _ ih depth => (ih depth).trans (by simp [Covers, Op.stackEffect, Op.depthFrom]))
    (fun op _ _ ih depth => and_congr_right' (ih (op.depthFrom depth))) depth

namespace MethodFrame

def next (f : MethodFrame) (op : Op) : MethodFrame where
  name := f.name
  depth := op.depthFrom f.depth
  placed := match op with
    | .mark m => if m ∈ f.placed then f.placed else m :: f.placed
    | _ => f.placed
  targets := op.target?.toList ++ f.targets

def Accepts (f : MethodFrame) (op : Op) : Prop :=
  op.stackEffect.1 ≤ f.depth ∧ ∀ m ∈ op.placed?, m ∉ f.placed

def after (f : MethodFrame) (ops : List Op) : MethodFrame := ops.foldl next f

def AcceptsAll (f : MethodFrame) : List Op → Prop
  | [] => True
  | op :: rest => f.Accepts op ∧ (f.next op).AcceptsAll rest

variable {f : MethodFrame} {op : Op} {ops : List Op} {m : Mark}

theorem after_append (f : MethodFrame) (ops more : List Op) :
    f.after (ops ++ more) = (f.after ops).after more :=
  List.foldl_append

theorem acceptsAll_append {more : List Op} :
    f.AcceptsAll (ops ++ more) ↔ f.AcceptsAll ops ∧ (f.after ops).AcceptsAll more := by
  induction ops generalizing f with
  | nil => simp [AcceptsAll, after]
  | cons op rest ih =>
    rw [List.cons_append, AcceptsAll, AcceptsAll, ih, and_assoc]
    rfl

theorem mem_placed_next : m ∈ (f.next op).placed ↔ m ∈ op.placed? ∨ m ∈ f.placed := by
  cases op with
  | mark n =>
    simp only [next, Op.placed?]
    split
    · rename_i hn
      constructor
      · exact .inr
      · rintro (heq | hm)
        · cases heq
          exact hn
        · exact hm
    · simp [eq_comm]
  | _ => simp [next, Op.placed?]

theorem mem_placed_after : m ∈ (f.after ops).placed ↔ m ∈ placedMarks ops ∨ m ∈ f.placed := by
  induction ops generalizing f with
  | nil => simp [after, placedMarks]
  | cons op rest ih =>
    rw [after, List.foldl_cons, ← after, ih, mem_placed_next, placedMarks, placedMarks,
      List.filterMap_cons]
    cases op.placed? <;> simp [or_left_comm, or_assoc, eq_comm]

theorem mem_targets_after : m ∈ (f.after ops).targets ↔ m ∈ targetMarks ops ∨ m ∈ f.targets := by
  induction ops generalizing f with
  | nil => simp [after, targetMarks]
  | cons op rest ih =>
    rw [after, List.foldl_cons, ← after, ih, targetMarks, targetMarks, List.filterMap_cons]
    cases h : op.target? <;> simp [next, h, or_left_comm, or_assoc]

theorem depth_after (f : MethodFrame) (ops : List Op) :
    (f.after ops).depth = depthAfter f.depth ops := by
  induction ops generalizing f with
  | nil => rfl
  | cons op rest ih => exact ih (f.next op)

theorem acceptsAll_iff :
    f.AcceptsAll ops ↔
      Covers f.depth ops ∧ (placedMarks ops).Nodup ∧ ∀ m ∈ placedMarks ops, m ∉ f.placed := by
  induction ops generalizing f with
  | nil => simp [AcceptsAll, Covers, placedMarks]
  | cons op rest ih =>
    have hmarks : placedMarks (op :: rest) = op.placed?.toList ++ placedMarks rest := by
      rw [placedMarks, List.filterMap_cons]
      cases op.placed? <;> rfl
    rw [AcceptsAll, ih, Covers, hmarks]
    simp only [mem_placed_next, Accepts]
    cases op.placed? with
    | none =>
      simp only [Option.mem_def, reduceCtorEq, false_or, Option.toList_none, List.nil_append,
        IsEmpty.forall_iff, implies_true, and_true, next]
      rw [and_assoc]
    | some m =>
      simp only [Option.mem_def, Option.some.injEq, Option.toList_some, List.singleton_append,
        List.nodup_cons, List.forall_mem_cons, forall_eq', not_or, next]
      constructor
      · rintro ⟨⟨hpops, hm⟩, hcovers, hnodup, hnew⟩
        exact ⟨⟨hpops, hcovers⟩, ⟨fun hmem => (hnew m hmem).1 rfl, hnodup⟩, hm,
          fun n hn => (hnew n hn).2⟩
      · rintro ⟨⟨hpops, hcovers⟩, ⟨hmem, hnodup⟩, hm, hnew⟩
        exact ⟨⟨hpops, hm⟩, hcovers, hnodup, fun n hn => ⟨fun h => hmem (h ▸ hn), hnew n hn⟩⟩

theorem undefined_eq_nil : f.undefined = [] ↔ ∀ m ∈ f.targets, m ∈ f.placed := by
  simp only [List.eq_nil_iff_forall_not_mem, undefined, mem_ascending, List.mem_filter,
    decide_eq_true_eq, not_and, not_not]

end MethodFrame

end StackBackend.Code
