import StackBackend.Proofs.Code.Frame

/-!
# The fields of classes

The operations of a class are those between its brackets but for the ones of nested classes. There a
field is declared before it is used, and once only. Whether code goes on with this from one part to
the next depends on the fields that are declared already.
-/
namespace StackBackend.Code

namespace Op

def declaredField? : Op → Option String
  | .declareField name => some name
  | _ => none

def usedField? : Op → Option String
  | .getField name | .putField name => some name
  | _ => none

def isClassBracket : Op → Bool
  | .beginClass .. | .endClass => true
  | _ => false

theorem isClassBracket_of_isPlain {op : Op} (h : op.isPlain) : op.isClassBracket = false := by
  cases op <;> first | rfl | cases h

theorem isClassBracket_of_isDeclaration {op : Op} (h : op.isDeclaration) :
    op.isClassBracket = false := by
  cases op <;> first | rfl | cases h

end Op

def declaredFields (ops : List Op) : List String := ops.filterMap Op.declaredField?

def usedFields (ops : List Op) : List String := ops.filterMap Op.usedField?

theorem declaredFields_append (ops more : List Op) :
    declaredFields (ops ++ more) = declaredFields ops ++ declaredFields more :=
  List.filterMap_append ..

theorem usedFields_append (ops more : List Op) :
    usedFields (ops ++ more) = usedFields ops ++ usedFields more :=
  List.filterMap_append ..

/-- The operations up to the end of a class, without those of the classes in it. `nested` of these
are still open. -/
def classOps : Nat → List Op → List Op
  | _, [] => []
  | nested, .beginClass .. :: rest => classOps (nested + 1) rest
  | 0, .endClass :: _ => []
  | nested + 1, .endClass :: rest => classOps nested rest
  | 0, op :: rest => op :: classOps 0 rest
  | nested + 1, _ :: rest => classOps (nested + 1) rest

/-- Every class that is opened, with the operations of which it is the innermost class. -/
def openedClasses : List Op → List (List Op)
  | [] => []
  | .beginClass .. :: rest => classOps 0 rest :: openedClasses rest
  | _ :: rest => openedClasses rest

/-- A class declares the fields that it uses, and no others, each once and before its first use. -/
structure DeclaresBeforeUse (ops : List Op) : Prop where
  declared_iff_used : ∀ name, name ∈ declaredFields ops ↔ name ∈ usedFields ops
  nodup : (declaredFields ops).Nodup
  declared_first : ∀ {position : Nat} {op : Op} {name : String}, ops[position]? = some op →
    op.usedField? = some name → name ∈ declaredFields (ops.take position)

structure Declares (fields fields' : List String) (ops : List Op) : Prop where
  nodup : (declaredFields ops).Nodup
  fresh : ∀ name ∈ declaredFields ops, name ∉ fields
  used : ∀ name ∈ declaredFields ops, name ∈ usedFields ops
  first : ∀ {position : Nat} {op : Op} {name : String}, ops[position]? = some op →
    op.usedField? = some name → name ∈ fields ∨ name ∈ declaredFields (ops.take position)
  after : ∀ name, name ∈ fields' ↔ name ∈ fields ∨ name ∈ declaredFields ops

namespace Declares

variable {fields fields' fields'' : List String} {ops more : List Op}

theorem of_uses (hnone : declaredFields ops = []) (hused : ∀ name ∈ usedFields ops, name ∈ fields) :
    Declares fields fields ops where
  nodup := by
    rw [hnone]
    exact List.nodup_nil
  fresh := by simp [hnone]
  used := by simp [hnone]
  first hop hname := .inl (hused _ (List.mem_filterMap.2 ⟨_, List.mem_of_getElem? hop, hname⟩))
  after := by simp [hnone]

theorem op {op : Op} (hdeclared : op.declaredField? = none) (hused : op.usedField? = none) :
    Declares fields fields [op] := by
  apply of_uses <;> simp [declaredFields, usedFields, hdeclared, hused]

theorem declare {name : String} (hname : name ∉ fields) (hused : name ∈ usedFields ops)
    (h : Declares (name :: fields) fields' ops) :
    Declares fields fields' (.declareField name :: ops) where
  nodup := List.nodup_cons.2 ⟨fun hmem => h.fresh name hmem List.mem_cons_self, h.nodup⟩
  fresh := by
    intro other hother
    rcases List.mem_cons.1 hother with rfl | hother
    · exact hname
    · exact fun hmem => h.fresh other hother (List.mem_cons_of_mem _ hmem)
  used := by
    intro other hother
    rcases List.mem_cons.1 hother with rfl | hother
    · exact hused
    · exact h.used other hother
  first := by
    intro position op other hop hother
    cases position with
    | zero =>
      cases hop
      cases hother
    | succ n =>
      rw [List.take_succ_cons]
      rcases h.first hop hother with hmem | hmem
      · rcases List.mem_cons.1 hmem with rfl | hmem
        · exact .inr List.mem_cons_self
        · exact .inl hmem
      · exact .inr (List.mem_cons_of_mem _ hmem)
  after := by
    intro other
    rw [h.after, List.mem_cons, or_assoc, or_left_comm]
    exact or_congr_right List.mem_cons.symm

theorem trans (h : Declares fields fields' ops) (h' : Declares fields' fields'' more) :
    Declares fields fields'' (ops ++ more) where
  nodup := by
    rw [declaredFields_append, List.nodup_append]
    refine ⟨h.nodup, h'.nodup, fun name hname other hother heq => ?_⟩
    exact h'.fresh other hother ((h.after other).2 (.inr (heq ▸ hname)))
  fresh := by
    rw [declaredFields_append, List.forall_mem_append]
    exact ⟨h.fresh, fun name hname hmem => h'.fresh name hname ((h.after name).2 (.inl hmem))⟩
  used := by
    rw [declaredFields_append, usedFields_append, List.forall_mem_append]
    exact ⟨fun name hname => List.mem_append_left _ (h.used name hname),
      fun name hname => List.mem_append_right _ (h'.used name hname)⟩
  first := by
    intro position op name hop hname
    by_cases hlt : position < ops.length
    · rw [List.getElem?_append_left hlt] at hop
      rw [List.take_append_of_le_length (Nat.le_of_lt hlt)]
      exact h.first hop hname
    · have hle := Nat.le_of_not_lt hlt
      rw [List.getElem?_append_right hle] at hop
      rw [List.take_append, List.take_of_length_le hle, declaredFields_append, List.mem_append,
        ← or_assoc, ← h.after]
      exact h'.first hop hname
  after := by
    intro name
    rw [h'.after, h.after, or_assoc, declaredFields_append, List.mem_append]

theorem declaresBeforeUse (h : Declares [] fields' ops) : DeclaresBeforeUse ops where
  declared_iff_used name := by
    refine ⟨h.used name, fun hname => ?_⟩
    obtain ⟨op, hop, hused⟩ := List.mem_filterMap.1 hname
    obtain ⟨position, hposition⟩ := List.mem_iff_getElem?.1 hop
    have hmem := (h.first hposition hused).resolve_left List.not_mem_nil
    exact ((List.take_sublist position ops).filterMap _).subset hmem
  nodup := h.nodup
  declared_first hop hname := (h.first hop hname).resolve_left List.not_mem_nil

end Declares

/-- Code that closes every class that it opens. The operations `own` belong to the class around it,
and those in `classes` to the classes that it opens. -/
structure Encloses (code own : List Op) (classes : List (List Op)) : Prop where
  own_eq : ∀ more, classOps 0 (code ++ more) = own ++ classOps 0 more
  skipped : ∀ nested more, classOps (nested + 1) (code ++ more) = classOps (nested + 1) more
  opened : ∀ more, openedClasses (code ++ more) = classes ++ openedClasses more

namespace Encloses

variable {code code' own own' : List Op} {classes classes' : List (List Op)}

theorem nil : Encloses [] [] [] := ⟨fun _ => rfl, fun _ _ => rfl, fun _ => rfl⟩

theorem append (h : Encloses code own classes) (h' : Encloses code' own' classes') :
    Encloses (code ++ code') (own ++ own') (classes ++ classes') where
  own_eq more := by rw [List.append_assoc, h.own_eq, h'.own_eq, List.append_assoc]
  skipped nested more := by rw [List.append_assoc, h.skipped, h'.skipped]
  opened more := by rw [List.append_assoc, h.opened, h'.opened, List.append_assoc]

theorem op {op : Op} (hop : op.isClassBracket = false) : Encloses [op] [op] [] := by
  cases op with
  | beginClass | endClass => cases hop
  | _ => exact ⟨fun _ => rfl, fun _ _ => rfl, fun _ => rfl⟩

theorem ops {ops : List Op} (hops : ∀ op ∈ ops, op.isClassBracket = false) :
    Encloses ops ops [] := by
  induction ops with
  | nil => exact .nil
  | cons op rest ih =>
    obtain ⟨hop, hrest⟩ := List.forall_mem_cons.1 hops
    exact (Encloses.op hop).append (ih hrest)

theorem container (h : Encloses code own classes) (name source : String) :
    Encloses (.beginClass name source :: code ++ [.endClass]) [] (own :: classes) where
  own_eq more := by
    rw [List.cons_append, List.cons_append, classOps, List.append_assoc, h.skipped]
    rfl
  skipped nested more := by
    rw [List.cons_append, List.cons_append, classOps, List.append_assoc, h.skipped]
    rfl
  opened more := by
    rw [List.cons_append, List.cons_append, openedClasses, List.append_assoc, h.own_eq, h.opened]
    simp [classOps, openedClasses]

end Encloses

end StackBackend.Code
