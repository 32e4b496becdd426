import StackBackend.Error

/-!
# Labels

A label names a position in the instruction stream of one routine. A supply issues labels that are
new to a routine: it is moved past the labels the routine already uses and counts up from there.
-/
namespace StackBackend

structure Label where
  id : UInt32
deriving DecidableEq, Repr

namespace Label

def text (l : Label) : String := "L" ++ toString l.id.toNat

instance : Ord Label := ⟨fun a b => compare a.id b.id⟩

instance : Std.TransOrd Label where
  eq_swap {a b} :=
    show compare a.id b.id = (compare b.id a.id).swap from Std.OrientedCmp.eq_swap
  isLE_trans {a b c} :=
    show (compare a.id b.id).isLE → (compare b.id c.id).isLE → (compare a.id c.id).isLE
    from Std.TransCmp.isLE_trans

instance : Std.LawfulEqOrd Label where
  eq_of_compare {a b} h := by
    cases a; cases b; exact congrArg Label.mk (Std.LawfulEqOrd.eq_of_compare h)

end Label

/-- The number of the next label to be issued. It is `2 ^ 32` when none is left. -/
structure LabelSupply where
  next : Nat
deriving DecidableEq, Repr

namespace LabelSupply

def capacity : Nat := UInt32.size

def fresh : LabelSupply := ⟨0⟩

def firstUnused : List Label → Nat
  | [] => 0
  | l :: rest => max (l.id.toNat + 1) (firstUnused rest)

def resumeAfter (used : List Label) : LabelSupply := ⟨firstUnused used⟩

/-- Moves past the labels in the list, never backwards. -/
def skipPast (s : LabelSupply) (used : List Label) : LabelSupply :=
  ⟨max s.next (firstUnused used)⟩

def issue : EStateM Error LabelSupply Label := do
  let s ← get
  if capacity ≤ s.next then throw .labelSpaceExhausted
  set (⟨s.next + 1⟩ : LabelSupply)
  return ⟨.ofNat s.next⟩

theorem run_issue (s : LabelSupply) :
    issue.run s =
      if capacity ≤ s.next then .error .labelSpaceExhausted s
      else .ok ⟨.ofNat s.next⟩ ⟨s.next + 1⟩ := by
  simp only [issue, EStateM.run_bind, EStateM.run_get]
  split <;> rfl

end LabelSupply

end StackBackend
