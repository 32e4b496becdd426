import Std.Data.TreeMap

/-!
# Numbers in order of first reference

A numbering counts up: each new key takes the next number. So the numbers in use are always those
below the next one, and there are as many of them as keys.
-/
namespace StackBackend.Scope

structure Numbering (κ : Type) [Ord κ] where
  index : Std.TreeMap κ Nat
  next : Nat

namespace Numbering

variable {κ : Type} [Ord κ]

def empty : Numbering κ := ⟨∅, 0⟩

def size (n : Numbering κ) : Nat := n.index.size

def get? (n : Numbering κ) (key : κ) : Option Nat := n.index[key]?

def add (n : Numbering κ) (key : κ) : Numbering κ := ⟨n.index.insert key n.next, n.next + 1⟩

@[simp]
theorem size_empty : (empty : Numbering κ).size = 0 := by simp [empty, size]

@[simp]
theorem next_empty : (empty : Numbering κ).next = 0 := rfl

@[simp]
theorem next_add (n : Numbering κ) (key : κ) : (n.add key).next = n.next + 1 := rfl

variable [Std.TransOrd κ]

@[simp]
theorem get?_empty (key : κ) : (empty : Numbering κ).get? key = none := by simp [empty, get?]

theorem size_add {n : Numbering κ} {key : κ} (h : n.get? key = none) :
    (n.add key).size = n.size + 1 := by
  have : key ∉ n.index := by simpa [get?] using h
  simp [add, size, Std.TreeMap.size_insert, this]

variable [Std.LawfulEqOrd κ]

@[simp]
theorem get?_add_self (n : Numbering κ) (key : κ) : (n.add key).get? key = some n.next := by
  simp [add, get?]

theorem get?_add_of_ne (n : Numbering κ) {key other : κ} (h : key ≠ other) :
    (n.add key).get? other = n.get? other := by
  simp [add, get?, Std.TreeMap.getElem?_insert, h]

end Numbering

end StackBackend.Scope
