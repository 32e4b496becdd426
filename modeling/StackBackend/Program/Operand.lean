import StackBackend.Decimal.Layout
import StackBackend.Program.Label
import StackBackend.Text.Quoted

/-!
# Operands

Variables are named per routine, fields per class. A constant is a literal value. Two constants are
the same to a program (`==`) when they are of one kind and have the same value, where doubles are
compared as numbers: the two zeros are the same, and a value that is not a number is the same as
nothing.
-/
namespace StackBackend

structure Variable where
  name : String
deriving DecidableEq, Repr

namespace Variable

def text (v : Variable) : String := "%" ++ v.name

instance : Ord Variable := ⟨fun a b => compare a.name b.name⟩

instance : Std.TransOrd Variable where
  eq_swap {a b} :=
    show compare a.name b.name = (compare b.name a.name).swap from Std.OrientedCmp.eq_swap
  isLE_trans {a b c} :=
    show (compare a.name b.name).isLE → (compare b.name c.name).isLE → (compare a.name c.name).isLE
    from Std.TransCmp.isLE_trans

instance : Std.LawfulEqOrd Variable where
  eq_of_compare {a b} h := by
    cases a; cases b; exact congrArg Variable.mk (Std.LawfulEqOrd.eq_of_compare h)

end Variable

structure FieldRef where
  name : String
deriving DecidableEq, Repr

def FieldRef.text (f : FieldRef) : String := "@" ++ f.name

inductive Constant where
  | fixnum (value : Int64)
  | float (value : Float)
  | str (value : String)
  | bool (value : Bool)
  | nil
deriving BEq

def floatText (x : Float) : String :=
  if x.isNaN then "NaN"
  else if x.isInf then (if x < 0 then "-inf" else "inf")
  else String.ofList (Decimal.displayed.text x)

def Constant.text : Constant → String
  | .fixnum value => toString value.toInt
  | .float value => floatText value
  | .str value => Text.quoted value
  | .bool value => if value then "true" else "false"
  | .nil => "nil"

inductive Operand where
  | constant (value : Constant)
  | variable (v : Variable)
  | field (f : FieldRef)
  | label (l : Label)
deriving BEq

namespace Operand

def fixnum (value : Int64) : Operand := .constant (.fixnum value)

def kindName : Operand → String
  | .constant _ => "constant"
  | .variable _ => "variable"
  | .field _ => "field"
  | .label _ => "label"

def isConstant : Operand → Bool
  | .constant _ => true
  | _ => false

def text : Operand → String
  | .constant value => value.text
  | .variable v => v.text
  | .field f => f.text
  | .label l => l.text

end Operand

end StackBackend
