import StackBackend.Proofs.Lower.OutlineCode

/-!
# Renaming variables and labels

The names in a routine are its own. They can be replaced by other names, different ones by different
ones, and each routine of a script can be renamed in its own way, also one that is defined in the
stream of another. The outline of a renamed script is renamed in the same way.
-/
namespace StackBackend

open Code (Op MethodKind)

structure Renaming where
  var : Variable → Variable
  label : Label → Label
  var_injective : Function.Injective var
  label_injective : Function.Injective label

def Renaming.refl : Renaming := ⟨id, id, Function.injective_id, Function.injective_id⟩

def Operand.rename (ρ : Renaming) : Operand → Operand
  | .variable v => .variable (ρ.var v)
  | .label l => .label (ρ.label l)
  | o => o

/-- An instruction under other names. What it defines is left as it is. -/
def Instruction.rename (ρ : Renaming) : Instruction → Instruction
  | .label l => .label (ρ.label l)
  | .jump target => .jump (ρ.label target)
  | .branch lhs rhs target => .branch (lhs.rename ρ) (rhs.rename ρ) (ρ.label target)
  | .dispatch value => .dispatch (value.rename ρ)
  | .leave value => .leave (value.map (Operand.rename ρ))
  | .copy result source => .copy (ρ.var result) (source.rename ρ)
  | .call result method args =>
    .call (result.map ρ.var) method (args.map (Operand.rename ρ))
  | .getField result receiver field => .getField (ρ.var result) (receiver.rename ρ) field
  | .putField receiver field value => .putField (receiver.rename ρ) field (value.rename ρ)
  | .receiveArg result index => .receiveArg (ρ.var result) index
  | .ret value => .ret (value.rename ρ)
  | i => i

mutual
/-- The second instruction is the first one in a routine that is renamed. The routines that it
defines are renamed in their own ways. -/
inductive Instruction.Renamed : Renaming → Instruction → Instruction → Prop
  | plain {ρ : Renaming} {i : Instruction} (h : i.isDefinition = false) :
      Instruction.Renamed ρ i (i.rename ρ)
  | defineInstanceMethod {ρ : Renaming} {m m' : Method} :
      Method.Renamed m m' →
      Instruction.Renamed ρ (.defineInstanceMethod m) (.defineInstanceMethod m')
  | defineClassMethod {ρ : Renaming} {m m' : Method} :
      Method.Renamed m m' → Instruction.Renamed ρ (.defineClassMethod m) (.defineClassMethod m')
  | defineClass {ρ : Renaming} {c c' : Class} :
      Class.Renamed c c' → Instruction.Renamed ρ (.defineClass c) (.defineClass c')

inductive StreamRenamed : Renaming → List Instruction → List Instruction → Prop
  | nil {ρ : Renaming} : StreamRenamed ρ [] []
  | cons {ρ : Renaming} {i i' : Instruction} {rest rest' : List Instruction} :
      Instruction.Renamed ρ i i' → StreamRenamed ρ rest rest' →
      StreamRenamed ρ (i :: rest) (i' :: rest')

inductive Method.Renamed : Method → Method → Prop
  | intro (ρ : Renaming) {name : String} {instrs instrs' : List Instruction} :
      StreamRenamed ρ instrs instrs' → Method.Renamed ⟨name, instrs⟩ ⟨name, instrs'⟩

inductive MethodsRenamed : List Method → List Method → Prop
  | nil : MethodsRenamed [] []
  | cons {m m' : Method} {rest rest' : List Method} :
      Method.Renamed m m' → MethodsRenamed rest rest' → MethodsRenamed (m :: rest) (m' :: rest')

inductive Class.Renamed : Class → Class → Prop
  | intro (ρ : Renaming) {name : String} {instrs instrs' : List Instruction}
      {methods methods' : List Method} {classes classes' : List Class} :
      StreamRenamed ρ instrs instrs' → MethodsRenamed methods methods' →
      ClassesRenamed classes classes' →
      Class.Renamed ⟨name, instrs, methods, classes⟩ ⟨name, instrs', methods', classes'⟩

inductive ClassesRenamed : List Class → List Class → Prop
  | nil : ClassesRenamed [] []
  | cons {c c' : Class} {rest rest' : List Class} :
      Class.Renamed c c' → ClassesRenamed rest rest' → ClassesRenamed (c :: rest) (c' :: rest')
end

structure Script.Renamed (s s' : Script) : Prop where
  fileName : s'.fileName = s.fileName
  root : s.root.Renamed s'.root

inductive Outline.Renamed : {p : Place} → Renaming → Outline p → Outline p → Prop
  | nil {p : Place} {ρ : Renaming} : Outline.Renamed ρ (.nil : Outline p) .nil
  | instr {ρ : Renaming} {index : Nat} {i : Instruction} {rest rest' : Outline .inMethod}
      (hi : i.isDefinition = false) :
      Outline.Renamed ρ rest rest' →
      Outline.Renamed ρ (.instr index i rest) (.instr index (i.rename ρ) rest')
  | routine {p : Place} {ρ : Renaming} (ρ' : Renaming) {placed : p ≠ .outside}
      {path : String → String → String} {name : String} {kind : MethodKind} {count : Nat}
      {body body' : Outline .inMethod} {rest rest' : Outline p} :
      Outline.Renamed ρ' body body' → Outline.Renamed ρ rest rest' →
      Outline.Renamed ρ (.routine placed path name kind count body rest)
        (.routine placed path name kind count body' rest')
  | container {p : Place} {ρ : Renaming} {name : String} {body body' : Outline .inClass}
      {rest rest' : Outline p} :
      Outline.Renamed ρ body body' → Outline.Renamed ρ rest rest' →
      Outline.Renamed ρ (.container name body rest) (.container name body' rest')

theorem StreamRenamed.length_eq {ρ : Renaming} {instrs instrs' : List Instruction}
    (h : StreamRenamed ρ instrs instrs') : instrs'.length = instrs.length := by
  induction instrs generalizing instrs' with
  | nil =>
    cases h
    rfl
  | cons i rest ih =>
    cases h with
    | cons _ hrest => rw [List.length_cons, List.length_cons, ih hrest]

mutual
theorem Instruction.renamed_outline {ρ : Renaming} (index : Nat) {rest rest' : Outline .inMethod}
    (hrest : rest.Renamed ρ rest') (i : Instruction) {i' : Instruction} (h : i.Renamed ρ i') :
    (i.outline index rest).Renamed ρ (i'.outline index rest') := by
  cases i with
  | defineInstanceMethod m =>
    cases h with
    | plain h => cases h
    | defineInstanceMethod hm => exact m.renamed_outline _ _ _ hrest hm
  | defineClassMethod m =>
    cases h with
    | plain h => cases h
    | defineClassMethod hm => exact m.renamed_outline _ _ _ hrest hm
  | defineClass c =>
    cases h with
    | plain h => cases h
    | defineClass hc => exact c.renamed_outline hrest hc
  | _ =>
    cases h with
    | plain h => exact .instr h hrest
termination_by structural i

theorem renamed_streamOutline {ρ : Renaming} (index : Nat) (instrs : List Instruction)
    {instrs' : List Instruction} (h : StreamRenamed ρ instrs instrs') :
    (streamOutline index instrs).Renamed ρ (streamOutline index instrs') := by
  cases instrs with
  | nil =>
    cases h
    exact .nil
  | cons i rest =>
    cases h with
    | cons hi hrest =>
      exact i.renamed_outline index (renamed_streamOutline (index + 1) rest hrest) hi
termination_by structural instrs

theorem Method.renamed_outline {p : Place} {ρ : Renaming} (placed : p ≠ .outside)
    (path : String → String → String) (kind : MethodKind) {rest rest' : Outline p}
    (hrest : rest.Renamed ρ rest') (m : Method) {m' : Method} (h : m.Renamed m') :
    (m.outline placed path kind rest).Renamed ρ (m'.outline placed path kind rest') := by
  obtain ⟨name, instrs⟩ := m
  cases h with
  | intro ρ' hinstrs =>
    rw [Method.outline, Method.outline, hinstrs.length_eq]
    exact .routine ρ' (renamed_streamOutline 0 instrs hinstrs) hrest
termination_by structural m

theorem Class.renamed_outline {p : Place} {ρ : Renaming} {rest rest' : Outline p}
    (hrest : rest.Renamed ρ rest') (c : Class) {c' : Class} (h : c.Renamed c') :
    (c.outline rest).Renamed ρ (c'.outline rest') := by
  obtain ⟨name, instrs, methods, classes⟩ := c
  cases h with
  | intro ρ' hinstrs hmethods hclasses =>
    rw [Class.outline, Class.outline, hinstrs.length_eq]
    exact .container (.routine ρ' (renamed_streamOutline 0 instrs hinstrs)
      (renamed_methodsOutline (renamed_classesOutline classes hclasses) methods hmethods)) hrest
termination_by structural c

theorem renamed_methodsOutline {ρ : Renaming} {rest rest' : Outline .inClass}
    (hrest : rest.Renamed ρ rest') (methods : List Method) {methods' : List Method}
    (h : MethodsRenamed methods methods') :
    (methodsOutline rest methods).Renamed ρ (methodsOutline rest' methods') := by
  cases methods with
  | nil =>
    cases h
    exact hrest
  | cons m ms =>
    cases h with
    | cons hm hms =>
      exact m.renamed_outline _ _ _ (renamed_methodsOutline hrest ms hms) hm
termination_by structural methods

theorem renamed_classesOutline {ρ : Renaming} (classes : List Class) {classes' : List Class}
    (h : ClassesRenamed classes classes') :
    (classesOutline classes).Renamed ρ (classesOutline classes') := by
  cases classes with
  | nil =>
    cases h
    exact .nil
  | cons c cs =>
    cases h with
    | cons hc hcs => exact c.renamed_outline (renamed_classesOutline cs hcs) hc
termination_by structural classes
end

end StackBackend
