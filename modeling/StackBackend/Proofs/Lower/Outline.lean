import StackBackend.Lower.Lowering
import StackBackend.Proofs.Code.Bracketed

/-!
# Outlines of scripts

An outline is what lowering comes to in a script, as one tree: the instructions that define nothing,
the routines and the containers, whether a class lists them or a stream defines them. Classes,
methods and streams are read as outlines; lowering an outline is lowering the script, and the
routines of the outline are those of the script. So whatever is said of lowered scripts is proved by
one induction over outlines.
-/
namespace StackBackend

open Code (MethodKind Op)

/-- What stands one after the other at a place. Only a routine holds instructions, and every routine
stands in a class. -/
inductive Outline : Place → Type where
  | nil {p : Place} : Outline p
  | instr (index : Nat) (i : Instruction) (rest : Outline .inMethod) : Outline .inMethod
  /-- A routine of the class around the place, the path of which is made as told from the path of
  the class and the name of the routine. Its stream has `count` instructions. -/
  | routine {p : Place} (placed : p ≠ .outside) (path : String → String → String) (name : String)
      (kind : MethodKind) (count : Nat) (body : Outline .inMethod) (rest : Outline p) : Outline p
  | container {p : Place} (name : String) (body : Outline .inClass) (rest : Outline p) : Outline p

mutual
def Instruction.outline (index : Nat) (rest : Outline .inMethod) : Instruction → Outline .inMethod
  | .defineInstanceMethod m => m.outline (by decide) instancePath .onInstance rest
  | .defineClassMethod m => m.outline (by decide) classMethodPath .onClass rest
  | .defineClass c => c.outline rest
  | i => .instr index i rest
termination_by structural i => i

def streamOutline (index : Nat) : List Instruction → Outline .inMethod
  | [] => .nil
  | i :: rest => i.outline index (streamOutline (index + 1) rest)
termination_by structural l => l

def Method.outline {p : Place} (placed : p ≠ .outside) (path : String → String → String)
    (kind : MethodKind) (rest : Outline p) : Method → Outline p
  | ⟨name, instrs⟩ =>
    .routine placed path name kind instrs.length (streamOutline 0 instrs) rest
termination_by structural m => m

def Class.outline {p : Place} (rest : Outline p) : Class → Outline p
  | ⟨name, instrs, methods, classes⟩ =>
    .container name
      (.routine (by decide) instancePath classBodyName .onClass instrs.length
        (streamOutline 0 instrs) (methodsOutline (classesOutline classes) methods))
      rest
termination_by structural c => c

def methodsOutline (rest : Outline .inClass) : List Method → Outline .inClass
  | [] => rest
  | m :: ms => m.outline (by decide) instancePath .onInstance (methodsOutline rest ms)
termination_by structural l => l

def classesOutline : List Class → Outline .inClass
  | [] => .nil
  | c :: cs => c.outline (classesOutline cs)
termination_by structural l => l
end

namespace Outline

open Emit

def lower {p : Place} : Outline p → Emit Unit
  | .nil => pure ()
  | .instr index i rest => do
    simple index i
    rest.lower
  | .routine _ path name kind count body rest => do
    Emit.routine path name kind count body.lower
    rest.lower
  | .container name body rest => do
    Emit.container name body.lower
    rest.lower

end Outline

mutual
theorem Instruction.lower_outline (index : Nat) (rest : Outline .inMethod) (i : Instruction) :
    (i.outline index rest).lower = (do i.lower index; rest.lower) := by
  cases i with
  | defineInstanceMethod m => exact m.lower_outline _ _ _ rest
  | defineClassMethod m => exact m.lower_outline _ _ _ rest
  | defineClass c => exact c.lower_outline rest
  | _ => rfl

theorem lower_streamOutline (index : Nat) (instrs : List Instruction) :
    (streamOutline index instrs).lower = lowerFrom index instrs := by
  cases instrs with
  | nil => rfl
  | cons i rest =>
    rw [streamOutline, i.lower_outline, lower_streamOutline (index + 1) rest, lowerFrom]

theorem Method.lower_outline {p : Place} (placed : p ≠ .outside)
    (path : String → String → String) (kind : MethodKind) (rest : Outline p) (m : Method) :
    (m.outline placed path kind rest).lower = (do m.lower path kind; rest.lower) := by
  obtain ⟨name, instrs⟩ := m
  rw [Method.outline, Outline.lower, lower_streamOutline 0 instrs, Method.lower]

theorem Class.lower_outline {p : Place} (rest : Outline p) (c : Class) :
    (c.outline rest).lower = (do c.lower; rest.lower) := by
  obtain ⟨name, instrs, methods, classes⟩ := c
  rw [Class.outline, Outline.lower, Outline.lower, lower_streamOutline 0 instrs,
    lower_methodsOutline _ methods, lower_classesOutline classes, Class.lower]

theorem lower_methodsOutline (rest : Outline .inClass) (methods : List Method) :
    (methodsOutline rest methods).lower = (do lowerMethods methods; rest.lower) := by
  cases methods with
  | nil => simp only [methodsOutline, lowerMethods, pure_bind]
  | cons m ms =>
    rw [methodsOutline, m.lower_outline, lower_methodsOutline rest ms, lowerMethods, bind_assoc]

theorem lower_classesOutline (classes : List Class) :
    (classesOutline classes).lower = lowerClasses classes := by
  cases classes with
  | nil => rfl
  | cons c cs => rw [classesOutline, c.lower_outline, lower_classesOutline cs, lowerClasses]
end

theorem lowerFrom_append (index : Nat) (instrs more : List Instruction) :
    lowerFrom index (instrs ++ more) =
      (do lowerFrom index instrs; lowerFrom (index + instrs.length) more) := by
  induction instrs generalizing index with
  | nil => rw [List.nil_append, lowerFrom, pure_bind]; rfl
  | cons i rest ih =>
    rw [List.cons_append, lowerFrom, ih, lowerFrom, bind_assoc, List.length_cons, Nat.add_assoc,
      Nat.add_comm 1]

def Class.contents (c : Class) : Outline .inClass :=
  .routine (by decide) instancePath classBodyName .onClass c.instrs.length
    (streamOutline 0 c.instrs) (methodsOutline (classesOutline c.classes) c.methods)

theorem Class.outline_eq {p : Place} (rest : Outline p) (c : Class) :
    c.outline rest = .container c.name c.contents rest := by
  cases c
  rfl

/-- Defining a method or a class, as opposed to having code of its own. -/
def Instruction.isDefinition : Instruction → Bool
  | .defineInstanceMethod _ | .defineClassMethod _ | .defineClass _ => true
  | _ => false

structure RoutineOutline where
  path : String
  name : String
  body : Outline .inMethod

def Routine.outlined (r : Routine) : RoutineOutline :=
  ⟨r.path, r.method.name, streamOutline 0 r.method.instrs⟩

namespace Outline

def instrs {p : Place} : Outline p → List Instruction
  | .nil => []
  | .instr _ i rest => i :: rest.instrs
  | .routine _ _ _ _ _ _ rest => rest.instrs
  | .container _ _ rest => rest.instrs

def routines {p : Place} (owner : String) : Outline p → List RoutineOutline
  | .nil => []
  | .instr _ _ rest => rest.routines owner
  | .routine _ path name _ _ body rest =>
    ⟨path owner name, name, body⟩ :: (body.routines owner ++ rest.routines owner)
  | .container name body rest => body.routines (nestedPath owner name) ++ rest.routines owner

end Outline

theorem instrs_streamOutline (index : Nat) (instrs : List Instruction) :
    (streamOutline index instrs).instrs = instrs.filter fun i => !i.isDefinition := by
  induction instrs generalizing index with
  | nil => rfl
  | cons i rest ih =>
    rw [streamOutline]
    cases i with
    | defineInstanceMethod m | defineClassMethod m =>
      cases m
      exact ih (index + 1)
    | defineClass c =>
      rw [Instruction.outline, c.outline_eq]
      exact ih (index + 1)
    | _ => exact congrArg (_ :: ·) (ih (index + 1))

mutual
theorem Instruction.routines_outline (owner : String) (index : Nat) (rest : Outline .inMethod)
    (i : Instruction) :
    (i.outline index rest).routines owner =
      (i.routinesIn owner).map Routine.outlined ++ rest.routines owner := by
  cases i with
  | defineInstanceMethod m => exact m.routines_outline owner _ _ _ rest
  | defineClassMethod m => exact m.routines_outline owner _ _ _ rest
  | defineClass c =>
    rw [Instruction.outline, c.outline_eq, Outline.routines, c.routines_contents,
      Instruction.routinesIn]
  | _ => rfl

theorem routines_streamOutline (owner : String) (index : Nat) (instrs : List Instruction) :
    (streamOutline index instrs).routines owner =
      (definedRoutines owner instrs).map Routine.outlined := by
  cases instrs with
  | nil => rfl
  | cons i rest =>
    rw [streamOutline, i.routines_outline, routines_streamOutline owner (index + 1) rest,
      definedRoutines, List.map_append]

theorem Method.routines_outline {p : Place} (owner : String) (placed : p ≠ .outside)
    (path : String → String → String) (kind : MethodKind) (rest : Outline p) (m : Method) :
    (m.outline placed path kind rest).routines owner =
      (m.routinesAt owner (path owner m.name)).map Routine.outlined ++ rest.routines owner := by
  obtain ⟨name, instrs⟩ := m
  rw [Method.outline, Outline.routines, routines_streamOutline owner 0 instrs, Method.routinesAt]
  rfl

theorem Class.routines_contents (path : String) (c : Class) :
    c.contents.routines path = (c.routinesAt path).map Routine.outlined := by
  obtain ⟨name, instrs, methods, classes⟩ := c
  rw [Class.contents, Outline.routines, routines_streamOutline _ 0 instrs,
    routines_methodsOutline _ _ methods, routines_classesOutline _ classes, Class.routinesAt]
  simp [Routine.outlined]

theorem routines_methodsOutline (owner : String) (rest : Outline .inClass)
    (methods : List Method) :
    (methodsOutline rest methods).routines owner =
      (methodRoutines owner methods).map Routine.outlined ++ rest.routines owner := by
  cases methods with
  | nil => rfl
  | cons m ms =>
    rw [methodsOutline, m.routines_outline, routines_methodsOutline owner rest ms,
      methodRoutines, List.map_append, List.append_assoc]

theorem routines_classesOutline (owner : String) (classes : List Class) :
    (classesOutline classes).routines owner =
      (classRoutines owner classes).map Routine.outlined := by
  cases classes with
  | nil => rfl
  | cons c cs =>
    rw [classesOutline, c.outline_eq, Outline.routines, c.routines_contents,
      routines_classesOutline owner cs, classRoutines, List.map_append]
end

end StackBackend
