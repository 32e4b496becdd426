import Mathlib
import StackBackend.Program.Routines

/-!
# Visiting the instructions of a script

A script is gone through instruction by instruction. What an instruction defines is visited right
after it, in the midst of its stream; still every visit belongs to the routine in whose stream the
instruction stands. So the routines of a script as listed, each with its stream from beginning to
end, make up the same visits in another order.
-/
namespace StackBackend

structure Visit where
  routine : Routine
  index : Nat
  instr : Instruction

mutual
/-- A class under the path `path`: its own logic, its methods, its nested classes. -/
def Class.visitsAt (path : String) : Class → List Visit
  | ⟨_, instrs, methods, classes⟩ =>
    streamVisits path ⟨instancePath path classBodyName, ⟨classBodyName, instrs⟩⟩ 0 instrs ++
      methodVisits path methods ++ classVisits path classes

def Method.visitsAt (owner path : String) : Method → List Visit
  | ⟨name, instrs⟩ => streamVisits owner ⟨path, ⟨name, instrs⟩⟩ 0 instrs

/-- The rest of the stream of a routine of the class `owner`, from a position on. -/
def streamVisits (owner : String) (r : Routine) (index : Nat) : List Instruction → List Visit
  | [] => []
  | i :: rest => ⟨r, index, i⟩ :: i.visitsIn owner ++ streamVisits owner r (index + 1) rest

def Instruction.visitsIn (owner : String) : Instruction → List Visit
  | .defineInstanceMethod m => m.visitsAt owner (instancePath owner m.name)
  | .defineClassMethod m => m.visitsAt owner (classMethodPath owner m.name)
  | .defineClass c => c.visitsAt (nestedPath owner c.name)
  | _ => []

def methodVisits (owner : String) : List Method → List Visit
  | [] => []
  | m :: rest => m.visitsAt owner (instancePath owner m.name) ++ methodVisits owner rest

def classVisits (owner : String) : List Class → List Visit
  | [] => []
  | c :: rest => c.visitsAt (nestedPath owner c.name) ++ classVisits owner rest
end

def Script.visits (s : Script) : List Visit := s.root.visitsAt s.root.name

def Routine.visitsFrom (r : Routine) (index : Nat) (instrs : List Instruction) : List Visit :=
  (instrs.zipIdx index).map fun (i, index) => ⟨r, index, i⟩

def Routine.visits (r : Routine) : List Visit := r.visitsFrom 0 r.method.instrs

mutual
theorem Instruction.visitsIn_perm (owner : String) (i : Instruction) :
    (i.visitsIn owner).Perm ((i.routinesIn owner).flatMap Routine.visits) := by
  cases i with
  | defineInstanceMethod m => exact m.visitsAt_perm owner _
  | defineClassMethod m => exact m.visitsAt_perm owner _
  | defineClass c => exact c.visitsAt_perm _
  | _ => exact .nil

theorem streamVisits_perm (owner : String) (r : Routine) (index : Nat)
    (instrs : List Instruction) :
    (streamVisits owner r index instrs).Perm
      (r.visitsFrom index instrs ++ (definedRoutines owner instrs).flatMap Routine.visits) := by
  cases instrs with
  | nil => exact .nil
  | cons i rest =>
    rw [streamVisits, definedRoutines, List.flatMap_append, Routine.visitsFrom, List.zipIdx_cons,
      List.map_cons, List.cons_append, List.cons_append]
    apply List.Perm.cons
    -- What the instruction defines is listed behind the routine, so it goes past the rest of it.
    have hfirst := i.visitsIn_perm owner
    exact (hfirst.append (streamVisits_perm owner r (index + 1) rest)).trans
      (List.perm_append_comm_assoc _ _ _)

theorem Method.visitsAt_perm (owner path : String) (m : Method) :
    (m.visitsAt owner path).Perm ((m.routinesAt owner path).flatMap Routine.visits) := by
  obtain ⟨name, instrs⟩ := m
  exact streamVisits_perm owner ⟨path, ⟨name, instrs⟩⟩ 0 instrs

theorem Class.visitsAt_perm (path : String) (c : Class) :
    (c.visitsAt path).Perm ((c.routinesAt path).flatMap Routine.visits) := by
  obtain ⟨name, instrs, methods, classes⟩ := c
  rw [Class.visitsAt, Class.routinesAt, List.flatMap_append, List.flatMap_append]
  apply List.Perm.append
  · exact (streamVisits_perm path _ 0 instrs).append (methodVisits_perm path methods)
  · exact classVisits_perm path classes

theorem methodVisits_perm (owner : String) (methods : List Method) :
    (methodVisits owner methods).Perm ((methodRoutines owner methods).flatMap Routine.visits) := by
  cases methods with
  | nil => exact .nil
  | cons m rest =>
    rw [methodVisits, methodRoutines, List.flatMap_append]
    exact (m.visitsAt_perm owner _).append (methodVisits_perm owner rest)

theorem classVisits_perm (owner : String) (classes : List Class) :
    (classVisits owner classes).Perm ((classRoutines owner classes).flatMap Routine.visits) := by
  cases classes with
  | nil => exact .nil
  | cons c rest =>
    rw [classVisits, classRoutines, List.flatMap_append]
    exact (c.visitsAt_perm _).append (classVisits_perm owner rest)
end

namespace Script

theorem visits_perm (s : Script) : s.visits.Perm (s.root.routines.flatMap Routine.visits) :=
  s.root.visitsAt_perm s.root.name

theorem mem_visits_iff {s : Script} {v : Visit} :
    v ∈ s.visits ↔
      v.routine ∈ s.root.routines ∧ v.routine.method.instrs[v.index]? = some v.instr := by
  rw [s.visits_perm.mem_iff, List.mem_flatMap]
  constructor
  · rintro ⟨r, hr, hv⟩
    obtain ⟨⟨i, index⟩, hi, rfl⟩ := List.mem_map.1 hv
    exact ⟨hr, List.mem_zipIdx_iff_getElem?.1 hi⟩
  · rintro ⟨hr, hv⟩
    have hmem : (v.instr, v.index) ∈ v.routine.method.instrs.zipIdx 0 :=
      List.mem_zipIdx_iff_getElem?.2 hv
    exact ⟨v.routine, hr, List.mem_map.2 ⟨_, hmem, rfl⟩⟩

end Script

end StackBackend
