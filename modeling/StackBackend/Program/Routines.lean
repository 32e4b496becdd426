import StackBackend.Program.Instruction

/-!
# The routines of a class

Every routine that a class holds has a qualified path: `Outer::Inner#method`, or `Owner.method` for
a class method that a stream defines. A class lists its own logic first, then its methods, then its
nested classes; what a stream defines follows the routine of that stream.
-/
namespace StackBackend

structure Routine where
  path : String
  method : Method

def instancePath (owner name : String) : String := owner ++ "#" ++ name
def classMethodPath (owner name : String) : String := owner ++ "." ++ name
def nestedPath (owner name : String) : String := owner ++ "::" ++ name

mutual
def Class.routinesAt (path : String) : Class → List Routine
  | ⟨_, instrs, methods, classes⟩ =>
    ⟨instancePath path classBodyName, ⟨classBodyName, instrs⟩⟩ ::
      definedRoutines path instrs ++ methodRoutines path methods ++ classRoutines path classes

/-- A method of the class `owner` and what its stream defines. -/
def Method.routinesAt (owner path : String) : Method → List Routine
  | ⟨name, instrs⟩ => ⟨path, ⟨name, instrs⟩⟩ :: definedRoutines owner instrs

def definedRoutines (owner : String) : List Instruction → List Routine
  | [] => []
  | i :: rest => i.routinesIn owner ++ definedRoutines owner rest

def Instruction.routinesIn (owner : String) : Instruction → List Routine
  | .defineInstanceMethod m => m.routinesAt owner (instancePath owner m.name)
  | .defineClassMethod m => m.routinesAt owner (classMethodPath owner m.name)
  | .defineClass c => c.routinesAt (nestedPath owner c.name)
  | _ => []

def methodRoutines (owner : String) : List Method → List Routine
  | [] => []
  | m :: rest => m.routinesAt owner (instancePath owner m.name) ++ methodRoutines owner rest

def classRoutines (owner : String) : List Class → List Routine
  | [] => []
  | c :: rest => c.routinesAt (nestedPath owner c.name) ++ classRoutines owner rest
end

def Class.routines (c : Class) : List Routine := c.routinesAt c.name

end StackBackend
