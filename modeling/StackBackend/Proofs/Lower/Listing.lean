import Mathlib
import StackBackend.Compile
import StackBackend.Proofs.Code.Methods
import StackBackend.Proofs.Lower.Stretches

/-!
# Lowering follows the listing of routines

A class lists its routines with paths made by prefixing; lowering makes the path of a routine from
the names of the classes that are open. Both go through a script in the same order: the methods of
the code have the names of the routines as listed, and each is entered under the path that it is
listed with. That path stays on top as long as the stream of the routine is being lowered.
-/
namespace StackBackend

open Code (MethodKind MethodCode openedMethods Verifier)
open Emit

mutual
def Class.routineKinds : Class → List MethodKind
  | ⟨_, instrs, methods, classes⟩ =>
    .onClass :: definedKinds instrs ++ methodKinds methods ++ classKinds classes

def Method.routineKinds (kind : MethodKind) : Method → List MethodKind
  | ⟨_, instrs⟩ => kind :: definedKinds instrs

def definedKinds : List Instruction → List MethodKind
  | [] => []
  | i :: rest => i.routineKinds ++ definedKinds rest

def Instruction.routineKinds : Instruction → List MethodKind
  | .defineInstanceMethod m => m.routineKinds .onInstance
  | .defineClassMethod m => m.routineKinds .onClass
  | .defineClass c => c.routineKinds
  | _ => []

def methodKinds : List Method → List MethodKind
  | [] => []
  | m :: rest => m.routineKinds .onInstance ++ methodKinds rest

def classKinds : List Class → List MethodKind
  | [] => []
  | c :: rest => c.routineKinds ++ classKinds rest
end

def Outline.kinds {p : Place} : Outline p → List MethodKind
  | .nil => []
  | .instr _ _ rest => rest.kinds
  | .routine _ _ _ kind _ body rest => kind :: (body.kinds ++ rest.kinds)
  | .container _ body rest => body.kinds ++ rest.kinds

mutual
theorem Instruction.kinds_outline (index : Nat) (rest : Outline .inMethod) (i : Instruction) :
    (i.outline index rest).kinds = i.routineKinds ++ rest.kinds := by
  cases i with
  | defineInstanceMethod m => exact m.kinds_outline _ _ _ rest
  | defineClassMethod m => exact m.kinds_outline _ _ _ rest
  | defineClass c =>
    rw [Instruction.outline, c.outline_eq, Outline.kinds, c.kinds_contents,
      Instruction.routineKinds]
  | _ => rfl

theorem kinds_streamOutline (index : Nat) (instrs : List Instruction) :
    (streamOutline index instrs).kinds = definedKinds instrs := by
  cases instrs with
  | nil => rfl
  | cons i rest =>
    rw [streamOutline, i.kinds_outline, kinds_streamOutline (index + 1) rest, definedKinds]

theorem Method.kinds_outline {p : Place} (placed : p ≠ .outside)
    (path : String → String → String) (kind : MethodKind) (rest : Outline p) (m : Method) :
    (m.outline placed path kind rest).kinds = m.routineKinds kind ++ rest.kinds := by
  obtain ⟨name, instrs⟩ := m
  rw [Method.outline, Outline.kinds, kinds_streamOutline 0 instrs, Method.routineKinds,
    List.cons_append]

theorem Class.kinds_contents (c : Class) : c.contents.kinds = c.routineKinds := by
  obtain ⟨name, instrs, methods, classes⟩ := c
  rw [Class.contents, Outline.kinds, kinds_streamOutline 0 instrs,
    kinds_methodsOutline _ methods, kinds_classesOutline classes, Class.routineKinds]
  simp

theorem kinds_methodsOutline (rest : Outline .inClass) (methods : List Method) :
    (methodsOutline rest methods).kinds = methodKinds methods ++ rest.kinds := by
  cases methods with
  | nil => rfl
  | cons m ms =>
    rw [methodsOutline, m.kinds_outline, kinds_methodsOutline rest ms, methodKinds,
      List.append_assoc]

theorem kinds_classesOutline (classes : List Class) :
    (classesOutline classes).kinds = classKinds classes := by
  cases classes with
  | nil => rfl
  | cons c cs =>
    rw [classesOutline, c.outline_eq, Outline.kinds, c.kinds_contents, kinds_classesOutline cs,
      classKinds]
end

namespace Outline

theorem methods_parts {p : Place} (o : Outline p) (owner : String) (firstSlot : UInt16)
    (r : RoutineScope) (fields : List String) :
    (o.parts firstSlot r fields).methods.map MethodCode.name =
        (o.routines owner).map RoutineOutline.name ∧
      (o.parts firstSlot r fields).methods.map MethodCode.kind = o.kinds := by
  induction o generalizing r fields owner with
  | nil => exact ⟨rfl, rfl⟩
  | instr _ _ _ ih => exact ih owner r _
  | routine _ _ name _ _ body rest ihBody ihRest =>
    obtain ⟨hname, hkind⟩ := ihBody owner (scope firstSlot name body) fields
    obtain ⟨hname', hkind'⟩ := ihRest owner r (body.fieldsAfter fields)
    simp [parts, routines, kinds, Code.Parts.method, hname, hkind, hname', hkind']
  | container name body rest ihBody ihRest =>
    obtain ⟨hname, hkind⟩ := ihBody (nestedPath owner name) r []
    obtain ⟨hname', hkind'⟩ := ihRest owner r fields
    simp [parts, routines, kinds, Code.Parts.container, hname, hkind, hname', hkind']

end Outline

theorem Graphs.built_paths_sublist (supply : Flow.Supply) (rs : List Routine) :
    ((ofRoutines supply rs).built.map (·.path)).Sublist (rs.map (·.path)) := by
  induction rs generalizing supply with
  | nil => exact .slnil
  | cons r rest ih =>
    rw [ofRoutines, cons]
    split
    · exact (ih _).cons_cons _
    · exact (ih _).cons _

/-- Over the stretch the stream of the routine is lowered. Before each of its instructions and after
the last one, the path of the routine is on top of the stack of paths. -/
structure Stretch.Lowers (t : Stretch) (r : Routine) : Prop where
  opened : ∃ kind, t.start.code.back? = some (.beginMethod r.method.name kind)
  stream : (lowerFrom 0 r.method.instrs).run t.start = .ok () t.stop
  onTop (n : Nat) : ∃ mid, (lowerFrom 0 (r.method.instrs.take n)).run t.start = .ok () mid ∧
    mid.paths.head? = some r.path

theorem Stretch.Covers.lowers {t : Stretch} {r : Routine} (h : t.Covers r.outlined) :
    t.Lowers r := by
  have hstream : (lowerFrom 0 r.method.instrs).run t.start = .ok () t.stop := by
    rw [← lower_streamOutline]
    exact h.body
  refine ⟨h.opened, hstream, fun n => ?_⟩
  obtain ⟨mid, hmid⟩ := exists_lowerFrom_take hstream n
  have hpaths := (samePaths_lowerFrom 0 _).of_ok hmid
  exact ⟨mid, hmid, hpaths ▸ h.path⟩

theorem Stretch.head?_start {rs : List Routine} {ts : List Stretch}
    (h : List.Forall₂ (fun r t => t.Lowers r) rs ts) :
    ts.map (·.start.paths.head?) = rs.map (some ·.path) := by
  induction h with
  | nil => rfl
  | cons hfirst _ ih =>
    obtain ⟨mid, hmid, htop⟩ := hfirst.onTop 0
    cases hmid
    rw [List.map_cons, List.map_cons, ih, htop]

namespace Script

variable {s : Script} {firstSlot : UInt16} {e : Emitter}

theorem exists_stretches (h : s.lower.run (.new (.new firstSlot)) = .ok () e) :
    ∃ stretches : List Stretch,
      s.outline.Runs (s.start firstSlot) stretches e ∧
      Stretch.Ordered (s.start firstSlot) e stretches ∧
      List.Forall₂ (fun r t => t.Lowers r) s.root.routines stretches := by
  obtain ⟨ts, stop, contents, rfl⟩ := exists_runs h
  have hruns : s.outline.Runs (s.start firstSlot) (ts ++ []) _ := .container contents .nil
  have hcovers := contents.covers (List.cons_ne_nil _ _)
  rw [s.path_start, s.root.routines_contents, List.forall₂_map_left_iff] at hcovers
  rw [List.append_nil] at hruns
  exact ⟨ts, hruns, hruns.ordered, hcovers.imp fun _ _ h => h.lowers⟩

/-- Lowering goes through the routines of a script as the script lists them. The methods that the
code opens have their names and kinds, and the graphs are kept under their paths. In the run each
routine has a stretch over which its own stream is lowered, and as long as this lasts the path that
it is listed with is on top of the stack of paths. -/
theorem lower_lists_routines (h : s.lower.run (.new (.new firstSlot)) = .ok () e) :
    (openedMethods e.code.toList).map MethodCode.name = s.root.routines.map (·.method.name) ∧
      (openedMethods e.code.toList).map MethodCode.kind = s.root.routineKinds ∧
      (∀ v : Verifier, (v.verify e.code.toList).stats.methodCount = s.root.routines.length) ∧
      (s.buildGraphs.built.map (·.path)).Sublist (s.root.routines.map (·.path)) ∧
      ∃ stretches : List Stretch,
        s.outline.Runs (s.start firstSlot) stretches e ∧
        Stretch.Ordered (s.start firstSlot) e stretches ∧
        List.Forall₂ (fun r t => t.Lowers r) s.root.routines stretches := by
  have hcode := s.bracketed_code h
  obtain ⟨hnames, hkinds⟩ :=
    s.root.contents.methods_parts s.root.name firstSlot (.new "" firstSlot) []
  rw [← s.methods_parts, s.root.routines_contents, List.map_map] at hnames
  rw [← s.methods_parts, s.root.kinds_contents] at hkinds
  rw [hcode.openedMethods_eq]
  refine ⟨hnames, hkinds, fun v => ?_, Graphs.built_paths_sublist _ _, exists_stretches h⟩
  have hlength := congrArg List.length hnames
  rw [List.length_map, List.length_map] at hlength
  exact (hcode.methodCount_verify v).trans hlength

end Script

theorem lower_lists_routines_nested :
    ∃ e, (⟨"main", ⟨"Main", [.defineClass ⟨"Point", [.ret (.constant .nil)],
            [⟨"size", [.defineClassMethod ⟨"origin", []⟩]⟩], []⟩, .jump ⟨4⟩],
          [⟨"run", [.label ⟨4⟩]⟩], []⟩⟩ : Script).lower.run (.new (.new 0)) = .ok () e ∧
      (openedMethods e.code.toList).map MethodCode.name =
        ["__class__", "__class__", "size", "origin", "run"] ∧
      (openedMethods e.code.toList).map MethodCode.kind =
        [.onClass, .onClass, .onInstance, .onClass, .onInstance] ∧
      (({} : Verifier).verify e.code.toList).stats.methodCount = 5 ∧
      ∃ stretches : List Stretch,
        stretches.map (·.start.paths.head?) = [some "Main#__class__",
          some "Main::Point#__class__", some "Main::Point#size", some "Main::Point.origin",
          some "Main#run"] := by
  have hlower : Emit.code? (Script.lower ⟨"main", ⟨"Main",
        [.defineClass ⟨"Point", [.ret (.constant .nil)],
            [⟨"size", [.defineClassMethod ⟨"origin", []⟩]⟩], []⟩, .jump ⟨4⟩],
          [⟨"run", [.label ⟨4⟩]⟩], []⟩⟩) (.new (.new 0)) =
      some [.beginClass "Main" "main", .beginMethod "__class__" .onClass,
        .beginClass "Point" "main", .beginMethod "__class__" .onClass, .push .nil, .returnValue,
        .endMethod, .beginMethod "size" .onInstance, .beginMethod "origin" .onClass, .endMethod,
        .endMethod, .endClass, .goto ⟨0⟩, .endMethod, .beginMethod "run" .onInstance, .mark ⟨0⟩,
        .endMethod, .endClass] := by cbv
  obtain ⟨e, he, -⟩ := Emit.exists_of_code? _ hlower
  obtain ⟨hnames, hkinds, hcount, -, ts, -, -, hlowers⟩ := Script.lower_lists_routines he
  exact ⟨e, he, hnames, hkinds, hcount {}, ts, Stretch.head?_start hlowers⟩

end StackBackend
