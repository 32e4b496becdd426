import StackBackend.Proofs.Lower.Keeping
import StackBackend.Proofs.Lower.OutlineCode
import StackBackend.Proofs.Lower.Resolution

/-!
# Scopes are unwound on every outcome

Lowering can be refused in the middle of any class or routine, at any depth. Whether it succeeds or
not, the scopes it has opened are closed again, and the scopes it has found open have lost nothing:
the innermost class may have declared more fields, and the innermost routine may have resolved more
names. Likewise the stack of paths is as before, and what was put out before is still there.
-/
namespace StackBackend

open Code (Op MethodKind Slot Mark)

/-- The innermost routine may have resolved more names. -/
inductive RoutineScope.OnlyExtends : List RoutineScope → List RoutineScope → Prop
  | none : OnlyExtends [] []
  | innermost {r r' : RoutineScope} (name : r'.name = r.name) (names : r'.Extends r)
      (outer : List RoutineScope) : OnlyExtends (r :: outer) (r' :: outer)

namespace ScopeStack

/-- The same scopes are open. The innermost container may have declared more fields, and its open
routines stand in the relation `inner`. -/
inductive Grows (inner : List RoutineScope → List RoutineScope → Prop) :
    ScopeStack → ScopeStack → Prop
  | none (firstSlot : UInt16) : Grows inner ⟨[], firstSlot⟩ ⟨[], firstSlot⟩
  | innermost {fields fields' : List String} {routines routines' : List RoutineScope}
      (declared : fields <:+ fields') (inside : inner routines routines') (name : String)
      (outer : List ContainerScope) (firstSlot : UInt16) :
      Grows inner ⟨⟨name, fields, routines⟩ :: outer, firstSlot⟩
        ⟨⟨name, fields', routines'⟩ :: outer, firstSlot⟩

end ScopeStack

namespace RoutineScope

theorem OnlyExtends.refl (routines : List RoutineScope) : OnlyExtends routines routines := by
  cases routines with
  | nil => exact .none
  | cons r outer => exact .innermost rfl (.refl r) outer

theorem OnlyExtends.trans {routines routines' routines'' : List RoutineScope}
    (h : OnlyExtends routines routines') (h' : OnlyExtends routines' routines'') :
    OnlyExtends routines routines'' := by
  cases h with
  | none => exact h'
  | innermost hname hext outer =>
    cases h' with
    | innermost hname' hext' => exact .innermost (hname'.trans hname) (hext'.trans hext) outer

theorem onlyExtends_note (r : RoutineScope) (ref : Reference) (outer : List RoutineScope) :
    OnlyExtends (r :: outer) (r.note ref :: outer) :=
  .innermost (r.name_note ref) (r.extends_note ref) outer

end RoutineScope

open RoutineScope (OnlyExtends)

namespace ScopeStack

variable {inner : List RoutineScope → List RoutineScope → Prop} {s t u : ScopeStack}

theorem Grows.refl (hinner : ∀ routines, inner routines routines) (s : ScopeStack) :
    s.Grows inner s := by
  obtain ⟨_ | ⟨c, outer⟩, firstSlot⟩ := s
  · exact .none firstSlot
  · exact .innermost (List.suffix_refl c.fields) (hinner c.routines) c.name outer firstSlot

theorem Grows.trans
    (hinner : ∀ {rs rs' rs'' : List RoutineScope}, inner rs rs' → inner rs' rs'' → inner rs rs'')
    (h : s.Grows inner t) (h' : t.Grows inner u) : s.Grows inner u := by
  cases h with
  | none => exact h'
  | innermost hfields hroutines name outer firstSlot =>
    cases h' with
    | innermost hfields' hroutines' =>
      exact .innermost (hfields.trans hfields') (hinner hroutines hroutines') name outer firstSlot

theorem Grows.mono {inner' : List RoutineScope → List RoutineScope → Prop}
    (h : s.Grows inner t) (himp : ∀ rs rs', inner rs rs' → inner' rs rs') : s.Grows inner' t := by
  cases h with
  | none firstSlot => exact .none firstSlot
  | innermost hfields hroutines name outer firstSlot =>
    exact .innermost hfields (himp _ _ hroutines) name outer firstSlot

theorem grows_onRoutine {α : Type} {operation : String} {a : α}
    {action : EStateM Error RoutineScope α}
    (haction : ∀ {r r' : RoutineScope} {a : α}, action.run r = .ok a r' → ∃ ref, r' = r.note ref)
    (h : (onRoutine operation action).run s = .ok a t) : s.Grows OnlyExtends t := by
  obtain ⟨containers, firstSlot⟩ := s
  obtain ⟨⟨name, fields, _⟩, r, r', routines, outer, rfl, rfl, hr, rfl⟩ := onRoutine_ok h
  obtain ⟨ref, rfl⟩ := haction hr
  exact .innermost (List.suffix_refl fields) (r.onlyExtends_note ref routines) name outer firstSlot

theorem grows_declareField {field : String} {new : Bool}
    (h : (declareField field).run s = .ok new t) : s.Grows OnlyExtends t := by
  obtain ⟨containers, firstSlot⟩ := s
  obtain ⟨⟨name, fields, routines⟩, outer, rfl, -, rfl⟩ := declareField_ok h
  by_cases hmem : field ∈ fields
  · simp only [ContainerScope.declareField, hmem, if_true]
    exact .refl OnlyExtends.refl _
  · simp only [ContainerScope.declareField, hmem, if_false]
    exact .innermost (List.suffix_cons field fields) (.refl routines) name outer firstSlot

theorem Resolves.grows (h : s.Resolves t) : s.Grows OnlyExtends t := by
  cases h with
  | @slot v _ _ h => exact grows_onRoutine (fun hr => ⟨.var v, (RoutineScope.slotFor_ok hr).1⟩) h
  | @mark l _ _ h => exact grows_onRoutine (fun hr => ⟨.label l, (RoutineScope.markFor_ok hr).1⟩) h
  | field h => exact grows_declareField h

theorem keepOutermost_cons {α : Type} (a : α) (scopes : List α) :
    keepOutermost scopes.length (a :: scopes) = scopes :=
  keepOutermost_append [a] scopes

theorem unwindRoutines_innermost (c : ContainerScope) (outer : List ContainerScope)
    (firstSlot : UInt16) (m : Nat) :
    (⟨c :: outer, firstSlot⟩ : ScopeStack).unwindRoutines (c :: outer).length m =
      ⟨{ c with routines := keepOutermost m c.routines } :: outer, firstSlot⟩ := by
  simp [unwindRoutines, unwindContainers, keepOutermost]

variable {name : String}

theorem Grows.leaveContainer (h : (s.enterContainer name).Grows inner t) :
    t.unwindContainers s.depth = s := by
  obtain ⟨containers, firstSlot⟩ := s
  cases h with
  | innermost => rw [unwindContainers, depth, keepOutermost_cons]

theorem Grows.leaveRoutine {opened : ScopeStack} (hopen : (enterRoutine name).run s = .ok () opened)
    (h : opened.Grows OnlyExtends t) :
    s.Grows Eq (t.unwindRoutines s.depth s.routineDepth) := by
  obtain ⟨containers, firstSlot⟩ := s
  obtain ⟨⟨owner, fields, routines⟩, outer, rfl, rfl⟩ := enterRoutine_ok hopen
  cases h with
  | @innermost _ fields' _ _ hfields hroutines =>
    cases hroutines with
    | innermost =>
      have hdepth : depth ⟨⟨owner, fields, routines⟩ :: outer, firstSlot⟩ = outer.length + 1 := rfl
      have hroutineDepth :
        routineDepth ⟨⟨owner, fields, routines⟩ :: outer, firstSlot⟩ = routines.length := rfl
      rw [hdepth, hroutineDepth, ← List.length_cons, unwindRoutines_innermost, keepOutermost_cons]
      exact .innermost hfields rfl owner outer firstSlot

end ScopeStack

/-- The stack of paths is the same, and the code and the diagnostics that were put out before are
still in front. -/
structure Emitter.Continues (e e' : Emitter) : Prop where
  paths : e'.paths = e.paths
  code : e.code.toList <+: e'.code.toList
  diagnostics : e.diagnostics.toList <+: e'.diagnostics.toList

namespace Emit

/-- The scopes have only grown, and what was put out before is still in front. -/
structure Advances (e e' : Emitter) : Prop where
  scopes : e.scopes.Grows OnlyExtends e'.scopes
  code : e.code.toList <+: e'.code.toList
  diagnostics : e.diagnostics.toList <+: e'.diagnostics.toList

theorem stable_advances : Stable Advances where
  refl e := ⟨.refl OnlyExtends.refl _, List.prefix_refl _, List.prefix_refl _⟩
  trans h h' := ⟨h.scopes.trans OnlyExtends.trans h'.scopes, h.code.trans h'.code,
    h.diagnostics.trans h'.diagnostics⟩
  code e o := ⟨.refl OnlyExtends.refl _, by simp, List.prefix_refl _⟩
  diagnosed e d := ⟨.refl OnlyExtends.refl _, List.prefix_refl _, by simp [Emitter.log]⟩
  events e x _ := ⟨.refl OnlyExtends.refl _, List.prefix_refl _, List.prefix_refl _⟩
  scopes e _ h := ⟨h.grows, List.prefix_refl _, List.prefix_refl _⟩

theorem after_congr {α : Type} {action action' : Emit α} {e e' : Emitter}
    (h : action e = action' e') : action.after e = action'.after e' := by
  rw [after, h, after]

theorem after_ensuring {α : Type} (action : Emit α) (change : Emitter → Emitter) (e : Emitter) :
    (ensuring action change).after e = change (action.after e) := by
  unfold after ensuring
  cases action e <;> rfl

variable {body : Emit Unit}

theorem container_unwinds (h : Keeps Advances body) (name : String) (e : Emitter) :
    ((container name body).after e).scopes = e.scopes ∧
      Advances e ((container name body).after e) := by
  have hR := stable_advances
  have hinside : Advances (e.openContainer name)
      ((do body; op .endClass : Emit Unit).after (e.openContainer name)) :=
    hR.keeps_bind h (fun _ => hR.keeps_op _) _
  have hscopes := hinside.scopes.leaveContainer
  rw [after_congr (container_apply name body e), after_ensuring]
  refine ⟨hscopes, ⟨?_, ?_, hinside.diagnostics⟩⟩
  · dsimp only
    rw [hscopes]
    exact .refl OnlyExtends.refl _
  · exact .trans (by simp [Emitter.openContainer]) hinside.code

theorem routine_refused {name : String} {e : Emitter} {x : Error} {scopes : ScopeStack}
    (h : (ScopeStack.enterRoutine name).run e.scopes = .error x scopes)
    (path : String → String → String) (kind : MethodKind) (count : Nat) (body : Emit Unit) :
    (routine path name kind count body).after e = e := by
  obtain ⟨⟨_ | ⟨c, outer⟩, firstSlot⟩, code, diagnostics, source, paths, events⟩ := e
  · rfl
  · cases h

theorem routine_unwinds (h : Keeps Advances body) (path : String → String → String) (name : String)
    (kind : MethodKind) (count : Nat) (e : Emitter) :
    e.scopes.Grows Eq ((routine path name kind count body).after e).scopes ∧
      Advances e ((routine path name kind count body).after e) := by
  have hR := stable_advances
  cases hopen : (ScopeStack.enterRoutine name).run e.scopes with
  | error x scopes =>
    rw [routine_refused hopen path kind count body]
    exact ⟨.refl (fun _ => rfl) _, hR.refl e⟩
  | ok _ opened =>
    have hinside : Advances (e.openRoutine (path e.scopes.path name) name kind opened)
        ((do body; logRoutine name count; op .endMethod : Emit Unit).after
          (e.openRoutine (path e.scopes.path name) name kind opened)) := by
      refine hR.keeps_bind h (fun _ => ?_) _
      exact hR.keeps_bind (hR.keeps_logRoutine name count) fun _ => hR.keeps_op _
    have hscopes := hinside.scopes.leaveRoutine hopen
    rw [after_congr (routine_apply hopen), after_ensuring, after_ensuring]
    refine ⟨hscopes, ⟨hscopes.mono ?_, ?_, hinside.diagnostics⟩⟩
    · intro rs rs' heq
      exact heq ▸ OnlyExtends.refl rs
    · exact .trans (by simp [Emitter.openRoutine]) hinside.code

theorem advances_outline {p : Place} (o : Outline p) : Keeps Advances o.lower := by
  have hR := stable_advances
  induction o with
  | nil => exact hR.keeps_pure ()
  | instr index i rest ih => exact hR.keeps_bind (hR.keeps_simple index i) fun _ => ih
  | routine _ path name kind count body rest ihBody ihRest =>
    exact hR.keeps_bind (fun e => (routine_unwinds ihBody path name kind count e).2) fun _ => ihRest
  | container name body rest ihBody ihRest =>
    exact hR.keeps_bind (fun e => (container_unwinds ihBody name e).2) fun _ => ihRest

theorem advances_lowerFrom (index : Nat) (instrs : List Instruction) :
    Keeps Advances (lowerFrom index instrs) := by
  rw [← lower_streamOutline]
  exact advances_outline _

theorem Stable.keeps_lowerStream {R : Emitter → Emitter → Prop} (hR : Stable R)
    {instrs : List Instruction} (h : Keeps R (lowerFrom 0 instrs)) :
    Keeps R (lowerStream instrs) := by
  apply hR.keeps_bind hR.keeps_get
  intro e
  cases e.scopes.routine? with
  | none => exact fun e => hR.refl e
  | some r => exact h

theorem Advances.continues {e e' : Emitter} (h : Advances e e') (hpaths : SamePaths e e') :
    e.Continues e' :=
  ⟨hpaths, h.code, h.diagnostics⟩

end Emit

open Emit

theorem Class.lower_eq (c : Class) : c.lower = container c.name c.contents.lower := by
  obtain ⟨name, instrs, methods, classes⟩ := c
  rw [Class.lower, Class.contents, Outline.lower, lower_streamOutline, lower_methodsOutline,
    lower_classesOutline]

/-- Lowering leaves the scopes and the stack of paths as they were, whether it succeeds or fails. A
class leaves no trace in the scopes, a routine leaves the fields that it has declared in the class
around it, and a stream that is lowered into the innermost routine leaves those and the names that
it has resolved there. Nothing that was put out before is lost. -/
theorem lowering_unwinds (e : Emitter) :
    (∀ c : Class, (c.lower.after e).scopes = e.scopes ∧ e.Continues (c.lower.after e)) ∧
      (∀ s : Script, (s.lower.after e).scopes = e.scopes ∧ e.Continues (s.lower.after e)) ∧
      (∀ (m : Method) (path : String → String → String) (kind : MethodKind),
        e.scopes.Grows Eq ((m.lower path kind).after e).scopes ∧
          e.Continues ((m.lower path kind).after e)) ∧
      ∀ instrs : List Instruction,
        e.scopes.Grows OnlyExtends ((lowerStream instrs).after e).scopes ∧
          e.Continues ((lowerStream instrs).after e) := by
  have hclass : ∀ (c : Class) (e : Emitter),
      (c.lower.after e).scopes = e.scopes ∧ e.Continues (c.lower.after e) := by
    intro c e
    rw [c.lower_eq]
    obtain ⟨hscopes, hadvances⟩ := container_unwinds (advances_outline c.contents) c.name e
    have hpaths := samePaths_container (samePaths_outline c.contents) c.name e
    exact ⟨hscopes, hadvances.continues hpaths⟩
  refine ⟨fun c => hclass c e, fun s => ?_, fun m path kind => ?_, fun instrs => ?_⟩
  · -- Before its class is lowered, a script only sets the name of its file.
    obtain ⟨hscopes, hcontinues⟩ := hclass s.root { e with source := s.fileName }
    exact ⟨hscopes, hcontinues.paths, hcontinues.code, hcontinues.diagnostics⟩
  · obtain ⟨name, instrs⟩ := m
    have hpaths := samePaths_routine (samePaths_lowerFrom 0 instrs) path name kind instrs.length e
    obtain ⟨hscopes, hadvances⟩ :=
      routine_unwinds (advances_lowerFrom 0 instrs) path name kind instrs.length e
    exact ⟨hscopes, hadvances.continues hpaths⟩
  · have hpaths := stable_samePaths.keeps_lowerStream (samePaths_lowerFrom 0 instrs) e
    have hadvances := stable_advances.keeps_lowerStream (advances_lowerFrom 0 instrs) e
    exact ⟨hadvances.scopes, hadvances.continues hpaths⟩

/-- With one slot left, the second variable of a nested routine is refused. -/
example :
    (match (Class.lower ⟨"Main", [], [⟨"run", [.defineClass ⟨"Inner", [], [⟨"go",
        [.copy ⟨"x"⟩ (.variable ⟨"y"⟩)]⟩], []⟩]⟩], []⟩).run (.new (.new 65535)) with
      | .error x e => x = .tooManyLocals "go" ∧ e.scopes.containers.length = 0 ∧ e.paths = [] ∧
        e.code.size = 8
      | .ok _ _ => False) := by
  cbv

end StackBackend
