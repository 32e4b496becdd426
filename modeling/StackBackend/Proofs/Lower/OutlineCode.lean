import StackBackend.Proofs.Lower.Emission

/-!
# The code of an outline

The code of an outline is given as a function. Every routine is read in the scope that it has at its
end, which depends on its own instructions alone; only the declared fields are handed on from one
part to the next. Lowering that succeeds puts out exactly this code, and then every routine keeps
the limits of a method.
-/
namespace StackBackend

open Code (Op MethodKind)

namespace Outline

def references {p : Place} (o : Outline p) : List Reference :=
  o.instrs.flatMap Instruction.references

def scope (firstSlot : UInt16) (name : String) (body : Outline .inMethod) : RoutineScope :=
  (RoutineScope.new name firstSlot).noteAll body.references

def fieldsAfter {p : Place} (fields : List String) : Outline p → List String
  | .nil => fields
  | .instr _ i rest => rest.fieldsAfter (i.declaredAfter fields)
  | .routine _ _ _ _ _ body rest => rest.fieldsAfter (body.fieldsAfter fields)
  | .container _ _ rest => rest.fieldsAfter fields

/-- The code of an outline at a place where `r` is the scope and `fields` are declared. -/
def code {p : Place} (firstSlot : UInt16) (source : String) (r : RoutineScope)
    (fields : List String) : Outline p → List Op
  | .nil => []
  | .instr _ i rest =>
    i.declaration fields ++ i.ops r ++ rest.code firstSlot source r (i.declaredAfter fields)
  | .routine _ _ name kind _ body rest =>
    .beginMethod name kind :: body.code firstSlot source (scope firstSlot name body) fields ++
      .endMethod :: rest.code firstSlot source r (body.fieldsAfter fields)
  | .container name body rest =>
    .beginClass name source :: body.code firstSlot source r [] ++
      .endClass :: rest.code firstSlot source r fields

def Fits {p : Place} (firstSlot : UInt16) : Outline p → Prop
  | .nil => True
  | .instr _ _ rest => rest.Fits firstSlot
  | .routine _ _ name _ _ body rest =>
    (scope firstSlot name body).Fits ∧ body.Fits firstSlot ∧ rest.Fits firstSlot
  | .container _ body rest => body.Fits firstSlot ∧ rest.Fits firstSlot

end Outline

namespace Emitter

def openContainer (e : Emitter) (name : String) : Emitter :=
  { e with
    scopes := e.scopes.enterContainer name
    code := e.code.push (.beginClass name e.source)
    events := e.events.push (.enterContainer name) }

def closeContainer (e outside : Emitter) : Emitter :=
  { e with
    scopes := e.scopes.unwindContainers outside.scopes.depth
    code := e.code.push .endClass }

def openRoutine (e : Emitter) (path name : String) (kind : MethodKind) (scopes : ScopeStack) :
    Emitter :=
  { e with
    scopes
    code := e.code.push (.beginMethod name kind)
    paths := path :: e.paths
    events := e.events.push (.enterRoutine ((e.scopes.container?.map (·.name)).getD "") name) }

def closeRoutine (e outside : Emitter) : Emitter :=
  { e with
    scopes := e.scopes.unwindRoutines outside.scopes.depth outside.scopes.routineDepth
    paths := e.paths.tail }

end Emitter

theorem ScopeStack.Holds.enterRoutine {s : ScopeStack} {p : Place} {fields : List String}
    {r : RoutineScope} (h : s.Holds fields r p) (hp : p ≠ .outside) (name : String) :
    ∃ owner routines outer, s.containers = ⟨owner, fields, routines⟩ :: outer ∧
      (ScopeStack.enterRoutine name).run s = .ok () { s with
        containers := ⟨owner, fields, .new name s.firstSlot :: routines⟩ :: outer } := by
  obtain ⟨owner, routines, outer, hc⟩ := h.exists_container hp
  exact ⟨owner, routines, outer, hc, ScopeStack.run_enterRoutine hc name⟩

namespace Emit

theorem ensuring_ok {α : Type} {action : Emit α} {change : Emitter → Emitter} {e e' : Emitter}
    {a : α} (h : ensuring action change e = .ok a e') :
    ∃ e₁, action e = .ok a e₁ ∧ e' = change e₁ := by
  unfold ensuring at h
  split at h
  · cases h
    exact ⟨_, by assumption, rfl⟩
  · cases h

theorem container_apply (name : String) (body : Emit Unit) (e : Emitter) :
    container name body e =
      ensuring (do body; op .endClass)
        (fun e' => { e' with scopes := e'.scopes.unwindContainers e.scopes.depth })
        (e.openContainer name) :=
  rfl

theorem routine_apply {path : String → String → String} {name : String} {kind : MethodKind}
    {count : Nat} {body : Emit Unit} {e : Emitter} {scopes : ScopeStack}
    (h : (ScopeStack.enterRoutine name).run e.scopes = .ok () scopes) :
    routine path name kind count body e =
      ensuring
        (ensuring (do body; logRoutine name count; op .endMethod)
          fun e' =>
            { e' with scopes := e'.scopes.unwindRoutines e.scopes.depth e.scopes.routineDepth })
        (fun e' => { e' with paths := e'.paths.tail })
        (e.openRoutine (path e.scopes.path name) name kind scopes) := by
  obtain ⟨⟨containers, firstSlot⟩, code, diagnostics, source, paths, events⟩ := e
  cases containers with
  | nil => cases h
  | cons c outer =>
    cases h
    rfl

variable {p : Place} {e e' : Emitter} {fields : List String} {r : RoutineScope}
  {body : Emit Unit}

theorem logRoutine_eq {name : String} {count : Nat} (h : logRoutine name count e = .ok () e') :
    e' = e ∨ ∃ x, e' = e.log x := by
  obtain ⟨_, _, hget, h⟩ := bind_ok h
  cases hget
  cases hr : e.scopes.routine? with
  | none =>
    rw [hr] at h
    cases h
    exact .inl rfl
  | some r =>
    rw [hr] at h
    cases h
    exact .inr ⟨_, rfl⟩

theorem logRoutine_ok {name : String} {count : Nat} (h : logRoutine name count e = .ok () e')
    (he : e.scopes.Holds fields r p) : Emits p e e' r [] fields [] := by
  rcases logRoutine_eq h with rfl | ⟨x, rfl⟩
  · exact .refl he
  · exact log_ok rfl he

theorem container_split {name : String} (h : container name body e = .ok () e') :
    ∃ e₁, body (e.openContainer name) = .ok () e₁ ∧
      e' = e₁.closeContainer e := by
  rw [container_apply] at h
  obtain ⟨e₂, hopened, rfl⟩ := ensuring_ok h
  obtain ⟨_, e₁, hbody, hend⟩ := bind_ok hopened
  cases hend
  exact ⟨e₁, hbody, rfl⟩

theorem container_ok {name : String} (h : container name body e = .ok () e')
    (he : e.scopes.Holds fields r p) :
    ∃ e₁, body (e.openContainer name) = .ok () e₁ ∧
      ∀ {fields' : List String} {code : List Op},
        Emits .inClass (e.openContainer name) e₁ r [] fields' code →
          Emits p e e' r [] fields (.beginClass name e.source :: code ++ [.endClass]) := by
  obtain ⟨e₁, hbody, rfl⟩ := container_split h
  refine ⟨e₁, hbody, fun hemits => ⟨?_, ?_, ?_, id⟩⟩
  · rw [RoutineScope.noteAll, List.foldl_nil, he.update_self]
    simp [hemits.scopes, Emitter.openContainer, Emitter.closeContainer,
      ScopeStack.enterContainer, ScopeStack.update, ScopeStack.unwindContainers,
      ScopeStack.keepOutermost, ScopeStack.depth]
  · simp [hemits.code, Emitter.openContainer, Emitter.closeContainer]
  · exact hemits.source

theorem routine_split {path : String → String → String} {name : String} {kind : MethodKind}
    {count : Nat} {scopes : ScopeStack} (h : routine path name kind count body e = .ok () e')
    (henter : (ScopeStack.enterRoutine name).run e.scopes = .ok () scopes) :
    ∃ e₂ e₃, body (e.openRoutine (path e.scopes.path name) name kind scopes) = .ok () e₂ ∧
      (do logRoutine name count; op .endMethod : Emit Unit) e₂ = .ok () e₃ ∧
      e' = e₃.closeRoutine e := by
  rw [routine_apply henter] at h
  obtain ⟨e₄, hpath, rfl⟩ := ensuring_ok h
  obtain ⟨e₃, hopened, rfl⟩ := ensuring_ok hpath
  obtain ⟨_, e₂, hbody, hclose⟩ := bind_ok hopened
  exact ⟨e₂, e₃, hbody, hclose, rfl⟩

theorem container_of_ok {name : String} {stop : Emitter}
    (h : body (e.openContainer name) = .ok () stop) :
    container name body e = .ok () (stop.closeContainer e) := by
  rw [container_apply, ensuring, bind_of_ok h]
  rfl

theorem enterRoutine_of_ok {path : String → String → String} {name : String} {kind : MethodKind}
    {count : Nat} (h : routine path name kind count body e = .ok () e') :
    ∃ scopes, (ScopeStack.enterRoutine name).run e.scopes = .ok () scopes := by
  obtain ⟨⟨containers, firstSlot⟩, code, diagnostics, source, paths, events⟩ := e
  cases containers with
  | nil => cases h
  | cons c outer => exact ⟨_, rfl⟩

theorem routine_of_ok {path : String → String → String} {name : String} {kind : MethodKind}
    {count : Nat} {scopes : ScopeStack} {stop e₁ : Emitter}
    (henter : (ScopeStack.enterRoutine name).run e.scopes = .ok () scopes)
    (hbody : body (e.openRoutine (path e.scopes.path name) name kind scopes) = .ok () stop)
    (hclose : (do logRoutine name count; op .endMethod : Emit Unit) stop = .ok () e₁) :
    routine path name kind count body e = .ok () (e₁.closeRoutine e) := by
  rw [routine_apply henter, ensuring, ensuring, bind_of_ok hbody, hclose]
  rfl

theorem routine_ok {path : String → String → String} {name : String} {kind : MethodKind}
    {count : Nat} (h : routine path name kind count body e = .ok () e') (hp : p ≠ .outside)
    (he : e.scopes.Holds fields r p) :
    ∃ e₁ e₂, body e₁ = .ok () e₂ ∧
      e₁.scopes.Holds fields (.new name e.scopes.firstSlot) .inMethod ∧
      e₁.scopes.firstSlot = e.scopes.firstSlot ∧ e₁.source = e.source ∧
      ∀ {refs : List Reference} {fields' : List String} {code : List Op},
        Emits .inMethod e₁ e₂ (.new name e.scopes.firstSlot) refs fields' code →
          Emits p e e' r [] fields' (.beginMethod name kind :: code ++ [.endMethod]) := by
  obtain ⟨owner, routines, outer, hc, henter⟩ := he.enterRoutine hp name
  obtain ⟨e₂, e₃, hbody, hclose, rfl⟩ := routine_split h henter
  obtain ⟨_, e₅, hlog, hend⟩ := bind_ok hclose
  have hin : ScopeStack.Holds (e.openRoutine (path e.scopes.path name) name kind
      { e.scopes with
        containers := ⟨owner, fields, .new name e.scopes.firstSlot :: routines⟩ :: outer }).scopes
      fields (.new name e.scopes.firstSlot) .inMethod := ⟨owner, routines, outer, rfl⟩
  refine ⟨_, e₂, hbody, hin, rfl, rfl, fun hemits => ?_⟩
  have hlogged := hemits.trans (logRoutine_ok hlog (hemits.holds hin))
  have hall := hlogged.trans (op_ok hend (hlogged.holds hin))
  refine ⟨?_, ?_, hall.source, id⟩
  · -- The new routine is the one that is closed.
    have hscopes := hall.scopes
    simp only [Emitter.openRoutine, ScopeStack.update] at hscopes
    simp only [Emitter.closeRoutine, hscopes, ScopeStack.unwindRoutines,
      ScopeStack.unwindContainers, ScopeStack.keepOutermost, ScopeStack.depth,
      ScopeStack.routineDepth, ScopeStack.container?, hc, RoutineScope.noteAll, List.foldl_nil]
    cases p with
    | outside => exact absurd rfl hp
    | inClass => simp [ScopeStack.update, hc]
    | inMethod =>
      obtain ⟨_, routines', _, hc'⟩ := he
      rw [hc] at hc'
      cases hc'
      simp [ScopeStack.update, hc]
  · simpa [Emitter.openRoutine, Emitter.closeRoutine] using hall.code

end Emit

open Emit

theorem Outline.references_eq_nil {p : Place} (hp : p ≠ .inMethod) (o : Outline p) :
    o.references = [] := by
  induction o with
  | nil => rfl
  | instr => exact absurd rfl hp
  | routine _ _ _ _ _ _ _ _ ih => exact ih hp
  | container _ _ _ _ ih => exact ih hp

theorem exists_lowerFrom_take {index : Nat} {instrs : List Instruction} {e e' : Emitter}
    (h : (lowerFrom index instrs).run e = .ok () e') (n : Nat) :
    ∃ e₁, (lowerFrom index (instrs.take n)).run e = .ok () e₁ := by
  rw [← List.take_append_drop n instrs, lowerFrom_append] at h
  obtain ⟨⟨⟩, e₁, h₁, -⟩ := bind_ok h
  exact ⟨e₁, h₁⟩

theorem Outline.lower_ok {p : Place} (o : Outline p) {e e' : Emitter} {fields : List String}
    {r s : RoutineScope} (h : o.lower e = .ok () e') (he : e.scopes.Holds fields r p)
    (hs : s.Extends (r.noteAll o.references)) :
    Emits p e e' r o.references (o.fieldsAfter fields)
      (o.code e.scopes.firstSlot e.source s fields) ∧ o.Fits e.scopes.firstSlot := by
  induction o generalizing e e' fields r s with
  | nil =>
    cases h
    exact ⟨.refl he, trivial⟩
  | instr index i rest ih =>
    obtain ⟨_, e₁, h₁, h₂⟩ := bind_ok h
    have hfirst := simple_ok h₁ he (hs.of_append rest.references)
    have hrest := ih h₂ (hfirst.holds he) (by rw [← RoutineScope.noteAll_append]; exact hs)
    rw [hfirst.firstSlot, hfirst.source] at hrest
    exact ⟨hfirst.trans hrest.1, hrest.2⟩
  | routine hp path name kind count body rest ihBody ihRest =>
    obtain ⟨_, e₁, h₁, h₂⟩ := bind_ok h
    obtain ⟨e₂, e₃, hbody, he₂, hslot, hsource, hclose⟩ := routine_ok h₁ hp he
    have hinner := ihBody hbody he₂ (.refl _)
    have hfirst := hclose hinner.1
    have hrest := ihRest h₂ (hfirst.holds he) hs
    rw [hfirst.firstSlot, hfirst.source] at hrest
    rw [hslot, hsource] at hfirst hinner
    refine ⟨?_, hinner.1.fits (RoutineScope.fits_new _ _), hinner.2, hrest.2⟩
    have hall := hfirst.trans hrest.1
    simp only [List.append_assoc, List.singleton_append] at hall
    exact hall
  | container name body rest ihBody ihRest =>
    obtain ⟨_, e₁, h₁, h₂⟩ := bind_ok h
    obtain ⟨e₂, hbody, hclose⟩ := container_ok h₁ he
    have hnone : body.references = [] := body.references_eq_nil (by decide)
    have hinner := ihBody hbody (r := r) ⟨name, [], e.scopes.containers, rfl⟩
      (by rw [hnone]; exact hs.trans (RoutineScope.extends_noteAll r _))
    rw [hnone] at hinner
    have hfirst := hclose hinner.1
    have hrest := ihRest h₂ (hfirst.holds he) hs
    rw [hfirst.firstSlot, hfirst.source] at hrest
    refine ⟨?_, hinner.2, hrest.2⟩
    have hall := hfirst.trans hrest.1
    simp only [List.append_assoc, List.singleton_append] at hall
    exact hall

namespace Outline

variable {p : Place} {e e' : Emitter} {fields : List String} {r : RoutineScope} {name : String}

theorem emits_routine {path : String → String → String} {kind : MethodKind} {count : Nat}
    {body : Outline .inMethod} (h : Emit.routine path name kind count body.lower e = .ok () e')
    (hp : p ≠ .outside) (he : e.scopes.Holds fields r p) :
    Emits p e e' r [] (body.fieldsAfter fields)
      (.beginMethod name kind ::
        body.code e.scopes.firstSlot e.source (scope e.scopes.firstSlot name body) fields ++
          [.endMethod]) := by
  have hall : (Outline.routine hp path name kind count body .nil).lower e = .ok () e' := by
    rw [Outline.lower, Outline.lower, bind_pure]
    exact h
  exact (Outline.lower_ok _ hall he (.refl _)).1

theorem emits_container {body : Outline .inClass}
    (h : Emit.container name body.lower e = .ok () e') (he : e.scopes.Holds fields r p) :
    Emits p e e' r [] fields
      (.beginClass name e.source :: body.code e.scopes.firstSlot e.source r [] ++ [.endClass]) := by
  have hall : (Outline.container name body (.nil : Outline p)).lower e = .ok () e' := by
    rw [Outline.lower, Outline.lower, bind_pure]
    exact h
  exact (Outline.lower_ok _ hall he (.refl _)).1

end Outline

end StackBackend
