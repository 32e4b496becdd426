import Mathlib.Data.List.Forall2
import StackBackend.Proofs.Lower.OutlineParts
import StackBackend.Proofs.Lower.Unwinding

/-!
# The stretches of a run

When lowering succeeds, each routine has its stretch of the run, from the emitter in which the
routine has been opened to the one in which its stream has been lowered. The stretches of what the
stream defines lie within. A run is recorded here together with its stretches, in the order in which
the routines are opened; each routine of an outline has one, under the path that it is listed with.
-/
namespace StackBackend

open Code (Op MethodKind)
open Emit

namespace ScopeStack

variable {s t : ScopeStack}

theorem path_enterContainer (h : s.containers ≠ []) (name : String) :
    (s.enterContainer name).path = nestedPath s.path name := by
  have houter : s.containers.reverse.map (·.name) ≠ [] := by simpa using h
  have hinner : [name] ≠ [] := List.cons_ne_nil _ _
  have hall := String.intercalate_append_of_ne_nil houter hinner (s := "::")
  rw [String.intercalate_singleton] at hall
  simpa [enterContainer, path, ContainerScope.new, nestedPath] using hall

theorem path_congr (h : t.containers.map (·.name) = s.containers.map (·.name)) :
    t.path = s.path := by
  rw [path, List.map_reverse, h, path, List.map_reverse]

theorem Grows.names {inner : List RoutineScope → List RoutineScope → Prop}
    (h : s.Grows inner t) : t.containers.map (·.name) = s.containers.map (·.name) := by
  cases h <;> rfl

theorem path_enterRoutine {name : String} (h : (enterRoutine name).run s = .ok () t) :
    t.path = s.path := by
  obtain ⟨c, outer, hc, rfl⟩ := enterRoutine_ok h
  simp [path, hc]

theorem containers_enterRoutine {name : String} (h : (enterRoutine name).run s = .ok () t) :
    t.containers ≠ [] := by
  obtain ⟨c, outer, hc, rfl⟩ := enterRoutine_ok h
  exact List.cons_ne_nil _ _

end ScopeStack

structure Stretch where
  start : Emitter
  stop : Emitter

/-- Over the stretch the body of the routine is lowered, under its path. -/
structure Stretch.Covers (t : Stretch) (o : RoutineOutline) : Prop where
  opened : ∃ kind, t.start.code.back? = some (.beginMethod o.name kind)
  path : t.start.paths.head? = some o.path
  body : o.body.lower.run t.start = .ok () t.stop

namespace Outline

/-- Lowering the outline takes the one emitter to the other, over these stretches. -/
inductive Runs : {p : Place} → Outline p → Emitter → List Stretch → Emitter → Prop
  | nil {p : Place} {e : Emitter} : Runs (.nil : Outline p) e [] e
  | instr {index : Nat} {i : Instruction} {rest : Outline .inMethod} {e e₁ e' : Emitter}
      {ts : List Stretch} (first : (simple index i).run e = .ok () e₁) (next : rest.Runs e₁ ts e') :
      Runs (.instr index i rest) e ts e'
  | routine {p : Place} {placed : p ≠ .outside} {path : String → String → String} {name : String}
      {kind : MethodKind} {count : Nat} {body : Outline .inMethod} {rest : Outline p}
      {scopes : ScopeStack} {e stop e₁ e' : Emitter} {inner ts : List Stretch}
      (entered : (ScopeStack.enterRoutine name).run e.scopes = .ok () scopes)
      (stream : body.Runs (e.openRoutine (path e.scopes.path name) name kind scopes) inner stop)
      (ended : (do logRoutine name count; op .endMethod : Emit Unit).run stop = .ok () e₁)
      (next : rest.Runs (e₁.closeRoutine e) ts e') :
      Runs (.routine placed path name kind count body rest) e
        (⟨e.openRoutine (path e.scopes.path name) name kind scopes, stop⟩ :: (inner ++ ts)) e'
  | container {p : Place} {name : String} {body : Outline .inClass} {rest : Outline p}
      {e stop e' : Emitter} {inner ts : List Stretch}
      (contents : body.Runs (e.openContainer name) inner stop)
      (next : rest.Runs (stop.closeContainer e) ts e') :
      Runs (.container name body rest) e (inner ++ ts) e'

variable {p : Place} {o : Outline p} {e e' : Emitter} {ts : List Stretch}

theorem Runs.lower (h : o.Runs e ts e') : o.lower.run e = .ok () e' := by
  induction h with
  | nil => rfl
  | instr first _ ih => exact (bind_of_ok first _).trans ih
  | routine entered _ ended _ ihBody ihRest =>
    exact (bind_of_ok (routine_of_ok entered ihBody ended) _).trans ihRest
  | container _ _ ihBody ihRest => exact (bind_of_ok (container_of_ok ihBody) _).trans ihRest

theorem exists_runs (h : o.lower.run e = .ok () e') : ∃ ts, o.Runs e ts e' := by
  induction o generalizing e e' with
  | nil =>
    cases h
    exact ⟨[], .nil⟩
  | instr index i rest ih =>
    obtain ⟨_, e₁, first, h₂⟩ := bind_ok h
    obtain ⟨ts, next⟩ := ih h₂
    exact ⟨ts, .instr first next⟩
  | routine placed path name kind count body rest ihBody ihRest =>
    obtain ⟨_, e₁, h₁, h₂⟩ := bind_ok h
    obtain ⟨scopes, entered⟩ := enterRoutine_of_ok h₁
    obtain ⟨stop, e₂, hbody, ended, rfl⟩ := routine_split h₁ entered
    obtain ⟨inner, stream⟩ := ihBody hbody
    obtain ⟨ts, next⟩ := ihRest h₂
    exact ⟨_, .routine entered stream ended next⟩
  | container name body rest ihBody ihRest =>
    obtain ⟨_, e₁, h₁, h₂⟩ := bind_ok h
    obtain ⟨stop, hbody, rfl⟩ := container_split h₁
    obtain ⟨inner, contents⟩ := ihBody hbody
    obtain ⟨ts, next⟩ := ihRest h₂
    exact ⟨_, .container contents next⟩

/-- Lowering succeeds if and only if there is such a record of its run. -/
theorem lower_iff_runs (o : Outline p) (e e' : Emitter) :
    o.lower.run e = .ok () e' ↔ ∃ ts, o.Runs e ts e' :=
  ⟨exists_runs, fun ⟨_, h⟩ => h.lower⟩

/-- Both emitters are in the same class, and the one continues the other. -/
structure Within (e e' : Emitter) : Prop where
  names : e'.scopes.containers.map (·.name) = e.scopes.containers.map (·.name)
  continues : e.Continues e'

theorem Within.path (h : Within e e') : e'.scopes.path = e.scopes.path :=
  ScopeStack.path_congr h.names

theorem Within.opened (h : Within e e') (he : e.scopes.containers ≠ []) :
    e'.scopes.containers ≠ [] := by
  intro hnil
  have hnames := h.names
  rw [hnil] at hnames
  exact he (List.map_eq_nil_iff.1 hnames.symm)

theorem within_of_lower (h : o.lower.run e = .ok () e') : Within e e' := by
  have hadvances := (advances_outline o).of_ok h
  exact ⟨hadvances.scopes.names, hadvances.continues ((samePaths_outline o).of_ok h)⟩

theorem Runs.within (h : o.Runs e ts e') : Within e e' := within_of_lower h.lower

theorem within_simple {index : Nat} {i : Instruction} (first : (simple index i).run e = .ok () e') :
    Within e e' :=
  (Runs.instr first .nil).within

theorem within_routine {path : String → String → String} {name : String} {kind : MethodKind}
    {count : Nat} {body : Outline .inMethod} {scopes : ScopeStack} {stop : Emitter}
    (entered : (ScopeStack.enterRoutine name).run e.scopes = .ok () scopes)
    (stream : body.Runs (e.openRoutine (path e.scopes.path name) name kind scopes) ts stop)
    (ended : (do logRoutine name count; op .endMethod : Emit Unit).run stop = .ok () e') :
    Within e (e'.closeRoutine e) := by
  have hplaced : Place.inClass ≠ .outside := by decide
  have hall : (Outline.routine hplaced path name kind count body .nil).Runs e _ (e'.closeRoutine e) :=
    .routine entered stream ended .nil
  exact hall.within

theorem within_container {name : String} {body : Outline .inClass} {stop : Emitter}
    (contents : body.Runs (e.openContainer name) ts stop) : Within e (stop.closeContainer e) := by
  have hall : (Outline.container name body (.nil : Outline .outside)).Runs e _ _ :=
    .container contents .nil
  exact hall.within

theorem Runs.covers (h : o.Runs e ts e') (hopen : e.scopes.containers ≠ []) :
    List.Forall₂ (fun r t => t.Covers r) (o.routines e.scopes.path) ts := by
  induction h with
  | nil => exact .nil
  | instr first _ ih =>
    have hfirst := within_simple first
    exact hfirst.path ▸ ih (hfirst.opened hopen)
  | @routine _ placed path name kind count body rest scopes e stop e₁ _ _ _ entered stream ended _
      ihBody ihRest =>
    have hfirst := within_routine entered stream ended
    have hinner := ihBody (ScopeStack.containers_enterRoutine entered)
    have hrest := ihRest (hfirst.opened hopen)
    rw [Emitter.openRoutine, ScopeStack.path_enterRoutine entered] at hinner
    rw [hfirst.path] at hrest
    have hbegin : (e.openRoutine (path e.scopes.path name) name kind scopes).code.back? =
        some (.beginMethod name kind) := Array.back?_push
    exact .cons ⟨⟨kind, hbegin⟩, rfl, stream.lower⟩ (List.rel_append hinner hrest)
  | @container _ name body rest e stop _ _ _ contents _ ihBody ihRest =>
    have hfirst := within_container contents
    have hinside : (e.openContainer name).scopes.path = nestedPath e.scopes.path name :=
      ScopeStack.path_enterContainer hopen name
    have hinner := ihBody (List.cons_ne_nil _ _)
    have hrest := ihRest (hfirst.opened hopen)
    rw [hinside] at hinner
    rw [hfirst.path] at hrest
    exact List.rel_append hinner hrest

end Outline

/-- The stretches stand in the order in which they start, and all of them start on the way from the
one emitter to the other. -/
structure Stretch.Ordered (e e' : Emitter) (ts : List Stretch) : Prop where
  ascending : ts.Pairwise fun t t' => t.start.code.size < t'.start.code.size
  after : ∀ t ∈ ts, e.code.size < t.start.code.size
  before : ∀ t ∈ ts, t.start.code.toList <+: e'.code.toList

namespace Stretch.Ordered

variable {e e₁ e₂ e' : Emitter} {t : Stretch} {ts us : List Stretch}

theorem widen (h : Ordered e₁ e₂ ts) (hfirst : e.code.toList <+: e₁.code.toList)
    (hlast : e₂.code.toList <+: e'.code.toList) : Ordered e e' ts where
  ascending := h.ascending
  after t ht := Nat.lt_of_le_of_lt (by simpa using hfirst.length_le) (h.after t ht)
  before t ht := (h.before t ht).trans hlast

theorem append (h : Ordered e e₁ ts) (h' : Ordered e₁ e' us)
    (hfirst : e.code.toList <+: e₁.code.toList) (hlast : e₁.code.toList <+: e'.code.toList) :
    Ordered e e' (ts ++ us) := by
  have hts := h.widen (List.prefix_refl _) hlast
  have hus := h'.widen hfirst (List.prefix_refl _)
  refine ⟨List.pairwise_append.2 ⟨h.ascending, h'.ascending, fun t ht u hu => ?_⟩,
    List.forall_mem_append.2 ⟨hts.after, hus.after⟩,
    List.forall_mem_append.2 ⟨hts.before, hus.before⟩⟩
  have hle : t.start.code.size ≤ e₁.code.size := by simpa using (h.before t ht).length_le
  exact Nat.lt_of_le_of_lt hle (h'.after u hu)

theorem cons (h : Ordered t.start e' ts) (hfirst : e.code.size < t.start.code.size)
    (hlast : t.start.code.toList <+: e'.code.toList) : Ordered e e' (t :: ts) where
  ascending := .cons h.after h.ascending
  after := List.forall_mem_cons.2 ⟨hfirst, fun u hu => Nat.lt_trans hfirst (h.after u hu)⟩
  before := List.forall_mem_cons.2 ⟨hlast, h.before⟩

end Stretch.Ordered

theorem Outline.Runs.ordered {p : Place} {o : Outline p} {e e' : Emitter} {ts : List Stretch}
    (h : o.Runs e ts e') : Stretch.Ordered e e' ts := by
  induction h with
  | nil => exact ⟨.nil, by simp, by simp⟩
  | instr first _ ih => exact ih.widen (within_simple first).continues.code (List.prefix_refl _)
  | @routine _ _ path name kind _ _ _ scopes e stop e₁ e' inner ts entered stream ended next
      ihBody ihRest =>
    have hopened : e.code.size <
        (e.openRoutine (path e.scopes.path name) name kind scopes).code.size := by
      simp [Emitter.openRoutine]
    have hclosed : stop.code.toList <+: (e₁.closeRoutine e).code.toList :=
      ((stable_advances.keeps_bind (stable_advances.keeps_logRoutine name _) fun _ =>
        stable_advances.keeps_op _).of_ok ended).code
    have hinner := ihBody.widen (List.prefix_refl _) hclosed
    have hstream := stream.within.continues.code.trans hclosed
    exact (hinner.append ihRest hstream next.within.continues.code).cons hopened
      (hstream.trans next.within.continues.code)
  | @container _ name _ _ e stop _ _ _ contents next ihBody ihRest =>
    have hopened : e.code.toList <+: (e.openContainer name).code.toList := by
      simp [Emitter.openContainer]
    have hclosed : stop.code.toList <+: (stop.closeContainer e).code.toList := by
      simp [Emitter.closeContainer]
    exact (ihBody.widen hopened hclosed).append ihRest
      (hopened.trans (contents.within.continues.code.trans hclosed)) next.within.continues.code

namespace Script

def start (s : Script) (firstSlot : UInt16) : Emitter :=
  { Emitter.new (.new firstSlot) with source := s.fileName }

theorem path_start (s : Script) (firstSlot : UInt16) :
    ((s.start firstSlot).openContainer s.root.name).scopes.path = s.root.name := by
  simp [start, Emitter.openContainer, Emitter.new, ScopeStack.new, ScopeStack.enterContainer,
    ScopeStack.path, ContainerScope.new]

theorem exists_runs {s : Script} {firstSlot : UInt16} {e : Emitter}
    (h : s.lower.run (.new (.new firstSlot)) = .ok () e) :
    ∃ ts stop,
      s.root.contents.Runs ((s.start firstSlot).openContainer s.root.name) ts stop ∧
        e = stop.closeContainer (s.start firstSlot) := by
  rw [lower_apply, outline, Outline.lower, Outline.lower, bind_pure] at h
  obtain ⟨stop, hbody, rfl⟩ := container_split h
  obtain ⟨ts, contents⟩ := Outline.exists_runs hbody
  exact ⟨ts, stop, contents, rfl⟩

end Script

end StackBackend
