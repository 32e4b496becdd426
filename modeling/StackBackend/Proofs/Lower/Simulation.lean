import StackBackend.Proofs.Lower.StreamCode

/-!
# Lowered code does what the stream does

A stream and its code run side by side. Between two instructions the operand stack is empty, every
variable has its value in its slot, and the same effects have happened. An instruction keeps this
up: its code pushes the values of the operands in order and acts on them as the instruction does.
Slots and marks are those of the scope at the end of the routine, where no two variables share a
slot and no two labels share a mark.
-/
namespace StackBackend

open Code (Op Slot Mark markPosition)

universe u

variable {Value World : Type u} {I : Interpretation Value World} {code : List Op}

section Machine

variable {b : Activation Slot Value World} {stack : List Value} {position : Nat}

theorem getElem?_of_isPrefix {op : Op} {rest : List Op} (h : op :: rest <+: code.drop position) :
    code[position]? = some op ∧ rest <+: code.drop (position + 1) := by
  obtain ⟨more, hmore⟩ := h
  constructor
  · rw [← Nat.add_zero position, ← List.getElem?_drop, ← hmore]
    rfl
  · refine ⟨more, ?_⟩
    rw [← List.drop_drop, ← hmore]
    rfl

theorem isPrefix_of_append {ops rest : List Op} (h : ops ++ rest <+: code.drop position) :
    ops <+: code.drop position ∧ rest <+: code.drop (position + ops.length) := by
  obtain ⟨more, hmore⟩ := h
  constructor
  · exact ⟨rest ++ more, by rw [← hmore, List.append_assoc]⟩
  · refine ⟨more, ?_⟩
    rw [← List.drop_drop, ← hmore, List.append_assoc, List.drop_left]

theorem runs_op {op : Op} {m : Machine Value World} (h : code[position]? = some op)
    (hexec : op.exec I code position (b.goTo position) stack = some m) :
    Runs (machineStep I code) ⟨b.goTo position, stack⟩ m := by
  refine .single ?_
  simp only [machineStep, Activation.goTo, h]
  exact hexec

theorem runs_declaration {fields : List String} {i : Instruction}
    (h : i.declaration fields <+: code.drop position) :
    Runs (machineStep I code) ⟨b.goTo position, stack⟩
      ⟨b.goTo (position + (i.declaration fields).length), stack⟩ := by
  rcases i.declaration_cases fields with ⟨hnone, -⟩ | ⟨name, -, hsome, -⟩
  · rw [hnone]
    exact .refl
  · rw [hsome] at h ⊢
    exact runs_op (getElem?_of_isPrefix h).1 rfl

theorem runs_push {r : RoutineScope} {locals : Variable → Value} {o : Operand} {x : Value}
    (hvalue : o.value? I locals = some x)
    (hlocals : ∀ v, .var v ∈ o.references → b.locals (r.slotOf v) = locals v)
    (h : o.ops r <+: code.drop position) :
    Runs (machineStep I code) ⟨b.goTo position, stack⟩
      ⟨b.goTo (position + (o.ops r).length), x :: stack⟩ := by
  match o with
  | .constant c =>
    cases hvalue
    exact runs_op (getElem?_of_isPrefix h).1 rfl
  | .variable v =>
    cases hvalue
    rw [← hlocals v List.mem_cons_self]
    exact runs_op (getElem?_of_isPrefix h).1 rfl
  | .field _ | .label _ => cases hvalue

theorem runs_pushes (stack : List Value) {r : RoutineScope} {locals : Variable → Value}
    {operands : List Operand} {values : List Value}
    (hvalues : operands.mapM (Operand.value? I locals) = some values)
    (hlocals : ∀ x, .var x ∈ operands.flatMap Operand.references →
      b.locals (r.slotOf x) = locals x)
    (h : operands.flatMap (Operand.ops r) <+: code.drop position) :
    Runs (machineStep I code) ⟨b.goTo position, stack⟩
      ⟨b.goTo (position + (operands.flatMap (Operand.ops r)).length), values.reverse ++ stack⟩ := by
  induction operands generalizing values position stack with
  | nil =>
    cases hvalues
    exact .refl
  | cons o rest ih =>
    rw [List.mapM_cons] at hvalues
    obtain ⟨x, hx, hrest⟩ := Option.bind_eq_some_iff.1 hvalues
    obtain ⟨xs, hxs, heq⟩ := Option.bind_eq_some_iff.1 hrest
    cases heq
    rw [List.flatMap_cons] at h hlocals
    obtain ⟨hfirst, hcode⟩ := isPrefix_of_append h
    rw [List.flatMap_cons, List.length_append, ← Nat.add_assoc, List.reverse_cons,
      List.append_assoc]
    refine Relation.ReflTransGen.trans (runs_push hx (fun v hv => ?_) hfirst)
      (ih _ hxs (fun v hv => ?_) hcode)
    · exact hlocals v (List.mem_append_left _ hv)
    · exact hlocals v (List.mem_append_right _ hv)

end Machine

def Agrees (r : RoutineScope) (locals : Variable → Value) (slots : Slot → Value) : Prop :=
  ∀ v, r.Knows (.var v) → slots (r.slotOf v) = locals v

/-- The same effects have happened, and every variable has its value in its slot. -/
structure Corresponds (r : RoutineScope) (a : Activation Variable Value World)
    (b : Activation Slot Value World) : Prop where
  locals : Agrees r a.locals b.locals
  world : b.world = a.world
  trace : b.trace = a.trace

def Control.map (f : Nat → Nat) : Control → Control
  | .running position => .running (f position)
  | .returned => .returned

/-- The machine is where the stream is, between two instructions. The code of the instruction at a
position begins at its point. -/
structure Matches (point : Nat → Nat) (r : RoutineScope) (a : Activation Variable Value World)
    (m : Machine Value World) : Prop where
  control : m.activation.control = a.control.map point
  stack : m.stack = []
  state : Corresponds r a m.activation

namespace Corresponds

variable {r : RoutineScope} {a : Activation Variable Value World} {b : Activation Slot Value World}

theorem setLocal (h : Corresponds r a b) (hfits : r.Fits) {v : Variable} (hv : r.Knows (.var v))
    (x : Value) : Corresponds r (a.setLocal v x) (b.setLocal (r.slotOf v) x) := by
  refine ⟨fun u hu => ?_, h.world, h.trace⟩
  by_cases heq : u = v
  · subst heq
    simp [Activation.setLocal]
  · have hslot : r.slotOf u ≠ r.slotOf v := fun hs => heq (hfits.slotOf_injective hu hv hs)
    simp only [Activation.setLocal, Function.update_of_ne hslot, Function.update_of_ne heq]
    exact h.locals u hu

theorem record (h : Corresponds r a b) (effect : Effect Value) (world : World) :
    Corresponds r (a.record effect world) (b.record effect world) :=
  ⟨h.locals, rfl, congrArg (· ++ [effect]) h.trace⟩

theorem goTo (h : Corresponds r a b) (p q : Nat) : Corresponds r (a.goTo p) (b.goTo q) :=
  ⟨h.locals, h.world, h.trace⟩

theorem finish (h : Corresponds r a b) (x : Value) : Corresponds r (a.finish x) (b.finish x) := by
  refine ⟨h.locals, h.world, ?_⟩
  exact congrArg (· ++ [Effect.returned x]) h.trace

end Corresponds

theorem length_of_mapM {α : Type} {β : Type u} {f : α → Option β} {l : List α} {values : List β}
    (h : l.mapM f = some values) : values.length = l.length := by
  induction l generalizing values with
  | nil =>
    cases h
    rfl
  | cons x rest ih =>
    rw [List.mapM_cons] at h
    obtain ⟨y, -, hrest⟩ := Option.bind_eq_some_iff.1 h
    obtain ⟨ys, hys, heq⟩ := Option.bind_eq_some_iff.1 hrest
    cases heq
    exact congrArg (· + 1) (ih hys)

section Instruction

variable {r : RoutineScope} {instrs : List Instruction} {point : Nat → Nat} {k start : Nat}
  {a a' : Activation Variable Value World} {b : Activation Slot Value World}

theorem runs_evaluated {i : Instruction} {values : List Value}
    (hvalues : i.evaluated.mapM (Operand.value? I a.locals) = some values)
    (hstate : Corresponds r a b) (hknows : ∀ ref ∈ i.references, r.Knows ref)
    (hcode : i.ops r <+: code.drop start) :
    ∃ q, Runs (machineStep I code) ⟨b.goTo start, []⟩ ⟨b.goTo q, values.reverse⟩ ∧
      i.action r <+: code.drop q ∧ start + (i.ops r).length = q + (i.action r).length := by
  obtain ⟨hpushes, haction⟩ := isPrefix_of_append hcode
  have hlocals : ∀ v, .var v ∈ i.evaluated.flatMap Operand.references →
      b.locals (r.slotOf v) = a.locals v := by
    intro v hv
    obtain ⟨o, ho, href⟩ := List.mem_flatMap.1 hv
    exact hstate.locals v (hknows _ (Instruction.mem_references_of_mem_evaluated ho href))
  have hrun := runs_pushes [] hvalues hlocals hpushes
  rw [List.append_nil] at hrun
  refine ⟨_, hrun, haction, ?_⟩
  rw [Instruction.ops, List.length_append, Nat.add_assoc]

theorem Matches.next {q : Nat} (hstate : Corresponds r a b) (hpoint : point (k + 1) = q) :
    Matches point r (a.goTo (k + 1)) ⟨b.goTo q, []⟩ :=
  ⟨congrArg Control.running hpoint.symm, rfl, hstate.goTo _ _⟩

theorem simulates_store {v : Variable} {q : Nat} (hstate : Corresponds r a b) (hfits : r.Fits)
    (hv : r.Knows (.var v)) (hstore : code[q]? = some (.store (r.slotOf v)))
    (hpoint : point (k + 1) = q + 1) (x : Value) :
    ∃ m, Runs (machineStep I code) ⟨b.goTo q, [x]⟩ m ∧
      Matches point r ((a.setLocal v x).goTo (k + 1)) m :=
  ⟨⟨(b.setLocal (r.slotOf v) x).goTo (q + 1), []⟩, runs_op hstore rfl,
    .next (hstate.setLocal hfits hv x) hpoint⟩

theorem exec_invoke {method : String} {xs : List Value} {y : Value} {world : World} {q : Nat}
    (hstate : Corresponds r a b) (hcall : I.call method xs a.world = some (y, world)) :
    (Op.invoke method xs.length).exec I code q (b.goTo q) xs.reverse =
      some ⟨(b.record (.called method xs y) world).goTo (q + 1), [y]⟩ := by
  have hworld : (b.goTo q).world = a.world := hstate.world
  have hargs : (xs.reverse.take xs.length).reverse = xs := by
    rw [← List.length_reverse, List.take_length, List.reverse_reverse]
  have hrest : xs.reverse.drop xs.length = [] := by
    rw [← List.length_reverse, List.drop_length]
  simp only [Op.exec, List.length_reverse, Nat.lt_irrefl, if_false, hargs, hrest, hworld, hcall]
  rfl

theorem exec_getField {field : String} {x y : Value} {world : World} {q : Nat}
    (hstate : Corresponds r a b) (hget : I.getField field x a.world = some (y, world)) :
    (Op.getField field).exec I code q (b.goTo q) [x] =
      some ⟨(b.record (.read x field y) world).goTo (q + 1), [y]⟩ := by
  have hworld : (b.goTo q).world = a.world := hstate.world
  simp only [Op.exec, hworld, hget]
  rfl

theorem exec_putField {field : String} {x y : Value} {world : World} {q : Nat}
    (hstate : Corresponds r a b) (hput : I.putField field x y a.world = some world) :
    (Op.putField field).exec I code q (b.goTo q) [y, x] =
      some ⟨(b.record (.wrote x field y) world).goTo (q + 1), []⟩ := by
  have hworld : (b.goTo q).world = a.world := hstate.world
  simp only [Op.exec, hworld, hput]
  rfl

theorem simulates_branch {l : Label} {x y : Value} {q : Nat} (hstate : Corresponds r a b)
    (hgoto : code[q]? = some (.gotoIfEqual (r.markOf l))) (hpoint : point (k + 1) = q + 1)
    (hmark : markPosition code (r.markOf l) = (labelPosition instrs l).map point)
    (hstep : (if I.equal x y a.world then (labelPosition instrs l).map a.goTo
      else some (a.goTo (k + 1))) = some a') :
    ∃ m, Runs (machineStep I code) ⟨b.goTo q, [y, x]⟩ m ∧ Matches point r a' m := by
  have hexec : (Op.gotoIfEqual (r.markOf l)).exec I code q (b.goTo q) [y, x] =
      if I.equal x y a.world then (markPosition code (r.markOf l)).map fun n => ⟨b.goTo n, []⟩
      else some ⟨b.goTo (q + 1), []⟩ := by
    rw [← hstate.world]
    rfl
  by_cases hequal : I.equal x y a.world
  · rw [if_pos hequal] at hstep hexec
    obtain ⟨n, hn, heq⟩ := Option.map_eq_some_iff.1 hstep
    cases heq
    rw [hmark, hn] at hexec
    exact ⟨_, runs_op hgoto hexec, rfl, rfl, hstate.goTo _ _⟩
  · rw [if_neg hequal] at hstep hexec
    cases hstep
    exact ⟨_, runs_op hgoto hexec, .next hstate hpoint⟩

/-- The code of an instruction does what the instruction does. It begins at `start` with an empty
stack, and the code of the next instruction begins where it ends. -/
theorem simulates_instruction {i : Instruction} (hstep : i.exec I instrs k a = some a')
    (hstate : Corresponds r a b) (hfits : r.Fits) (hknows : ∀ ref ∈ i.references, r.Knows ref)
    (hcode : i.ops r <+: code.drop start) (hnext : point (k + 1) = start + (i.ops r).length)
    (hlabel : ∀ l, i.target? = some l →
      markPosition code (r.markOf l) = (labelPosition instrs l).map point) :
    ∃ m, Runs (machineStep I code) ⟨b.goTo start, []⟩ m ∧ Matches point r a' m := by
  cases i with
  | label l =>
    cases hstep
    exact ⟨⟨b.goTo (start + 1), []⟩, runs_op (getElem?_of_isPrefix hcode).1 rfl,
      .next hstate hnext⟩
  | jump l =>
    obtain ⟨n, hn, heq⟩ := Option.map_eq_some_iff.1 hstep
    cases heq
    have hmark := hlabel l rfl
    rw [hn] at hmark
    refine ⟨⟨b.goTo (point n), []⟩, runs_op (getElem?_of_isPrefix hcode).1 ?_, rfl, rfl,
      hstate.goTo _ _⟩
    exact congrArg (Option.map _) hmark
  | branch lhs rhs l =>
    obtain ⟨x, hx, hstep⟩ := Option.bind_eq_some_iff.1 hstep
    obtain ⟨y, hy, hstep⟩ := Option.bind_eq_some_iff.1 hstep
    have hvalues : [lhs, rhs].mapM (Operand.value? I a.locals) = some [x, y] := by
      simp [hx, hy]
    obtain ⟨q, hpushes, haction, hend⟩ := runs_evaluated hvalues hstate hknows hcode
    obtain ⟨hgoto, -⟩ := getElem?_of_isPrefix haction
    obtain ⟨m, hbranch, hmatch⟩ :=
      simulates_branch hstate hgoto (hnext.trans hend) (hlabel l rfl) hstep
    exact ⟨m, hpushes.trans hbranch, hmatch⟩
  | copy v source =>
    obtain ⟨x, hx, hstep⟩ := Option.bind_eq_some_iff.1 hstep
    cases hstep
    have hvalues : [source].mapM (Operand.value? I a.locals) = some [x] := by
      simp [hx]
    obtain ⟨q, hpushes, haction, hend⟩ := runs_evaluated hvalues hstate hknows hcode
    obtain ⟨hstore, -⟩ := getElem?_of_isPrefix haction
    have hv : r.Knows (.var v) := hknows _ List.mem_cons_self
    obtain ⟨m, hstored, hmatch⟩ := simulates_store hstate hfits hv hstore (hnext.trans hend) x
    exact ⟨m, hpushes.trans hstored, hmatch⟩
  | call result method args =>
    obtain ⟨xs, hxs, hstep⟩ := Option.bind_eq_some_iff.1 hstep
    obtain ⟨⟨y, world⟩, hcall, hstep⟩ := Option.bind_eq_some_iff.1 hstep
    obtain ⟨q, hpushes, haction, hend⟩ :=
      runs_evaluated (i := .call result method args) hxs hstate hknows hcode
    have hexec : (Op.invoke method xs.length).exec I code q (b.goTo q) xs.reverse = _ :=
      exec_invoke hstate hcall
    rw [length_of_mapM hxs] at hexec
    have hrecorded := hstate.record (.called method xs y) world
    cases result with
    | some v =>
      cases hstep
      obtain ⟨hinvoke, htail⟩ := getElem?_of_isPrefix haction
      obtain ⟨hstore, -⟩ := getElem?_of_isPrefix htail
      have hv : r.Knows (.var v) :=
        hknows _ (List.mem_append_right _ List.mem_cons_self)
      obtain ⟨m, hstored, hmatch⟩ :=
        simulates_store hrecorded hfits hv hstore (hnext.trans hend) y
      exact ⟨m, (hpushes.trans (runs_op hinvoke hexec)).trans hstored, hmatch⟩
    | none =>
      cases hstep
      obtain ⟨hinvoke, htail⟩ := getElem?_of_isPrefix haction
      obtain ⟨hpop, -⟩ := getElem?_of_isPrefix htail
      exact ⟨⟨(b.record (.called method xs y) world).goTo (q + 1 + 1), []⟩,
        (hpushes.trans (runs_op hinvoke hexec)).trans (runs_op hpop rfl),
        .next hrecorded (hnext.trans hend)⟩
  | getField v receiver field =>
    obtain ⟨x, hx, hstep⟩ := Option.bind_eq_some_iff.1 hstep
    obtain ⟨⟨y, world⟩, hget, hstep⟩ := Option.bind_eq_some_iff.1 hstep
    cases hstep
    have hvalues : [receiver].mapM (Operand.value? I a.locals) = some [x] := by
      simp [hx]
    obtain ⟨q, hpushes, haction, hend⟩ := runs_evaluated hvalues hstate hknows hcode
    obtain ⟨hread, htail⟩ := getElem?_of_isPrefix haction
    obtain ⟨hstore, -⟩ := getElem?_of_isPrefix htail
    have hv : r.Knows (.var v) := hknows _ (List.mem_append_right _ List.mem_cons_self)
    have hrecorded := hstate.record (.read x field.name y) world
    obtain ⟨m, hstored, hmatch⟩ := simulates_store hrecorded hfits hv hstore (hnext.trans hend) y
    exact ⟨m, (hpushes.trans (runs_op hread (exec_getField hstate hget))).trans hstored, hmatch⟩
  | putField receiver field value =>
    obtain ⟨x, hx, hstep⟩ := Option.bind_eq_some_iff.1 hstep
    obtain ⟨y, hy, hstep⟩ := Option.bind_eq_some_iff.1 hstep
    obtain ⟨world, hput, hstep⟩ := Option.bind_eq_some_iff.1 hstep
    cases hstep
    have hvalues : [receiver, value].mapM (Operand.value? I a.locals) = some [x, y] := by
      simp [hx, hy]
    obtain ⟨q, hpushes, haction, hend⟩ := runs_evaluated hvalues hstate hknows hcode
    obtain ⟨hwrite, -⟩ := getElem?_of_isPrefix haction
    have hrecorded := hstate.record (.wrote x field.name y) world
    exact ⟨_, hpushes.trans (runs_op hwrite (exec_putField hstate hput)),
      .next hrecorded (hnext.trans hend)⟩
  | ret value =>
    obtain ⟨x, hx, hstep⟩ := Option.bind_eq_some_iff.1 hstep
    cases hstep
    have hvalues : [value].mapM (Operand.value? I a.locals) = some [x] := by
      simp [hx]
    obtain ⟨q, hpushes, haction, -⟩ := runs_evaluated hvalues hstate hknows hcode
    obtain ⟨hreturn, -⟩ := getElem?_of_isPrefix haction
    exact ⟨_, hpushes.trans (runs_op hreturn rfl), rfl, rfl, hstate.finish x⟩
  | _ => cases hstep

end Instruction

section Stream

variable {r : RoutineScope} {fields : List String} {instrs : List Instruction}
  {a a' : Activation Variable Value World} {m : Machine Value World}

theorem simulates_step (hfits : r.Fits)
    (hknows : ∀ i ∈ instrs, ∀ ref ∈ i.references, r.Knows ref)
    (hmatch : Matches (codePoint r fields instrs) r a m) (hstep : streamStep I instrs a = some a') :
    ∃ m', Runs (machineStep I (streamCode r fields instrs)) m m' ∧
      Matches (codePoint r fields instrs) r a' m' := by
  obtain ⟨b, stack⟩ := m
  obtain ⟨hcontrol, hstack, hstate⟩ := hmatch
  cases hstack
  unfold streamStep at hstep
  split at hstep
  · rename_i k hk
    obtain ⟨i, hi, hexec⟩ := Option.bind_eq_some_iff.1 hstep
    rw [hk] at hcontrol
    have hmem := List.mem_of_getElem? hi
    obtain ⟨fields', hprefix, hnext⟩ := allOps_isPrefix (r := r) hi
    obtain ⟨hdecl, hcode⟩ := isPrefix_of_append hprefix
    rw [Instruction.allOps, List.length_append, ← Nat.add_assoc] at hnext
    have hlabel : ∀ l, i.target? = some l →
        markPosition (streamCode r fields instrs) (r.markOf l) =
          (labelPosition instrs l).map (codePoint r fields instrs) := by
      intro l hl
      refine markPosition_streamCode fun n hn heq => ?_
      obtain ⟨j, hj, hjn⟩ := List.mem_filterMap.1 hn
      exact hfits.markOf_injective (hknows j hj _ (Instruction.label_mem_references (.inl hjn)))
        (hknows i hmem _ (Instruction.label_mem_references (.inr hl))) heq
    obtain ⟨m', hrun, hmatch'⟩ := simulates_instruction hexec hstate hfits (hknows i hmem) hcode
      hnext hlabel
    have hstart : b = b.goTo (codePoint r fields instrs k) := by
      cases b
      cases hcontrol
      rfl
    refine ⟨m', ?_, hmatch'⟩
    rw [hstart]
    exact (runs_declaration hdecl).trans hrun
  · cases hstep

theorem simulates_run (hfits : r.Fits)
    (hknows : ∀ i ∈ instrs, ∀ ref ∈ i.references, r.Knows ref)
    (hmatch : Matches (codePoint r fields instrs) r a m) (hrun : Runs (streamStep I instrs) a a') :
    ∃ m', Runs (machineStep I (streamCode r fields instrs)) m m' ∧
      Matches (codePoint r fields instrs) r a' m' := by
  induction hrun with
  | refl => exact ⟨m, .refl, hmatch⟩
  | tail _ hstep ih =>
    obtain ⟨m₁, hrun₁, hmatch₁⟩ := ih
    obtain ⟨m₂, hrun₂, hmatch₂⟩ := simulates_step hfits hknows hmatch₁ hstep
    exact ⟨m₂, hrun₁.trans hrun₂, hmatch₂⟩

end Stream

/-- A stream that is lowered in a new routine is simulated by its code, in every interpretation. The
code of the instruction at position `k` begins at `point k`, which is where lowering the
instructions before it ends. -/
theorem lowerStream_simulates {e e' : Emitter} {owner name : String} {fields : List String}
    {firstSlot : UInt16} {routines : List RoutineScope} {outer : List ContainerScope}
    {instrs : List Instruction}
    (hscopes : e.scopes.containers = ⟨owner, fields, .new name firstSlot :: routines⟩ :: outer)
    (hruns : ∀ i ∈ instrs, i.runs) (h : (lowerStream instrs).run e = .ok () e') :
    ∃ (code : List Op) (r : RoutineScope) (point : Nat → Nat),
      e'.code.toList = e.code.toList ++ code ∧ e'.scopes.routine? = some r ∧
      (∀ k, ∃ e₁, (lowerStream (instrs.take k)).run e = .ok () e₁ ∧
        e₁.code.size = e.code.size + point k) ∧
      ∀ {Value World : Type u} (I : Interpretation Value World) (locals : Variable → Value)
        (slots : Slot → Value) (world : World), Agrees r locals slots →
        ∀ a, Runs (streamStep I instrs) ⟨.running 0, locals, world, []⟩ a →
          ∃ m, Runs (machineStep I code) ⟨⟨.running 0, slots, world, []⟩, []⟩ m ∧
            Matches point r a m := by
  have he : e.scopes.Holds fields (.new name firstSlot) .inMethod :=
    ⟨owner, routines, outer, hscopes⟩
  let r := (RoutineScope.new name firstSlot).noteAll (instrs.flatMap Instruction.references)
  obtain ⟨fields', hemits⟩ := lowerStream_ok h he hruns (.refl r)
  refine ⟨streamCode r fields instrs, r, codePoint r fields instrs, hemits.code, ?_, ?_, ?_⟩
  · obtain ⟨_, _, _, hafter⟩ := hemits.holds he
    simp [ScopeStack.routine?, ScopeStack.container?, ContainerScope.routine?, hafter, r]
  · intro k
    obtain ⟨e₁, h₁⟩ := exists_lowerStream_take h he k
    have hextends : r.Extends ((RoutineScope.new name firstSlot).noteAll
        ((instrs.take k).flatMap Instruction.references)) := by
      have hall : r.Extends ((RoutineScope.new name firstSlot).noteAll
          ((instrs.take k).flatMap Instruction.references ++
            (instrs.drop k).flatMap Instruction.references)) := by
        rw [← List.flatMap_append, List.take_append_drop]
        exact .refl r
      exact hall.of_append _
    obtain ⟨_, hemits₁⟩ := lowerStream_ok h₁ he (fun i hi => hruns i (List.mem_of_mem_take hi))
      hextends
    refine ⟨e₁, h₁, ?_⟩
    have hlength := congrArg List.length hemits₁.code
    rwa [List.length_append, Array.length_toList, Array.length_toList] at hlength
  · intro Value World I locals slots world hagrees a hrun
    exact simulates_run (hemits.fits (RoutineScope.fits_new _ _))
      (fun i hi ref href => RoutineScope.knows_noteAll _ (List.mem_flatMap.2 ⟨i, hi, href⟩))
      ⟨rfl, rfl, hagrees, rfl, rfl⟩ hrun

def countdown : List Instruction :=
  [.label ⟨4⟩, .call (some ⟨"x"⟩) "step" [.variable ⟨"x"⟩],
    .branch (.variable ⟨"x"⟩) (.constant .nil) ⟨7⟩, .jump ⟨4⟩, .label ⟨7⟩, .ret (.variable ⟨"x"⟩)]

/-- Values are numbers, `nil` is zero, and every method gives the number before its first argument.
-/
def counting : Interpretation Nat Unit where
  constant _ := 0
  equal x y _ := x == y
  call _ args _ := some (args.headD 0 - 1, ())
  getField _ _ _ := none
  putField _ _ _ _ := none

theorem lowerStream_simulates_countdown :
    ∃ (e : Emitter) (code : List Op) (m : Machine Nat Unit),
      (lowerStream countdown).run (.new ⟨[⟨"Main", [], [.new "run" 3]⟩], 3⟩) = .ok () e ∧
      e.code.toList = code ∧
      Runs (machineStep counting code) ⟨⟨.running 0, fun _ => 2, (), []⟩, []⟩ m ∧
      m.activation.control = .returned ∧ m.stack = [] ∧
      m.activation.trace = [.called "step" [2] 1, .called "step" [1] 0, .returned 0] := by
  have hlower : Emit.code? (lowerStream countdown) (.new ⟨[⟨"Main", [], [.new "run" 3]⟩], 3⟩) =
      some [.mark ⟨0⟩, .load ⟨3⟩, .invoke "step" 1, .store ⟨3⟩, .load ⟨3⟩, .push .nil,
        .gotoIfEqual ⟨1⟩, .goto ⟨0⟩, .mark ⟨1⟩, .load ⟨3⟩, .returnValue] := by cbv
  obtain ⟨e, he, hcode⟩ := Emit.exists_of_code? _ hlower
  have hruns : ∀ i ∈ countdown, i.runs := by decide
  obtain ⟨code, r, point, hall, -, -, hsimulates⟩ := lowerStream_simulates rfl hruns he
  have hrun : Runs (streamStep counting countdown) ⟨.running 0, fun _ => 2, (), []⟩
      ⟨.returned, Function.update (Function.update (fun _ => 2) ⟨"x"⟩ 1) ⟨"x"⟩ 0, (),
        [.called "step" [2] 1, .called "step" [1] 0, .returned 0]⟩ :=
    .head rfl (.head rfl (.head rfl (.head rfl (.head rfl (.head rfl (.head rfl (.head rfl
      (.head rfl .refl))))))))
  obtain ⟨m, hm, hmatch⟩ := hsimulates counting (fun _ => 2) (fun _ => 2) () (fun _ _ => rfl) _ hrun
  refine ⟨e, code, m, he, hall, hm, hmatch.control, hmatch.stack, hmatch.state.trace⟩

end StackBackend
