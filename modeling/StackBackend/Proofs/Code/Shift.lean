import StackBackend.Proofs.Code.Paths

/-!
# Shifting slots

When a number is added to every slot in code, the verifier takes the same steps as before and only
reports more local slots, provided that there are any. In code of which all brackets are closed
every operation that uses a slot stands in a method, so that the slot counts.
-/
namespace StackBackend.Code

def Slot.shift (amount : UInt16) (s : Slot) : Slot := ⟨s.index + amount⟩

namespace Op

def slot? : Op → Option Slot
  | .load s | .store s => some s
  | _ => none

def shift (amount : UInt16) : Op → Op
  | .load s => .load (s.shift amount)
  | .store s => .store (s.shift amount)
  | op => op

/-- With the shift the slot is still one that a method has. -/
def Shiftable (amount : UInt16) (op : Op) : Prop :=
  ∀ s ∈ op.slot?, s.index.toNat + amount.toNat < UInt16.size

theorem shiftable_of_eq_none {amount : UInt16} {op : Op} (h : op.slot? = none) :
    op.Shiftable amount := by
  intro s hs
  rw [h] at hs
  cases hs

end Op

variable {amount : UInt16}

theorem Slot.toNat_shift {s : Slot} (h : s.index.toNat + amount.toNat < UInt16.size) :
    (s.shift amount).index.toNat = s.index.toNat + amount.toNat := by
  rw [shift, UInt16.toNat_add]
  exact Nat.mod_eq_of_lt h

def Stats.shift (amount : UInt16) (x : Stats) : Stats :=
  { x with maxLocals := if x.maxLocals = 0 then 0 else x.maxLocals + amount.toNat }

namespace Walk

def shift (amount : UInt16) (w : Walk) : Walk := { w with stats := w.stats.shift amount }

variable (w : Walk) (offset : Nat)

@[simp]
theorem classes_shift : (w.shift amount).classes = w.classes := rfl

theorem useSlot_shift {s : Slot} (hs : s.index.toNat + amount.toNat < UInt16.size) :
    (w.shift amount).useSlot (s.shift amount) = (w.useSlot s).shift amount := by
  simp only [shift, useSlot, Stats.shift, Slot.toNat_shift hs]
  congr 2
  grind

theorem note_shift (f : MethodFrame) {op : Op} (h : op.Shiftable amount) :
    (w.shift amount).note offset f (op.shift amount) =
      ((w.note offset f op).1.shift amount, (w.note offset f op).2) := by
  cases op with
  | load s => exact congrArg (·, f) (w.useSlot_shift (h s rfl))
  | store s => exact congrArg (·, f) (w.useSlot_shift (h s rfl))
  | mark m =>
    simp only [Op.shift, note, placeMark]
    split <;> rfl
  | _ => rfl

theorem balance_shift (f : MethodFrame) (op : Op) :
    (w.shift amount).balance offset f (op.shift amount) =
      ((w.balance offset f op).1.shift amount, (w.balance offset f op).2) := by
  have heffect : (op.shift amount).stackEffect = op.stackEffect := by cases op <;> rfl
  simp only [balance, heffect]
  split <;> rfl

theorem code_shift {op : Op} (h : op.Shiftable amount) :
    (w.shift amount).code offset (op.shift amount) = (w.code offset op).shift amount := by
  simp only [code, classes_shift]
  split
  · simp only [note_shift w offset _ h, balance_shift]
    rfl
  · rfl

theorem closeMethod_shift (f : MethodFrame) :
    (w.shift amount).closeMethod f = (w.closeMethod f).shift amount := by
  have herrors : ∀ (marks : List Mark) (w : Walk),
      marks.foldl (fun w m => w.error (.undefinedMark f.name m)) (w.shift amount) =
        (marks.foldl (fun w m => w.error (.undefinedMark f.name m)) w).shift amount := by
    intro marks
    induction marks with
    | nil => exact fun _ => rfl
    | cons m rest ih => exact fun w => ih (w.error (.undefinedMark f.name m))
  simp only [closeMethod, herrors]
  split <;> rfl

theorem step_shift {op : Op} (h : op.Shiftable amount) :
    (w.shift amount).step offset (op.shift amount) = (w.step offset op).shift amount := by
  cases op with
  | beginClass _ _ => rfl
  | endClass =>
    simp only [Op.shift, step, endClass, classes_shift]
    split <;> rfl
  | declareField name =>
    simp only [Op.shift, step, declareField, classes_shift]
    split
    · rfl
    · split <;> rfl
  | beginMethod name _ =>
    simp only [Op.shift, step, beginMethod, classes_shift]
    split <;> rfl
  | endMethod =>
    simp only [Op.shift, step, endMethod, classes_shift]
    split
    · exact closeMethod_shift { w with classes := _ } _
    · rfl
  | _ => exact w.code_shift offset h

theorem run_shift {code : List Op} (h : ∀ op ∈ code, op.Shiftable amount) :
    (w.shift amount).run offset (code.map (Op.shift amount)) =
      (w.run offset code).shift amount := by
  induction code generalizing w offset with
  | nil => rfl
  | cons op rest ih =>
    obtain ⟨hop, hrest⟩ := List.forall_mem_cons.1 h
    rw [List.map_cons, run, run, step_shift w offset hop, ih _ _ hrest]

theorem finish_shift : (w.shift amount).finish = w.finish.shift amount := by
  simp only [finish, classes_shift]
  split <;> rfl

end Walk

theorem Verifier.verify_shift (v : Verifier) {code : List Op}
    (h : ∀ op ∈ code, op.Shiftable amount) :
    v.verify (code.map (Op.shift amount)) =
      { v.verify code with stats := (v.verify code).stats.shift amount } := by
  have hall : (((v.start code.length).run 0 code).shift amount).finish = _ :=
    Walk.finish_shift _
  rw [← Walk.run_shift _ 0 h] at hall
  have hstart : (v.start code.length).shift amount = v.start code.length := rfl
  rw [hstart, Verifier.start] at hall
  simp only [Verifier.verify, List.length_map, hall]
  rfl

/-- How many local slots there must be for an operation, where `n` are needed already. -/
def Op.locals (n : Nat) (op : Op) : Nat :=
  match op.slot? with
  | some s => max n (s.index.toNat + 1)
  | none => n

namespace Walk

variable (w : Walk) (offset : Nat)

theorem maxLocals_code {fields : List String} {f : MethodFrame} {methods : List MethodFrame}
    {outer : List ClassFrame} (hw : w.classes = ⟨fields, f :: methods⟩ :: outer) (op : Op) :
    (w.code offset op).stats.maxLocals = op.locals w.stats.maxLocals := by
  have hbalance : ∀ (w : Walk) (f : MethodFrame),
      (w.balance offset f op).1.stats.maxLocals = w.stats.maxLocals := by
    intro w f
    simp only [balance]
    split <;> rfl
  simp only [code, hw, hbalance]
  cases op with
  | mark m =>
    simp only [note, placeMark]
    split <;> rfl
  | _ => rfl

theorem maxLocals_declareField (name : String) :
    (w.declareField offset name).stats.maxLocals = w.stats.maxLocals := by
  unfold declareField
  split
  · rfl
  · split <;> rfl

theorem maxLocals_beginMethod (name : String) :
    (w.beginMethod offset name).stats.maxLocals = w.stats.maxLocals := by
  unfold beginMethod
  split <;> rfl

end Walk

namespace Bracketed

variable {p : Place} {code : List Op} {parts : Parts}

theorem maxLocals_run (h : Bracketed p code parts) {w : Walk} {fields : List String}
    {f : MethodFrame} {methods : List MethodFrame} {outer : List ClassFrame}
    (hw : w.classes = openAt p fields f methods outer) (offset : Nat) :
    (w.run offset code).stats.maxLocals = code.foldl Op.locals w.stats.maxLocals := by
  induction h generalizing w fields f methods outer offset with
  | nil => rfl
  | @declare p name rest parts hp _ ih =>
    have hfirst := Walk.Passes.declareField hp hw offset name
    rw [Walk.run, Walk.step, ih hfirst.classes, Walk.maxLocals_declareField]
    rfl
  | @plain op rest parts hop _ ih =>
    have hfirst := Walk.Passes.code hw offset hop
    rw [Walk.run, Walk.step_plain hop, ih hfirst.classes, w.maxLocals_code offset hw]
    rfl
  | @method p name kind body rest inner parts hp hbody _ ihBody ihRest =>
    have hopened := Walk.classes_beginMethod hp hw offset name
    have hfirst := Walk.Passes.method hp hw kind (offset + 1 + body.length)
      (hbody.passes hopened (offset + 1))
    rw [Walk.run, Walk.run_append, Walk.run, Walk.step, Walk.step, ihRest hfirst.classes,
      Walk.stats_endMethod, ihBody hopened, Walk.maxLocals_beginMethod, List.foldl_cons,
      List.foldl_append]
    rfl
  | @container p name source body rest inner parts hbody _ ihBody ihRest =>
    have hopened : w.beginClass.classes = openAt .inClass [] f [] w.classes := rfl
    have hfirst := Walk.Passes.container hw (offset + 1 + body.length)
      (hbody.acceptsAll_direct (by decide) f) (hbody.passes hopened (offset + 1))
    rw [Walk.run, Walk.run_append, Walk.run, Walk.step, Walk.step, ihRest hfirst.classes,
      Walk.stats_endClass, ihBody hopened, List.foldl_cons, List.foldl_append]
    rfl

theorem maxLocals_verify (h : Bracketed .outside code parts) (v : Verifier) :
    (v.verify code).stats.maxLocals = code.foldl Op.locals 0 := by
  rw [Verifier.stats_verify, h.finish_run]
  exact h.maxLocals_run (v.classes_start code.length) 0

end Bracketed

theorem foldl_locals_eq_zero {code : List Op} {n : Nat} :
    code.foldl Op.locals n = 0 ↔ n = 0 ∧ ∀ op ∈ code, op.slot? = none := by
  induction code generalizing n with
  | nil => simp
  | cons op rest ih =>
    rw [List.foldl_cons, ih, List.forall_mem_cons, ← and_assoc, Op.locals]
    cases op.slot? <;> simp

theorem Bracketed.verify_shift {code : List Op} {parts : Parts}
    (h : Bracketed .outside code parts) (hcode : ∀ op ∈ code, op.Shiftable amount)
    (v : Verifier) :
    v.verify (code.map (Op.shift amount)) =
      { v.verify code with
        stats := { (v.verify code).stats with
          maxLocals := (v.verify code).stats.maxLocals +
            if code.any (·.slot?.isSome) then amount.toNat else 0 } } := by
  have hzero : (v.verify code).stats.maxLocals = 0 ↔ ¬ code.any (·.slot?.isSome) := by
    rw [h.maxLocals_verify, foldl_locals_eq_zero]
    simp
  rw [v.verify_shift hcode, Stats.shift]
  by_cases hany : code.any (·.slot?.isSome)
  · rw [if_neg (mt hzero.1 (not_not_intro hany)), if_pos hany]
  · rw [if_pos (hzero.2 hany), if_neg hany, hzero.2 hany]

end StackBackend.Code
