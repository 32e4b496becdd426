import StackBackend.Proofs.Code.Frame

/-!
# Bracketed code

Code in which every bracket is closed is taken apart: the operations that lie directly at a place,
those that belong to the class around it, and the same for every method and every class opened
there. The walk of the verifier through such code is then told from the parts. It ends with the
classes and methods that were open before it, and a method that it goes through is as if only the
operations directly in it had been there.
-/
namespace StackBackend

/-- Where a part of a script or of its code stands. -/
inductive Place where
  | outside
  | inClass
  | inMethod
deriving DecidableEq

namespace Code

/-- A method with the operations that lie directly in it. -/
structure MethodCode where
  name : String
  kind : MethodKind
  ops : List Op

def MethodCode.code (m : MethodCode) : List Op := withoutDeclarations m.ops

structure Parts where
  direct : List Op := []
  /-- The operations that belong to the class around the place, in whichever of its methods. -/
  own : List Op := []
  methods : List MethodCode := []
  /-- What belongs to each class that is opened. -/
  classes : List (List Op) := []

namespace Parts

instance : Append Parts :=
  ⟨fun a b =>
    ⟨a.direct ++ b.direct, a.own ++ b.own, a.methods ++ b.methods, a.classes ++ b.classes⟩⟩

@[simp]
theorem direct_append (a b : Parts) : (a ++ b).direct = a.direct ++ b.direct := rfl

@[simp]
theorem own_append (a b : Parts) : (a ++ b).own = a.own ++ b.own := rfl

@[simp]
theorem methods_append (a b : Parts) : (a ++ b).methods = a.methods ++ b.methods := rfl

@[simp]
theorem classes_append (a b : Parts) : (a ++ b).classes = a.classes ++ b.classes := rfl

def ops (ops : List Op) : Parts := { direct := ops, own := ops }

def method (name : String) (kind : MethodKind) (inner : Parts) : Parts :=
  { own := inner.own
    methods := ⟨name, kind, inner.direct⟩ :: inner.methods
    classes := inner.classes }

def container (inner : Parts) : Parts :=
  { methods := inner.methods, classes := inner.own :: inner.classes }

end Parts

/-- Code with all brackets closed in which everything stands where it may. -/
inductive Bracketed : Place → List Op → Parts → Prop
  | nil {p : Place} : Bracketed p [] {}
  | declare {p : Place} {name : String} {rest : List Op} {parts : Parts} (hp : p ≠ .outside) :
      Bracketed p rest parts →
      Bracketed p (.declareField name :: rest) (.ops [.declareField name] ++ parts)
  | plain {op : Op} {rest : List Op} {parts : Parts} (hop : op.isPlain) :
      Bracketed .inMethod rest parts → Bracketed .inMethod (op :: rest) (.ops [op] ++ parts)
  | method {p : Place} {name : String} {kind : MethodKind} {body rest : List Op}
      {inner parts : Parts} (hp : p ≠ .outside) :
      Bracketed .inMethod body inner → Bracketed p rest parts →
      Bracketed p (.beginMethod name kind :: (body ++ .endMethod :: rest))
        (.method name kind inner ++ parts)
  | container {p : Place} {name source : String} {body rest : List Op} {inner parts : Parts} :
      Bracketed .inClass body inner → Bracketed p rest parts →
      Bracketed p (.beginClass name source :: (body ++ .endClass :: rest))
        (.container inner ++ parts)

def declaredAfter (fields : List String) (ops : List Op) : List String :=
  ops.foldl (fun fields op => match op with
    | .declareField name => if name ∈ fields then fields else name :: fields
    | _ => fields) fields

def DeclaresOnce (fields : List String) : List Op → Prop
  | [] => True
  | .declareField name :: rest => name ∉ fields ∧ DeclaresOnce (name :: fields) rest
  | _ :: rest => DeclaresOnce fields rest

structure MethodCode.Valid (m : MethodCode) : Prop where
  covers : Covers 0 m.ops
  nodup : (placedMarks m.ops).Nodup
  placed : ∀ t ∈ targetMarks m.ops, t ∈ placedMarks m.ops

/-- The methods that are open at a place: around it `methods`, and in a method its own frame `f`. -/
def openMethods (p : Place) (f : MethodFrame) (methods : List MethodFrame) : List MethodFrame :=
  if p = .inMethod then f :: methods else methods

/-- The classes that are open at a place. The class around it has declared `fields`, and `outer` are
the classes farther out. -/
def openAt (p : Place) (fields : List String) (f : MethodFrame) (methods : List MethodFrame)
    (outer : List ClassFrame) : List ClassFrame :=
  if p = .outside then outer else ⟨fields, openMethods p f methods⟩ :: outer

/-- From `w` to `w'` the verifier has gone through code with these parts. -/
structure Walk.Passes (w w' : Walk) (p : Place) (fields : List String) (f : MethodFrame)
    (methods : List MethodFrame) (outer : List ClassFrame) (parts : Parts) : Prop where
  classes : w'.classes =
    openAt p (declaredAfter fields parts.own) (f.after parts.direct) methods outer
  errors : w'.errors = #[] ↔
    w.errors = #[] ∧ f.AcceptsAll parts.direct ∧ ∀ m ∈ parts.methods, m.Valid
  warnings : w'.warnings = #[] ↔
    w.warnings = #[] ∧ DeclaresOnce fields parts.own ∧
      (∀ own ∈ parts.classes, DeclaresOnce [] own) ∧ ∀ m ∈ parts.methods, depthAfter 0 m.ops = 0

namespace Walk

theorem run_append (w : Walk) (offset : Nat) (code more : List Op) :
    w.run offset (code ++ more) = (w.run offset code).run (offset + code.length) more := by
  induction code generalizing w offset with
  | nil => rfl
  | cons op rest ih =>
    simp only [List.cons_append, run, List.length_cons]
    rw [ih, show offset + 1 + rest.length = offset + (rest.length + 1) by omega]

variable {w : Walk} {fields : List String} {f : MethodFrame} {methods : List MethodFrame}
  {outer : List ClassFrame}

@[simp]
theorem errors_error_ne (w : Walk) (e : VerifyError) : (w.error e).errors ≠ #[] := by
  simp [error]

@[simp]
theorem warnings_error (w : Walk) (e : VerifyError) : (w.error e).warnings = w.warnings := rfl

theorem declareField_spec (hc : w.classes = ⟨fields, methods⟩ :: outer) (offset : Nat)
    (name : String) :
    (w.declareField offset name).classes =
      ⟨declaredAfter fields [.declareField name], methods⟩ :: outer ∧
    (w.declareField offset name).errors = w.errors ∧
    ((w.declareField offset name).warnings = #[] ↔ w.warnings = #[] ∧ name ∉ fields) := by
  by_cases hname : name ∈ fields <;> simp [declareField, hc, hname, declaredAfter, warn]

theorem note_spec (w : Walk) (offset : Nat) (f : MethodFrame) (op : Op) :
    (w.note offset f op).2 = { f.next op with depth := f.depth } ∧
    ((w.note offset f op).1.errors = #[] ↔ w.errors = #[] ∧ ∀ m ∈ op.placed?, m ∉ f.placed) ∧
    (w.note offset f op).1.warnings = w.warnings := by
  cases op with
  | mark m =>
    by_cases hm : m ∈ f.placed <;>
      simp [note, placeMark, hm, MethodFrame.next, Op.placed?, Op.target?]
  | _ => simp [note, useSlot, MethodFrame.next, Op.placed?, Op.target?]

theorem balance_spec (w : Walk) (offset : Nat) (f : MethodFrame) (op : Op) :
    (w.balance offset f op).2 = { f with depth := op.depthFrom f.depth } ∧
    ((w.balance offset f op).1.errors = #[] ↔ w.errors = #[] ∧ op.stackEffect.1 ≤ f.depth) ∧
    (w.balance offset f op).1.warnings = w.warnings := by
  refine ⟨rfl, ?_, ?_⟩
  · by_cases hlt : f.depth < op.stackEffect.1
    · simp [balance, hlt, Nat.not_le.2 hlt]
    · simp [balance, hlt, Nat.not_lt.1 hlt]
  · by_cases hlt : f.depth < op.stackEffect.1 <;> simp [balance, hlt]

theorem code_spec (hc : w.classes = ⟨fields, f :: methods⟩ :: outer) (offset : Nat) (op : Op) :
    (w.code offset op).classes = ⟨fields, f.next op :: methods⟩ :: outer ∧
    ((w.code offset op).errors = #[] ↔ w.errors = #[] ∧ f.Accepts op) ∧
    (w.code offset op).warnings = w.warnings := by
  obtain ⟨hframe, herrors, hwarnings⟩ := w.note_spec offset f op
  obtain ⟨hframe', herrors', hwarnings'⟩ :=
    (w.note offset f op).1.balance_spec offset (w.note offset f op).2 op
  simp only [code, hc]
  refine ⟨?_, ?_, hwarnings'.trans hwarnings⟩
  · rw [hframe', hframe]
    rfl
  · rw [herrors', herrors, hframe, MethodFrame.Accepts, and_assoc, and_comm (a := ∀ m ∈ _, _)]

theorem closeMethod_spec (w : Walk) (f : MethodFrame) :
    (w.closeMethod f).classes = w.classes ∧
    ((w.closeMethod f).errors = #[] ↔ w.errors = #[] ∧ f.undefined = []) ∧
    ((w.closeMethod f).warnings = #[] ↔ w.warnings = #[] ∧ f.depth = 0) := by
  have herrors : ∀ (marks : List Mark) (w : Walk),
      (marks.foldl (fun w m => w.error (.undefinedMark f.name m)) w).classes = w.classes ∧
      (marks.foldl (fun w m => w.error (.undefinedMark f.name m)) w).warnings = w.warnings ∧
      ((marks.foldl (fun w m => w.error (.undefinedMark f.name m)) w).errors = #[] ↔
        w.errors = #[] ∧ marks = []) := by
    intro marks
    induction marks with
    | nil => simp
    | cons m rest ih =>
      intro w
      obtain ⟨hclasses, hwarnings, herrors⟩ := ih (w.error (.undefinedMark f.name m))
      refine ⟨hclasses, hwarnings, ?_⟩
      rw [List.foldl_cons, herrors]
      simp
  obtain ⟨hclasses, hwarnings, herrors⟩ := herrors f.undefined w
  simp only [closeMethod]
  split
  · rename_i hdepth
    simp [hclasses, hwarnings, herrors, hdepth]
  · rename_i hdepth
    simp [warn, hclasses, hwarnings, herrors, hdepth]

theorem endMethod_spec (hc : w.classes = ⟨fields, f :: methods⟩ :: outer) (offset : Nat) :
    (w.endMethod offset).classes = ⟨fields, methods⟩ :: outer ∧
    ((w.endMethod offset).errors = #[] ↔ w.errors = #[] ∧ f.undefined = []) ∧
    ((w.endMethod offset).warnings = #[] ↔ w.warnings = #[] ∧ f.depth = 0) := by
  simp only [endMethod, hc]
  exact closeMethod_spec { w with classes := ⟨fields, methods⟩ :: outer } f

theorem classes_beginMethod {p : Place} (hp : p ≠ .outside)
    (hw : w.classes = openAt p fields f methods outer) (offset : Nat) (name : String) :
    (w.beginMethod offset name).classes =
      openAt .inMethod fields ⟨name, 0, [], []⟩ (openMethods p f methods) outer := by
  rw [openAt, if_neg hp] at hw
  simp [beginMethod, hw, openAt, openMethods]

theorem step_plain {op : Op} (hop : op.isPlain) (w : Walk) (offset : Nat) :
    w.step offset op = w.code offset op := by
  cases op <;> first | rfl | cases hop

end Walk

theorem MethodCode.valid_iff {m : MethodCode} :
    m.Valid ↔ (⟨m.name, 0, [], []⟩ : MethodFrame).AcceptsAll m.ops ∧
      ((⟨m.name, 0, [], []⟩ : MethodFrame).after m.ops).undefined = [] := by
  simp only [MethodFrame.acceptsAll_iff, MethodFrame.undefined_eq_nil,
    MethodFrame.mem_targets_after, MethodFrame.mem_placed_after]
  constructor
  · rintro ⟨hcovers, hnodup, hplaced⟩
    exact ⟨⟨hcovers, hnodup, fun _ _ => List.not_mem_nil⟩,
      fun t ht => .inl (hplaced t (ht.resolve_right List.not_mem_nil))⟩
  · rintro ⟨⟨hcovers, hnodup, -⟩, hplaced⟩
    exact ⟨hcovers, hnodup, fun t ht => (hplaced t (.inl ht)).resolve_right List.not_mem_nil⟩

theorem declaredAfter_append (fields : List String) (ops more : List Op) :
    declaredAfter fields (ops ++ more) = declaredAfter (declaredAfter fields ops) more :=
  List.foldl_append

theorem declaresOnce_of_isPlain (fields : List String) {ops : List Op}
    (hops : ∀ op ∈ ops, op.isPlain) :
    DeclaresOnce fields ops ∧ declaredAfter fields ops = fields := by
  induction ops with
  | nil => exact ⟨trivial, rfl⟩
  | cons op rest ih =>
    obtain ⟨hop, hrest⟩ := List.forall_mem_cons.1 hops
    cases op with
    | declareField name => cases hop
    | _ => exact ih hrest

theorem declaresOnce_append {fields : List String} {ops more : List Op} :
    DeclaresOnce fields (ops ++ more) ↔
      DeclaresOnce fields ops ∧ DeclaresOnce (declaredAfter fields ops) more := by
  induction ops generalizing fields with
  | nil => simp [DeclaresOnce, declaredAfter]
  | cons op rest ih =>
    cases op with
    | declareField name =>
      simp only [List.cons_append, DeclaresOnce, ih, and_assoc]
      refine and_congr_right fun hname => ?_
      simp [declaredAfter, hname]
    | _ => exact ih

namespace Walk.Passes

variable {w w' w'' : Walk} {p : Place} {fields : List String} {f : MethodFrame}
  {methods : List MethodFrame} {outer : List ClassFrame} {parts more : Parts}

theorem refl (hw : w.classes = openAt p fields f methods outer) :
    w.Passes w p fields f methods outer {} :=
  ⟨hw, by simp [MethodFrame.AcceptsAll], by simp [DeclaresOnce]⟩

theorem trans (h : w.Passes w' p fields f methods outer parts)
    (h' : w'.Passes w'' p (declaredAfter fields parts.own) (f.after parts.direct) methods outer
      more) :
    w.Passes w'' p fields f methods outer (parts ++ more) where
  classes := by
    rw [h'.classes, ← declaredAfter_append, ← MethodFrame.after_append]
    rfl
  errors := by
    rw [h'.errors, h.errors]
    rw [Parts.direct_append, Parts.methods_append, MethodFrame.acceptsAll_append,
      List.forall_mem_append]
    constructor
    · rintro ⟨⟨hw, hops, hmethods⟩, hops', hmethods'⟩
      exact ⟨hw, ⟨hops, hops'⟩, hmethods, hmethods'⟩
    · rintro ⟨hw, ⟨hops, hops'⟩, hmethods, hmethods'⟩
      exact ⟨⟨hw, hops, hmethods⟩, hops', hmethods'⟩
  warnings := by
    rw [h'.warnings, h.warnings]
    rw [Parts.own_append, Parts.classes_append, Parts.methods_append, declaresOnce_append,
      List.forall_mem_append, List.forall_mem_append]
    constructor
    · rintro ⟨⟨hw, hown, hclasses, hmethods⟩, hown', hclasses', hmethods'⟩
      exact ⟨hw, ⟨hown, hown'⟩, ⟨hclasses, hclasses'⟩, hmethods, hmethods'⟩
    · rintro ⟨hw, ⟨hown, hown'⟩, ⟨hclasses, hclasses'⟩, hmethods, hmethods'⟩
      exact ⟨⟨hw, hown, hclasses, hmethods⟩, hown', hclasses', hmethods'⟩

theorem declareField (hp : p ≠ .outside) (hw : w.classes = openAt p fields f methods outer)
    (offset : Nat) (name : String) :
    w.Passes (w.declareField offset name) p fields f methods outer (.ops [.declareField name]) := by
  rw [openAt, if_neg hp] at hw
  obtain ⟨hclasses, herrors, hwarnings⟩ := declareField_spec hw offset name
  refine ⟨?_, ?_, ?_⟩
  · rw [openAt, if_neg hp]
    exact hclasses
  · simp [herrors, Parts.ops, MethodFrame.AcceptsAll, MethodFrame.Accepts, Op.stackEffect,
      Op.placed?]
  · simp [hwarnings, Parts.ops, DeclaresOnce]

theorem code (hw : w.classes = openAt .inMethod fields f methods outer) (offset : Nat) {op : Op}
    (hop : op.isPlain) :
    w.Passes (w.code offset op) .inMethod fields f methods outer (.ops [op]) := by
  obtain ⟨hclasses, herrors, hwarnings⟩ := code_spec hw offset op
  have hfields : declaredAfter fields [op] = fields ∧ DeclaresOnce fields [op] := by
    cases op <;> first | exact ⟨rfl, trivial⟩ | cases hop
  refine ⟨?_, ?_, ?_⟩
  · simp only [Parts.ops, hfields.1]
    exact hclasses
  · simp [herrors, Parts.ops, MethodFrame.AcceptsAll]
  · simp [hwarnings, Parts.ops, hfields.2]

theorem method (hp : p ≠ .outside) (hw : w.classes = openAt p fields f methods outer)
    {offset : Nat} {name : String} (kind : MethodKind) (offset' : Nat)
    (h : (w.beginMethod offset name).Passes w' .inMethod fields ⟨name, 0, [], []⟩
      (openMethods p f methods) outer parts) :
    w.Passes (w'.endMethod offset') p fields f methods outer (.method name kind parts) := by
  rw [openAt, if_neg hp] at hw
  have hbegin : (w.beginMethod offset name).errors = w.errors ∧
      (w.beginMethod offset name).warnings = w.warnings := by simp [beginMethod, hw]
  obtain ⟨hclasses, herrors, hwarnings⟩ := h
  obtain ⟨hclosed, herrors', hwarnings'⟩ := endMethod_spec hclasses offset'
  rw [hbegin.1] at herrors
  rw [hbegin.2] at hwarnings
  rw [MethodFrame.depth_after] at hwarnings'
  refine ⟨?_, ?_, ?_⟩
  · rw [openAt, if_neg hp]
    exact hclosed
  · rw [herrors', herrors]
    simp only [Parts.method, MethodFrame.AcceptsAll, List.forall_mem_cons, MethodCode.valid_iff]
    constructor
    · rintro ⟨⟨hw, hops, hmethods⟩, hundefined⟩
      exact ⟨hw, trivial, ⟨hops, hundefined⟩, hmethods⟩
    · rintro ⟨hw, -, ⟨hops, hundefined⟩, hmethods⟩
      exact ⟨⟨hw, hops, hmethods⟩, hundefined⟩
  · rw [hwarnings', hwarnings]
    simp only [Parts.method, List.forall_mem_cons]
    constructor
    · rintro ⟨⟨hw, hown, hclasses, hmethods⟩, hdepth⟩
      exact ⟨hw, hown, hclasses, hdepth, hmethods⟩
    · rintro ⟨hw, hown, hclasses, hdepth, hmethods⟩
      exact ⟨⟨hw, hown, hclasses, hmethods⟩, hdepth⟩

theorem endClass_eq (h : w.beginClass.Passes w' .inClass [] f [] w.classes parts) (offset : Nat) :
    w'.endClass offset = { w' with classes := w.classes } := by
  simp [endClass, h.classes, openAt, openMethods]

theorem container (hw : w.classes = openAt p fields f methods outer) (offset : Nat)
    (hdirect : f.AcceptsAll parts.direct)
    (h : w.beginClass.Passes w' .inClass [] f [] w.classes parts) :
    w.Passes (w'.endClass offset) p fields f methods outer (.container parts) := by
  rw [h.endClass_eq]
  obtain ⟨hclasses, herrors, hwarnings⟩ := h
  refine ⟨hw, ?_, ?_⟩
  · rw [herrors]
    simp only [Parts.container, MethodFrame.AcceptsAll, beginClass, hdirect]
  · rw [hwarnings]
    simp only [Parts.container, List.forall_mem_cons, DeclaresOnce, beginClass]
    constructor
    · rintro ⟨hw, hown, hclasses, hmethods⟩
      exact ⟨hw, trivial, ⟨hown, hclasses⟩, hmethods⟩
    · rintro ⟨hw, -, ⟨hown, hclasses⟩, hmethods⟩
      exact ⟨hw, hown, hclasses, hmethods⟩

end Walk.Passes

namespace Verifier

def start (v : Verifier) (count : Nat) : Walk :=
  { errors := v.limitErrors count, stats := { opCount := count } }

theorem classes_start (v : Verifier) (count : Nat) :
    (v.start count).classes = openAt .outside [] ⟨"", 0, [], []⟩ [] [] := rfl

theorem errors_verify (v : Verifier) (code : List Op) :
    (v.verify code).errors = ((v.start code.length).run 0 code).finish.errors.toList := rfl

theorem warnings_verify (v : Verifier) (code : List Op) :
    (v.verify code).warnings = ((v.start code.length).run 0 code).finish.warnings.toList := rfl

theorem stats_verify (v : Verifier) (code : List Op) :
    (v.verify code).stats = ((v.start code.length).run 0 code).finish.stats := rfl

end Verifier

namespace Bracketed

variable {p : Place} {code : List Op} {parts : Parts}

theorem ops_append {ops : List Op} (hops : ∀ op ∈ ops, op.isPlain ∨ op.isDeclaration)
    (h : Bracketed .inMethod code parts) :
    Bracketed .inMethod (ops ++ code) (.ops ops ++ parts) := by
  induction ops with
  | nil => exact h
  | cons op rest ih =>
    obtain ⟨hop, hrest⟩ := List.forall_mem_cons.1 hops
    rcases hop with hplain | hdecl
    · exact .plain hplain (ih hrest)
    · cases op with
      | declareField name => exact .declare (by decide) (ih hrest)
      | _ => cases hdecl

theorem acceptsAll_direct (h : Bracketed p code parts) (hp : p ≠ .inMethod) (f : MethodFrame) :
    f.AcceptsAll parts.direct := by
  induction h generalizing f with
  | nil => trivial
  | declare _ _ ih =>
    refine ⟨?_, ih hp _⟩
    simp [MethodFrame.Accepts, Op.stackEffect, Op.placed?]
  | plain => exact absurd rfl hp
  | method _ _ _ _ ihRest => exact ihRest hp f
  | container _ _ _ ihRest => exact ihRest hp f

theorem passes (h : Bracketed p code parts) {w : Walk} {fields : List String} {f : MethodFrame}
    {methods : List MethodFrame} {outer : List ClassFrame}
    (hw : w.classes = openAt p fields f methods outer) (offset : Nat) :
    w.Passes (w.run offset code) p fields f methods outer parts := by
  induction h generalizing w fields f methods outer offset with
  | nil => exact .refl hw
  | @declare p name rest parts hp hrest ih =>
    have hfirst := Walk.Passes.declareField hp hw offset name
    exact hfirst.trans (ih hfirst.classes (offset + 1))
  | @plain op rest parts hop hrest ih =>
    have hfirst := Walk.Passes.code hw offset hop
    rw [Walk.run, Walk.step_plain hop]
    exact hfirst.trans (ih hfirst.classes (offset + 1))
  | @method p name kind body rest inner parts hp hbody hrest ihBody ihRest =>
    have hopened := Walk.classes_beginMethod hp hw offset name
    have hfirst := Walk.Passes.method hp hw kind (offset + 1 + body.length)
      (ihBody hopened (offset + 1))
    rw [Walk.run, Walk.run_append]
    exact hfirst.trans (ihRest hfirst.classes _)
  | @container p name source body rest inner parts hbody hrest ihBody ihRest =>
    have hopened : w.beginClass.classes = openAt .inClass [] f [] w.classes := rfl
    have hfirst := Walk.Passes.container hw (offset + 1 + body.length)
      (hbody.acceptsAll_direct (by decide) f) (ihBody hopened (offset + 1))
    rw [Walk.run, Walk.run_append]
    exact hfirst.trans (ihRest hfirst.classes _)

/-- What each operation and each bracket does to the walk is done by bracketed code. The hypotheses
tell which classes are open there. -/
theorem run_induction {R : Walk → Walk → MethodFrame → Parts → Prop}
    (refl : ∀ w f, R w w f {})
    (trans : ∀ {w w' w'' f parts more}, R w w' f parts → R w' w'' (f.after parts.direct) more →
      R w w'' f (parts ++ more))
    (declare : ∀ {w : Walk} {fields methods outer} f offset name,
      w.classes = ⟨fields, methods⟩ :: outer →
        R w (w.declareField offset name) f (.ops [.declareField name]))
    (plain : ∀ {w : Walk} {fields f methods outer} offset op, op.isPlain →
      w.classes = ⟨fields, f :: methods⟩ :: outer → R w (w.code offset op) f (.ops [op]))
    (method : ∀ {w w' : Walk} {fields fields' methods outer parts} f offset offset' name kind,
      w.classes = ⟨fields, methods⟩ :: outer →
      w'.classes =
        ⟨fields', (⟨name, 0, [], []⟩ : MethodFrame).after parts.direct :: methods⟩ :: outer →
      R (w.beginMethod offset name) w' ⟨name, 0, [], []⟩ parts →
        R w (w'.endMethod offset') f (.method name kind parts))
    (container : ∀ {w w' : Walk} {f parts}, f.AcceptsAll parts.direct → R w.beginClass w' f parts →
      R w { w' with classes := w.classes } f (.container parts))
    (h : Bracketed p code parts) {w : Walk} {fields : List String} {f : MethodFrame}
    {methods : List MethodFrame} {outer : List ClassFrame}
    (hw : w.classes = openAt p fields f methods outer) (offset : Nat) :
    R w (w.run offset code) f parts := by
  induction h generalizing w fields f methods outer offset with
  | nil => exact refl w f
  | @declare p name rest parts hp _ ih =>
    have hfirst := Walk.Passes.declareField hp hw offset name
    rw [openAt, if_neg hp] at hw
    exact trans (declare f offset name hw) (ih hfirst.classes (offset + 1))
  | plain hop _ ih =>
    have hfirst := Walk.Passes.code hw offset hop
    rw [Walk.run, Walk.step_plain hop]
    exact trans (plain offset _ hop hw) (ih hfirst.classes (offset + 1))
  | @method p name kind body rest inner parts hp hbody _ ihBody ihRest =>
    have hopened := Walk.classes_beginMethod hp hw offset name
    have hpassed := hbody.passes hopened (offset + 1)
    have hfirst := Walk.Passes.method hp hw kind (offset + 1 + body.length) hpassed
    have hinner := ihBody hopened (offset + 1)
    rw [Walk.run, Walk.run_append]
    refine trans ?_ (ihRest hfirst.classes _)
    rw [openAt, if_neg hp] at hw
    exact method f offset _ name kind hw hpassed.classes hinner
  | @container p name source body rest inner parts hbody _ ihBody ihRest =>
    have hopened : w.beginClass.classes = openAt .inClass [] f [] w.classes := rfl
    have hpassed := hbody.passes hopened (offset + 1)
    have hdirect := hbody.acceptsAll_direct (by decide) f
    have hfirst := Walk.Passes.container hw (offset + 1 + body.length) hdirect hpassed
    have hinner := ihBody hopened (offset + 1)
    rw [Walk.run, Walk.run_append]
    refine trans ?_ (ihRest hfirst.classes _)
    rw [hpassed.endClass_eq]
    exact container hdirect hinner

theorem finish_run (h : Bracketed .outside code parts) (v : Verifier) :
    ((v.start code.length).run 0 code).finish = (v.start code.length).run 0 code := by
  have hclasses := (h.passes (v.classes_start code.length) 0).classes
  rw [openAt, if_pos rfl] at hclasses
  rw [Walk.finish, hclasses]

theorem verify (h : Bracketed .outside code parts) (v : Verifier) :
    ((v.verify code).errors = [] ↔
      v.limitErrors code.length = #[] ∧ ∀ m ∈ parts.methods, m.Valid) ∧
    ((v.verify code).warnings = [] ↔
      DeclaresOnce [] parts.own ∧ (∀ own ∈ parts.classes, DeclaresOnce [] own) ∧
        ∀ m ∈ parts.methods, depthAfter 0 m.ops = 0) := by
  have hall := h.passes (v.classes_start code.length) 0
  rw [Verifier.errors_verify, Verifier.warnings_verify, h.finish_run, Array.toList_eq_nil_iff,
    Array.toList_eq_nil_iff, hall.errors, hall.warnings]
  simp [h.acceptsAll_direct, Verifier.start]

end Bracketed

end Code

end StackBackend
