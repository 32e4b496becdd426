import StackBackend.Proofs.Code.Bracketed

/-!
# What the verifier says of marks

Whatever else is wrong with bracketed code, the verifier reports a mark that is placed again just
when a method places one twice, and it reports as many undefined marks as the methods lead to
without placing them.
-/
namespace StackBackend.Code

namespace VerifyError

def repeatsMark : VerifyError → Bool
  | .duplicateMark .. => true
  | _ => false

def missesMark : VerifyError → Bool
  | .undefinedMark .. => true
  | _ => false

end VerifyError

namespace MethodFrame

variable {f : MethodFrame} {ops more : List Op}

/-- The operations place no mark twice and none that the method has placed before. -/
def PlacesAnew (f : MethodFrame) (ops : List Op) : Prop :=
  (placedMarks ops).Nodup ∧ ∀ m ∈ placedMarks ops, m ∉ f.placed

theorem placesAnew_append :
    f.PlacesAnew (ops ++ more) ↔ f.PlacesAnew ops ∧ (f.after ops).PlacesAnew more := by
  simp only [PlacesAnew, placedMarks_append, List.nodup_append, List.forall_mem_append,
    mem_placed_after, not_or]
  constructor
  · intro ⟨⟨hops, hmore, hne⟩, hnew, hnew'⟩
    exact ⟨⟨hops, hnew⟩, hmore, fun m hm => ⟨fun hm' => hne m hm' m hm rfl, hnew' m hm⟩⟩
  · intro ⟨⟨hops, hnew⟩, hmore, hnew'⟩
    refine ⟨⟨hops, hmore, fun m hm n hn heq => ?_⟩, hnew, fun m hm => (hnew' m hm).2⟩
    exact (hnew' n hn).1 (heq ▸ hm)

theorem placesAnew_singleton {op : Op} : f.PlacesAnew [op] ↔ ∀ m ∈ op.placed?, m ∉ f.placed := by
  cases h : op.placed? <;> simp [PlacesAnew, placedMarks, h]

theorem placesAnew_new (name : String) :
    (⟨name, 0, [], []⟩ : MethodFrame).PlacesAnew ops ↔ (placedMarks ops).Nodup := by
  simp [PlacesAnew]

end MethodFrame

namespace MethodCode

def missing (m : MethodCode) : List Mark :=
  ((⟨m.name, 0, [], []⟩ : MethodFrame).after m.ops).undefined

theorem mem_missing {m : MethodCode} {t : Mark} :
    t ∈ m.missing ↔ t ∈ targetMarks m.ops ∧ t ∉ placedMarks m.ops := by
  simp [missing, MethodFrame.undefined, mem_ascending, MethodFrame.mem_targets_after,
    MethodFrame.mem_placed_after]

theorem nodup_missing (m : MethodCode) : m.missing.Nodup := nodup_ascending _

end MethodCode

/-- Between `w` and `w'`, in code with these parts, the verifier has reported `found`. -/
structure Walk.Finds (w w' : Walk) (f : MethodFrame) (parts : Parts) (found : List VerifyError) :
    Prop where
  errors : w'.errors.toList = w.errors.toList ++ found
  repeats : (∀ x ∈ found, x.repeatsMark = false) ↔
    f.PlacesAnew parts.direct ∧ ∀ m ∈ parts.methods, (placedMarks m.ops).Nodup
  misses : found.countP VerifyError.missesMark = (parts.methods.flatMap MethodCode.missing).length

namespace Walk

variable {w w' w'' : Walk} {p : Place} {fields : List String} {f : MethodFrame}
  {methods : List MethodFrame} {outer : List ClassFrame} {parts more : Parts}
  {found found' : List VerifyError}

theorem Finds.refl (w : Walk) (f : MethodFrame) : w.Finds w f {} [] :=
  ⟨(List.append_nil _).symm, by simp [MethodFrame.PlacesAnew, placedMarks], rfl⟩

theorem Finds.trans (h : w.Finds w' f parts found)
    (h' : w'.Finds w'' (f.after parts.direct) more found') :
    w.Finds w'' f (parts ++ more) (found ++ found') where
  errors := by rw [h'.errors, h.errors, List.append_assoc]
  repeats := by
    rw [List.forall_mem_append, h.repeats, h'.repeats, Parts.direct_append, Parts.methods_append,
      List.forall_mem_append, MethodFrame.placesAnew_append]
    exact and_and_and_comm
  misses := by
    rw [List.countP_append, h.misses, h'.misses, Parts.methods_append, List.flatMap_append,
      List.length_append]

theorem errors_closeMethod (w : Walk) (f : MethodFrame) :
    (w.closeMethod f).errors.toList =
      w.errors.toList ++ f.undefined.map (.undefinedMark f.name) := by
  have hall : ∀ (marks : List Mark) (w : Walk),
      (marks.foldl (fun w m => w.error (.undefinedMark f.name m)) w).errors.toList =
        w.errors.toList ++ marks.map (.undefinedMark f.name) := by
    intro marks
    induction marks with
    | nil => simp
    | cons m rest ih =>
      intro w
      rw [List.foldl_cons, ih]
      simp [error]
  rw [closeMethod]
  split
  · exact hall _ _
  · exact hall _ _

theorem Finds.code (hc : w.classes = ⟨fields, f :: methods⟩ :: outer) (offset : Nat) (op : Op) :
    ∃ found, w.Finds (w.code offset op) f (.ops [op]) found := by
  have hnote : ∃ found, (w.note offset f op).1.errors.toList = w.errors.toList ++ found ∧
      ((∀ x ∈ found, x.repeatsMark = false) ↔ f.PlacesAnew [op]) ∧
      found.countP VerifyError.missesMark = 0 := by
    rw [MethodFrame.placesAnew_singleton]
    cases op with
    | mark m =>
      by_cases hm : m ∈ f.placed
      · exact ⟨[.duplicateMark offset m], by simp [note, placeMark, hm, error],
          by simp [VerifyError.repeatsMark, Op.placed?, hm], rfl⟩
      · exact ⟨[], by simp [note, placeMark, hm], by simp [Op.placed?, hm], rfl⟩
    | _ => exact ⟨[], by simp [note, useSlot], by simp [Op.placed?], rfl⟩
  have hbalance : ∀ (w : Walk) (f : MethodFrame), ∃ found,
      (w.balance offset f op).1.errors.toList = w.errors.toList ++ found ∧
      (∀ x ∈ found, x.repeatsMark = false) ∧ found.countP VerifyError.missesMark = 0 := by
    intro w f
    by_cases hlt : f.depth < op.stackEffect.1
    · exact ⟨[.stackUnderflow offset f.name], by simp [balance, hlt, error],
        by simp [VerifyError.repeatsMark], rfl⟩
    · exact ⟨[], by simp [balance, hlt], List.forall_mem_nil _, rfl⟩
  obtain ⟨found, herrors, hrepeats, hmisses⟩ := hnote
  obtain ⟨found', herrors', hrepeats', hmisses'⟩ :=
    hbalance (w.note offset f op).1 (w.note offset f op).2
  refine ⟨found ++ found', ?_, ?_, ?_⟩
  · simp only [Walk.code, hc]
    rw [herrors', herrors, List.append_assoc]
  · rw [List.forall_mem_append, hrepeats]
    exact ⟨fun h => ⟨h.1, List.forall_mem_nil _⟩, fun h => ⟨h.1, hrepeats'⟩⟩
  · rw [List.countP_append, hmisses, hmisses']
    rfl

theorem Finds.declareField (hc : w.classes = ⟨fields, methods⟩ :: outer) (f : MethodFrame)
    (offset : Nat) (name : String) :
    w.Finds (w.declareField offset name) f (.ops [.declareField name]) [] := by
  refine ⟨?_, ?_, rfl⟩
  · rw [(declareField_spec hc offset name).2.1, List.append_nil]
  · simp [Parts.ops, MethodFrame.placesAnew_singleton, Op.placed?]

theorem Finds.method {fields' : List String} {name : String} {offset : Nat} (f : MethodFrame)
    (offset' : Nat) (kind : MethodKind) (hc : w.classes = ⟨fields, methods⟩ :: outer)
    (hc' : w'.classes =
      ⟨fields', (⟨name, 0, [], []⟩ : MethodFrame).after parts.direct :: methods⟩ :: outer)
    (h : (w.beginMethod offset name).Finds w' ⟨name, 0, [], []⟩ parts found) :
    ∃ found', w.Finds (w'.endMethod offset') f (.method name kind parts) found' := by
  have hbegin : (w.beginMethod offset name).errors = w.errors := by
    simp [beginMethod, hc]
  let m : MethodCode := ⟨name, kind, parts.direct⟩
  let closing := m.missing.map (VerifyError.undefinedMark
    ((⟨name, 0, [], []⟩ : MethodFrame).after parts.direct).name)
  refine ⟨found ++ closing, ?_, ?_, ?_⟩
  · simp only [endMethod, hc']
    rw [errors_closeMethod, h.errors, hbegin, List.append_assoc]
    rfl
  · have hclosing : ∀ x ∈ closing, x.repeatsMark = false := by
      intro x hx
      obtain ⟨t, -, rfl⟩ := List.mem_map.1 hx
      rfl
    rw [List.forall_mem_append, and_iff_left hclosing, h.repeats, MethodFrame.placesAnew_new]
    simp [Parts.method, MethodFrame.PlacesAnew, placedMarks]
  · have hclosing : closing.countP VerifyError.missesMark = m.missing.length := by
      rw [List.countP_map]
      exact List.countP_eq_length.2 fun _ _ => rfl
    rw [List.countP_append, hclosing, h.misses, Nat.add_comm, ← List.length_append]
    rfl

theorem Finds.container (hdirect : f.AcceptsAll parts.direct)
    (h : w.beginClass.Finds w' f parts found) :
    w.Finds { w' with classes := w.classes } f (.container parts) found := by
  refine ⟨h.errors, ?_, h.misses⟩
  have hanew : f.PlacesAnew parts.direct := (MethodFrame.acceptsAll_iff.1 hdirect).2
  rw [h.repeats, and_iff_right hanew]
  simp [Parts.container, MethodFrame.PlacesAnew, placedMarks]

end Walk

theorem Bracketed.finds {p : Place} {code : List Op} {parts : Parts} (h : Bracketed p code parts)
    {w : Walk} {fields : List String} {f : MethodFrame} {methods : List MethodFrame}
    {outer : List ClassFrame} (hw : w.classes = openAt p fields f methods outer) (offset : Nat) :
    ∃ found, w.Finds (w.run offset code) f parts found := by
  refine h.run_induction (R := fun w w' f parts => ∃ found, w.Finds w' f parts found)
    ?_ ?_ ?_ ?_ ?_ ?_ hw offset
  · exact fun w f => ⟨[], .refl w f⟩
  · exact fun ⟨_, h⟩ ⟨_, h'⟩ => ⟨_, h.trans h'⟩
  · exact fun f offset name hc => ⟨_, .declareField hc f offset name⟩
  · exact fun offset op _ hc => Walk.Finds.code hc offset op
  · exact fun f _ offset' _ kind hc hc' ⟨_, h⟩ => h.method f offset' kind hc hc'
  · exact fun hdirect ⟨_, h⟩ => ⟨_, h.container hdirect⟩

theorem Bracketed.verify_marks {code : List Op} {parts : Parts}
    (h : Bracketed .outside code parts) :
    ((∀ x ∈ (({} : Verifier).verify code).errors, x.repeatsMark = false) ↔
      ∀ m ∈ parts.methods, (placedMarks m.ops).Nodup) ∧
    (({} : Verifier).verify code).errors.countP VerifyError.missesMark =
      (parts.methods.flatMap MethodCode.missing).length := by
  obtain ⟨found, hfound⟩ := h.finds (Verifier.classes_start {} code.length) 0
  have herrors : (({} : Verifier).verify code).errors = found := by
    rw [Verifier.errors_verify, h.finish_run]
    exact hfound.errors
  have hanew := (MethodFrame.acceptsAll_iff.1 (h.acceptsAll_direct (by decide) ⟨"", 0, [], []⟩)).2
  rw [herrors, hfound.repeats]
  exact ⟨and_iff_right hanew, hfound.misses⟩

end StackBackend.Code
