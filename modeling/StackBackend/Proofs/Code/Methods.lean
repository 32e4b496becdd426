import StackBackend.Proofs.Code.Paths

/-!
# The methods of code

The methods that are opened in code are read off the list of operations from left to right, each
with the operations that stand directly in it. In bracketed code they are the methods among its
parts, and the verifier counts them.
-/
namespace StackBackend.Code

/-- Every method that is opened, with the operations up to its end but for those in nested
brackets. -/
def openedMethods : List Op → List MethodCode
  | [] => []
  | .beginMethod name kind :: rest =>
    ⟨name, kind, (directOps 0 0 rest).map Prod.snd⟩ :: openedMethods rest
  | _ :: rest => openedMethods rest

theorem openedMethods_cons {op : Op} (h : ∀ name kind, op ≠ .beginMethod name kind)
    (rest : List Op) : openedMethods (op :: rest) = openedMethods rest := by
  cases op with
  | beginMethod name kind => exact absurd rfl (h name kind)
  | _ => rfl

theorem Op.ne_beginMethod_of_isPlain {op : Op} (h : op.isPlain) (name : String)
    (kind : MethodKind) : op ≠ .beginMethod name kind := by
  rintro rfl
  cases h

namespace Walk

variable {w w' : Walk} {fields fields' : List String} {f : MethodFrame}
  {methods : List MethodFrame} {outer : List ClassFrame}

theorem methodCount_code (w : Walk) (offset : Nat) (op : Op) :
    (w.code offset op).stats.methodCount = w.stats.methodCount := by
  have hnote : ∀ f, (w.note offset f op).1.stats.methodCount = w.stats.methodCount := by
    intro f
    cases op with
    | mark m =>
      simp only [note, placeMark]
      split <;> rfl
    | _ => rfl
  unfold code
  split
  · rw [← hnote]
    simp only [balance]
    split <;> rfl
  · rfl

theorem methodCount_declareField (hc : w.classes = ⟨fields, methods⟩ :: outer) (offset : Nat)
    (name : String) : (w.declareField offset name).stats.methodCount = w.stats.methodCount := by
  simp only [declareField, hc]
  split <;> rfl

end Walk

namespace Bracketed

variable {p : Place} {code : List Op} {parts : Parts}

theorem directOps_body (h : Bracketed .inMethod code parts) (more : List Op) :
    (directOps 0 0 (code ++ .endMethod :: more)).map Prod.snd = parts.direct :=
  (h.walkedDirectly ⟨openAt .inMethod [] ⟨"", 0, [], []⟩ [] [], #[], #[], {}⟩
    [] ⟨"", 0, [], []⟩ [] [] 0 more rfl).1

theorem openedMethods_append (h : Bracketed p code parts) (more : List Op) :
    openedMethods (code ++ more) = parts.methods ++ openedMethods more := by
  induction h generalizing more with
  | nil => rfl
  | declare _ _ ih => exact ih more
  | plain hop _ ih =>
    rw [List.cons_append, openedMethods_cons (Op.ne_beginMethod_of_isPlain hop)]
    exact ih more
  | @method p name kind body rest inner parts hp hbody _ ihBody ihRest =>
    have hmore : body ++ .endMethod :: rest ++ more = body ++ .endMethod :: (rest ++ more) := by
      rw [List.append_assoc, List.cons_append]
    rw [List.cons_append, hmore, openedMethods, hbody.directOps_body, ihBody,
      openedMethods_cons (by simp), ihRest, Parts.methods_append, Parts.method, List.cons_append,
      List.cons_append, List.append_assoc]
  | @container p name source body rest inner parts _ _ ihBody ihRest =>
    rw [List.cons_append, openedMethods_cons (by simp), List.append_assoc, List.cons_append, ihBody,
      openedMethods_cons (by simp), ihRest, Parts.methods_append, Parts.container,
      List.append_assoc]

theorem openedMethods_eq (h : Bracketed p code parts) : openedMethods code = parts.methods := by
  have hall := h.openedMethods_append []
  rwa [List.append_nil, openedMethods, List.append_nil] at hall

theorem methodCount_run (h : Bracketed p code parts) {w : Walk} {fields : List String}
    {f : MethodFrame} {methods : List MethodFrame} {outer : List ClassFrame}
    (hw : w.classes = openAt p fields f methods outer) (offset : Nat) :
    (w.run offset code).stats.methodCount = w.stats.methodCount + parts.methods.length := by
  refine h.run_induction (R := fun w w' _ parts =>
    w'.stats.methodCount = w.stats.methodCount + parts.methods.length) ?_ ?_ ?_ ?_ ?_ ?_ hw offset
  · exact fun _ _ => rfl
  · intro w w' w'' f parts more h h'
    rw [h', h, Parts.methods_append, List.length_append, Nat.add_assoc]
  · exact fun _ offset name hc => Walk.methodCount_declareField hc offset name
  · exact fun offset op _ _ => Walk.methodCount_code _ offset op
  · intro w w' fields fields' methods outer parts f offset offset' name kind hc _ h
    simp only [Walk.beginMethod, hc] at h
    rw [Walk.stats_endMethod, h, Parts.method, List.length_cons]
    omega
  · exact fun _ h => h

theorem methodCount_verify (h : Bracketed .outside code parts) (v : Verifier) :
    (v.verify code).stats.methodCount = parts.methods.length := by
  rw [Verifier.stats_verify, h.finish_run]
  exact (h.methodCount_run (v.classes_start code.length) 0).trans (Nat.zero_add _)

end Bracketed

end StackBackend.Code
