import StackBackend.Proofs.Code.Bracketed

/-!
# Code that the verifier accepts

As long as the walk of the verifier has found nothing wrong, it stands at a place: outside of all
classes, directly in a class, or in a method. There an operation that is not an error closes the
place, belongs to it as it is, or opens another place. So code after which nothing is open splits at
the place into bracketed code and the closing bracket, and accepted code as a whole is bracketed.
-/
namespace StackBackend.Code

/-- The rest of the code begins where the place ends. -/
def EndsBefore : Place → List Op → Prop
  | .outside, rest => rest = []
  | .inClass, rest => ∃ more, rest = .endClass :: more
  | .inMethod, rest => ∃ more, rest = .endMethod :: more

def Walk.StandsAt (w : Walk) (p : Place) : Prop :=
  ∃ fields f methods outer, w.classes = openAt p fields f methods outer ∧
    (p = .outside → outer = []) ∧ (p = .inClass → methods = [])

namespace Walk

variable {w : Walk} {p : Place} {op : Op} {offset : Nat} {code : List Op} {parts : Parts}

theorem errors_of_step (h : (w.step offset op).errors = #[]) : w.errors = #[] := by
  have hcode : (w.code offset op).errors = #[] → w.errors = #[] := by
    intro h
    match hc : w.classes with
    | [] | ⟨_, []⟩ :: _ =>
      simp only [code, hc] at h
      exact absurd h (errors_error_ne _ _)
    | ⟨fields, f :: methods⟩ :: outer => exact ((code_spec hc offset op).2.1.1 h).1
  cases op with
  | beginClass => exact h
  | endClass =>
    simp only [step, endClass] at h
    split at h
    · exact h
    · exact absurd h (errors_error_ne _ _)
  | declareField name =>
    simp only [step, declareField] at h
    split at h
    · exact absurd h (errors_error_ne _ _)
    · split at h <;> exact h
  | beginMethod name =>
    simp only [step, beginMethod] at h
    split at h
    · exact absurd h (errors_error_ne _ _)
    · exact h
  | endMethod =>
    simp only [step, endMethod] at h
    split at h
    · exact ((closeMethod_spec _ _).2.1.1 h).1
    · exact absurd h (errors_error_ne _ _)
  | _ => exact hcode h

theorem errors_of_run (h : (w.run offset code).errors = #[]) : w.errors = #[] := by
  induction code generalizing w offset with
  | nil => exact h
  | cons op rest ih => exact errors_of_step (ih h)

theorem StandsAt.run (hw : w.StandsAt p) (h : Bracketed p code parts) (offset : Nat) :
    (w.run offset code).StandsAt p := by
  obtain ⟨fields, f, methods, outer, hclasses, houter, hmethods⟩ := hw
  exact ⟨_, _, _, _, (h.passes hclasses offset).classes, houter, hmethods⟩

theorem StandsAt.beginClass (w : Walk) : w.beginClass.StandsAt .inClass :=
  ⟨[], ⟨"", 0, [], []⟩, [], w.classes, rfl, nofun, fun _ => rfl⟩

theorem StandsAt.beginMethod (hw : w.StandsAt p) (hp : p ≠ .outside) (offset : Nat)
    (name : String) : (w.beginMethod offset name).StandsAt .inMethod := by
  obtain ⟨fields, f, methods, outer, hclasses, -⟩ := hw
  exact ⟨_, _, _, _, classes_beginMethod hp hclasses offset name, nofun, nofun⟩

theorem StandsAt.endsBefore_nil (hw : w.StandsAt p) (h : w.classes = []) : EndsBefore p [] := by
  obtain ⟨fields, f, methods, outer, hclasses, -⟩ := hw
  rw [h] at hclasses
  cases p with
  | outside => rfl
  | inClass | inMethod => cases hclasses

end Walk

/-- At the place `p` the operation opens the place `q`, which `closing` closes. -/
structure Opens (p q : Place) (op closing : Op) : Prop where
  closes : ∀ {rest : List Op}, EndsBefore q rest → ∃ more, rest = closing :: more
  bracketed : ∀ {body : List Op} {parts : Parts}, Bracketed q body parts →
    ∃ parts', Bracketed p (op :: (body ++ [closing])) parts'

theorem opens_class (p : Place) (name source : String) :
    Opens p .inClass (.beginClass name source) .endClass :=
  ⟨id, fun h => ⟨_, .container h .nil⟩⟩

theorem opens_method {p : Place} (hp : p ≠ .outside) (name : String) (kind : MethodKind) :
    Opens p .inMethod (.beginMethod name kind) .endMethod :=
  ⟨id, fun h => ⟨_, .method hp h .nil⟩⟩

theorem Walk.StandsAt.step_cases {w : Walk} {p : Place} {op : Op} {offset : Nat}
    (hw : w.StandsAt p) (h : (w.step offset op).errors = #[]) :
    (∀ rest, EndsBefore p (op :: rest)) ∨ (∃ parts, Bracketed p [op] parts) ∨
      ∃ q closing, (w.step offset op).StandsAt q ∧ Opens p q op closing := by
  have hplain : op.isPlain → (w.code offset op).errors = #[] → ∃ parts, Bracketed p [op] parts := by
    intro hop h
    obtain ⟨fields, f, methods, outer, hclasses, houter, hmethods⟩ := hw
    cases p with
    | outside =>
      cases houter rfl
      simp only [code, hclasses, openAt, if_true] at h
      exact absurd h (errors_error_ne _ _)
    | inClass =>
      cases hmethods rfl
      simp [code, hclasses, openAt, openMethods] at h
    | inMethod => exact ⟨_, .plain hop .nil⟩
  cases op with
  | beginClass name source => exact .inr (.inr ⟨_, _, .beginClass w, opens_class p name source⟩)
  | beginMethod name kind =>
    by_cases hp : p = .outside
    · obtain ⟨fields, f, methods, outer, hclasses, houter, -⟩ := hw
      cases houter hp
      simp [step, Walk.beginMethod, hclasses, openAt, hp] at h
    · exact .inr (.inr ⟨_, _, hw.beginMethod hp offset name, opens_method hp name kind⟩)
  | declareField name =>
    by_cases hp : p = .outside
    · obtain ⟨fields, f, methods, outer, hclasses, houter, -⟩ := hw
      cases houter hp
      simp [step, declareField, hclasses, openAt, hp] at h
    · exact .inr (.inl ⟨_, .declare hp .nil⟩)
  | endClass =>
    obtain ⟨fields, f, methods, outer, hclasses, houter, -⟩ := hw
    cases p with
    | outside =>
      cases houter rfl
      simp [step, endClass, hclasses, openAt] at h
    | inClass => exact .inl fun rest => ⟨rest, rfl⟩
    | inMethod => simp [step, endClass, hclasses, openAt, openMethods] at h
  | endMethod =>
    obtain ⟨fields, f, methods, outer, hclasses, houter, hmethods⟩ := hw
    cases p with
    | outside =>
      cases houter rfl
      simp [step, endMethod, hclasses, openAt] at h
    | inClass =>
      cases hmethods rfl
      simp [step, endMethod, hclasses, openAt, openMethods] at h
    | inMethod => exact .inl fun rest => ⟨rest, rfl⟩
  | _ => exact .inr (.inl (hplain rfl h))

theorem Parts.append_assoc (a b c : Parts) : a ++ b ++ c = a ++ (b ++ c) := by
  change Parts.mk _ _ _ _ = Parts.mk _ _ _ _
  simp

theorem Bracketed.append {p : Place} {code more : List Op} {parts parts' : Parts}
    (h : Bracketed p code parts) (h' : Bracketed p more parts') :
    Bracketed p (code ++ more) (parts ++ parts') := by
  induction h with
  | nil => exact h'
  | declare hp _ ih => exact .declare hp (ih h')
  | plain hop _ ih => exact .plain hop (ih h')
  | method hp hbody _ _ ih =>
    rw [List.cons_append, List.append_assoc, List.cons_append, Parts.append_assoc]
    exact .method hp hbody (ih h')
  | container hbody _ _ ih =>
    rw [List.cons_append, List.append_assoc, List.cons_append, Parts.append_assoc]
    exact .container hbody (ih h')

/-- Code that the verifier goes through without an error and that leaves nothing open begins with
what belongs to the place. -/
theorem Walk.StandsAt.exists_bracketed {w : Walk} {p : Place} {offset : Nat} {code : List Op}
    (hw : w.StandsAt p) (herrors : (w.run offset code).errors = #[])
    (hclosed : (w.run offset code).classes = []) :
    ∃ body rest parts, code = body ++ rest ∧ Bracketed p body parts ∧ EndsBefore p rest := by
  -- The length decreases from the code to what follows a bracket, which is not a tail of it.
  induction hlength : code.length using Nat.strongRecOn generalizing w p offset code with
  | _ n ih =>
    cases code with
    | nil => exact ⟨[], [], {}, rfl, .nil, hw.endsBefore_nil hclosed⟩
    | cons op rest =>
      rw [List.length_cons] at hlength
      -- Whatever comes behind bracketed code at the place is split by the hypothesis.
      have hthen : ∀ (before more : List Op) (parts : Parts), op :: rest = before ++ more →
          before ≠ [] → Bracketed p before parts →
          ∃ body rest' parts, op :: rest = body ++ rest' ∧ Bracketed p body parts ∧
            EndsBefore p rest' := by
        intro before more parts hsplit hne hbefore
        have hpos := List.length_pos_iff.2 hne
        have hlengths := congrArg List.length hsplit
        rw [List.length_append, List.length_cons] at hlengths
        rw [hsplit, run_append] at herrors hclosed
        obtain ⟨body, rest', parts', rfl, hbody, hends⟩ :=
          ih more.length (by omega) (hw.run hbefore offset) herrors hclosed rfl
        exact ⟨before ++ body, rest', _, by rw [hsplit, List.append_assoc], hbefore.append hbody,
          hends⟩
      rcases hw.step_cases (errors_of_run herrors) with hends | ⟨parts, hsingle⟩ |
        ⟨q, closing, hq, hopens⟩
      · exact ⟨[], op :: rest, {}, rfl, .nil, hends rest⟩
      · exact hthen [op] rest _ rfl (List.cons_ne_nil _ _) hsingle
      · obtain ⟨body, rest', parts, hsplit, hbody, hends⟩ :=
          ih rest.length (by omega) hq herrors hclosed rfl
        obtain ⟨more, rfl⟩ := hopens.closes hends
        obtain ⟨parts', hbracket⟩ := hopens.bracketed hbody
        apply hthen (op :: (body ++ [closing])) more _ _ (List.cons_ne_nil _ _) hbracket
        rw [hsplit, List.cons_append, List.append_assoc, List.singleton_append]

/-- The verifier accepts a list of operations just when it is a sequence of classes in which every
bracket is closed and nothing is wrong with any method. -/
theorem verify_accepts_iff (code : List Op) :
    (({} : Verifier).verify code).errors = [] ↔
      ∃ parts, Bracketed .outside code parts ∧ ∀ m ∈ parts.methods, m.Valid := by
  constructor
  · intro h
    rw [Verifier.errors_verify, Array.toList_eq_nil_iff] at h
    obtain ⟨hclosed, herrors⟩ : (Walk.run (Verifier.start {} code.length) 0 code).classes = [] ∧
        (Walk.run (Verifier.start {} code.length) 0 code).errors = #[] := by
      unfold Walk.finish at h
      split at h
      · exact ⟨by assumption, h⟩
      · exact absurd h (Walk.errors_error_ne _ _)
    have hstart : (Verifier.start {} code.length).StandsAt .outside :=
      ⟨[], ⟨"", 0, [], []⟩, [], [], rfl, fun _ => rfl, nofun⟩
    obtain ⟨body, rest, parts, rfl, hbody, rfl⟩ := hstart.exists_bracketed herrors hclosed
    rw [List.append_nil] at h ⊢
    refine ⟨parts, hbody, ((hbody.verify {}).1.1 ?_).2⟩
    rw [Verifier.errors_verify, Array.toList_eq_nil_iff]
    exact h
  · intro ⟨parts, hcode, hvalid⟩
    exact (hcode.verify {}).1.2 ⟨rfl, hvalid⟩

end StackBackend.Code
