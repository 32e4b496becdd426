import StackBackend.Program.Equality
import StackBackend.Proofs.Interchange.Instructions

/-!
# Scripts written and read again

A script comes back from its document as it was, with the one exception of its doubles: each of them
comes back exactly if the two roundings of the reader do not move it. The integers, labels, indices
and strings always do.
-/
namespace StackBackend

open Json (Exact ExactItems ExactMembers reread)
open Json.Numeral (Spelling)

/-- A double is the same after it has been written and read: it is written as a number, and the
digits of that are gathered to an integer, which is rounded to a double, and multiplied or divided
by a power of ten, which is rounded again. -/
structure Survives (x : Float) : Prop where
  finite : x.isFinite
  reads : ∃ (negative : Bool) (s : Spelling), s.Valid ∧
    Decimal.interchanged.text x = (if negative then ['-'] else []) ++ s.text ∧
    (s.numeral negative).double = some x

theorem survives_iff {x : Float} : Survives x ↔ reread x = .float x := by
  constructor
  · rintro ⟨hfinite, negative, s, hs, htext, hdouble⟩
    have hreread := Json.reread_spelled hfinite hs htext
    have hinteger : (s.numeral negative).integer? = none := by
      cases hinteger : (s.numeral negative).integer? with
      | none => rfl
      | some i =>
        rw [Json.Numeral.draft, hinteger] at hreread
        exact absurd hreread (Json.reread_ne_integer x i)
    rw [hreread]
    exact (Json.Numeral.draft_eq_float_iff hinteger).2 hdouble
  · intro h
    by_cases hfinite : x.isFinite
    · obtain ⟨negative, _, ⟨s, hs, hparts, rfl⟩, htext⟩ := Decimal.text_decimal x
      rw [Json.reread_spelled hfinite hs htext] at h
      have hinteger := Json.Numeral.integer?_decimal hparts negative
      exact ⟨hfinite, negative, s, hs, htext, (Json.Numeral.draft_eq_float_iff hinteger).1 h⟩
    · rw [Json.reread_of_not_isFinite hfinite] at h
      cases h

/-! ### The doubles of a script -/

def Constant.floats : Constant → List Float
  | .float x => [x]
  | _ => []

def Operand.floats : Operand → List Float
  | .constant c => c.floats
  | _ => []

mutual
def Instruction.floats : Instruction → List Float
  | .defineInstanceMethod m | .defineClassMethod m => m.floats
  | .defineClass c => c.floats
  | i => i.operands.flatMap Operand.floats

def Method.floats : Method → List Float
  | ⟨_, instrs⟩ => streamFloats instrs

def Class.floats : Class → List Float
  | ⟨_, instrs, methods, classes⟩ =>
    streamFloats instrs ++ (methodFloats methods ++ classFloats classes)

def streamFloats : List Instruction → List Float
  | [] => []
  | i :: rest => i.floats ++ streamFloats rest

def methodFloats : List Method → List Float
  | [] => []
  | m :: rest => m.floats ++ methodFloats rest

def classFloats : List Class → List Float
  | [] => []
  | c :: rest => c.floats ++ classFloats rest
end

def Script.floats (s : Script) : List Float := s.root.floats

/-! ### The doubles of a document

A written value carries doubles if they alone decide whether its numbers are read as they were
written. -/

def Carries (written : Json) (xs : List Float) : Prop := written.Exact ↔ ∀ x ∈ xs, Survives x

def CarriesItems (written : List Json) (xs : List Float) : Prop :=
  ExactItems written ↔ ∀ x ∈ xs, Survives x

def CarriesMembers (written : List (String × Json)) (xs : List Float) : Prop :=
  ExactMembers written ↔ ∀ x ∈ xs, Survives x

theorem Carries.none {written : Json} (h : written.Exact) : Carries written [] :=
  ⟨fun _ => List.forall_mem_nil _, fun _ => h⟩

theorem CarriesItems.nil : CarriesItems [] [] := ⟨fun _ => List.forall_mem_nil _, fun _ => trivial⟩

theorem CarriesItems.cons {item : Json} {items : List Json} {xs ys : List Float}
    (hitem : Carries item xs) (hitems : CarriesItems items ys) :
    CarriesItems (item :: items) (xs ++ ys) :=
  (and_congr hitem hitems).trans List.forall_mem_append.symm

theorem CarriesItems.array {items : List Json} {xs : List Float} (h : CarriesItems items xs) :
    Carries (.array items) xs := h

theorem CarriesMembers.nil : CarriesMembers [] [] :=
  ⟨fun _ => List.forall_mem_nil _, fun _ => trivial⟩

theorem CarriesMembers.cons {key : String} {value : Json} {members : List (String × Json)}
    {xs ys : List Float} (hvalue : Carries value xs) (hmembers : CarriesMembers members ys) :
    CarriesMembers ((key, value) :: members) (xs ++ ys) :=
  (and_congr hvalue hmembers).trans List.forall_mem_append.symm

theorem CarriesMembers.skip {key : String} {value : Json} {members : List (String × Json)}
    {xs : List Float} (hvalue : Carries value []) (hmembers : CarriesMembers members xs) :
    CarriesMembers ((key, value) :: members) xs := .cons hvalue hmembers

theorem CarriesMembers.object {members : List (String × Json)} {xs : List Float}
    (h : CarriesMembers members xs) : Carries (.object members) xs := h

theorem CarriesMembers.last {key : String} {value : Json} {xs : List Float}
    (h : Carries value xs) : CarriesMembers [(key, value)] xs :=
  List.append_nil xs ▸ .cons h .nil

theorem carries_string (s : String) : Carries (.string s) [] := .none trivial

theorem Carries.tagged {tagKey tag : String} {content : Json} {xs : List Float}
    (h : Carries content xs) : Carries (beside tagKey tag content) xs :=
  (CarriesMembers.skip (carries_string tag) (.last h)).object

theorem Label.carries (l : Label) : Carries l.encode [] := .none (Interchange.exact_label l)

theorem carries_float (x : Float) : Carries (.float x) [x] := by
  change reread x = .float x ↔ ∀ y ∈ [x], Survives y
  rw [List.forall_mem_singleton, survives_iff]

theorem Constant.carries (c : Constant) : Carries c.encode c.floats := by
  cases c with
  | fixnum n => exact .tagged (.none (Interchange.exact_fixnum n))
  | float x => exact .tagged (carries_float x)
  | str s => exact .tagged (carries_string s)
  | bool b => exact .tagged (.none trivial)
  | nil => exact (CarriesMembers.last (carries_string "nil")).object

theorem Operand.carries (o : Operand) : Carries o.encode o.floats := by
  cases o with
  | constant c => exact .tagged c.carries
  | «variable» v => exact .tagged (carries_string v.name)
  | field f => exact .tagged (carries_string f.name)
  | label l => exact .tagged l.carries

theorem carries_args (args : List Operand) :
    CarriesItems (args.map Operand.encode) (args.flatMap Operand.floats) := by
  induction args with
  | nil => exact .nil
  | cons o rest ih => exact .cons o.carries ih

theorem carries_leave (value : Option Operand) :
    Carries (encodeOption Operand.encode value) (value.toList.flatMap Operand.floats) := by
  cases value with
  | none => exact .none trivial
  | some o =>
    change Carries o.encode (o.floats ++ [])
    rw [List.append_nil]
    exact o.carries

theorem carries_result (result : Option Variable) :
    Carries (encodeOption Variable.encode result) [] := by
  cases result with
  | none => exact .none trivial
  | some v => exact carries_string v.name

theorem carries_fields {op : String} {fields : List (String × Json)} {xs : List Float}
    (h : CarriesMembers fields xs) : Carries (.object (("op", .string op) :: fields)) xs :=
  (CarriesMembers.skip (carries_string op) h).object

mutual
theorem Instruction.carries : ∀ i : Instruction, Carries i.encode i.floats
  | .label l => carries_fields (.cons l.carries .nil)
  | .jump target => carries_fields (.cons target.carries .nil)
  | .branch lhs rhs target =>
    carries_fields (.cons lhs.carries (.cons rhs.carries (.cons target.carries .nil)))
  | .dispatch value => carries_fields (.cons value.carries .nil)
  | .leave value => carries_fields (.last (carries_leave value))
  | .copy result source =>
    carries_fields (.skip (carries_string result.name) (.cons source.carries .nil))
  | .call result method args =>
    carries_fields (.skip (carries_result result)
      (.skip (carries_string method) (.last (carries_args args).array)))
  | .getField result receiver field =>
    carries_fields (.skip (carries_string result.name)
      (.cons receiver.carries (.cons (carries_string field.name) .nil)))
  | .putField receiver field value =>
    carries_fields (.cons receiver.carries
      (.cons (carries_string field.name) (.cons value.carries .nil)))
  | .receiveArg result index =>
    carries_fields (.skip (carries_string result.name)
      (.last (.none (Interchange.exact_index index))))
  | .ret value => carries_fields (.cons value.carries .nil)
  | .defineInstanceMethod method => carries_fields (.last method.carries)
  | .defineClassMethod method => carries_fields (.last method.carries)
  | .defineClass definition => carries_fields (.last definition.carries)

theorem Method.carries : ∀ m : Method, Carries m.encode m.floats
  | ⟨name, instrs⟩ =>
    (CarriesMembers.skip (carries_string name) (.last (carries_stream instrs).array)).object

theorem Class.carries : ∀ c : Class, Carries c.encode c.floats
  | ⟨name, instrs, methods, classes⟩ =>
    (CarriesMembers.skip (carries_string name) (.cons (carries_stream instrs).array
      (.cons (carries_methods methods).array (.last (carries_classes classes).array)))).object

theorem carries_stream : ∀ l : List Instruction, CarriesItems (encodeInstrs l) (streamFloats l)
  | [] => .nil
  | i :: rest => .cons i.carries (carries_stream rest)

theorem carries_methods : ∀ l : List Method, CarriesItems (encodeMethods l) (methodFloats l)
  | [] => .nil
  | m :: rest => .cons m.carries (carries_methods rest)

theorem carries_classes : ∀ l : List Class, CarriesItems (encodeClasses l) (classFloats l)
  | [] => .nil
  | c :: rest => .cons c.carries (carries_classes rest)
end

theorem Script.carries (s : Script) : Carries s.encode s.floats :=
  (CarriesMembers.skip (carries_string s.fileName) (.last s.root.carries)).object

/-! ### Scripts -/

theorem Script.ofJson_written (s t : Script) :
    Script.ofJson s.toJson = .ok t ↔ Interchange.readScript s.encode.draft = .ok t := by
  have hdecode : Interchange.decode s.toJson.toList = Interchange.readScript s.encode.draft := by
    rw [toJson, Json.pretty, String.toList_ofList]
    exact Interchange.decode_write s.encode
  rw [ofJson, hdecode]
  cases Interchange.readScript s.encode.draft with
  | ok script => simp
  | error fault => simp

/-- A script without doubles comes back from its document as it was, if no more arrays and objects
stand inside each other there than the reader allows. -/
theorem Script.ofJson_toJson (s : Script) (hfloats : s.floats = [])
    (hlevels : s.encode.levels ≤ Interchange.maxDepth) : Script.ofJson s.toJson = .ok s := by
  have hexact : s.encode.Exact := s.carries.2 fun x hx => nomatch (hfloats ▸ hx : x ∈ [])
  exact (Script.ofJson_written s s).2 ((Interchange.decodes_script s hlevels).2 hexact)

/-- The greatest and the least integers, a string of characters that are escaped or lie outside of
the basic plane, what can be absent and what can be empty, and a class in a method in a class. -/
def mixedScript : Script :=
  ⟨"a\tb.rb", ⟨"Main",
    [.label ⟨0xFFFFFFFF⟩, .receiveArg ⟨"self"⟩ 0xFFFFFFFFFFFFFFFF,
      .branch (.fixnum Int64.minValue) (.fixnum Int64.maxValue) ⟨0⟩,
      .call none "puts" [.constant (.str "\"\\\x01\x7f\n𝄞"), .constant (.bool true)],
      .call (some ⟨"r"⟩) "run" [], .leave none, .leave (some (.label ⟨7⟩)),
      .putField (.variable ⟨"self"⟩) ⟨"count"⟩ (.constant .nil),
      .defineClassMethod ⟨"build", [.defineClass ⟨"Inner", [], [⟨"m", []⟩], []⟩]⟩],
    [], [⟨"Other", [.ret (.field ⟨"x"⟩)], [], []⟩]⟩⟩

theorem ofJson_toJson_mixed :
    mixedScript.floats = [] ∧ mixedScript.encode.levels ≤ Interchange.maxDepth ∧
      Script.ofJson mixedScript.toJson = .ok mixedScript := by
  have hfloats : mixedScript.floats = [] := rfl
  have hlevels : mixedScript.encode.levels ≤ Interchange.maxDepth := by decide
  exact ⟨hfloats, hlevels, Script.ofJson_toJson mixedScript hfloats hlevels⟩

/-- A script comes back from its document as it was exactly if each of its doubles does. -/
theorem Script.ofJson_toJson_iff (s : Script) (hlevels : s.encode.levels ≤ Interchange.maxDepth) :
    Script.ofJson s.toJson = .ok s ↔ ∀ x ∈ s.floats, Survives x :=
  (Script.ofJson_written s s).trans ((Interchange.decodes_script s hlevels).trans s.carries)

instance (x y : Float) : Decidable (reread x = .float y) :=
  match h : reread x with
  | .float z => decidable_of_iff (z = y) (by rw [Json.Draft.float.injEq])
  | .null | .bool _ | .integer _ | .string _ | .array _ | .object _ | .flawed _ => .isFalse nofun

instance (x : Float) : Decidable (Survives x) := decidable_of_iff _ survives_iff.symm

def returning (x : Float) : Script := ⟨"main", ⟨"Main", [.ret (.constant (.float x))], [], []⟩⟩

theorem ofJson_toJson_tenth :
    (returning 0.1).encode.levels ≤ Interchange.maxDepth ∧
      Script.ofJson (returning 0.1).toJson = .ok (returning 0.1) := by
  have hlevels : (returning 0.1).encode.levels ≤ Interchange.maxDepth := by decide
  have htenth : Survives 0.1 := by decide +kernel
  exact ⟨hlevels, (Script.ofJson_toJson_iff (returning 0.1) hlevels).2
    (List.forall_mem_singleton.2 htenth)⟩

theorem draft_returning {x y : Float} (h : reread x = reread y) :
    (returning x).encode.draft = (returning y).encode.draft := by
  simp only [returning, Script.encode, Class.encode, encodeInstrs, Instruction.encode,
    Operand.encode, Constant.encode, beside, Json.draft, Json.draftItems, Json.draftMembers, h]

/-- The whole number just below `2 ^ 53` does not come back: with the zero behind its point its
digits make an integer that is no double, and a tenth of the double next to that is rounded down. -/
theorem ofJson_toJson_moved :
    Float.isFinite 9007199254740991 ∧
      Script.ofJson (returning 9007199254740991).toJson = .ok (returning 9007199254740990) ∧
      (returning 9007199254740990 == returning 9007199254740991) = false := by
  have hmoved : reread 9007199254740991 = .float 9007199254740990 := by decide +kernel
  have hstays : reread 9007199254740990 = .float 9007199254740990 := by decide +kernel
  have hlevels : (returning 9007199254740990).encode.levels ≤ Interchange.maxDepth := by decide
  have hdecodes := (Interchange.decodes_script _ hlevels).trans (returning 9007199254740990).carries
  refine ⟨by decide +kernel, (Script.ofJson_written _ _).2 ?_, by decide +kernel⟩
  rw [draft_returning (hmoved.trans hstays.symm)]
  exact hdecodes.2 (List.forall_mem_singleton.2 (survives_iff.2 hstays))

end StackBackend
