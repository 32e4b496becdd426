import StackBackend.Proofs.Interchange.Records

/-!
# Instructions, methods and classes decoded back

Whatever a script holds is decoded from what is written for it, if there is room for its arrays and
objects and every number is read as it was written. An instruction is read as a whole first, which
takes its room, and then field by field.
-/
namespace StackBackend.Interchange

open Json (Draft Items Members draftItems draftMembers ExactItems ExactMembers levelsOfItems
  levelsOfMembers reread)

/-! ### Operands -/

theorem decodes_of_ok {α : Type} {read : Draft → Result α} {written : Json} {a : α}
    (hread : read written.draft = .ok a) (hexact : written.Exact) : Decodes read written a :=
  ⟨fun _ => hexact, fun _ => hread⟩

theorem decodes_string (s : String) : Decodes readString (.string s) s := decodes_of_ok rfl trivial

theorem decodes_variable (v : Variable) : Decodes readVariable v.encode v :=
  decodes_of_ok rfl trivial

theorem decodes_fieldRef (f : FieldRef) : Decodes readFieldRef f.encode f :=
  decodes_of_ok rfl trivial

theorem integerIn_draft {low high i : Int} (expected : String)
    (h : (Json.integer i).draft = .integer i) (hlow : low ≤ i) (hhigh : i ≤ high) :
    integerIn low high expected (Json.integer i).draft = .ok i := by
  rw [h]
  exact if_pos ⟨hlow, hhigh⟩

theorem exact_label (l : Label) : l.encode.Exact := by
  have hlt := l.id.toNat_lt
  exact Json.Numeral.draft_ofInt (by omega) (by omega)

theorem exact_index (n : UInt64) : (Json.integer n.toNat).Exact := by
  have hlt := n.toNat_lt
  exact Json.Numeral.draft_ofInt (by omega) (by omega)

theorem exact_fixnum (n : Int64) : (Json.integer n.toInt).Exact := by
  have hle := n.le_toInt
  have hlt := n.toInt_lt
  exact Json.Numeral.draft_ofInt (by omega) (by omega)

theorem decodes_label (l : Label) : Decodes readLabel l.encode l := by
  have hlt := l.id.toNat_lt
  refine decodes_of_ok ?_ (exact_label l)
  rw [Label.encode, readLabel, integerIn_draft "u32" (exact_label l) (by omega) (by omega)]
  simp [Except.map]

theorem decodes_index (n : UInt64) : Decodes readIndex (.integer n.toNat) n := by
  have hlt := n.toNat_lt
  refine decodes_of_ok ?_ (exact_index n)
  rw [readIndex, integerIn_draft "usize" (exact_index n) (by omega) (by omega)]
  simp [Except.map]

theorem decodes_fixnum (n : Int64) : Decodes readFixnum (.integer n.toInt) n := by
  have hle := n.le_toInt
  have hlt := n.toInt_lt
  refine decodes_of_ok ?_ (exact_fixnum n)
  rw [readFixnum, integerIn_draft "i64" (exact_fixnum n) (by omega) (by omega)]
  simp [Except.map]

theorem decodes_double (x : Float) : Decodes readDouble (.float x) x := by
  change readDouble (reread x) = .ok x ↔ reread x = .float x
  constructor
  · intro h
    cases hread : reread x with
    | float y =>
      rw [hread] at h
      rw [Except.ok.inj h]
    | integer i => exact absurd hread (Json.reread_ne_integer x i)
    | null | bool | string | array | object | flawed =>
      rw [hread] at h
      cases h
  · intro h
    rw [h]
    rfl

theorem decodes_constant (c : Constant) : Decodes constants.read c.encode c := by
  have htagged {name : String} (k : ConstantKind) (hname : constants.variants.lookup name = some k)
      {content : Json} (h : Decodes k.content content c) :
      Decodes constants.read (beside "type" name content) c :=
    Decodes.tagged (t := constants) rfl (by decide) hname h
  cases c with
  | fixnum n => exact htagged .fixnum rfl ((decodes_fixnum n).map fun _ _ => Constant.fixnum.inj)
  | float x => exact htagged .float rfl ((decodes_double x).map fun _ _ => Constant.float.inj)
  | str s => exact htagged .str rfl ((decodes_string s).map fun _ _ => Constant.str.inj)
  | bool b =>
    have h : Decodes readBool (.bool b) b := decodes_of_ok rfl trivial
    exact htagged .bool rfl (h.map fun _ _ => Constant.bool.inj)
  | nil => exact decodes_of_ok rfl ⟨trivial, trivial⟩

theorem decodes_operand (o : Operand) : Decodes operands.read o.encode o := by
  have htagged {name : String} (k : OperandKind) (hname : operands.variants.lookup name = some k)
      {content : Json} (h : Decodes k.content content o) :
      Decodes operands.read (beside "kind" name content) o :=
    Decodes.tagged (t := operands) rfl (by decide) hname h
  cases o with
  | constant c =>
    exact htagged .constant rfl ((decodes_constant c).map fun _ _ => Operand.constant.inj)
  | «variable» v =>
    exact htagged .variable rfl ((decodes_variable v).map fun _ _ => Operand.variable.inj)
  | field f => exact htagged .field rfl ((decodes_fieldRef f).map fun _ _ => Operand.field.inj)
  | label l => exact htagged .label rfl ((decodes_label l).map fun _ _ => Operand.label.inj)

/-! ### Instructions -/

theorem findTag_some (mode : Mode) (room : Nat) (kind : InstructionKind)
    (members : List (String × Json)) (h : "op" ∉ members.map Prod.fst) :
    findTag mode room (some kind) (draftMembers members) =
      (lift ((draftMembers members).check room)).map fun _ => some kind := by
  induction members with
  | nil => rfl
  | cons member members ih =>
    obtain ⟨key, value⟩ := member
    obtain ⟨hkey, hmembers⟩ := not_or.1 <| mt List.mem_cons.2 h
    simp only [draftMembers, findTag, keyText, Members.check, bind, Except.bind,
      if_neg (Ne.symm hkey), ih hmembers]
    cases value.draft.check room <;> rfl

section

variable (readMethod : Draft → Result Method) (readClass : Draft → Result Class)

theorem nodup_instructionRecord (kind : InstructionKind) :
    ("op" :: (instructionRecord readMethod readClass kind).shape.names).Nodup := by
  have hnames : (instructionRecord readMethod readClass kind).shape.names =
      (instructionRecord (fun d => .error (refusal "" d)) (fun d => .error (refusal "" d))
        kind).shape.names := by
    cases kind <;> rfl
  rw [hnames]
  cases kind <;> decide

theorem instructionRecord_injective (kind : InstructionKind) :
    Function.Injective (instructionRecord readMethod readClass kind).make := by
  cases kind with
  | label | jump | dispatch | leave | ret | defineInstanceMethod | defineClassMethod
    | defineClass =>
    rintro ⟨a, ⟨⟩⟩ ⟨_, ⟨⟩⟩ ⟨⟩
    rfl
  | copy | receiveArg =>
    rintro ⟨a, b, ⟨⟩⟩ ⟨_, _, ⟨⟩⟩ ⟨⟩
    rfl
  | branch | call | getField | putField =>
    rintro ⟨a, b, c, ⟨⟩⟩ ⟨_, _, _, ⟨⟩⟩ ⟨⟩
    rfl

variable {readMethod readClass}

theorem decodes_fields (mode : Mode) {room : Nat} {name : String} (kind : InstructionKind)
    (hname : instructionTags.lookup name = some kind) {fields : List (String × Json)}
    {values : (instructionRecord readMethod readClass kind).Values}
    (h : Written (instructionRecord readMethod readClass kind).shape fields values)
    (hlevels : (Json.object (("op", .string name) :: fields)).levels ≤ room + 1) :
    Decodes (decodeInstruction (instructionRecord readMethod readClass) mode room)
      (.object (("op", .string name) :: fields))
      ((instructionRecord readMethod readClass kind).make values) := by
  obtain ⟨hop, hnames⟩ := List.nodup_cons.1 (nodup_instructionRecord readMethod readClass kind)
  have hrecord := h.record hnames (instructionRecord_injective readMethod readClass kind)
  have hfields : "op" ∉ fields.map Prod.fst := h.names ▸ hop
  have htag : instructionTag mode (.string name) = .ok kind := variant_eq hname
  have hskip : (instructionRecord readMethod readClass kind).ofMembers
        (draftMembers (("op", .string name) :: fields)) =
      (instructionRecord readMethod readClass kind).ofMembers (draftMembers fields) :=
    congrArg (Except.map (instructionRecord readMethod readClass kind).make)
      (Shape.ofMembers_skip _ hop rfl _)
  have hfind : findTag mode room none (draftMembers (("op", .string name) :: fields)) =
      (lift ((draftMembers fields).check room)).map fun _ => some kind := by
    rw [← findTag_some mode room kind fields hfields]
    simp only [draftMembers, Json.draft, findTag, keyText, bind, Except.bind, if_true, htag]
  have hexact : (Json.object (("op", .string name) :: fields)).Exact ↔ ExactMembers fields :=
    iff_of_eq (true_and _)
  unfold Decodes
  rw [hexact, ← hrecord, ← hskip, Json.draft, decodeInstruction, hfind]
  constructor
  · intro hdecode
    cases hcheck : (draftMembers fields).check room with
    | error cause =>
      rw [hcheck] at hdecode
      cases hdecode
    | ok _ =>
      rw [hcheck] at hdecode
      exact hdecode
  · intro hdecode
    have hfits : levelsOfMembers fields ≤ room :=
      Nat.le_trans (Nat.le_max_right 0 _) (Nat.le_of_succ_le_succ hlevels)
    rw [Json.check_draftMembers (hrecord.1 (hskip ▸ hdecode)) hfits]
    exact hdecode

end

theorem decodes_args (args : List Operand) :
    Decodes (readList operands.read) (.array (args.map Operand.encode)) args :=
  (DecodesItems.map decodes_operand args).array

theorem decodes_result (result : Option Variable) :
    Decodes (optional readVariable) (encodeOption Variable.encode result) result :=
  Decodes.option decodes_variable (fun _ => nofun) result

theorem decodes_leave (value : Option Operand) :
    Decodes (optional operands.read) (encodeOption Operand.encode value) value := by
  refine Decodes.option decodes_operand (fun o => ?_) value
  cases o <;> nofun

/-! ### Methods and classes -/

theorem levels_pos (i : Instruction) : 0 < i.encode.levels := by
  cases i <;> exact Nat.succ_pos _

theorem DecodesItems.inRoom {α : Type} {read : Nat → Draft → Result α}
    {readAll : Nat → Draft → Result (List α)}
    (hread : ∀ room, readAll (room + 1) = readList (read room)) {items : List Json} {as : List α}
    (h : ∀ {room}, levelsOfItems items ≤ room → DecodesItems (read room) items as) {room : Nat}
    (hlevels : (Json.array items).levels ≤ room) : Decodes (readAll room) (.array items) as := by
  cases room with
  | zero => cases hlevels
  | succ room =>
    rw [hread]
    exact (h (Nat.le_of_succ_le_succ hlevels)).array

theorem decodes_methodRecord {readInstrs : Draft → Result (List Instruction)} (mode : Mode)
    (name : String) {instrs : Json} {l : List Instruction} (h : Decodes readInstrs instrs l) :
    Decodes ((methodRecord readInstrs).read mode)
      (.object [("name", .string name), ("instrs", instrs)]) ⟨name, l⟩ := by
  have hnames : ["name", "instrs"].Nodup := by decide
  have hmake : Function.Injective (methodRecord readInstrs).make := by
    rintro ⟨_, _, ⟨⟩⟩ ⟨_, _, ⟨⟩⟩ ⟨⟩
    rfl
  have hfields : Written (methodRecord readInstrs).shape _ _ :=
    .field (decodes_string name) (.field h .done)
  exact hfields.record hnames hmake

theorem decodes_classRecord {readInstrs : Draft → Result (List Instruction)}
    {readMethods : Draft → Result (List Method)} {readClasses : Draft → Result (List Class)}
    (mode : Mode) (name : String) {instrs methods classes : Json} {l : List Instruction}
    {ms : List Method} {cs : List Class} (hinstrs : Decodes readInstrs instrs l)
    (hmethods : Decodes readMethods methods ms) (hclasses : Decodes readClasses classes cs) :
    Decodes ((classRecord readInstrs readMethods readClasses).read mode)
      (.object [("name", .string name), ("instrs", instrs), ("methods", methods),
        ("classes", classes)]) ⟨name, l, ms, cs⟩ := by
  have hnames : ["name", "instrs", "methods", "classes"].Nodup := by decide
  have hmake : Function.Injective (classRecord readInstrs readMethods readClasses).make := by
    rintro ⟨_, _, _, _, ⟨⟩⟩ ⟨_, _, _, _, ⟨⟩⟩ ⟨⟩
    rfl
  have hfields : Written (classRecord readInstrs readMethods readClasses).shape _ _ :=
    .field (decodes_string name) (.field hinstrs (.field hmethods (.field hclasses .done)))
  exact hfields.record hnames hmake

mutual
theorem decodes_instr : ∀ (i : Instruction) (mode : Mode) {room : Nat}, i.encode.levels ≤ room →
    Decodes (readInstruction mode room) i.encode i
  | i, _, 0, h => absurd h (Nat.not_le_of_lt (levels_pos i))
  | .label l, mode, room + 1, h => decodes_fields mode .label rfl (.field (decodes_label l) .done) h
  | .jump target, mode, room + 1, h =>
    decodes_fields mode .jump rfl (.field (decodes_label target) .done) h
  | .branch lhs rhs target, mode, room + 1, h =>
    decodes_fields mode .branch rfl
      (.field (decodes_operand lhs) (.field (decodes_operand rhs)
        (.field (decodes_label target) .done))) h
  | .dispatch value, mode, room + 1, h =>
    decodes_fields mode .dispatch rfl (.field (decodes_operand value) .done) h
  | .leave value, mode, room + 1, h =>
    decodes_fields mode .leave rfl (.field (decodes_leave value) .done) h
  | .copy result source, mode, room + 1, h =>
    decodes_fields mode .copy rfl
      (.field (decodes_variable result) (.field (decodes_operand source) .done)) h
  | .call result method args, mode, room + 1, h =>
    decodes_fields mode .call rfl
      (.field (decodes_result result) (.field (decodes_string method)
        (.field (decodes_args args) .done))) h
  | .getField result receiver field, mode, room + 1, h =>
    decodes_fields mode .getField rfl
      (.field (decodes_variable result) (.field (decodes_operand receiver)
        (.field (decodes_fieldRef field) .done))) h
  | .putField receiver field value, mode, room + 1, h =>
    decodes_fields mode .putField rfl
      (.field (decodes_operand receiver) (.field (decodes_fieldRef field)
        (.field (decodes_operand value) .done))) h
  | .receiveArg result index, mode, room + 1, h =>
    decodes_fields mode .receiveArg rfl
      (.field (decodes_variable result) (.field (decodes_index index) .done)) h
  | .ret value, mode, room + 1, h =>
    decodes_fields mode .ret rfl (.field (decodes_operand value) .done) h
  | .defineInstanceMethod method, mode, room + 1, h => by
    have hmethod : method.encode.levels ≤ room := by
      simp only [Instruction.encode, Json.levels, levelsOfMembers] at h
      omega
    exact decodes_fields mode .defineInstanceMethod rfl
      (.field (decodes_method method .held hmethod) .done) h
  | .defineClassMethod method, mode, room + 1, h => by
    have hmethod : method.encode.levels ≤ room := by
      simp only [Instruction.encode, Json.levels, levelsOfMembers] at h
      omega
    exact decodes_fields mode .defineClassMethod rfl
      (.field (decodes_method method .held hmethod) .done) h
  | .defineClass definition, mode, room + 1, h => by
    have hclass : definition.encode.levels ≤ room := by
      simp only [Instruction.encode, Json.levels, levelsOfMembers] at h
      omega
    exact decodes_fields mode .defineClass rfl
      (.field (decodes_class definition .held hclass) .done) h

theorem decodes_method : ∀ (m : Method) (mode : Mode) {room : Nat}, m.encode.levels ≤ room →
    Decodes (readMethod mode room) m.encode m
  | ⟨name, instrs⟩, mode, 0, h => by
    simp only [Method.encode, Json.levels] at h
    omega
  | ⟨name, instrs⟩, mode, room + 1, h => by
    have hinstrs : (Json.array (encodeInstrs instrs)).levels ≤ room := by
      simp only [Method.encode, Json.levels, levelsOfMembers] at h ⊢
      omega
    exact decodes_methodRecord mode name
      (DecodesItems.inRoom (fun _ => rfl) (decodes_instrs instrs mode) hinstrs)

theorem decodes_class : ∀ (c : Class) (mode : Mode) {room : Nat}, c.encode.levels ≤ room →
    Decodes (readClass mode room) c.encode c
  | ⟨name, instrs, methods, classes⟩, mode, 0, h => by
    simp only [Class.encode, Json.levels] at h
    omega
  | ⟨name, instrs, methods, classes⟩, mode, room + 1, h => by
    obtain ⟨hinstrs, hmethods, hclasses⟩ : (Json.array (encodeInstrs instrs)).levels ≤ room ∧
        (Json.array (encodeMethods methods)).levels ≤ room ∧
        (Json.array (encodeClasses classes)).levels ≤ room := by
      simp only [Class.encode, Json.levels, levelsOfMembers] at h ⊢
      omega
    exact decodes_classRecord mode name
      (DecodesItems.inRoom (fun _ => rfl) (decodes_instrs instrs mode) hinstrs)
      (DecodesItems.inRoom (fun _ => rfl) (decodes_methods methods mode) hmethods)
      (DecodesItems.inRoom (fun _ => rfl) (decodes_classes classes mode) hclasses)

theorem decodes_instrs : ∀ (l : List Instruction) (mode : Mode) {room : Nat},
    levelsOfItems (encodeInstrs l) ≤ room →
    DecodesItems (readInstruction mode room) (encodeInstrs l) l
  | [], _, _, _ => .nil
  | i :: rest, mode, _, h =>
    .cons (decodes_instr i mode (Nat.le_trans (Nat.le_max_left _ _) h))
      (decodes_instrs rest mode (Nat.le_trans (Nat.le_max_right _ _) h))

theorem decodes_methods : ∀ (l : List Method) (mode : Mode) {room : Nat},
    levelsOfItems (encodeMethods l) ≤ room →
    DecodesItems (readMethod mode room) (encodeMethods l) l
  | [], _, _, _ => .nil
  | m :: rest, mode, _, h =>
    .cons (decodes_method m mode (Nat.le_trans (Nat.le_max_left _ _) h))
      (decodes_methods rest mode (Nat.le_trans (Nat.le_max_right _ _) h))

theorem decodes_classes : ∀ (l : List Class) (mode : Mode) {room : Nat},
    levelsOfItems (encodeClasses l) ≤ room →
    DecodesItems (readClass mode room) (encodeClasses l) l
  | [], _, _, _ => .nil
  | c :: rest, mode, _, h =>
    .cons (decodes_class c mode (Nat.le_trans (Nat.le_max_left _ _) h))
      (decodes_classes rest mode (Nat.le_trans (Nat.le_max_right _ _) h))
end

/-- A script is decoded from its written document exactly when every number in it is read as it was
written, if the document leaves the room that there is. -/
theorem decodes_script (s : Script) (h : s.encode.levels ≤ maxDepth) :
    Decodes readScript s.encode s := by
  have hroot : s.root.encode.levels ≤ maxDepth - 1 := by
    simp only [Script.encode, Json.levels, levelsOfMembers, maxDepth] at h ⊢
    omega
  have hnames : ["file_name", "root"].Nodup := by decide
  have hmake : Function.Injective (scriptRecord (readClass .direct (maxDepth - 1))).make := by
    rintro ⟨_, _, ⟨⟩⟩ ⟨_, _, ⟨⟩⟩ ⟨⟩
    rfl
  have hfields : Written (scriptRecord (readClass .direct (maxDepth - 1))).shape _ _ :=
    .field (decodes_string s.fileName) (.field (decodes_class s.root .direct hroot) .done)
  exact hfields.record hnames hmake

theorem decode_write (j : Json) : decode (j.write 0) = readScript j.draft := by
  rw [decode, Json.read_write]
  simp only
  cases readScript j.draft <;> rfl

end StackBackend.Interchange
