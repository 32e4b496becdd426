import StackBackend.Interchange.Decode
import StackBackend.Interchange.Encode
import StackBackend.Proofs.Json.Documents

/-!
# Records decoded from what is written

A written record has its fields in the order of the declaration, so it is decoded field by field:
the record is what it was if and only if every field is. The same goes for a value beside its tag
and for the items of an array.
-/
namespace StackBackend.Interchange

open Json (Draft Items Members draftItems draftMembers ExactItems ExactMembers)

theorem bind_eq_ok {ε α β : Type} {x : Except ε α} {f : α → Except ε β} {b : β} :
    (x >>= f) = .ok b ↔ ∃ a, x = .ok a ∧ f a = .ok b := by
  cases x with
  | error e => exact ⟨nofun, fun ⟨_, h, _⟩ => nomatch h⟩
  | ok a => exact ⟨fun h => ⟨a, rfl, h⟩, fun ⟨_, h, h'⟩ => Except.ok.inj h ▸ h'⟩

theorem map_eq_ok {ε α β : Type} {x : Except ε α} {f : α → β} {b : β} :
    x.map f = .ok b ↔ ∃ a, x = .ok a ∧ f a = b := by
  cases x with
  | error e => exact ⟨nofun, fun ⟨_, h, _⟩ => nomatch h⟩
  | ok a =>
    refine ⟨fun h => ⟨a, rfl, Except.ok.inj h⟩, fun ⟨_, h, h'⟩ => ?_⟩
    rw [Except.map, Except.ok.inj h, h']

/-! ### Fields -/

namespace Shape

def names : {ρ : Type} → Shape ρ → List String
  | _, .done => []
  | _, .field first rest => first.name :: rest.names

theorem put_eq_none {ρ : Type} (s : Shape ρ) {key : String} (h : key ∉ s.names) (value : Draft)
    (slots : s.Slots) : s.put key value slots = none := by
  induction s with
  | done => rfl
  | field first rest ih =>
    obtain ⟨hfirst, hrest⟩ := not_or.1 <| mt List.mem_cons.2 h
    rw [put, if_neg hfirst, ih hrest]
    rfl

def filled {α β : Type} (first : Field α) {rest : Shape β} (x : Option α) (slots : rest.Slots) :
    (Shape.field first rest).Slots := (x, slots)

theorem put_of_ne {α β : Type} (first : Field α) (rest : Shape β) {key : String}
    (h : key ≠ first.name) (value : Draft) (x : Option α) (slots : rest.Slots) :
    (Shape.field first rest).put key value (filled first x slots) =
      (rest.put key value slots).map (·.map (filled first x)) := if_neg h

theorem collect_member {ρ : Type} (s : Shape ρ) (slots : s.Slots) (key : String) (value : Draft)
    (members : Members) :
    s.collect slots (.member (.ok key) value members) =
      (match s.put key value slots with
      | some slots => slots >>= fun slots => s.collect slots members
      | none => lift value.pass >>= fun _ => s.collect slots members) := rfl

theorem collect_field {α β : Type} (first : Field α) (rest : Shape β) (x : Option α)
    (members : List (String × Json)) (h : first.name ∉ members.map Prod.fst) (slots : rest.Slots) :
    (Shape.field first rest).collect (filled first x slots) (draftMembers members) =
      (rest.collect slots (draftMembers members)).map (filled first x) := by
  induction members generalizing slots with
  | nil => rfl
  | cons member members ih =>
    obtain ⟨key, value⟩ := member
    obtain ⟨hkey, hmembers⟩ := not_or.1 <| mt List.mem_cons.2 h
    rw [draftMembers, collect_member, collect_member, put_of_ne first rest (Ne.symm hkey)]
    cases rest.put key value.draft slots with
    | none =>
      cases lift value.draft.pass with
      | error fault => rfl
      | ok _ => exact ih hmembers slots
    | some slots =>
      cases slots with
      | error fault => rfl
      | ok slots => exact ih hmembers slots

theorem ofMembers_skip {ρ : Type} (s : Shape ρ) {key : String} (h : key ∉ s.names) {value : Draft}
    (hpass : value.pass = .ok ()) (members : Members) :
    s.ofMembers (.member (.ok key) value members) = s.ofMembers members := by
  rw [ofMembers, collect_member, put_eq_none s h, hpass]
  rfl

theorem ofMembers_field {α β : Type} {first : Field α} {rest : Shape β} {x : α} {y : β}
    {value : Json} {members : List (String × Json)} (h : first.name ∉ members.map Prod.fst) :
    (Shape.field first rest).ofMembers (draftMembers ((first.name, value) :: members)) =
        .ok (x, y) ↔
      first.read value.draft = .ok x ∧ rest.ofMembers (draftMembers members) = .ok y := by
  have hput : (Shape.field first rest).put first.name value.draft (filled first none rest.start) =
      some ((first.read value.draft).map fun a => filled first (some a) rest.start) := if_pos rfl
  have hstart : (Shape.field first rest).start = filled first none rest.start := rfl
  rw [draftMembers, ofMembers, hstart, collect_member, hput]
  cases first.read value.draft with
  | error fault => exact ⟨nofun, fun h => nomatch h.1⟩
  | ok a =>
    change ((Shape.field first rest).collect (filled first (some a) rest.start) _ >>= _) = _ ↔ _
    rw [collect_field first rest (some a) members h rest.start, ofMembers]
    cases rest.collect rest.start (draftMembers members) with
    | error fault => exact ⟨nofun, fun h => nomatch h.2⟩
    | ok slots =>
      change (rest.finish slots).map ((a, ·)) = _ ↔ Except.ok a = _ ∧ rest.finish slots = _
      cases rest.finish slots with
      | error fault => exact ⟨nofun, fun h => nomatch h.2⟩
      | ok b => simp [Except.map]

end Shape

/-! ### Written values

A reader decodes a written value back if it gives that value exactly when every number in the text
is read as it was written. -/

def Decodes {α : Type} (read : Draft → Result α) (written : Json) (a : α) : Prop :=
  read written.draft = .ok a ↔ written.Exact

def DecodesItems {α : Type} (read : Draft → Result α) (written : List Json) (as : List α) : Prop :=
  readItems read (draftItems written) = .ok as ↔ ExactItems written

/-- Members that are what is written for the fields, in their order. -/
inductive Written : {ρ : Type} → Shape ρ → List (String × Json) → ρ → Prop
  | done : Written .done [] ()
  | field {α ρ : Type} {first : Field α} {rest : Shape ρ} {value : Json} {x : α}
      {members : List (String × Json)} {ys : ρ} (hfirst : Decodes first.read value x)
      (hrest : Written rest members ys) :
      Written (.field first rest) ((first.name, value) :: members) (x, ys)

variable {α β ρ τ : Type}

theorem Written.names {s : Shape ρ} {members : List (String × Json)} {values : ρ}
    (h : Written s members values) : members.map Prod.fst = s.names := by
  induction h with
  | done => rfl
  | field _ _ ih => exact congrArg (_ :: ·) ih

theorem Written.ofMembers {s : Shape ρ} {members : List (String × Json)} {values : ρ}
    (h : Written s members values) (hnames : s.names.Nodup) :
    s.ofMembers (draftMembers members) = .ok values ↔ ExactMembers members := by
  induction h with
  | done => exact ⟨fun _ => trivial, fun _ => rfl⟩
  | field hfirst hrest ih =>
    obtain ⟨hfresh, hnames⟩ := List.nodup_cons.1 hnames
    rw [← hrest.names] at hfresh
    exact (Shape.ofMembers_field hfresh).trans (and_congr hfirst (ih hnames))

theorem DecodesItems.nil {read : Draft → Result α} : DecodesItems read [] [] :=
  ⟨fun _ => trivial, fun _ => rfl⟩

theorem DecodesItems.cons {read : Draft → Result α} {item : Json} {items : List Json} {a : α}
    {as : List α} (hitem : Decodes read item a) (hitems : DecodesItems read items as) :
    DecodesItems read (item :: items) (a :: as) := by
  refine Iff.trans ?_ (and_congr hitem hitems)
  simp only [draftItems, readItems, bind_eq_ok, pure, Except.pure, Except.ok.injEq, List.cons.injEq]
  constructor
  · rintro ⟨_, ha, _, has, rfl, rfl⟩
    exact ⟨ha, has⟩
  · exact fun ⟨ha, has⟩ => ⟨a, ha, as, has, rfl, rfl⟩

theorem DecodesItems.map {read : Draft → Result α} {encode : α → Json}
    (h : ∀ a, Decodes read (encode a) a) (as : List α) :
    DecodesItems read (as.map encode) as := by
  induction as with
  | nil => exact .nil
  | cons a as ih => exact .cons (h a) ih

theorem DecodesItems.array {read : Draft → Result α} {items : List Json} {as : List α}
    (h : DecodesItems read items as) : Decodes (readList read) (.array items) as := h

theorem Decodes.map {read : Draft → Result α} {written : Json} {a : α} (h : Decodes read written a)
    {f : α → β} (hf : Function.Injective f) :
    Decodes (fun d => (read d).map f) written (f a) := by
  refine Iff.trans (map_eq_ok.trans ⟨?_, fun ha => ⟨a, ha, rfl⟩⟩) h
  rintro ⟨b, hb, heq⟩
  rw [hb, hf heq]

theorem Decodes.option {read : Draft → Result α} {encode : α → Json}
    (h : ∀ a, Decodes read (encode a) a) (hnull : ∀ a, (encode a).draft ≠ .null) (a : Option α) :
    Decodes (optional read) (encodeOption encode a) a := by
  cases a with
  | none => exact ⟨fun _ => trivial, fun _ => rfl⟩
  | some a =>
    have hread : optional read (encode a).draft = (read (encode a).draft).map some := by
      unfold optional
      split
      · next hdraft => exact absurd hdraft (hnull a)
      · rfl
    unfold Decodes
    rw [encodeOption, hread]
    exact (h a).map (Option.some_injective α)

theorem Written.record {r : Record α} {members : List (String × Json)} {values : r.Values}
    (h : Written r.shape members values) (hnames : r.shape.names.Nodup)
    (hmake : Function.Injective r.make) :
    r.ofMembers (draftMembers members) = .ok (r.make values) ↔ ExactMembers members := by
  refine Iff.trans (map_eq_ok.trans ⟨?_, fun hv => ⟨values, hv, rfl⟩⟩) (h.ofMembers hnames)
  rintro ⟨values', hv, heq⟩
  rw [hv, hmake heq]

/-! ### Values beside their tag -/

theorem variant_eq {known : List (String × τ)} {name : String} {t : τ}
    (h : known.lookup name = some t) : variant known name = .ok t := by
  rw [variant, h]

theorem Decodes.tagged {t : Tagged τ α} (hkey : t.contentKey = "value") (hne : t.tagKey ≠ "value")
    {name : String} {k : τ} (hname : t.variants.lookup name = some k) {content : Json} {a : α}
    (h : Decodes (t.content k) content a) :
    Decodes t.read (beside t.tagKey name content) a := by
  have htag : readTag t.variants (.string name) = .ok k := variant_eq hname
  have hread : t.read (beside t.tagKey name content).draft = t.content k content.draft := by
    have hfirst (members : Members) : t.next (.member (.ok t.tagKey) (.string name) members) =
        .tag (.string name) members := if_pos rfl
    have hsecond : t.next (.member (.ok "value") content.draft .closed) =
        .content content.draft .closed :=
      (if_neg (Ne.symm hne)).trans (if_pos hkey.symm)
    simp only [beside, Json.draft, draftMembers, Tagged.read, Tagged.ofMembers, hfirst, htag, bind,
      Except.bind, hsecond, Tagged.decode]
    cases t.content k content.draft <;> rfl
  have hexact : (beside t.tagKey name content).Exact ↔ content.Exact := by
    simp [beside, Json.Exact, ExactMembers]
  unfold Decodes
  rw [hread, hexact]
  exact h

end StackBackend.Interchange
