import StackBackend.Proofs.Json.Doubles
import StackBackend.Proofs.Json.Strings

/-!
# Documents read back

A written value is read as its draft: the same value, but with each number as its numeral reads. The
reading of a value ends where the value ends, so what follows is left. The steps that the reader is
given are counted against the characters that are left to read.
-/
namespace StackBackend.Json

open Numeral

/-- What the text of a double is read as. -/
def reread (x : Float) : Draft := (Draft.read (writeFloat x)).1

mutual
/-- What a written value is read as. -/
def draft : Json → Draft
  | .null => .null
  | .bool value => .bool value
  | .integer i => (ofInt i).draft
  | .float x => reread x
  | .string s => .string s
  | .array items => .array (draftItems items)
  | .object members => .object (draftMembers members)

def draftItems : List Json → Items
  | [] => .closed
  | item :: rest => .item item.draft (draftItems rest)

def draftMembers : List (String × Json) → Members
  | [] => .closed
  | (key, value) :: rest => .member (.ok key) value.draft (draftMembers rest)
end

/-! ### Single steps of the reader -/

@[simp]
theorem length_newLine (depth : Nat) : (newLine depth).length = 2 * depth + 1 := by
  simp [newLine]

theorem skipBlanks_newLine (depth : Nat) (cs : List Char) :
    skipBlanks (newLine depth ++ cs) = skipBlanks cs := by
  refine List.dropWhile_append_of_pos fun c hc => ?_
  obtain rfl | hc := List.mem_cons.1 hc
  · rfl
  · rw [List.eq_of_mem_replicate hc]
    rfl

theorem skipBlanks_cons {c : Char} (h : isBlank c = false) (cs : List Char) :
    skipBlanks (c :: cs) = c :: cs := by
  simp [skipBlanks, h]

theorem delimited_newLine (depth : Nat) (cs : List Char) : Delimited (newLine depth ++ cs) :=
  .inr rfl

variable {fuel : Nat} {cs : List Char}

theorem readValue_space : readValue (fuel + 1) (' ' :: cs) = readValue (fuel + 1) cs := by
  have hskip : skipBlanks (' ' :: cs) = skipBlanks cs := rfl
  simp only [readValue, hskip]

theorem isBlank_digit {c : Char} (h : c.isDigit) : isBlank c = false := by
  rw [Bool.eq_false_iff]
  intro hblank
  simp only [isBlank, Bool.or_eq_true, decide_eq_true_eq] at hblank
  obtain ((rfl | rfl) | rfl) | rfl := hblank <;> exact absurd h (by decide)

theorem readValue_digit {c : Char} (h : c.isDigit) :
    readValue (fuel + 1) (c :: cs) = readNumber false (c :: cs) := by
  rw [readValue, skipBlanks_cons (isBlank_digit h)]
  split <;> simp_all

theorem readValue_number {s : Spelling} (hs : s.Valid) (negative : Bool) {rest : List Char}
    (hr : Delimited rest) :
    readValue (fuel + 1) ((if negative then ['-'] else []) ++ s.text ++ rest) =
      ((s.numeral negative).draft, .ok rest) := by
  have hread : readNumber negative (s.text ++ rest) = ((s.numeral negative).draft, .ok rest) := by
    simp only [readNumber, read_text hs negative hr]
  cases negative with
  | true => exact hread
  | false =>
    obtain ⟨c, ds, hwhole⟩ := List.exists_cons_of_ne_nil hs.whole.nonempty
    have hc : c.isDigit := hs.whole.all c (hwhole ▸ .head _)
    rw [← hread]
    simp only [Spelling.text, hwhole, List.cons_append]
    exact readValue_digit hc

theorem writeInteger_eq (i : Int) :
    writeInteger i = (if decide (i < 0) then ['-'] else []) ++ (Spelling.ofNat i.natAbs).text := by
  by_cases h : i < 0 <;> simp [writeInteger, h]

theorem readValue_integer (i : Int) {rest : List Char} (hr : Delimited rest) :
    readValue (fuel + 1) (writeInteger i ++ rest) = ((ofInt i).draft, .ok rest) := by
  rw [writeInteger_eq]
  exact readValue_number (Spelling.valid_ofNat _) _ hr

section

variable {x : Float} {negative : Bool} {s : Spelling} (hx : x.isFinite) (hs : s.Valid)
  (htext : Decimal.interchanged.text x = (if negative then ['-'] else []) ++ s.text)

include hx hs htext

theorem readValue_spelled (fuel : Nat) {rest : List Char} (hr : Delimited rest) :
    readValue (fuel + 1) (writeFloat x ++ rest) = ((s.numeral negative).draft, .ok rest) := by
  rw [writeFloat, if_pos hx, htext]
  exact readValue_number hs negative hr

theorem reread_spelled : reread x = (s.numeral negative).draft := by
  have hrest : Delimited [] := trivial
  have h := readValue_spelled hx hs htext (3 * (writeFloat x).length + 2) hrest
  rw [List.append_nil] at h
  exact congrArg Prod.fst h

end

theorem reread_of_not_isFinite {x : Float} (hx : ¬ x.isFinite) : reread x = .null := by
  rw [reread, writeFloat, if_neg hx]
  rfl

theorem readValue_float (x : Float) {rest : List Char} (hr : Delimited rest) :
    readValue (fuel + 1) (writeFloat x ++ rest) = (reread x, .ok rest) := by
  by_cases hx : x.isFinite
  · obtain ⟨negative, _, ⟨s, hs, -, rfl⟩, htext⟩ := Decimal.text_decimal x
    rw [reread_spelled hx hs htext, readValue_spelled hx hs htext fuel hr]
  · rw [reread_of_not_isFinite hx, writeFloat, if_neg hx]
    rfl

theorem reread_ne_integer (x : Float) (i : Int) : reread x ≠ .integer i := by
  by_cases hx : x.isFinite
  · obtain ⟨negative, _, ⟨s, hs, hparts, rfl⟩, htext⟩ := Decimal.text_decimal x
    rw [reread_spelled hx hs htext]
    exact draft_ne_integer (integer?_decimal hparts negative) i
  · rw [reread_of_not_isFinite hx]
    intro h
    cases h

/-! ### Whole values -/

/-- A text that begins an item: with neither a blank nor the end of the array. -/
def Opens (cs : List Char) : Prop := ∃ c ∈ cs.head?, isBlank c = false ∧ c ≠ ']'

theorem opens_number {s : Spelling} (hs : s.Valid) (negative : Bool) :
    Opens ((if negative then ['-'] else []) ++ s.text) := by
  cases negative with
  | true => exact ⟨'-', rfl, by decide⟩
  | false =>
    obtain ⟨c, ds, hwhole⟩ := List.exists_cons_of_ne_nil hs.whole.nonempty
    have hc : c.isDigit := hs.whole.all c (hwhole ▸ .head _)
    refine ⟨c, by simp [Spelling.text, hwhole], isBlank_digit hc, ?_⟩
    rintro rfl
    exact absurd hc (by decide)

theorem opens_writeFloat (x : Float) : Opens (writeFloat x) := by
  unfold writeFloat
  split
  · obtain ⟨negative, _, ⟨s, hs, -, rfl⟩, htext⟩ := Decimal.text_decimal x
    rw [htext]
    exact opens_number hs negative
  · exact ⟨'n', rfl, by decide⟩

theorem opens_write (depth : Nat) : ∀ j : Json, Opens (j.write depth)
  | .null => ⟨'n', rfl, by decide⟩
  | .bool true => ⟨'t', rfl, by decide⟩
  | .bool false => ⟨'f', rfl, by decide⟩
  | .integer i => by
    rw [write, writeInteger_eq]
    exact opens_number (Spelling.valid_ofNat _) _
  | .float x => opens_writeFloat x
  | .string _ => ⟨'"', rfl, by decide⟩
  | .array [] => ⟨'[', rfl, by decide⟩
  | .array (_ :: _) => ⟨'[', rfl, by decide⟩
  | .object [] => ⟨'\x7b', rfl, by decide⟩
  | .object (_ :: _) => ⟨'\x7b', rfl, by decide⟩

/-! Behind an opening bracket or a comma the reader comes to the next item or member, and behind the
last one to the closing bracket. -/

theorem readItems_newLine (h : Opens cs) (depth : Nat) (rest : List Char) :
    readItems (fuel + 1) (newLine depth ++ (cs ++ rest)) = readItem fuel (cs ++ rest) := by
  obtain ⟨c, hc, hblank, hclose⟩ := h
  obtain ⟨cs, rfl⟩ := List.head?_eq_some_iff.1 hc
  rw [readItems, skipBlanks_newLine, List.cons_append, skipBlanks_cons hblank]
  split
  · simp_all
  · simp_all
  · rfl

theorem readNextItem_comma (h : Opens cs) (depth : Nat) (rest : List Char) :
    readNextItem (fuel + 1) (',' :: (newLine depth ++ (cs ++ rest))) =
      readItem fuel (cs ++ rest) := by
  obtain ⟨c, hc, hblank, hclose⟩ := h
  obtain ⟨cs, rfl⟩ := List.head?_eq_some_iff.1 hc
  rw [readNextItem, skipBlanks_cons rfl]
  simp only
  rw [skipBlanks_newLine, List.cons_append, skipBlanks_cons hblank]
  split
  · simp_all
  · simp_all
  · rfl

theorem readNextItem_close (depth : Nat) (rest : List Char) :
    readNextItem (fuel + 1) (newLine depth ++ ']' :: rest) = (.closed, .ok rest) := by
  rw [readNextItem, skipBlanks_newLine, skipBlanks_cons rfl]
  rfl

theorem readMembers_newLine (depth : Nat) :
    readMembers (fuel + 1) (newLine depth ++ '"' :: cs) = readMember fuel cs := by
  rw [readMembers, skipBlanks_newLine, skipBlanks_cons rfl]
  rfl

theorem readNextMember_comma (depth : Nat) :
    readNextMember (fuel + 1) (',' :: (newLine depth ++ '"' :: cs)) = readMember fuel cs := by
  rw [readNextMember, skipBlanks_cons rfl]
  simp only
  rw [skipBlanks_newLine, skipBlanks_cons rfl]
  rfl

theorem readNextMember_close (depth : Nat) (rest : List Char) :
    readNextMember (fuel + 1) (newLine depth ++ '\x7d' :: rest) = (.closed, .ok rest) := by
  rw [readNextMember, skipBlanks_newLine, skipBlanks_cons rfl]
  rfl

theorem readItem_value {cs' : List Char} {first : Draft} {tail : Items × Rest}
    (hvalue : readValue fuel cs = (first, .ok cs')) (htail : readNextItem fuel cs' = tail) :
    readItem (fuel + 1) cs = (.item first tail.1, tail.2) := by
  simp only [readItem, hvalue, htail]

theorem readMember_value (key : String) {cs' : List Char} {value : Draft} {tail : Members × Rest}
    (hvalue : readValue (fuel + 1) cs = (value, .ok cs'))
    (htail : readNextMember (fuel + 1) cs' = tail) :
    readMember (fuel + 2) (key.toList.flatMap escaped ++ '"' :: ':' :: ' ' :: cs) =
      (.member (.ok key) value tail.1, tail.2) := by
  have hcolon : readColon (':' :: ' ' :: cs) = .ok (' ' :: cs) := rfl
  simp only [readMember, StringLiteral.read_written, hcolon, readValue_space, hvalue, htail]

theorem delimited_writeItems (depth : Nat) (items : List Json) {rest : List Char}
    (h : Delimited rest) : Delimited (writeItems depth items ++ rest) := by
  cases items with
  | nil => exact h
  | cons item items => exact .inl rfl

theorem delimited_writeMembers (depth : Nat) (members : List (String × Json)) {rest : List Char}
    (h : Delimited rest) : Delimited (writeMembers depth members ++ rest) := by
  cases members with
  | nil => exact h
  | cons member members => exact .inl rfl

-- A step that opens an item or a member is paid for by the new line before it.
mutual
theorem readValue_write : ∀ (j : Json) (depth fuel : Nat) {rest : List Char}, Delimited rest →
    3 * (j.write depth ++ rest).length + 1 ≤ fuel →
    readValue fuel (j.write depth ++ rest) = (j.draft, .ok rest)
  | .null, depth, fuel + 1, rest, hr, hfuel => rfl
  | .bool true, depth, fuel + 1, rest, hr, hfuel => rfl
  | .bool false, depth, fuel + 1, rest, hr, hfuel => rfl
  | .integer i, depth, fuel + 1, rest, hr, hfuel => readValue_integer i hr
  | .float x, depth, fuel + 1, rest, hr, hfuel => readValue_float x hr
  | .string s, depth, fuel + 1, rest, hr, hfuel => by
    have hread := StringLiteral.read_written s rest
    simp only [write, writeString, List.cons_append, List.append_assoc, List.nil_append]
    change readString _ = _
    simp only [readString, hread, draft]
  | .array [], depth, fuel + 1, rest, hr, hfuel => by
    simp only [write, List.cons_append, List.nil_append, List.length_cons] at hfuel ⊢
    obtain ⟨k, rfl⟩ : ∃ k, fuel = k + 1 := ⟨fuel - 1, by omega⟩
    rfl
  | .array (item :: items), depth, fuel + 1, rest, hr, hfuel => by
    simp only [write, List.cons_append, List.append_assoc, List.nil_append, List.length_cons,
      List.length_append, length_newLine] at hfuel ⊢
    obtain ⟨k, rfl⟩ : ∃ k, fuel = k + 2 := ⟨fuel - 2, by omega⟩
    have hnext := delimited_writeItems (depth + 1) items (delimited_newLine depth (']' :: rest))
    have hvalue := readValue_write item (depth + 1) k hnext
      (by simp only [List.length_append, List.length_cons, length_newLine]; omega)
    have htail := readNextItem_write items (depth + 1) depth k rest
      (by simp only [List.length_append, List.length_cons, length_newLine]; omega)
    have hitems := (readItems_newLine (opens_write _ item) (depth + 1) _).trans
      (readItem_value hvalue htail)
    exact congrArg (fun r : Items × Rest => (Draft.array r.1, r.2)) hitems
  | .object [], depth, fuel + 1, rest, hr, hfuel => by
    simp only [write, List.cons_append, List.nil_append, List.length_cons] at hfuel ⊢
    obtain ⟨k, rfl⟩ : ∃ k, fuel = k + 1 := ⟨fuel - 1, by omega⟩
    rfl
  | .object ((key, value) :: members), depth, fuel + 1, rest, hr, hfuel => by
    simp only [write, writeString, List.cons_append, List.append_assoc, List.nil_append,
      List.length_cons, List.length_append, length_newLine] at hfuel ⊢
    obtain ⟨k, rfl⟩ : ∃ k, fuel = k + 4 := ⟨fuel - 4, by omega⟩
    have hnext := delimited_writeMembers (depth + 1) members
      (delimited_newLine depth ('\x7d' :: rest))
    have hvalue := readValue_write value (depth + 1) (k + 2) hnext
      (by simp only [List.length_append, List.length_cons, length_newLine]; omega)
    have htail := readNextMember_write members (depth + 1) depth (k + 2) rest
      (by simp only [List.length_append, List.length_cons, length_newLine]; omega)
    have hmembers := (readMembers_newLine (depth + 1)).trans
      (readMember_value key hvalue htail)
    exact congrArg (fun r : Members × Rest => (Draft.object r.1, r.2)) hmembers

theorem readNextItem_write : ∀ (items : List Json) (depth close fuel : Nat) (rest : List Char),
    3 * (writeItems depth items ++ (newLine close ++ ']' :: rest)).length ≤ fuel →
    readNextItem fuel (writeItems depth items ++ (newLine close ++ ']' :: rest)) =
      (draftItems items, .ok rest)
  | [], depth, close, fuel, rest, hfuel => by
    simp only [writeItems, List.nil_append, List.length_append, List.length_cons] at hfuel ⊢
    obtain ⟨k, rfl⟩ : ∃ k, fuel = k + 1 := ⟨fuel - 1, by omega⟩
    exact readNextItem_close close rest
  | item :: items, depth, close, fuel, rest, hfuel => by
    simp only [writeItems, List.cons_append, List.append_assoc, List.length_cons,
      List.length_append, length_newLine] at hfuel ⊢
    obtain ⟨k, rfl⟩ : ∃ k, fuel = k + 2 := ⟨fuel - 2, by omega⟩
    have hnext := delimited_writeItems depth items (delimited_newLine close (']' :: rest))
    have hvalue := readValue_write item depth k hnext
      (by simp only [List.length_append, List.length_cons, length_newLine]; omega)
    have htail := readNextItem_write items depth close k rest
      (by simp only [List.length_append, List.length_cons, length_newLine]; omega)
    exact (readNextItem_comma (opens_write _ item) depth _).trans (readItem_value hvalue htail)

theorem readNextMember_write : ∀ (members : List (String × Json)) (depth close fuel : Nat)
    (rest : List Char),
    3 * (writeMembers depth members ++ (newLine close ++ '\x7d' :: rest)).length ≤ fuel →
    readNextMember fuel (writeMembers depth members ++ (newLine close ++ '\x7d' :: rest)) =
      (draftMembers members, .ok rest)
  | [], depth, close, fuel, rest, hfuel => by
    simp only [writeMembers, List.nil_append, List.length_append, List.length_cons] at hfuel ⊢
    obtain ⟨k, rfl⟩ : ∃ k, fuel = k + 1 := ⟨fuel - 1, by omega⟩
    exact readNextMember_close close rest
  | (key, value) :: members, depth, close, fuel, rest, hfuel => by
    simp only [writeMembers, writeString, List.cons_append, List.append_assoc, List.nil_append,
      List.length_cons, List.length_append, length_newLine] at hfuel ⊢
    obtain ⟨k, rfl⟩ : ∃ k, fuel = k + 4 := ⟨fuel - 4, by omega⟩
    have hnext := delimited_writeMembers depth members (delimited_newLine close ('\x7d' :: rest))
    have hvalue := readValue_write value depth (k + 2) hnext
      (by simp only [List.length_append, List.length_cons, length_newLine]; omega)
    have htail := readNextMember_write members depth close (k + 2) rest
      (by simp only [List.length_append, List.length_cons, length_newLine]; omega)
    exact (readNextMember_comma depth).trans (readMember_value key hvalue htail)
end

theorem read_write (j : Json) : Draft.read (j.write 0) = (j.draft, .ok []) := by
  have hrest : Delimited [] := trivial
  have h := readValue_write j 0 (stepsFor (j.write 0)) hrest
    (by simp only [stepsFor, List.append_nil]; omega)
  rwa [List.append_nil] at h

/-! ### Documents that can be read as a whole -/

mutual
/-- How many arrays and objects stand inside each other. -/
def levels : Json → Nat
  | .array items => levelsOfItems items + 1
  | .object members => levelsOfMembers members + 1
  | _ => 0

def levelsOfItems : List Json → Nat
  | [] => 0
  | item :: rest => max item.levels (levelsOfItems rest)

def levelsOfMembers : List (String × Json) → Nat
  | [] => 0
  | (_, value) :: rest => max value.levels (levelsOfMembers rest)
end

mutual
/-- Every number of the document is read as it was written. -/
def Exact : Json → Prop
  | .integer i => (ofInt i).draft = .integer i
  | .float x => reread x = .float x
  | .array items => ExactItems items
  | .object members => ExactMembers members
  | _ => True

def ExactItems : List Json → Prop
  | [] => True
  | item :: rest => item.Exact ∧ ExactItems rest

def ExactMembers : List (String × Json) → Prop
  | [] => True
  | (_, value) :: rest => value.Exact ∧ ExactMembers rest
end

mutual
theorem check_draft : ∀ {j : Json} {room : Nat}, j.Exact → j.levels ≤ room →
    j.draft.check room = .ok ()
  | .null, _, _, _ => rfl
  | .bool _, _, _, _ => rfl
  | .integer i, room, hexact, _ => by
    rw [draft, show (ofInt i).draft = .integer i from hexact]
    rfl
  | .float x, room, hexact, _ => by
    rw [draft, show reread x = .float x from hexact]
    rfl
  | .string _, _, _, _ => rfl
  | .array items, room, hexact, hlevels => by
    obtain ⟨room, rfl⟩ : ∃ k, room = k + 1 := ⟨room - 1, by simp only [levels] at hlevels; omega⟩
    exact check_draftItems hexact (Nat.le_of_succ_le_succ hlevels)
  | .object members, room, hexact, hlevels => by
    obtain ⟨room, rfl⟩ : ∃ k, room = k + 1 := ⟨room - 1, by simp only [levels] at hlevels; omega⟩
    exact check_draftMembers hexact (Nat.le_of_succ_le_succ hlevels)

theorem check_draftItems : ∀ {items : List Json} {room : Nat}, ExactItems items →
    levelsOfItems items ≤ room → (draftItems items).check room = .ok ()
  | [], _, _, _ => rfl
  | item :: rest, room, ⟨hitem, hrest⟩, hlevels => by
    have hfirst := check_draft hitem (Nat.le_trans (Nat.le_max_left _ _) hlevels)
    have htail := check_draftItems hrest (Nat.le_trans (Nat.le_max_right _ _) hlevels)
    rw [draftItems, Items.check, hfirst]
    exact htail

theorem check_draftMembers : ∀ {members : List (String × Json)} {room : Nat}, ExactMembers members →
    levelsOfMembers members ≤ room → (draftMembers members).check room = .ok ()
  | [], _, _, _ => rfl
  | (key, value) :: rest, room, ⟨hvalue, hrest⟩, hlevels => by
    have hfirst := check_draft hvalue (Nat.le_trans (Nat.le_max_left _ _) hlevels)
    have htail := check_draftMembers hrest (Nat.le_trans (Nat.le_max_right _ _) hlevels)
    rw [draftMembers, Members.check, hfirst]
    exact htail
end

end StackBackend.Json
