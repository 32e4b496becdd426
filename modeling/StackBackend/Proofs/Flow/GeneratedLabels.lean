import StackBackend.Proofs.Flow.Reading

/-!
# Generated labels

The entry, the exit and the blocks that are not begun at a label get labels of their own. A build
issues these one after another, past all labels that the stream places or leads to, so none of those
names such a block. A label that the stream has only as an operand is not taken out of the supply:
it names such a block if it happens to be one of the labels that are issued.
-/
namespace StackBackend

def Operand.label? : Operand → Option Label
  | .label l => some l
  | _ => none

/-- All labels that stand in the instructions, also those that nothing leads to. -/
def mentionedLabels (instrs : List Instruction) : List Label :=
  instrs.flatMap fun i => i.operands.filterMap Operand.label?

theorem Label.toNat_injective : Function.Injective fun l : Label => l.id.toNat := by
  rintro ⟨k⟩ ⟨l⟩ h
  exact congrArg Label.mk (UInt32.toNat_inj.1 h)

namespace Flow

/-- Whether no label of the stream stands where a block is begun. The entry and the exit are not
begun in the stream. -/
def generatedAt (instrs : List Instruction) : Nat → Bool
  | n + 2 => ((blockStarts instrs)[n]?.bind (labelAt? instrs)).isNone
  | _ => true

def generatedLabels (instrs : List Instruction) (blocks : List Block) : List Label :=
  (blocks.zipIdx.filter fun x => generatedAt instrs x.2).map (·.1.label)

def labelsFrom (first count : Nat) : List Label :=
  (List.range' first count).map fun n => ⟨.ofNat n⟩

theorem labelsFrom_succ (first count : Nat) :
    labelsFrom first (count + 1) = ⟨.ofNat first⟩ :: labelsFrom (first + 1) count := by
  rw [labelsFrom, List.range'_succ, List.map_cons, labelsFrom]

theorem map_id_labelsFrom {first count : Nat} (hfits : first + count ≤ LabelSupply.capacity) :
    (labelsFrom first count).map (·.id.toNat) = List.range' first count := by
  rw [labelsFrom, List.map_map]
  refine (List.map_congr_left fun n hn => ?_).trans (List.map_id _)
  exact UInt32.toNat_ofNat_of_lt' (Nat.lt_of_lt_of_le (List.mem_range'_1.1 hn).2 hfits)

theorem mem_labelsFrom {first count : Nat} {l : Label}
    (hfits : first + count ≤ LabelSupply.capacity) :
    l ∈ labelsFrom first count ↔ first ≤ l.id.toNat ∧ l.id.toNat < first + count := by
  rw [← List.mem_map_of_injective Label.toNat_injective, map_id_labelsFrom hfits,
    List.mem_range'_1]

theorem mem_streamLabels_of_labelAt? {instrs : List Instruction} {p : Nat} {l : Label}
    (h : labelAt? instrs p = some l) : l ∈ streamLabels instrs := by
  obtain ⟨i, hi, hplaced⟩ := Option.bind_eq_some_iff.1 h
  refine List.mem_flatMap.2 ⟨i, List.mem_of_getElem? hi, ?_⟩
  cases i with
  | label k =>
    cases hplaced
    exact List.mem_singleton_self l
  | _ => cases hplaced

section Layout

theorem filter_zipIdx_map {α β : Type} {q : Nat → Bool} {c : α → Bool} (f : α → β) (l : List α)
    (k : Nat) (h : ∀ n a, l[n]? = some a → q (k + n) = c a) :
    (((l.map f).zipIdx k).filter fun x => q x.2).map (·.1) = (l.filter c).map f := by
  induction l generalizing k with
  | nil => rfl
  | cons a l ih =>
    have hhead : q k = c a := h 0 a rfl
    have htail := ih (k + 1) fun n b hb => by
      rw [Nat.add_right_comm]
      exact h (n + 1) b hb
    rw [List.map_cons, List.zipIdx_cons, List.filter_cons, List.filter_cons]
    dsimp only
    rw [hhead]
    cases c a with
    | true =>
      rw [if_pos rfl, if_pos rfl, List.map_cons, List.map_cons, htail]
    | false =>
      rw [if_neg Bool.false_ne_true, if_neg Bool.false_ne_true, htail]

theorem map_unlabelledBefore (instrs : List Instruction) (n : Nat) :
    ((List.range n).filter (beginsUnlabelled instrs)).map (unlabelledBefore instrs) =
      List.range (unlabelledBefore instrs n) := by
  induction n with
  | zero => rfl
  | succ n ih =>
    rw [List.range_succ, List.filter_append, List.map_append, ih, unlabelledBefore_succ,
      List.filter_singleton]
    cases beginsUnlabelled instrs n with
    | true => exact List.range_succ.symm
    | false => exact List.append_nil _

theorem map_blockLabel_unlabelled (first : Nat) (instrs : List Instruction) :
    ((blockStarts instrs).filter fun p => (labelAt? instrs p).isNone).map
      (blockLabel first instrs) = labelsFrom first (unlabelledBefore instrs instrs.length) := by
  have hstarts : (blockStarts instrs).filter (fun p => (labelAt? instrs p).isNone) =
      (List.range instrs.length).filter (beginsUnlabelled instrs) := by
    rw [blockStarts, List.filter_filter]
    exact List.filter_congr fun p _ => Bool.and_comm _ _
  rw [hstarts, labelsFrom, List.range'_eq_map_range, ← map_unlabelledBefore, List.map_map,
    List.map_map]
  apply List.map_congr_left
  intro p hp
  have hnone := (Bool.and_eq_true_iff.1 (List.mem_filter.1 hp).2).2
  rw [blockLabel, Option.isNone_iff_eq_none.1 hnone]
  rfl

theorem generatedLabels_eq {done : List Instruction} {blocks : List Block} {first : Nat}
    (h : blocks.map (·.label) = ⟨.ofNat first⟩ :: ⟨.ofNat (first + 1)⟩ ::
      (blockStarts done).map (blockLabel (first + 2) done)) (rest : List Instruction) :
    generatedLabels (done ++ rest) blocks =
      labelsFrom first (2 + unlabelledBefore done done.length) := by
  have hselect : generatedLabels (done ++ rest) blocks =
      ((blocks.map (·.label)).zipIdx.filter fun x => generatedAt (done ++ rest) x.2).map
        (·.1) := by
    simp [generatedLabels, List.zipIdx_map, List.filter_map, Function.comp_def]
  -- The entry and the exit have the first two labels. Of the blocks behind them those are selected
  -- that are not begun at a label.
  rw [hselect, h, List.zipIdx_cons, List.zipIdx_cons, List.filter_cons_of_pos rfl,
    List.filter_cons_of_pos rfl, List.map_cons, List.map_cons,
    filter_zipIdx_map (c := fun p => (labelAt? done p).isNone), map_blockLabel_unlabelled,
    Nat.add_comm 2, labelsFrom_succ, labelsFrom_succ]
  intro n p hp
  have hlt : p < done.length := (mem_blockStarts.1 (List.mem_of_getElem? hp)).1
  rw [Nat.add_comm, generatedAt, getElem?_blockStarts_append hp, Option.bind_some,
    labelAt?_append hlt]

end Layout

variable {supply : Supply} {routine : String} {instrs : List Instruction} {g : Graph}
  {first u : Nat} {b : Block} {l : Label}

theorem mem_generatedLabels : l ∈ generatedLabels instrs g.blocks ↔
    ∃ u b, g.block? u = some b ∧ generatedAt instrs u = true ∧ b.label = l := by
  simp only [generatedLabels, List.mem_map, List.mem_filter, Prod.exists,
    List.mk_mem_zipIdx_iff_getElem?, Graph.block?_eq_getElem?]
  rw [exists_comm]
  simp only [and_assoc]

theorem Graph.BuiltFrom.label_mem_streamLabels (h : g.BuiltFrom first instrs)
    (hb : g.block? u = some b) (hu : generatedAt instrs u = false) :
    b.label ∈ streamLabels instrs := by
  match u with
  | 0 | 1 => cases hu
  | n + 2 =>
    have hlabel : (g.blocks.map (·.label))[n + 2]? = some b.label := by
      rw [List.getElem?_map, ← block?_eq_getElem?, hb, Option.map_some]
    rw [h.labels, List.getElem?_cons_succ, List.getElem?_cons_succ, List.getElem?_map,
      Option.map_eq_some_iff] at hlabel
    obtain ⟨p, hp, hlabel⟩ := hlabel
    rw [generatedAt, hp, Option.bind_some, Option.isNone_eq_false_iff] at hu
    obtain ⟨l, hl⟩ := Option.isSome_iff_exists.1 hu
    rw [blockLabel, hl, Option.getD_some] at hlabel
    rw [← hlabel]
    exact mem_streamLabels_of_labelAt? hl

theorem Supply.lt_firstIssued (supply : Supply) (hl : l ∈ streamLabels instrs) :
    l.id.toNat < supply.firstIssued instrs :=
  Nat.lt_of_lt_of_le (LabelSupply.lt_firstUnused hl) (Nat.le_max_right ..)

/-- The labels that are generated for the blocks of a graph. They are issued one after another; the
stream places none of them and leads to none of them, and each of them names the block that it has
been generated for. They differ from all labels in the instructions just if no label that stands
there only as an operand is one of those that are issued. -/
theorem build_generatedLabels (h : (build supply routine instrs).graph = .ok g) :
    generatedLabels instrs g.blocks =
        labelsFrom (supply.firstIssued instrs) (2 + unlabelledBefore instrs instrs.length) ∧
      (∀ l ∈ streamLabels instrs, l ∉ generatedLabels instrs g.blocks) ∧
      (∀ l, (∃ u, g.blockForLabel? l = some u ∧ generatedAt instrs u = true) ↔
        l ∈ generatedLabels instrs g.blocks) ∧
      ((∀ l ∈ mentionedLabels instrs, l ∉ generatedLabels instrs g.blocks) ↔
        ∀ l ∈ mentionedLabels instrs, l ∉ streamLabels instrs →
          l.id.toNat < supply.firstIssued instrs ∨
            supply.firstIssued instrs + 2 + unlabelledBefore instrs instrs.length ≤
              l.id.toNat) := by
  have hbuilt := builtFrom_of_build h
  have hlabels := generatedLabels_eq hbuilt.labels []
  have hfits := hbuilt.fits
  rw [List.append_nil] at hlabels
  rw [Nat.add_assoc] at hfits ⊢
  have hfresh : ∀ l ∈ streamLabels instrs, l ∉ generatedLabels instrs g.blocks := by
    intro l hl hmem
    rw [hlabels, mem_labelsFrom hfits] at hmem
    exact Nat.not_lt.2 hmem.1 (supply.lt_firstIssued hl)
  refine ⟨hlabels, hfresh, fun l => ⟨fun ⟨u, hlabel, hu⟩ => ?_, fun hl => ?_⟩, ?_⟩
  · obtain ⟨b, hb, hl⟩ := Graph.label_of_blockForLabel? hlabel
    exact mem_generatedLabels.2 ⟨u, b, hb, hu, hl⟩
  · obtain ⟨v, b, hb, -, hlabel⟩ := mem_generatedLabels.1 hl
    obtain ⟨u, hu⟩ := Graph.exists_blockForLabel? hb hlabel
    refine ⟨u, hu, ?_⟩
    obtain ⟨b, hb, hlabel⟩ := Graph.label_of_blockForLabel? hu
    cases hgenerated : generatedAt instrs u with
    | true => rfl
    | false =>
      have hmem := hbuilt.label_mem_streamLabels hb hgenerated
      rw [hlabel] at hmem
      exact absurd hl (hfresh l hmem)
  · constructor
    · intro hnone l hl _
      have hnot := hnone l hl
      rw [hlabels, mem_labelsFrom hfits] at hnot
      omega
    · intro hapart l hl hmem
      have hused : l ∉ streamLabels instrs := fun hused => hfresh l hused hmem
      have hout := hapart l hl hused
      rw [hlabels, mem_labelsFrom hfits] at hmem
      omega

/-- The label that the stream leads to nowhere lies behind those that are issued. -/
theorem build_generatedLabels_behind :
    ∃ g, (build .fresh "behind" [.label ⟨5⟩, .leave (some (.label ⟨9⟩)), .jump ⟨5⟩]).graph = .ok g ∧
      generatedLabels [.label ⟨5⟩, .leave (some (.label ⟨9⟩)), .jump ⟨5⟩] g.blocks =
        [⟨6⟩, ⟨7⟩, ⟨8⟩] ∧
      ∀ l ∈ mentionedLabels [.label ⟨5⟩, .leave (some (.label ⟨9⟩)), .jump ⟨5⟩],
        l ∉ generatedLabels [.label ⟨5⟩, .leave (some (.label ⟨9⟩)), .jump ⟨5⟩] g.blocks := by
  have hsize : (build .fresh "behind"
      [.label ⟨5⟩, .leave (some (.label ⟨9⟩)), .jump ⟨5⟩]).graph.toOption.map Graph.size = some 4 := by
    decide +kernel
  obtain ⟨g, hg, -⟩ := exists_of_toOption hsize
  obtain ⟨hlabels, -, -, happart⟩ := build_generatedLabels hg
  exact ⟨g, hg, hlabels.trans (by decide), happart.2 (by decide)⟩

/-- A label that is copied as a value is issued again, and names the entry. -/
theorem generatedLabels_not_fresh :
    ∃ g, (build .fresh "value" [.copy ⟨"x"⟩ (.label ⟨0⟩)]).graph = .ok g ∧
      ⟨0⟩ ∈ mentionedLabels [.copy ⟨"x"⟩ (.label ⟨0⟩)] ∧
      ⟨0⟩ ∈ generatedLabels [.copy ⟨"x"⟩ (.label ⟨0⟩)] g.blocks ∧
      g.blockForLabel? ⟨0⟩ = some Graph.entry ∧
      generatedAt [.copy ⟨"x"⟩ (.label ⟨0⟩)] Graph.entry = true := by
  have hentry : (build .fresh "value" [.copy ⟨"x"⟩ (.label ⟨0⟩)]).graph.toOption.map
      (·.blockForLabel? ⟨0⟩) = some (some Graph.entry) := by
    decide +kernel
  obtain ⟨g, hg, hentry⟩ := exists_of_toOption hentry
  have hlabels := generatedLabels_eq (builtFrom_of_build hg).labels []
  rw [List.append_nil] at hlabels
  refine ⟨g, hg, by decide, ?_, hentry, rfl⟩
  rw [hlabels]
  decide

end Flow

end StackBackend
