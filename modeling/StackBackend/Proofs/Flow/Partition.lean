import StackBackend.Proofs.Flow.Contents
import StackBackend.Proofs.Flow.Reading

/-!
# The blocks partition the stream

The segments of a stream begin where blocks are begun. A segment goes up to the next one, so that
the instructions of its block are the run from there. The blocks of a graph thus are those of the
layout, in its order, and together they hold the stream without its labels.
-/
namespace StackBackend.Flow

def segmentStarts (segs : List (List Instruction)) : List Nat :=
  (List.range segs.length).map (segmentStart segs)

variable {segs : List (List Instruction)} {seg : List Instruction} {instrs : List Instruction}
  {n p : Nat}

theorem segmentStart_append (hn : n ≤ segs.length) (more : List (List Instruction)) :
    segmentStart (segs ++ more) n = segmentStart segs n := by
  rw [segmentStart, List.take_append_of_le_length hn, ← segmentStart]

theorem segmentStarts_concat (segs : List (List Instruction)) (last : List Instruction) :
    segmentStarts (segs ++ [last]) = segmentStarts segs ++ [segs.flatten.length] := by
  have hearlier : (List.range segs.length).map (segmentStart (segs ++ [last])) =
      segmentStarts segs :=
    List.map_congr_left fun n hn => segmentStart_append (Nat.le_of_lt (List.mem_range.1 hn)) [last]
  rw [segmentStarts, List.length_append, List.length_singleton, List.range_succ, List.map_append,
    hearlier, List.map_singleton, segmentStart_append (Nat.le_refl _), segmentStart_length]

theorem blockStarts_eq (instrs : List Instruction) :
    blockStarts instrs = segmentStarts (cut instrs) := by
  induction instrs using List.reverseRecOn with
  | nil => rfl
  | append_singleton instrs i ih =>
    rw [blockStarts_concat, ih]
    rcases cut_concat instrs i with ⟨hcut, hbegins⟩ | ⟨⟨init, last, hdone, hcut⟩, hextends⟩
    · rw [hcut, if_pos hbegins, segmentStarts_concat, flatten_cut]
    · rw [hcut, hdone, hextends, if_neg Bool.false_ne_true, List.append_nil, segmentStarts_concat,
        segmentStarts_concat]

theorem getElem?_blockStarts {k : Nat} :
    (blockStarts instrs)[k]? = some p ↔
      k < (cut instrs).length ∧ segmentStart (cut instrs) k = p := by
  rw [blockStarts_eq, segmentStarts, List.getElem?_map, Option.map_eq_some_iff]
  constructor
  · rintro ⟨m, hm, rfl⟩
    obtain ⟨hlt, rfl⟩ := List.getElem?_eq_some_iff.1 hm
    rw [List.length_range] at hlt
    rw [List.getElem_range]
    exact ⟨hlt, rfl⟩
  · rintro ⟨hlt, rfl⟩
    exact ⟨k, List.getElem?_range hlt, rfl⟩

theorem ends_of_getElem?_cut (hn : (cut instrs)[n]? = some seg) :
    ∀ j ∈ ((cut instrs).drop (n + 1)).flatten.head?, j.startsBlock = false →
      seg.getLast?.any (·.endsBlock) := by
  intro j hj hplain
  obtain ⟨hlt, rfl⟩ := List.getElem?_eq_some_iff.1 hn
  by_cases hnext : n + 1 < (cut instrs).length
  · have happart := List.isChain_getLast_head_splitBy joined instrs
    rw [← cut, List.isChain_iff_getElem] at happart
    obtain ⟨hne, hnextne, hjoined⟩ := happart n hnext
    rw [List.drop_eq_getElem_cons hnext, List.flatten_cons,
      List.head?_append_of_ne_nil _ hnextne, List.head?_eq_some_head hnextne] at hj
    cases hj
    rw [List.getLast?_eq_some_getLast hne]
    simpa [joined, hplain] using hjoined
  · rw [List.drop_eq_nil_of_le (Nat.le_of_not_lt hnext)] at hj
    cases hj

theorem IsSegment.segmentBody_eq (h : IsSegment seg) :
    segmentBody seg = if (segmentLabel? seg).isSome then seg.tail else seg := by
  obtain ⟨hne, hplaced, -⟩ := h
  cases seg with
  | nil => exact absurd rfl hne
  | cons i rest =>
    have hrest : segmentBody rest = rest :=
      List.filter_eq_self.2 fun j hj => by simp [placed?_eq_none.1 (hplaced j hj)]
    rw [segmentBody, List.filter_cons, ← segmentBody, hrest]
    cases i <;> rfl

theorem plain_of_mem_segmentBody {i : Instruction} (hi : i ∈ segmentBody seg) :
    i.startsBlock = false := by
  simpa using (List.mem_filter.1 hi).2

theorem IsSegment.ends_segmentBody (h : IsSegment seg) :
    ∀ i ∈ (segmentBody seg).dropLast, i.endsBlock = false := by
  intro i hi
  rw [h.segmentBody_eq] at hi
  split at hi
  · match seg with
    | [_] => cases hi
    | _ :: _ :: _ => exact h.2.2 i (.tail _ hi)
  · exact h.2.2 i hi

theorem IsSegment.getLast?_segmentBody (h : IsSegment seg) :
    (segmentBody seg).getLast? = seg.getLast?.filter fun i => !i.startsBlock := by
  obtain ⟨hne, hplaced, -⟩ := h
  cases seg with
  | nil => exact absurd rfl hne
  | cons i rest =>
    rcases List.eq_nil_or_concat' rest with rfl | ⟨init, j, rfl⟩
    · cases i <;> rfl
    · have hj := placed?_eq_none.1 (hplaced j List.mem_concat_self)
      have hbody : segmentBody [j] = [j] := by
        simp [segmentBody, hj]
      rw [← List.cons_append, segmentBody, List.filter_append, ← segmentBody, ← segmentBody, hbody,
        List.getLast?_concat, List.getLast?_concat, Option.filter_some, hj]
      rfl

theorem IsSegment.ends_alike (h : IsSegment seg) :
    (segmentBody seg).getLast?.bind Instruction.target? = segmentTarget? seg ∧
      (segmentBody seg).getLast?.any Instruction.isJump = segmentJumps seg := by
  rw [h.getLast?_segmentBody, segmentTarget?, segmentJumps]
  cases seg.getLast? with
  | none => exact ⟨rfl, rfl⟩
  | some i => cases i <;> exact ⟨rfl, rfl⟩

theorem run_of_getElem?_cut (hn : (cut instrs)[n]? = some seg) :
    labelAt? instrs (segmentStart (cut instrs) n) = segmentLabel? seg ∧
      runAt instrs (segmentStart (cut instrs) n) = segmentBody seg := by
  have hseg := isSegment_of_mem_cut (List.mem_of_getElem? hn)
  have hends := ends_of_getElem?_cut hn
  have hinstrs := flatten_at hn
  rw [flatten_cut] at hinstrs
  generalize ((cut instrs).drop (n + 1)).flatten = back at hends hinstrs
  rw [segmentStart]
  generalize ((cut instrs).take n).flatten = front at hinstrs
  have hlabel : labelAt? instrs front.length = segmentLabel? seg := by
    obtain ⟨i, rest, rfl⟩ := List.exists_cons_of_ne_nil hseg.1
    rw [hinstrs]
    exact labelAt?_length front i (rest ++ back)
  refine ⟨hlabel, ?_⟩
  have hafter : instrs.drop (if (segmentLabel? seg).isSome then front.length + 1
      else front.length) = segmentBody seg ++ back := by
    rw [hinstrs, hseg.segmentBody_eq]
    split
    · rw [List.drop_append, List.drop_eq_nil_of_le (Nat.le_succ _), Nat.add_sub_cancel_left,
        List.nil_append, List.drop_one, List.tail_append_of_ne_nil hseg.1]
    · exact List.drop_left
  rw [runAt, hlabel, hafter]
  refine firstRun_append (fun i => plain_of_mem_segmentBody) hseg.ends_segmentBody ?_
  intro j hj hplain
  have hlast := hends j hj hplain
  rw [hseg.getLast?_segmentBody]
  cases hi : seg.getLast? with
  | none =>
    rw [hi] at hlast
    cases hlast
  | some i =>
    rw [hi] at hlast
    cases i <;> first | rfl | cases hlast

theorem map_segmentBody_cut (instrs : List Instruction) :
    (cut instrs).map segmentBody = (blockStarts instrs).map (runAt instrs) := by
  apply List.ext_getElem?
  intro n
  rw [blockStarts_eq, segmentStarts, List.map_map, List.getElem?_map, List.getElem?_map]
  cases hn : (cut instrs)[n]? with
  | none =>
    have hle := List.getElem?_eq_none_iff.1 hn
    have hrange : (List.range (cut instrs).length)[n]? = none :=
      List.getElem?_eq_none (by rwa [List.length_range])
    rw [hrange]
    rfl
  | some seg =>
    rw [List.getElem?_range (lt_of_getElem? hn), Option.map_some, Option.map_some,
      Function.comp_apply, (run_of_getElem?_cut hn).2]

theorem flatten_map_segmentBody (segs : List (List Instruction)) :
    (segs.map segmentBody).flatten = segmentBody segs.flatten := by
  rw [segmentBody, List.filter_flatten]
  rfl

theorem Graph.Realizes.map_instrs {g : Graph} (h : g.Realizes segs) :
    g.blocks.map (·.instrs) = [] :: [] :: segs.map segmentBody := by
  apply List.ext_getElem?
  intro u
  rw [List.getElem?_map, ← block?_eq_getElem?]
  match u with
  | 0 =>
    obtain ⟨b, hb, hinstrs⟩ := h.sentinels 0 Nat.two_pos
    rw [hb, Option.map_some, hinstrs]
    rfl
  | 1 =>
    obtain ⟨b, hb, hinstrs⟩ := h.sentinels 1 Nat.one_lt_two
    rw [hb, Option.map_some, hinstrs]
    rfl
  | n + 2 =>
    rw [List.getElem?_cons_succ, List.getElem?_cons_succ, List.getElem?_map]
    cases hn : segs[n]? with
    | none =>
      have hle := List.getElem?_eq_none_iff.1 hn
      have hsize := h.size
      rw [block?_eq_none (by omega)]
      rfl
    | some seg =>
      obtain ⟨b, hb, hinstrs⟩ := h.blocks n seg hn
      rw [hb, Option.map_some, Option.map_some, hinstrs]

/-- The blocks of a graph that is built from a stream. Behind the two sentinels there is one block
for each position at which a block is begun, in program order; it holds the run from there and has
the label that stands there, or else the next label that is generated. -/
theorem build_partition {supply : Supply} {routine : String} {g : Graph}
    (h : (build supply routine instrs).graph = .ok g) :
    (g.blocks.drop 2).flatMap (·.instrs) = instrs.filter (fun i => !i.startsBlock) ∧
      g.blocks.map (·.instrs) = [] :: [] :: (blockStarts instrs).map (runAt instrs) ∧
      g.blocks.map (·.label) =
        ⟨.ofNat (supply.firstIssued instrs)⟩ :: ⟨.ofNat (supply.firstIssued instrs + 1)⟩ ::
          (blockStarts instrs).map (blockLabel (supply.firstIssued instrs + 2) instrs) ∧
      supply.firstIssued instrs + 2 + unlabelledBefore instrs instrs.length ≤
        LabelSupply.capacity ∧
      (∀ p ∈ blockStarts instrs, labelAt? instrs p = none → runAt instrs p ≠ []) ∧
      ∀ b ∈ g.blocks, (∀ i ∈ b.instrs, i.startsBlock = false) ∧
        ∀ i ∈ b.instrs.dropLast, i.endsBlock = false := by
  have hbuilt := builtFrom_of_build h
  have hinstrs := hbuilt.realizes.map_instrs
  refine ⟨?_, ?_, hbuilt.labels, hbuilt.fits, ?_, ?_⟩
  · have hdrop : (g.blocks.drop 2).map (·.instrs) = (cut instrs).map segmentBody := by
      rw [List.map_drop, hinstrs]
      rfl
    rw [List.flatMap_def, hdrop, flatten_map_segmentBody, flatten_cut, segmentBody]
  · rw [hinstrs, map_segmentBody_cut]
  · intro p hp hnone
    obtain ⟨n, hn⟩ := List.mem_iff_getElem?.1 hp
    obtain ⟨hlt, rfl⟩ := getElem?_blockStarts.1 hn
    have hseg := isSegment_of_mem_cut (List.getElem_mem hlt)
    obtain ⟨hlabel, hrun⟩ := run_of_getElem?_cut (List.getElem?_eq_getElem hlt)
    rw [hrun, hseg.segmentBody_eq, ← hlabel, hnone]
    exact hseg.1
  · intro b hb
    have hmem := List.mem_map_of_mem (f := (·.instrs)) hb
    rw [hinstrs, List.mem_cons, List.mem_cons, List.mem_map] at hmem
    rcases hmem with hnil | hnil | ⟨seg, hseg, hbody⟩
    · simp [hnil]
    · simp [hnil]
    · rw [← hbody]
      exact ⟨fun i => plain_of_mem_segmentBody, (isSegment_of_mem_cut hseg).ends_segmentBody⟩

def scattered : List Instruction :=
  [.copy ⟨"x"⟩ (.constant .nil), .jump ⟨2⟩, .jump ⟨1⟩, .label ⟨1⟩, .label ⟨2⟩,
    .ret (.variable ⟨"x"⟩), .dispatch (.variable ⟨"x"⟩), .leave none, .label ⟨3⟩]

theorem build_partition_scattered :
    ∃ g, (build .fresh "scattered" scattered).graph = .ok g ∧
      g.blocks.map (·.instrs) =
        [[], [], [.copy ⟨"x"⟩ (.constant .nil), .jump ⟨2⟩], [.jump ⟨1⟩], [],
          [.ret (.variable ⟨"x"⟩), .dispatch (.variable ⟨"x"⟩)], [.leave none], []] ∧
      g.blocks.map (·.label) = [⟨4⟩, ⟨5⟩, ⟨6⟩, ⟨7⟩, ⟨1⟩, ⟨2⟩, ⟨8⟩, ⟨3⟩] := by
  have hdone : (build .fresh "scattered" scattered).graph.toOption.map (fun _ => ()) = some () := by
    decide +kernel
  obtain ⟨g, hbuild, -⟩ := exists_of_toOption hdone
  obtain ⟨-, hinstrs, hlabels, -⟩ := build_partition hbuild
  have hstarts : blockStarts scattered = [0, 2, 3, 4, 7, 8] := by decide
  rw [hstarts] at hinstrs hlabels
  have hfirst : Supply.fresh.firstIssued scattered = 4 := by decide
  rw [hfirst] at hlabels
  exact ⟨g, hbuild, hinstrs, hlabels⟩

end StackBackend.Flow
