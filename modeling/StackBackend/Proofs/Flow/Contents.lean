import Mathlib.Data.List.Basic
import StackBackend.Proofs.Flow.Building

/-!
# The positions that a block holds

The positions of a stream at which no label stands are dealt out to the blocks in program order. In
a graph that was built from the stream each block gets as many as it has instructions, and they are
the positions of these instructions: the block of a segment gets the positions of the segment.
-/
namespace StackBackend.Flow

def positionsFrom (p : Nat) : List Instruction → List Nat
  | [] => []
  | i :: rest =>
    if i.startsBlock then positionsFrom (p + 1) rest else p :: positionsFrom (p + 1) rest

def Graph.blockInstrs (g : Graph) (v : Nat) : List Instruction :=
  ((g.block? v).map (·.instrs)).getD []

/-- The positions that a block gets when they are dealt out. -/
def Graph.contents (g : Graph) (instrs : List Instruction) (v : Nat) : List Nat :=
  ((positionsFrom 0 instrs).drop ((List.range v).flatMap g.blockInstrs).length).take
    (g.blockInstrs v).length

def segmentStart (segs : List (List Instruction)) (n : Nat) : Nat := (segs.take n).flatten.length

variable {g : Graph} {segs : List (List Instruction)} {seg : List Instruction} {n : Nat}

theorem positionsFrom_append (p : Nat) (front back : List Instruction) :
    positionsFrom p (front ++ back) =
      positionsFrom p front ++ positionsFrom (p + front.length) back := by
  induction front generalizing p with
  | nil => rfl
  | cons i rest ih =>
    have hlength : p + 1 + rest.length = p + (i :: rest).length := by
      rw [List.length_cons]
      omega
    rw [List.cons_append, positionsFrom, positionsFrom, ih, hlength]
    by_cases hi : i.startsBlock <;> simp [hi]

theorem positionsFrom_take_succ {i : Instruction} {j : Nat} (p : Nat) (hi : seg[j]? = some i) :
    positionsFrom p (seg.take (j + 1)) =
      positionsFrom p (seg.take j) ++ if i.startsBlock then [] else [p + j] := by
  have hlt : j < seg.length := (List.getElem?_eq_some_iff.1 hi).1
  have hlength : (seg.take j).length = j := List.length_take_of_le (Nat.le_of_lt hlt)
  rw [List.take_add_one, hi, Option.toList_some, positionsFrom_append, hlength]
  rfl

theorem positionsFrom_take_isPrefix (p : Nat) (seg : List Instruction) (j : Nat) :
    positionsFrom p (seg.take j) <+: positionsFrom p seg := by
  have happend := positionsFrom_append p (seg.take j) (seg.drop j)
  rw [List.take_append_drop] at happend
  rw [happend]
  exact List.prefix_append ..

theorem length_positionsFrom (p : Nat) (seg : List Instruction) :
    (positionsFrom p seg).length = (segmentBody seg).length := by
  induction seg generalizing p with
  | nil => rfl
  | cons i rest ih =>
    rw [positionsFrom, segmentBody, List.filter_cons, ← segmentBody]
    by_cases hi : i.startsBlock <;> simp [hi, ih]

theorem map_positionsFrom (front seg back : List Instruction) :
    (positionsFrom front.length seg).map ((front ++ (seg ++ back))[·]?) =
      (segmentBody seg).map some := by
  induction seg generalizing front with
  | nil => rfl
  | cons i rest ih =>
    have hrest := ih (front ++ [i])
    rw [List.length_append, List.length_singleton, List.append_assoc,
      List.singleton_append] at hrest
    rw [positionsFrom, segmentBody, List.filter_cons, ← segmentBody, List.cons_append]
    by_cases hi : i.startsBlock <;> simp [hi, hrest]

theorem flatten_at (hn : segs[n]? = some seg) :
    segs.flatten = (segs.take n).flatten ++ (seg ++ (segs.drop (n + 1)).flatten) := by
  obtain ⟨hlt, rfl⟩ := List.getElem?_eq_some_iff.1 hn
  calc segs.flatten = (segs.take n ++ segs.drop n).flatten := by rw [List.take_append_drop]
    _ = _ := by rw [List.drop_eq_getElem_cons hlt, List.flatten_append, List.flatten_cons]

theorem segmentStart_succ (hn : segs[n]? = some seg) :
    segmentStart segs (n + 1) = segmentStart segs n + seg.length := by
  rw [segmentStart, List.take_add_one, hn, Option.toList_some, List.flatten_append,
    List.length_append, ← segmentStart]
  simp

theorem segmentStart_length (segs : List (List Instruction)) :
    segmentStart segs segs.length = segs.flatten.length := by
  rw [segmentStart, List.take_length]

theorem getElem?_flatten {j : Nat} (hn : segs[n]? = some seg) (hj : j < seg.length) :
    segs.flatten[segmentStart segs n + j]? = seg[j]? := by
  rw [flatten_at hn, segmentStart, List.getElem?_append_right (Nat.le_add_right ..),
    Nat.add_sub_cancel_left, List.getElem?_append_left hj]

theorem exists_segment_at {p : Nat} (hp : p < segs.flatten.length) :
    ∃ n seg j, segs[n]? = some seg ∧ j < seg.length ∧ p = segmentStart segs n + j := by
  induction segs generalizing p with
  | nil => exact absurd hp (Nat.not_lt_zero p)
  | cons first rest ih =>
    by_cases hfirst : p < first.length
    · exact ⟨0, first, p, rfl, hfirst, (Nat.zero_add p).symm⟩
    · rw [List.flatten_cons, List.length_append] at hp
      obtain ⟨n, seg, j, hn, hj, heq⟩ := ih (p := p - first.length) (by omega)
      refine ⟨n + 1, seg, j, hn, hj, ?_⟩
      rw [segmentStart, List.take_succ_cons, List.flatten_cons, List.length_append, ← segmentStart]
      omega

theorem Graph.Realizes.block_cases (h : g.Realizes segs) {v : Nat} {b : Block}
    (hb : g.block? v = some b) :
    v < 2 ∧ b.instrs = [] ∨
      ∃ n seg, v = n + 2 ∧ segs[n]? = some seg ∧ b.instrs = segmentBody seg := by
  have hlt := lt_size_of_block? hb
  rw [h.size] at hlt
  rcases Nat.lt_or_ge v 2 with hsmall | hlarge
  · obtain ⟨b', hb', hinstrs⟩ := h.sentinels v hsmall
    rw [hb] at hb'
    cases hb'
    exact .inl ⟨hsmall, hinstrs⟩
  · obtain ⟨n, rfl⟩ := Nat.exists_eq_add_of_le' hlarge
    have hn : segs[n]? = some segs[n] := List.getElem?_eq_getElem (by omega)
    obtain ⟨b', hb', hinstrs⟩ := h.blocks n _ hn
    rw [hb] at hb'
    cases hb'
    exact .inr ⟨n, _, rfl, hn, hinstrs⟩

theorem Graph.Realizes.blockInstrs_sentinel (h : g.Realizes segs) {v : Nat} (hv : v < 2) :
    g.blockInstrs v = [] := by
  obtain ⟨b, hb, hinstrs⟩ := h.sentinels v hv
  rw [blockInstrs, hb, ← hinstrs]
  rfl

theorem Graph.Realizes.blockInstrs_node (h : g.Realizes segs) (hn : segs[n]? = some seg) :
    g.blockInstrs (n + 2) = segmentBody seg := by
  obtain ⟨b, hb, hinstrs⟩ := h.blocks n seg hn
  rw [blockInstrs, hb, ← hinstrs]
  rfl

theorem Graph.Realizes.flatMap_blockInstrs (h : g.Realizes segs) (hn : n ≤ segs.length) :
    (List.range (n + 2)).flatMap g.blockInstrs = segmentBody (segs.take n).flatten := by
  induction n with
  | zero => simp [List.range_succ, h.blockInstrs_sentinel, segmentBody]
  | succ n ih =>
    have hlt : n < segs.length := hn
    have hseg : segs[n]? = some segs[n] := List.getElem?_eq_getElem hlt
    rw [List.range_succ, List.flatMap_append, ih (Nat.le_of_lt hlt), List.take_add_one, hseg,
      Option.toList_some, List.flatten_append, segmentBody, segmentBody, List.filter_append,
      ← segmentBody]
    simp [h.blockInstrs_node hseg, segmentBody]

theorem Graph.Realizes.contents_sentinel (h : g.Realizes segs) (instrs : List Instruction) {v : Nat}
    (hv : v < 2) : g.contents instrs v = [] := by
  rw [contents, h.blockInstrs_sentinel hv, List.length_nil, List.take_zero]

theorem Graph.Realizes.contents_entry (h : g.Realizes segs) (instrs : List Instruction) :
    g.contents instrs Graph.entry = [] :=
  h.contents_sentinel instrs Nat.two_pos

theorem Graph.Realizes.contents_exit (h : g.Realizes segs) (instrs : List Instruction) :
    g.contents instrs Graph.exit = [] :=
  h.contents_sentinel instrs Nat.one_lt_two

theorem Graph.Realizes.contents_node (h : g.Realizes segs) (hn : segs[n]? = some seg) :
    g.contents segs.flatten (n + 2) = positionsFrom (segmentStart segs n) seg := by
  have hlt := lt_of_getElem? hn
  have hbefore : ((List.range (n + 2)).flatMap g.blockInstrs).length =
      (positionsFrom 0 (segs.take n).flatten).length := by
    rw [length_positionsFrom, h.flatMap_blockInstrs (Nat.le_of_lt hlt)]
  have hsize : (g.blockInstrs (n + 2)).length =
      (positionsFrom (segmentStart segs n) seg).length := by
    rw [length_positionsFrom, h.blockInstrs_node hn]
  rw [contents, hbefore, flatten_at hn, positionsFrom_append, List.drop_left, Nat.zero_add,
    positionsFrom_append, hsize, ← segmentStart, List.take_left]

theorem Graph.Realizes.map_contents (h : g.Realizes segs) {v : Nat} {b : Block}
    (hb : g.block? v = some b) :
    (g.contents segs.flatten v).map (segs.flatten[·]?) = b.instrs.map some := by
  rcases h.block_cases hb with ⟨hsmall, hinstrs⟩ | ⟨n, seg, rfl, hn, hinstrs⟩
  · rw [h.contents_sentinel _ hsmall, hinstrs]
    rfl
  · rw [h.contents_node hn, hinstrs, flatten_at hn]
    exact map_positionsFrom ..

end StackBackend.Flow
