import StackBackend.Proofs.Program.Labels

/-!
# How blocks are laid out

Where the blocks of a stream are begun, and what they are to hold, is told from the stream alone. A
block is begun at the beginning of the stream, at a label, and behind what ends a block. It holds
the longest run of instructions from there without a label, up to the first that ends a block. A
block that is begun at a label has that label; the others get labels by number, in program order.
-/
namespace StackBackend.Flow

def beginsAt (instrs : List Instruction) (p : Nat) : Bool :=
  instrs[p]?.any (·.startsBlock) || (instrs.take p).getLast?.all (·.endsBlock)

def blockStarts (instrs : List Instruction) : List Nat :=
  (List.range instrs.length).filter (beginsAt instrs)

def labelAt? (instrs : List Instruction) (p : Nat) : Option Label :=
  instrs[p]?.bind Instruction.placed?

/-- The instructions up to the first label, and no further than the first that ends a block. -/
def firstRun (instrs : List Instruction) : List Instruction :=
  let run := instrs.takeWhile (!·.startsBlock)
  run.take (run.findIdx (·.endsBlock) + 1)

def runAt (instrs : List Instruction) (p : Nat) : List Instruction :=
  firstRun (instrs.drop (if (labelAt? instrs p).isSome then p + 1 else p))

def beginsUnlabelled (instrs : List Instruction) (p : Nat) : Bool :=
  beginsAt instrs p && (labelAt? instrs p).isNone

def unlabelledBefore (instrs : List Instruction) (p : Nat) : Nat :=
  (List.range p).countP (beginsUnlabelled instrs)

/-- The label of the block that is begun at a position. The blocks that are not begun at a label are
numbered from `first` on. -/
def blockLabel (first : Nat) (instrs : List Instruction) (p : Nat) : Label :=
  (labelAt? instrs p).getD ⟨.ofNat (first + unlabelledBefore instrs p)⟩

theorem placed?_eq_none {i : Instruction} : i.placed? = none ↔ i.startsBlock = false := by
  cases i <;> simp [Instruction.placed?, Instruction.startsBlock]

theorem firstRun_cons (i : Instruction) (rest : List Instruction) :
    firstRun (i :: rest) =
      if i.startsBlock then [] else i :: if i.endsBlock then [] else firstRun rest := by
  unfold firstRun
  cases hi : i.startsBlock with
  | true => simp [hi]
  | false => cases hends : i.endsBlock <;> simp [hi, hends, List.findIdx_cons]

theorem firstRun_append {run back : List Instruction} (hplaced : ∀ i ∈ run, i.startsBlock = false)
    (hends : ∀ i ∈ run.dropLast, i.endsBlock = false)
    (hback : ∀ j ∈ back.head?, j.startsBlock = false → run.getLast?.any (·.endsBlock)) :
    firstRun (run ++ back) = run := by
  induction run with
  | nil =>
    cases back with
    | nil => rfl
    | cons j rest =>
      have hj : j.startsBlock = true := by
        cases hj : j.startsBlock with
        | true => rfl
        | false => cases hback j rfl hj
      rw [List.nil_append, firstRun_cons, if_pos hj]
  | cons i rest ih =>
    have hi : ¬ i.startsBlock = true := by
      simp [hplaced i List.mem_cons_self]
    rw [List.cons_append, firstRun_cons, if_neg hi]
    cases rest with
    | nil =>
      cases hend : i.endsBlock with
      | true => rfl
      | false =>
        have hrest := ih nofun nofun fun j hj hplain => by simpa [hend] using hback j hj hplain
        rw [if_neg Bool.false_ne_true, hrest]
    | cons j rest =>
      have hend : ¬ i.endsBlock = true := by
        simp [hends i List.mem_cons_self]
      have hrest := ih (fun k hk => hplaced k (List.mem_cons_of_mem i hk))
        (fun k hk => hends k (List.mem_cons_of_mem i hk)) hback
      rw [if_neg hend, hrest]

section Append

variable {instrs : List Instruction} {p : Nat}

theorem beginsAt_append (hp : p < instrs.length) (more : List Instruction) :
    beginsAt (instrs ++ more) p = beginsAt instrs p := by
  rw [beginsAt, beginsAt, List.getElem?_append_left hp,
    List.take_append_of_le_length (Nat.le_of_lt hp)]

theorem beginsAt_length (instrs : List Instruction) (i : Instruction) (rest : List Instruction) :
    beginsAt (instrs ++ i :: rest) instrs.length =
      (i.startsBlock || instrs.getLast?.all (·.endsBlock)) := by
  simp [beginsAt]

theorem labelAt?_append (hp : p < instrs.length) (more : List Instruction) :
    labelAt? (instrs ++ more) p = labelAt? instrs p := by
  rw [labelAt?, labelAt?, List.getElem?_append_left hp]

theorem labelAt?_length (instrs : List Instruction) (i : Instruction) (rest : List Instruction) :
    labelAt? (instrs ++ i :: rest) instrs.length = i.placed? := by
  simp [labelAt?]

theorem unlabelledBefore_append (hp : p ≤ instrs.length) (more : List Instruction) :
    unlabelledBefore (instrs ++ more) p = unlabelledBefore instrs p := by
  apply List.countP_congr
  intro q hq
  have hlt : q < instrs.length := Nat.lt_of_lt_of_le (List.mem_range.1 hq) hp
  rw [beginsUnlabelled, beginsUnlabelled, beginsAt_append hlt, labelAt?_append hlt]

theorem unlabelledBefore_succ (instrs : List Instruction) (p : Nat) :
    unlabelledBefore instrs (p + 1) =
      unlabelledBefore instrs p + if beginsUnlabelled instrs p then 1 else 0 := by
  rw [unlabelledBefore, List.range_succ, List.countP_append, List.countP_singleton]
  rfl

theorem blockLabel_append (first : Nat) (hp : p < instrs.length) (more : List Instruction) :
    blockLabel first (instrs ++ more) p = blockLabel first instrs p := by
  rw [blockLabel, blockLabel, labelAt?_append hp, unlabelledBefore_append (Nat.le_of_lt hp)]

theorem filter_beginsAt_append (instrs more : List Instruction) :
    (List.range instrs.length).filter (beginsAt (instrs ++ more)) = blockStarts instrs :=
  List.filter_congr fun _ hp => beginsAt_append (List.mem_range.1 hp) more

theorem getElem?_blockStarts_append {n : Nat} (h : (blockStarts instrs)[n]? = some p)
    (more : List Instruction) : (blockStarts (instrs ++ more))[n]? = some p := by
  rw [blockStarts, List.length_append, List.range_add, List.filter_append, filter_beginsAt_append]
  exact List.getElem?_append_left (List.getElem?_eq_some_iff.1 h).1 ▸ h

theorem blockStarts_concat (instrs : List Instruction) (i : Instruction) :
    blockStarts (instrs ++ [i]) =
      blockStarts instrs ++
        if beginsAt (instrs ++ [i]) instrs.length then [instrs.length] else [] := by
  rw [blockStarts, List.length_append, List.length_singleton, List.range_succ, List.filter_append,
    filter_beginsAt_append, List.filter_cons, List.filter_nil]

theorem unlabelledBefore_concat (instrs : List Instruction) (i : Instruction) :
    unlabelledBefore (instrs ++ [i]) (instrs ++ [i]).length =
      unlabelledBefore instrs instrs.length +
        if beginsUnlabelled (instrs ++ [i]) instrs.length then 1 else 0 := by
  rw [List.length_append, List.length_singleton, unlabelledBefore_succ,
    unlabelledBefore_append (Nat.le_refl _)]

theorem mem_blockStarts : p ∈ blockStarts instrs ↔ p < instrs.length ∧ beginsAt instrs p := by
  rw [blockStarts, List.mem_filter, List.mem_range]

theorem map_blockLabel_concat (first : Nat) (instrs : List Instruction) (i : Instruction) :
    (blockStarts (instrs ++ [i])).map (blockLabel first (instrs ++ [i])) =
      (blockStarts instrs).map (blockLabel first instrs) ++
        if beginsAt (instrs ++ [i]) instrs.length then
          [blockLabel first (instrs ++ [i]) instrs.length]
        else [] := by
  have hearlier : (blockStarts instrs).map (blockLabel first (instrs ++ [i])) =
      (blockStarts instrs).map (blockLabel first instrs) :=
    List.map_congr_left fun p hp => blockLabel_append first (mem_blockStarts.1 hp).1 [i]
  rw [blockStarts_concat, List.map_append, hearlier]
  split <;> rfl

end Append

end StackBackend.Flow
