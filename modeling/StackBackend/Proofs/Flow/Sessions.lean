import StackBackend.Flow.Session
import StackBackend.Proofs.Flow.GeneratedLabels
import StackBackend.Proofs.Flow.Numbering

/-!
# What a session hands out

The steps of a session take block numbers and labels from one supply. Also a build that fails has
taken those of the blocks that it has started. No step gives anything back, so the numbers and the
labels go up over the whole session, and the labels stay above all that the streams have had so far.
-/
namespace StackBackend.Flow

/-- The labels of the stream that the step takes out of the supply. A method is built with labels of
its own. -/
def Step.used : Step → List Label
  | .build _ instrs => streamLabels instrs
  | .skipPast instrs => streamLabels instrs
  | _ => []

def Answer.numbers : Answer → List Nat
  | .id n => [n]
  | _ => []

def Answer.labels : Answer → List Label
  | .label l => [l]
  | _ => []

namespace Session

def numbers (s : Session) : Step → List Nat
  | .build routine instrs => (startedBlocks s.supply routine instrs).map (·.id)
  | .buildMethod routine m =>
    (startedBlocks { s.supply with labels := m.labelSupply } routine m.instrs).map (·.id)
  | step => (s.run step).1.numbers

def issued (s : Session) : Step → List Label
  | .build routine instrs => generatedLabels instrs (startedBlocks s.supply routine instrs)
  | step => (s.run step).1.labels

/-- The number of the first label that a step can issue: no stream has had it or a greater one. -/
def firstNew (s : Session) (step : Step) : Nat :=
  max s.supply.labels.next (LabelSupply.firstUnused step.used)

def after (s : Session) : List Step → Session
  | [] => s
  | step :: rest => after (s.run step).2 rest

/-- What is handed out from step to step. -/
def along {α : Type} (handsOut : Session → Step → List α) (s : Session) : List Step → List α
  | [] => []
  | step :: rest => handsOut s step ++ along handsOut (s.run step).2 rest

end Session

section Build

variable (supply : Supply) (routine : String) (instrs : List Instruction)

theorem generatedLabels_startedBlocks :
    ∃ count, generatedLabels instrs (startedBlocks supply routine instrs) =
        labelsFrom (supply.firstIssued instrs) count ∧
      (build supply routine instrs).supply.labels.next = supply.firstIssued instrs + count ∧
      (supply.labels.next ≤ LabelSupply.capacity →
        supply.firstIssued instrs + count ≤ LabelSupply.capacity) := by
  rcases build_cases supply routine instrs with ⟨-, -, hstarted, hsupply⟩ |
    ⟨hlast, -, hstarted, hsupply⟩ | ⟨hexit, w, result, hrun, -, hstarted, hsupply⟩
  · rw [hstarted, hsupply]
    exact ⟨0, rfl, rfl, fun hfits => Nat.max_le.2 ⟨hfits, LabelSupply.firstUnused_le _⟩⟩
  · rw [hstarted, hsupply]
    exact ⟨1, rfl, rfl, fun _ => Nat.le_of_eq hlast⟩
  · obtain ⟨read, rest, hinstrs, hread, -⟩ :=
      (Walk.hasRead_firstIssued routine hexit).run_part fun l hl => hl
    rw [hrun] at hread
    have hlabels := generatedLabels_eq hread.labels rest
    rw [List.nil_append, ← hinstrs, ← hstarted] at hlabels
    have hnext := hread.next
    have hfits := hread.fits
    rw [List.nil_append, Nat.add_assoc] at hnext
    rw [hnext] at hfits
    rw [hsupply]
    exact ⟨_, hlabels, hnext, fun _ => hfits⟩

end Build

namespace Session

variable {s : Session} {step : Step} {steps : List Step}

theorem supply_built (s : Session) (o : Outcome) : (s.built o).2.supply = o.supply := by
  unfold built
  split <;> rfl

theorem labels_built (s : Session) (o : Outcome) : (s.built o).1.labels = [] := by
  unfold built
  split <;> rfl

theorem graph_of_built {s : Session} {o : Outcome} {g : Graph} (h : (s.built o).1 = .graph g) :
    o.graph = .ok g := by
  unfold built at h
  split at h
  · rename_i hgraph
    cases h
    exact hgraph
  · cases h

theorem run_newLabel (s : Session) :
    s.run .newLabel =
      if LabelSupply.capacity ≤ s.supply.labels.next then (.failed .labelSpaceExhausted, s)
      else (.label ⟨.ofNat s.supply.labels.next⟩, s.withLabels ⟨s.supply.labels.next + 1⟩) := by
  rw [run, LabelSupply.run_issue]
  by_cases hlimit : LabelSupply.capacity ≤ s.supply.labels.next
  · rw [if_pos hlimit, if_pos hlimit]
    rfl
  · rw [if_neg hlimit, if_neg hlimit]

theorem numbers_eq (s : Session) (step : Step) :
    s.numbers step = List.range' s.supply.nextBlock (s.numbers step).length ∧
      (s.run step).2.supply.nextBlock = s.supply.nextBlock + (s.numbers step).length := by
  cases step with
  | build routine instrs =>
    obtain ⟨hids, hnext⟩ := map_id_startedBlocks s.supply routine instrs
    rw [numbers, List.length_map, run, supply_built]
    exact ⟨hids, hnext⟩
  | buildMethod routine m =>
    obtain ⟨hids, hnext⟩ :=
      map_id_startedBlocks { s.supply with labels := m.labelSupply } routine m.instrs
    rw [numbers, List.length_map, run, supply_built]
    exact ⟨hids, hnext⟩
  | newLabel =>
    have hnumbers : s.numbers .newLabel = (s.run .newLabel).1.numbers := rfl
    rw [hnumbers, run_newLabel]
    split <;> exact ⟨rfl, rfl⟩
  | resumeAfter instrs => exact ⟨rfl, rfl⟩
  | skipPast instrs => exact ⟨rfl, rfl⟩
  | nextId => exact ⟨rfl, rfl⟩

theorem firstNew_of_used (h : step.used = []) : s.firstNew step = s.supply.labels.next := by
  rw [firstNew, h]
  exact Nat.max_zero _

theorem issued_eq (hfits : s.supply.labels.next ≤ LabelSupply.capacity)
    (hkept : ∀ instrs, step ≠ .resumeAfter instrs) :
    ∃ count, s.issued step = labelsFrom (s.firstNew step) count ∧
      (s.run step).2.supply.labels.next = s.firstNew step + count ∧
      s.firstNew step + count ≤ LabelSupply.capacity := by
  cases step with
  | build routine instrs =>
    obtain ⟨count, hlabels, hnext, hcount⟩ := generatedLabels_startedBlocks s.supply routine instrs
    rw [issued, run, supply_built]
    exact ⟨count, hlabels, hnext, hcount hfits⟩
  | buildMethod routine m =>
    rw [firstNew_of_used rfl, run, supply_built]
    exact ⟨0, labels_built .., rfl, hfits⟩
  | newLabel =>
    have hissued : s.issued .newLabel = (s.run .newLabel).1.labels := rfl
    rw [firstNew_of_used rfl, hissued, run_newLabel]
    split
    · exact ⟨0, rfl, rfl, hfits⟩
    · rename_i hlimit
      exact ⟨1, rfl, rfl, Nat.lt_of_not_le hlimit⟩
  | resumeAfter instrs => exact absurd rfl (hkept instrs)
  | skipPast instrs =>
    exact ⟨0, rfl, rfl, Nat.max_le.2 ⟨hfits, LabelSupply.firstUnused_le _⟩⟩
  | nextId =>
    rw [firstNew_of_used rfl]
    exact ⟨0, rfl, rfl, hfits⟩

/-- The supply is past the labels that the streams have had, and no further than its end. -/
structure Covers (s : Session) (used : List Label) : Prop where
  past : LabelSupply.firstUnused used ≤ s.supply.labels.next
  fits : s.supply.labels.next ≤ LabelSupply.capacity

theorem Covers.firstUnused_le_firstNew {used : List Label} (h : s.Covers used) :
    LabelSupply.firstUnused (used ++ step.used) ≤ s.firstNew step := by
  have hpast := h.past
  rw [LabelSupply.firstUnused_append, firstNew]
  omega

theorem Covers.run {used : List Label} (h : s.Covers used)
    (hkept : ∀ instrs, step ≠ .resumeAfter instrs) : (s.run step).2.Covers (used ++ step.used) := by
  obtain ⟨count, -, hnext, hcount⟩ := issued_eq h.fits hkept
  refine ⟨?_, ?_⟩
  · rw [hnext]
    exact Nat.le_add_right_of_le h.firstUnused_le_firstNew
  · rw [hnext]
    exact hcount

theorem Covers.after {used : List Label} (h : s.Covers used)
    (hkept : ∀ instrs, .resumeAfter instrs ∉ steps) :
    (s.after steps).Covers (used ++ steps.flatMap Step.used) := by
  induction steps generalizing s used with
  | nil =>
    rw [List.flatMap_nil, List.append_nil]
    exact h
  | cons step rest ih =>
    have hstep : ∀ instrs, step ≠ .resumeAfter instrs := fun instrs heq =>
      hkept instrs (heq ▸ List.mem_cons_self)
    rw [List.flatMap_cons, ← List.append_assoc]
    exact ih (h.run hstep) fun instrs hmem => hkept instrs (List.mem_cons_of_mem step hmem)

/-- How a step takes from the supply. The streams have had the labels `used` when it is done. -/
structure TakesNew (s : Session) (used : List Label) (step : Step) : Prop where
  numbers : s.numbers step = List.range' s.supply.nextBlock (s.numbers step).length
  nextBlock : (s.run step).2.supply.nextBlock = s.supply.nextBlock + (s.numbers step).length
  graph : ∀ g, (s.run step).1 = .graph g →
    g.ids = List.range' s.supply.nextBlock g.size ∧
      (s.run step).2.supply.nextBlock = s.supply.nextBlock + g.size
  issued : ∃ count, s.issued step = labelsFrom (s.firstNew step) count ∧
    (s.run step).2.supply.labels.next = s.firstNew step + count
  above : ∀ l ∈ s.issued step, ∀ k ∈ used, k.id < l.id
  labels_le : s.supply.labels.next ≤ (s.run step).2.supply.labels.next
  fits : (s.run step).2.supply.labels.next ≤ LabelSupply.capacity
  exhausted : ∀ e, step = .newLabel → (s.run step).1 = .failed e → (s.run step).2 = s

theorem run_failed {e : Error} (h : (s.run .newLabel).1 = .failed e) :
    (s.run .newLabel).2 = s := by
  unfold run at h ⊢
  cases hissue : LabelSupply.issue.run s.supply.labels with
  | ok l labels =>
    rw [hissue] at h
    cases h
  | error x labels =>
    rw [LabelSupply.atomic_issue _ _ _ hissue]
    rfl

theorem numbers_of_graph {g : Graph} (h : (s.run step).1 = .graph g) : s.numbers step = g.ids := by
  cases step with
  | build routine instrs =>
    rw [numbers, ← blocks_eq_startedBlocks (graph_of_built h), Graph.ids_eq]
  | buildMethod routine m =>
    have hmethod : (buildMethod s.supply routine m).graph = .ok g := graph_of_built h
    have hbuilt : (build { s.supply with labels := m.labelSupply } routine m.instrs).graph = .ok g :=
      hmethod
    rw [numbers, ← blocks_eq_startedBlocks hbuilt, Graph.ids_eq]
  | newLabel =>
    rw [run_newLabel] at h
    split at h <;> cases h
  | resumeAfter instrs => cases h
  | skipPast instrs => cases h
  | nextId => cases h

theorem Covers.takesNew {used : List Label} (h : s.Covers used)
    (hkept : ∀ instrs, step ≠ .resumeAfter instrs) : s.TakesNew (used ++ step.used) step := by
  obtain ⟨hnumbers, hnextBlock⟩ := numbers_eq s step
  obtain ⟨count, hissued, hnext, hcount⟩ := issued_eq h.fits hkept
  refine ⟨hnumbers, hnextBlock, fun g hg => ?_, ⟨count, hissued, hnext⟩, fun l hl k hk => ?_, ?_,
    ?_, ?_⟩
  · rw [numbers_of_graph hg] at hnumbers hnextBlock
    rw [Graph.length_ids] at hnumbers hnextBlock
    exact ⟨hnumbers, hnextBlock⟩
  · rw [hissued, mem_labelsFrom hcount] at hl
    have hlt := Nat.lt_of_lt_of_le (LabelSupply.lt_firstUnused hk) h.firstUnused_le_firstNew
    exact UInt32.lt_iff_toNat_lt.2 (Nat.lt_of_lt_of_le hlt hl.1)
  · rw [hnext]
    exact Nat.le_add_right_of_le (Nat.le_max_left ..)
  · rw [hnext]
    exact hcount
  · rintro e rfl hfailed
    exact run_failed hfailed

theorem pairwise_along {α : Type} (handsOut : Session → Step → List α) (value : α → Nat)
    (mark : Session → Nat)
    (h : ∀ before step rest, steps = before ++ step :: rest →
      ∃ first count, mark (s.after before) ≤ first ∧
        (handsOut (s.after before) step).map value = List.range' first count ∧
        mark ((s.after before).run step).2 = first + count) :
    ((along handsOut s steps).map value).Pairwise (· < ·) ∧
      ∀ n ∈ (along handsOut s steps).map value, mark s ≤ n := by
  induction steps generalizing s with
  | nil => exact ⟨.nil, nofun⟩
  | cons step rest ih =>
    obtain ⟨first, count, hmark, hvalues, hnext⟩ := h [] step rest rfl
    rw [after] at hmark hvalues hnext
    obtain ⟨hpairwise, hle⟩ := ih fun before step' rest' hrest =>
      h (step :: before) step' rest' (congrArg (step :: ·) hrest)
    -- The mark behind the first step separates what it hands out from all that follows.
    rw [along, List.map_append, hvalues]
    refine ⟨List.pairwise_append.2 ⟨List.pairwise_lt_range', hpairwise, ?_⟩, ?_⟩
    · intro n hn m hm
      have hlt := (List.mem_range'_1.1 hn).2
      have hbehind := hle m hm
      omega
    · intro n hn
      rcases List.mem_append.1 hn with hn | hn
      · exact Nat.le_trans hmark (List.mem_range'_1.1 hn).1
      · have hbehind := hle n hn
        omega

/-- A session hands out no number and no label twice: both go up from step to step, and each step
goes on behind those before it, with labels that are greater than all that the streams have had. -/
theorem along_fresh (hfits : s.supply.labels.next ≤ LabelSupply.capacity)
    (hkept : ∀ instrs, .resumeAfter instrs ∉ steps) :
    (along numbers s steps).Pairwise (· < ·) ∧
      (along issued s steps).Pairwise (fun k l => k.id < l.id) ∧
      ∀ before step rest, steps = before ++ step :: rest →
        (s.after before).TakesNew ((before ++ [step]).flatMap Step.used) step := by
  -- Wherever the run has come to, the supply is past all labels up to there.
  have hcovers : ∀ before step rest, steps = before ++ step :: rest →
      (s.after before).Covers (before.flatMap Step.used) ∧
        ∀ instrs, step ≠ .resumeAfter instrs := by
    rintro before step rest rfl
    refine ⟨?_, fun instrs heq => ?_⟩
    · have hstart : s.Covers [] := ⟨Nat.zero_le _, hfits⟩
      exact hstart.after fun instrs hmem => hkept instrs (List.mem_append_left _ hmem)
    · subst heq
      exact hkept instrs (List.mem_append_right _ List.mem_cons_self)
  refine ⟨?_, ?_, fun before step rest hsteps => ?_⟩
  · rw [← List.map_id (along numbers s steps)]
    refine (pairwise_along numbers id (·.supply.nextBlock) fun before step _ _ => ?_).1
    obtain ⟨hnumbers, hnext⟩ := numbers_eq (s.after before) step
    rw [List.map_id]
    exact ⟨_, _, Nat.le_refl _, hnumbers, hnext⟩
  · have hids : ((along issued s steps).map (·.id.toNat)).Pairwise (· < ·) := by
      refine (pairwise_along issued (·.id.toNat) (·.supply.labels.next)
        fun before step rest hsteps => ?_).1
      obtain ⟨hbefore, hstep⟩ := hcovers before step rest hsteps
      obtain ⟨count, hissued, hnext, hcount⟩ := issued_eq hbefore.fits hstep
      rw [hissued, map_id_labelsFrom hcount]
      exact ⟨_, count, Nat.le_max_left .., rfl, hnext⟩
    exact (List.pairwise_map.1 hids).imp UInt32.lt_iff_toNat_lt.2
  · obtain ⟨hbefore, hstep⟩ := hcovers before step rest hsteps
    rw [List.flatMap_append, List.flatMap_singleton]
    exact hbefore.takesNew hstep

/-- The numbers and the labels that the first build has taken before it failed are left out. -/
theorem along_fresh_failing :
    (new.run (.build "failing" [.jump ⟨7⟩])).1 =
        .failed (.unresolvedLabels "failing" ["L7"]) ∧
      along numbers .new [.build "failing" [.jump ⟨7⟩], .newLabel, .skipPast [.label ⟨20⟩], .nextId,
        .build "built" [.label ⟨2⟩]] = [1, 2, 3, 4, 5, 6, 7] ∧
      along issued .new [.build "failing" [.jump ⟨7⟩], .newLabel, .skipPast [.label ⟨20⟩], .nextId,
        .build "built" [.label ⟨2⟩]] = [⟨8⟩, ⟨9⟩, ⟨10⟩, ⟨11⟩, ⟨21⟩, ⟨22⟩] ∧
      (after .new [.build "failing" [.jump ⟨7⟩], .newLabel, .skipPast [.label ⟨20⟩],
        .nextId]).TakesNew [⟨7⟩, ⟨20⟩, ⟨2⟩] (.build "built" [.label ⟨2⟩]) := by
  have hfits : new.supply.labels.next ≤ LabelSupply.capacity := by decide
  have hkept : ∀ instrs, .resumeAfter instrs ∉ [Step.build "failing" [.jump ⟨7⟩], .newLabel,
      .skipPast [.label ⟨20⟩], .nextId, .build "built" [.label ⟨2⟩]] := by
    simp
  have hunplaced : (build new.supply "failing" [.jump ⟨7⟩]).graph.map (fun _ => ()) =
      .error (.unresolvedLabels "failing" ["L7"]) := by
    decide +kernel
  have hfailed : (new.run (.build "failing" [.jump ⟨7⟩])).1 =
      .failed (.unresolvedLabels "failing" ["L7"]) := by
    rw [run, built]
    cases hgraph : (build new.supply "failing" [.jump ⟨7⟩]).graph with
    | ok g =>
      rw [hgraph] at hunplaced
      cases hunplaced
    | error x =>
      rw [hgraph] at hunplaced
      cases hunplaced
      rfl
  refine ⟨hfailed, by decide +kernel, by decide +kernel, ?_⟩
  exact (along_fresh hfits hkept).2.2 [.build "failing" [.jump ⟨7⟩], .newLabel,
    .skipPast [.label ⟨20⟩], .nextId] (.build "built" [.label ⟨2⟩]) [] rfl

end Session

end StackBackend.Flow
