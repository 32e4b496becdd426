import StackBackend.Proofs.Flow.Numbering
import StackBackend.Proofs.Flow.Partition
import StackBackend.Proofs.Lower.Diagnostics

/-!
# From a diagnostic to a graph

A diagnostic gives the path of the routine in which an instruction has been left out, and graphs are
looked up by paths. A path leads to the graph of the first routine with this path of which there is a
graph. The graph of the routine itself holds the instruction, for only labels are in no block. So the
path leads to the instruction if no other routine has the same path. When a method or a class is
defined again, its path may lead to another graph.
-/
namespace StackBackend

open StackBackend.Flow (Graph)

section Lookup

variable {α β : Type} {R : α → β → Prop} {l : List α} {l' : List β}

theorem forall₂_find? {p : α → Bool} {q : β → Bool} (h : List.Forall₂ R l l')
    (hpq : ∀ a b, R a b → p a = q b) : Option.Rel R (l.find? p) (l'.find? q) := by
  induction h with
  | nil => exact .none
  | @cons a b l l' hab _ ih =>
    rw [List.find?_cons, List.find?_cons, hpq a b hab]
    cases q b with
    | true => exact .some hab
    | false => exact ih

theorem exists_of_forall₂ (h : List.Forall₂ R l l') {b : β} (hb : b ∈ l') : ∃ a ∈ l, R a b := by
  induction h with
  | nil => cases hb
  | cons hab _ ih =>
    rcases List.mem_cons.1 hb with rfl | hb
    · exact ⟨_, List.mem_cons_self, hab⟩
    · obtain ⟨a, ha, hR⟩ := ih hb
      exact ⟨a, List.mem_cons_of_mem _ ha, hR⟩

theorem exists_of_rel_left {a? : Option α} {b? : Option β} (h : Option.Rel R a? b?) {a : α}
    (ha : a? = some a) : ∃ b, b? = some b ∧ R a b := by
  cases h with
  | none => cases ha
  | some hab =>
    cases ha
    exact ⟨_, rfl, hab⟩

theorem exists_of_rel_right {a? : Option α} {b? : Option β} (h : Option.Rel R a? b?) {b : β}
    (hb : b? = some b) : ∃ a, a? = some a ∧ R a b := by
  cases h with
  | none => cases hb
  | some hab =>
    cases hb
    exact ⟨_, rfl, hab⟩

end Lookup

namespace Flow

def Graph.Shows (g : Graph) (text : String) : Prop := ∃ b ∈ g.blocks, ∃ i ∈ b.instrs, i.text = text

theorem shows_of_build {supply : Supply} {routine : String} {instrs : List Instruction} {g : Graph}
    (h : (build supply routine instrs).graph = .ok g) {i : Instruction} (hi : i ∈ instrs)
    (hplain : i.startsBlock = false) : g.Shows i.text := by
  have hblocks := (builtFrom_of_build h).realizes.map_instrs
  have hbody : i ∈ ((cut instrs).map segmentBody).flatten := by
    rw [flatten_map_segmentBody, flatten_cut]
    exact List.mem_filter.2 ⟨hi, by rw [hplain]; rfl⟩
  have hmem : i ∈ (g.blocks.map (·.instrs)).flatten := by
    rw [hblocks]
    exact hbody
  obtain ⟨held, hheld, hi⟩ := List.mem_flatten.1 hmem
  obtain ⟨b, hb, rfl⟩ := List.mem_map.1 hheld
  exact ⟨b, hb, i, hi, rfl⟩

theorem Graph.Shows.shift {g : Graph} {text : String} (h : g.Shows text) (k : Nat) :
    (g.shift k).Shows text := by
  obtain ⟨b, hb, i, hi, htext⟩ := h
  refine ⟨b.shift k, ?_, i, hi, htext⟩
  have hblocks : (g.shift k).blocks = g.blocks.map (Block.shift k) := by
    simp [blocks, Graph.shift, Node.shift]
  rw [hblocks]
  exact List.mem_map_of_mem hb

end Flow

/-- The graph is that of the routine, up to the numbers of its blocks. -/
def Flow.Graph.IsOf (g : Graph) (r : Routine) : Prop :=
  ∃ alone k, r.graphAlone = .ok alone ∧ g = alone.shift k

theorem Flow.Graph.IsOf.shows {g : Graph} {r : Routine} (h : g.IsOf r) {i : Instruction}
    (hi : i ∈ r.method.instrs) (hplain : i.startsBlock = false) : g.Shows i.text := by
  obtain ⟨alone, k, halone, rfl⟩ := h
  exact (Flow.shows_of_build halone hi hplain).shift k

/-- The diagnostic tells of an instruction of the routine, which is not a label. -/
def Diagnostic.TellsOf (d : Diagnostic) (r : Routine) : Prop :=
  d.routine = r.path ∧
    ∃ i, r.method.instrs[d.index]? = some i ∧ i.text = d.instr ∧ i.startsBlock = false

theorem Diagnostic.TellsOf.shows {d : Diagnostic} {r : Routine} {g : Graph} (h : d.TellsOf r)
    (hg : g.IsOf r) : g.Shows d.instr := by
  obtain ⟨-, i, hi, htext, hplain⟩ := h
  rw [← htext]
  exact hg.shows (List.mem_of_getElem? hi) hplain

theorem Instruction.startsBlock_of_problems {i : Instruction} {kind : DiagnosticKind}
    (h : kind ∈ i.problems) : i.startsBlock = false := by
  cases i <;> first | rfl | cases h

theorem Script.exists_tellsOf {s : Script} {firstSlot : UInt16} {e : Emitter}
    (h : s.lower.run (.new (.new firstSlot)) = .ok () e) {d : Diagnostic}
    (hd : d ∈ e.diagnostics.toList) : ∃ r ∈ s.root.routines, d.TellsOf r := by
  rw [s.diagnostics_lower h] at hd
  obtain ⟨v, hv, hd⟩ := List.mem_flatMap.1 hd
  obtain ⟨kind, hkind, rfl⟩ := List.mem_map.1 hd
  obtain ⟨hr, hi⟩ := mem_visits_iff.1 hv
  exact ⟨v.routine, hr, rfl, v.instr, hi, rfl, v.instr.startsBlock_of_problems hkind⟩

/-- The first routine with this path of which there is a graph. -/
def Script.firstBuilt? (s : Script) (path : String) : Option Routine :=
  (s.root.routines.filter (·.graphAlone.isOk)).find? (·.path = path)

theorem Script.firstBuilt?_eq_some {s : Script} {path : String} {r : Routine}
    (h : s.firstBuilt? path = some r) : r ∈ s.root.routines ∧ r.path = path :=
  ⟨(List.mem_filter.1 (List.mem_of_find?_eq_some h)).1, by simpa using List.find?_some h⟩

variable {o : Options} {s : Script} {c : Compilation}

theorem built_compile (hbuild : o.buildGraphs = true) (h : (compile o s).result = .ok c) :
    List.Forall₂ Graphs.IsShiftOf c.graphs (s.root.routines.filter (·.graphAlone.isOk)) := by
  obtain ⟨e, verification, -, -, rfl, -⟩ := compile_ok h
  have hgraphs : o.graphs s = s.buildGraphs := by rw [Options.graphs, if_pos hbuild]
  rw [hgraphs]
  exact (Graphs.ofRoutines_alone .fresh (Nat.le_refl 1) s.root.routines).1

theorem graphFor?_compile (hbuild : o.buildGraphs = true) (h : (compile o s).result = .ok c)
    (path : String) : Option.Rel Flow.Graph.IsOf (c.graphFor? path) (s.firstBuilt? path) := by
  have hrel := forall₂_find? (built_compile hbuild h)
    (p := fun g => g.path = path) (q := fun r => r.path = path) fun g r hgr => by rw [hgr.1]
  rw [Compilation.graphFor?, Script.firstBuilt?]
  generalize c.graphs.find? _ = found at hrel ⊢
  generalize List.find? _ _ = first at hrel ⊢
  cases hrel with
  | none => exact .none
  | some hgr => exact .some hgr.2

/-- Where the paths of diagnostics lead to. A path leads to the graph of the first routine with this
path that has one. A diagnostic tells of an instruction of a routine with its path; if the routine
has a graph, this is among the graphs with the path and holds the instruction. The path leads to it
if the routine is the first one, and to no other graph if no other routine has the path. -/
theorem compile_diagnosed_graphs (hbuild : o.buildGraphs = true)
    (h : (compile o s).result = .ok c) :
    (∀ path, Option.Rel Flow.Graph.IsOf (c.graphFor? path) (s.firstBuilt? path)) ∧
      ∀ d ∈ c.diagnostics, ∃ r ∈ s.root.routines, d.TellsOf r ∧
        (r.graphAlone.isOk = true →
          ∃ x ∈ c.graphs, x.path = d.routine ∧ x.graph.IsOf r ∧ x.graph.Shows d.instr) ∧
        (s.firstBuilt? d.routine = some r →
          ∃ g, c.graphFor? d.routine = some g ∧ g.IsOf r ∧ g.Shows d.instr) ∧
        ((∀ r' ∈ s.root.routines, r'.path = d.routine → r' = r) →
          ∀ g, c.graphFor? d.routine = some g → g.IsOf r ∧ g.Shows d.instr) := by
  have hleads := graphFor?_compile hbuild h
  have htells : ∀ d ∈ c.diagnostics, ∃ r ∈ s.root.routines, d.TellsOf r := by
    obtain ⟨e, verification, hlower, -, rfl, -⟩ := compile_ok h
    exact fun d hd => Script.exists_tellsOf hlower hd
  refine ⟨hleads, fun d hd => ?_⟩
  obtain ⟨r, hr, htells⟩ := htells d hd
  refine ⟨r, hr, htells, fun hok => ?_, fun hfirst => ?_, fun hunique g hg => ?_⟩
  · have hmem : r ∈ s.root.routines.filter (·.graphAlone.isOk) := List.mem_filter.2 ⟨hr, hok⟩
    obtain ⟨x, hx, hpath, hgraph⟩ := exists_of_forall₂ (built_compile hbuild h) hmem
    exact ⟨x, hx, hpath.trans htells.1.symm, hgraph, htells.shows hgraph⟩
  · obtain ⟨g, hg, hgraph⟩ := exists_of_rel_right (hleads d.routine) hfirst
    exact ⟨g, hg, hgraph, htells.shows hgraph⟩
  · obtain ⟨r', hfirst, hgraph⟩ := exists_of_rel_left (hleads d.routine) hg
    obtain ⟨hr', hpath⟩ := Script.firstBuilt?_eq_some hfirst
    rw [hunique r' hr' hpath] at hgraph
    exact ⟨hgraph, htells.shows hgraph⟩

/-- The path leads to the break, for no other routine has it. -/
theorem compile_diagnosed_graphs_break :
    ∃ c d g, (compile {} ⟨"main", ⟨"Main", [], [⟨"m", [.leave none]⟩], []⟩⟩).result = .ok c ∧
      d ∈ c.diagnostics ∧ c.graphFor? d.routine = some g ∧ g.Shows d.instr := by
  have hfacts : (compile {} ⟨"main", ⟨"Main", [], [⟨"m", [.leave none]⟩], []⟩⟩).result.toOption.map
      (fun c => (c.diagnostics, (c.graphFor? "Main#m").isSome)) =
      some ([⟨.unsupportedInstruction .leave, "Main#m", 0, "break"⟩], true) := by
    cbv
  obtain ⟨c, hresult, hc⟩ := Flow.exists_of_toOption hfacts
  obtain ⟨hdiagnostics, hsome⟩ := Prod.mk.inj hc
  obtain ⟨g, hg⟩ := Option.isSome_iff_exists.1 hsome
  have hd : ⟨.unsupportedInstruction .leave, "Main#m", 0, "break"⟩ ∈ c.diagnostics := by
    rw [hdiagnostics]
    exact List.mem_singleton_self _
  have hm : ∀ r ∈ Class.routines ⟨"Main", [], [⟨"m", [.leave none]⟩], []⟩, r.path = "Main#m" →
      r = ⟨"Main#m", ⟨"m", [.leave none]⟩⟩ := by
    intro r hr hpath
    rcases List.mem_cons.1 hr with rfl | hr
    · exact absurd hpath (by decide)
    · exact List.mem_singleton.1 hr
  obtain ⟨r, hr, htells, -, -, honly⟩ := (compile_diagnosed_graphs rfl hresult).2 _ hd
  refine ⟨c, _, g, hresult, hd, hg, (honly (fun r' hr' hpath => ?_) g hg).2⟩
  rw [hm r' hr' hpath, hm r hr htells.1.symm]

/-- The path of the break in the second method leads to the graph of the first one. -/
theorem graphFor?_other_method :
    ∃ c d g, (compile {} ⟨"main", ⟨"Main", [],
        [⟨"m", [.ret (.constant .nil)]⟩, ⟨"m", [.leave none]⟩], []⟩⟩).result = .ok c ∧
      d ∈ c.diagnostics ∧ c.graphFor? d.routine = some g ∧ ¬ g.Shows d.instr := by
  have hfacts : (compile {} ⟨"main", ⟨"Main", [],
      [⟨"m", [.ret (.constant .nil)]⟩, ⟨"m", [.leave none]⟩], []⟩⟩).result.toOption.map
      (fun c => (c.diagnostics, (c.graphFor? "Main#m").map fun g => g.blocks.map (·.instrs))) =
      some ([⟨.unsupportedInstruction .leave, "Main#m", 0, "break"⟩],
        some [[], [], [.ret (.constant .nil)]]) := by
    cbv
  obtain ⟨c, hresult, hc⟩ := Flow.exists_of_toOption hfacts
  obtain ⟨hdiagnostics, hgraph⟩ := Prod.mk.inj hc
  obtain ⟨g, hg, hblocks⟩ := Option.map_eq_some_iff.1 hgraph
  refine ⟨c, ⟨.unsupportedInstruction .leave, "Main#m", 0, "break"⟩, g, hresult, ?_, hg, ?_⟩
  · rw [hdiagnostics]
    exact List.mem_singleton_self _
  · rintro ⟨b, hb, i, hi, htext⟩
    have hmem := List.mem_flatten.2 ⟨_, List.mem_map_of_mem hb, hi⟩
    rw [hblocks] at hmem
    have hret : i = .ret (.constant .nil) := List.mem_singleton.1 hmem
    rw [hret] at htext
    exact absurd htext (by decide)

end StackBackend
