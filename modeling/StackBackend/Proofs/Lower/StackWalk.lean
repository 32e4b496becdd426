import StackBackend.Proofs.Code.Paths
import StackBackend.Proofs.Lower.Faithful

/-!
# The stack on all paths through lowered code

Lowering puts marks and the operations that lead to them where the stack is empty: a mark is the
whole code of its instruction, and a jump is the end of it. So the verifier, which reads the
operations of a routine in order and follows no jump, finds the depth that the stack has on every
path.
-/
namespace StackBackend

open Code (Op MethodKind Settled depthAfter Verifier Reaches routineOps)

variable {r : RoutineScope}

theorem settled_pushes (depth : Nat) (operands : List Operand) :
    Settled depth (operands.flatMap (Operand.ops r)) := by
  induction operands generalizing depth with
  | nil => trivial
  | cons o rest ih =>
    match o with
    | .constant _ | .variable _ =>
      exact ⟨nofun, nofun, ih _⟩
    | .field _ | .label _ => exact ih depth

theorem settled_action {i : Instruction} {depth : Nat} (h : depth ≤ i.evaluated.length) :
    Settled depth (i.action r) := by
  cases i with
  | call result _ _ =>
    cases result <;> simp [Instruction.action, Settled, Op.placed?, Op.target?]
  | label _ =>
    have hempty : depth = 0 := Nat.le_zero.1 h
    simp [Instruction.action, Settled, Op.target?, hempty]
  | jump l =>
    have hempty : (Op.goto (r.markOf l)).depthFrom depth = 0 := Nat.le_zero.1 h
    simp [Instruction.action, Settled, Op.placed?, hempty]
  | branch _ _ l =>
    have hempty : (Op.gotoIfEqual (r.markOf l)).depthFrom depth = 0 := Nat.sub_eq_zero_of_le h
    simp [Instruction.action, Settled, Op.placed?, hempty]
  | _ => simp [Instruction.action, Settled, Op.placed?, Op.target?]

theorem settled_ops (r : RoutineScope) (i : Instruction) : Settled 0 (i.ops r) := by
  rw [Instruction.ops, Code.settled_append, (covers_pushes 0 i.evaluated).2, Nat.zero_add]
  exact ⟨settled_pushes 0 _, settled_action List.countP_le_length⟩

theorem settled_flatMap_ops (r : RoutineScope) (instrs : List Instruction) :
    Settled 0 (instrs.flatMap (Instruction.ops r)) := by
  induction instrs with
  | nil => trivial
  | cons i rest ih =>
    rw [List.flatMap_cons, Code.settled_append, depthAfter_ops]
    exact ⟨settled_ops r i, ih⟩

/-- In lowered code without errors, the depth on every path through a routine is the one that the
verifier has found at the operation that the path leads to. So no operation takes more values than
there are, the stack is empty at every mark, and it is never deeper than the verifier says. -/
theorem Script.stack_walk_sound {s : Script} {firstSlot : UInt16} {e : Emitter}
    (h : s.lower.run (.new (.new firstSlot)) = .ok () e) {v : Verifier}
    (hv : (v.verify e.code.toList).errors = []) {opened : Nat} {name : String} {kind : MethodKind}
    (hopened : e.code.toList[opened]? = some (.beginMethod name kind)) {j : Nat} {depth : Int}
    (hpath : Reaches ((routineOps e.code.toList opened).map Prod.snd) j depth) :
    ∃ d : Nat, depth = d ∧ d ≤ (v.verify e.code.toList).stats.maxStackDepth ∧
      ∀ position op, (routineOps e.code.toList opened)[j]? = some (position, op) →
        e.code.toList[position]? = some op ∧
        (v.walkBefore e.code.toList position).depth? = some d ∧
        op.stackEffect.1 ≤ d ∧ (op.placed?.isSome → d = 0) := by
  obtain ⟨parts, hcode, hmethods, -⟩ := s.lower_ok h
  refine hcode.paths_sound ((hcode.verify v).1.1 hv).2 (fun m hm => ?_) v hopened hpath
  obtain ⟨t, -, heq⟩ := List.mem_map.1 (hmethods ▸ List.mem_map_of_mem hm)
  rw [← Code.settled_withoutDeclarations, ← Code.depthAfter_withoutDeclarations,
    ← Code.MethodCode.code, ← heq]
  exact ⟨settled_flatMap_ops _ _, depthAfter_flatMap_ops _ _⟩

theorem stack_walk_sound_loop :
    ∃ e, (⟨"main", ⟨"Main", [.label ⟨4⟩, .branch (.constant .nil) (.constant .nil) ⟨4⟩],
        [], []⟩⟩ : Script).lower.run (.new (.new 2)) = .ok () e ∧
      Reaches ((routineOps e.code.toList 1).map Prod.snd) 3 2 ∧
      ∃ d : Nat, (2 : Int) = d ∧ d ≤ (({} : Verifier).verify e.code.toList).stats.maxStackDepth ∧
        ∀ position op, (routineOps e.code.toList 1)[3]? = some (position, op) →
          e.code.toList[position]? = some op ∧
          (({} : Verifier).walkBefore e.code.toList position).depth? = some d ∧
          op.stackEffect.1 ≤ d ∧ (op.placed?.isSome → d = 0) := by
  have hlower : Emit.code? (Script.lower ⟨"main", ⟨"Main",
        [.label ⟨4⟩, .branch (.constant .nil) (.constant .nil) ⟨4⟩], [], []⟩⟩) (.new (.new 2)) =
      some [.beginClass "Main" "main", .beginMethod "__class__" .onClass, .mark ⟨0⟩,
        .push .nil, .push .nil, .gotoIfEqual ⟨0⟩, .endMethod, .endClass] := by cbv
  obtain ⟨e, he, hcode⟩ := Emit.exists_of_code? _ hlower
  have hread : (routineOps e.code.toList 1).map Prod.snd =
      [.mark ⟨0⟩, .push .nil, .push .nil, .gotoIfEqual ⟨0⟩] := by
    rw [hcode]
    rfl
  have haround : ∀ {depth : Int},
      Reaches [.mark ⟨0⟩, .push .nil, .push .nil, .gotoIfEqual ⟨0⟩] 0 depth →
        Reaches [.mark ⟨0⟩, .push .nil, .push .nil, .gotoIfEqual ⟨0⟩] 3
          (depth - 0 + 0 - 0 + 1 - 0 + 1) :=
    fun hstart => ((hstart.step rfl (.next rfl (by simp))).step rfl (.next rfl (by simp))).step rfl
      (.next rfl (by simp))
  have hpath : Reaches [.mark ⟨0⟩, .push .nil, .push .nil, .gotoIfEqual ⟨0⟩] 3 2 :=
    haround ((haround .start).step rfl (.jump rfl rfl rfl))
  have hopened : e.code.toList[1]? = some (.beginMethod "__class__" .onClass) := by
    rw [hcode]
    rfl
  refine ⟨e, he, hread ▸ hpath, Script.stack_walk_sound he ?_ hopened (hread ▸ hpath)⟩
  rw [hcode]
  decide

end StackBackend
