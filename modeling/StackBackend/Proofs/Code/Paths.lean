import StackBackend.Proofs.Code.Bracketed

/-!
# Paths through a method

The operations directly in a method are read off the code around them, each with its position.
Control goes through them from one to the next, and from a jump to the mark that it leads to. In a
method in which the stack is empty at every mark and after every operation that leads to one, all
paths to an operation have the depth there that the operations before it have in the order of the
code. The verifier, which knows this order only, has found that depth.
-/
namespace StackBackend.Code

namespace Op

def opens : Op → Bool
  | .beginClass .. | .beginMethod .. => true
  | _ => false

def closes : Op → Bool
  | .endClass | .endMethod => true
  | _ => false

theorem not_bracket {op : Op} (h : op.isPlain ∨ op.isDeclaration) :
    op.opens = false ∧ op.closes = false := by
  cases op <;> first | exact ⟨rfl, rfl⟩ | simp [isPlain, isDeclaration] at h

end Op

/-- The operations of the code up to the end of the method it is in, each with its position. Those
in nested brackets are left out, of which `nested` are open before the position `offset`. -/
def directOps (nested offset : Nat) : List Op → List (Nat × Op)
  | [] => []
  | op :: rest =>
    if op.opens then directOps (nested + 1) (offset + 1) rest
    else if op.closes then
      if nested = 0 then [] else directOps (nested - 1) (offset + 1) rest
    else if nested = 0 then (offset, op) :: directOps 0 (offset + 1) rest
    else directOps nested (offset + 1) rest

section

variable {op : Op} {nested offset : Nat} {rest : List Op}

theorem directOps_open (h : op.opens) :
    directOps nested offset (op :: rest) = directOps (nested + 1) (offset + 1) rest := by
  rw [directOps, if_pos h]

theorem directOps_close (h : op.closes) :
    directOps (nested + 1) offset (op :: rest) = directOps nested (offset + 1) rest := by
  have hopens : op.opens = false := by cases op <;> first | rfl | cases h
  simp [directOps, hopens, h]

theorem directOps_inside (h : op.isPlain ∨ op.isDeclaration) :
    directOps (nested + 1) offset (op :: rest) = directOps (nested + 1) (offset + 1) rest := by
  simp [directOps, Op.not_bracket h]

theorem directOps_direct (h : op.isPlain ∨ op.isDeclaration) :
    directOps 0 offset (op :: rest) = (offset, op) :: directOps 0 (offset + 1) rest := by
  simp [directOps, Op.not_bracket h]

end

def routineOps (code : List Op) (opened : Nat) : List (Nat × Op) :=
  directOps 0 (opened + 1) (code.drop (opened + 1))

/-- Control can go from one operation of a method to another. -/
inductive Leads (ops : List Op) : Nat → Nat → Prop
  | next {j : Nat} {op : Op} : ops[j]? = some op → (∀ m, op ≠ .goto m) → Leads ops j (j + 1)
  | jump {j k : Nat} {op : Op} {m : Mark} : ops[j]? = some op → op.target? = some m →
      ops[k]? = some (.mark m) → Leads ops j k

/-- A path from the first operation leads to `j`. The stack effects along it add up to `depth`. -/
inductive Reaches (ops : List Op) : Nat → Int → Prop
  | start : Reaches ops 0 0
  | step {j k : Nat} {depth : Int} {op : Op} : Reaches ops j depth → ops[j]? = some op →
      Leads ops j k → Reaches ops k (depth - op.stackEffect.1 + op.stackEffect.2)

/-- The stack is empty at every mark and after every operation that leads to one. -/
def Settled (depth : Nat) : List Op → Prop
  | [] => True
  | op :: rest =>
    (op.placed?.isSome → depth = 0) ∧ (op.target?.isSome → op.depthFrom depth = 0) ∧
      Settled (op.depthFrom depth) rest

theorem settled_append {depth : Nat} {ops more : List Op} :
    Settled depth (ops ++ more) ↔ Settled depth ops ∧ Settled (depthAfter depth ops) more := by
  induction ops generalizing depth with
  | nil => simp [Settled, depthAfter]
  | cons op rest ih =>
    rw [List.cons_append, Settled, Settled, ih, and_assoc, and_assoc]
    rfl

theorem settled_withoutDeclarations {depth : Nat} {ops : List Op} :
    Settled depth (withoutDeclarations ops) ↔ Settled depth ops :=
  withoutDeclarations_induction
    (P := fun all kept => ∀ depth, Settled depth kept ↔ Settled depth all) ops
    (fun _ => Iff.rfl)
    (fun _ _ ih depth => (ih depth).trans
      (by simp [Settled, Op.placed?, Op.target?, Op.depthFrom, Op.stackEffect]))
    (fun op _ _ ih depth =>
      and_congr_right' (and_congr_right' (ih (op.depthFrom depth)))) depth

theorem depthAfter_take_succ {ops : List Op} {j : Nat} {op : Op} (hj : ops[j]? = some op)
    (depth : Nat) :
    depthAfter depth (ops.take (j + 1)) = op.depthFrom (depthAfter depth (ops.take j)) := by
  rw [List.take_add_one, hj, depthAfter_append]
  rfl

theorem eq_take_append {ops : List Op} {j : Nat} {op : Op} (hj : ops[j]? = some op) :
    ops = ops.take j ++ op :: ops.drop (j + 1) := by
  obtain ⟨hlt, rfl⟩ := List.getElem?_eq_some_iff.1 hj
  rw [List.getElem_cons_drop, List.take_append_drop]

theorem Covers.le_depth {ops : List Op} (h : Covers 0 ops) {j : Nat} {op : Op}
    (hj : ops[j]? = some op) : op.stackEffect.1 ≤ depthAfter 0 (ops.take j) := by
  rw [eq_take_append hj, covers_append] at h
  exact h.2.1

theorem Settled.at {ops : List Op} (h : Settled 0 ops) {j : Nat} {op : Op}
    (hj : ops[j]? = some op) :
    (op.placed?.isSome → depthAfter 0 (ops.take j) = 0) ∧
      (op.target?.isSome → depthAfter 0 (ops.take (j + 1)) = 0) := by
  rw [depthAfter_take_succ hj]
  rw [eq_take_append hj, settled_append] at h
  exact ⟨h.2.1, h.2.2.1⟩

theorem Reaches.depth_eq {ops : List Op} {j : Nat} {depth : Int} (h : Reaches ops j depth)
    (hcovers : Covers 0 ops) (hsettled : Settled 0 ops) :
    depth = depthAfter 0 (ops.take j) := by
  induction h with
  | start => rfl
  | @step j k depth op _ hj hleads ih =>
    -- The depth after the operation, which has found the values that it takes.
    have hafter : depth - op.stackEffect.1 + op.stackEffect.2 =
        depthAfter 0 (ops.take (j + 1)) := by
      have hpops := hcovers.le_depth hj
      rw [ih, depthAfter_take_succ hj, Op.depthFrom]
      omega
    rw [hafter]
    cases hleads with
    | next _ _ => rfl
    | jump hj' htarget hk =>
      rw [hj] at hj'
      cases hj'
      rw [(hsettled.at hj).2 (by simp [htarget]), (hsettled.at hk).1 rfl]

namespace Bracketed

variable {p : Place} {code : List Op} {parts : Parts}

theorem directOps_nested (h : Bracketed p code parts) (nested offset : Nat) (more : List Op) :
    directOps (nested + 1) offset (code ++ more) =
      directOps (nested + 1) (offset + code.length) more := by
  induction h generalizing nested offset more with
  | nil => rfl
  | declare _ _ ih =>
    rw [List.cons_append, directOps_inside (.inr rfl), ih, List.length_cons]
    congr 1
    omega
  | plain hop _ ih =>
    rw [List.cons_append, directOps_inside (.inl hop), ih, List.length_cons]
    congr 1
    omega
  | method _ _ _ ihBody ihRest =>
    rw [List.cons_append, directOps_open rfl, List.append_assoc, ihBody, List.cons_append,
      directOps_close rfl, ihRest, List.length_cons, List.length_append, List.length_cons]
    congr 1
    omega
  | container _ _ ihBody ihRest =>
    rw [List.cons_append, directOps_open rfl, List.append_assoc, ihBody, List.cons_append,
      directOps_close rfl, ihRest, List.length_cons, List.length_append, List.length_cons]
    congr 1
    omega

theorem directOps_skip (h : Bracketed p code parts) {opening closing : Op} (hopen : opening.opens)
    (hclose : closing.closes) (offset : Nat) (more : List Op) :
    directOps 0 offset (opening :: (code ++ [closing]) ++ more) =
      directOps 0 (offset + (opening :: (code ++ [closing])).length) more := by
  rw [List.cons_append, directOps_open hopen, List.append_assoc, h.directOps_nested,
    List.singleton_append, directOps_close hclose, List.length_cons, List.length_append,
    List.length_singleton]
  congr 1
  omega

end Bracketed

/-- Of code in a method `directOps` reads `direct`. Before each of these operations the verifier
knows of the method what the ones read before it tell. -/
def WalkedDirectly (code direct : List Op) : Prop :=
  ∀ (w : Walk) (fields : List String) (f : MethodFrame) (methods : List MethodFrame)
    (outer : List ClassFrame) (offset : Nat) (more : List Op),
    w.classes = openAt .inMethod fields f methods outer →
      (directOps 0 offset (code ++ .endMethod :: more)).map Prod.snd = direct ∧
      ∀ (j position : Nat) (op : Op),
        (directOps 0 offset (code ++ .endMethod :: more))[j]? = some (position, op) →
        ∃ n fields', position = offset + n ∧ code[n]? = some op ∧
          (w.run offset (code.take n)).classes =
            openAt .inMethod fields' (f.after (direct.take j)) methods outer

namespace WalkedDirectly

variable {rest direct : List Op}

theorem nil : WalkedDirectly [] [] := by
  intro w fields f methods outer offset more hw
  exact ⟨rfl, fun j position op hj => by cases hj⟩

theorem cons {op : Op} (hop : op.isPlain ∨ op.isDeclaration) (h : WalkedDirectly rest direct) :
    WalkedDirectly (op :: rest) (op :: direct) := by
  intro w fields f methods outer offset more hw
  have hsingle : Bracketed .inMethod [op] (.ops [op]) :=
    Bracketed.nil.ops_append (List.forall_mem_singleton.2 hop)
  have hstep := hsingle.passes hw offset
  obtain ⟨hdirect, hbefore⟩ := h _ _ _ _ _ (offset + 1) more hstep.classes
  rw [List.cons_append, directOps_direct hop]
  refine ⟨by rw [List.map_cons, hdirect], fun j position o hj => ?_⟩
  cases j with
  | zero =>
    cases hj
    exact ⟨0, fields, rfl, rfl, hw⟩
  | succ j =>
    obtain ⟨n, fields', hposition, ho, hclasses⟩ := hbefore _ _ _ hj
    exact ⟨n + 1, fields', by omega, ho, hclasses⟩

theorem skip {nested : List Op} {parts : Parts} (h : WalkedDirectly rest direct)
    (hnested : Bracketed .inMethod nested parts) (hdirect : parts.direct = [])
    (hskip : ∀ offset more,
      directOps 0 offset (nested ++ more) = directOps 0 (offset + nested.length) more) :
    WalkedDirectly (nested ++ rest) direct := by
  intro w fields f methods outer offset more hw
  have hpassed := (hnested.passes hw offset).classes
  rw [hdirect] at hpassed
  obtain ⟨hread, hbefore⟩ := h _ _ _ _ _ (offset + nested.length) more hpassed
  rw [List.append_assoc, hskip]
  refine ⟨hread, fun j position o hj => ?_⟩
  obtain ⟨n, fields', hposition, ho, hclasses⟩ := hbefore _ _ _ hj
  refine ⟨nested.length + n, fields', by omega, ?_, ?_⟩
  · rw [List.getElem?_append_right (by omega), Nat.add_sub_cancel_left, ho]
  · rw [List.take_length_add_append, Walk.run_append, hclasses]
    rfl

end WalkedDirectly

theorem Bracketed.walkedDirectly {code : List Op} {parts : Parts}
    (h : Bracketed .inMethod code parts) : WalkedDirectly code parts.direct := by
  generalize hp : Place.inMethod = p at h
  induction h with
  | nil => exact WalkedDirectly.nil
  | declare _ _ ih => exact WalkedDirectly.cons (.inr rfl) (ih hp)
  | plain hop _ ih => exact WalkedDirectly.cons (.inl hop) (ih hp)
  | @method _ name kind body rest inner parts _ hbody _ _ ihRest =>
    have hnested : Bracketed .inMethod (.beginMethod name kind :: (body ++ [.endMethod])) _ :=
      .method (by decide) hbody .nil
    have hall := (ihRest hp).skip hnested rfl (hbody.directOps_skip rfl rfl)
    rw [List.cons_append, List.append_assoc] at hall
    exact hall
  | @container _ name source body rest inner parts hbody _ _ ihRest =>
    have hnested : Bracketed .inMethod (.beginClass name source :: (body ++ [.endClass])) _ :=
      .container hbody .nil
    have hall := (ihRest hp).skip hnested rfl (hbody.directOps_skip rfl rfl)
    rw [List.cons_append, List.append_assoc] at hall
    exact hall

/-- At the position `opened` of the code a method is opened: the operations directly in it follow,
up to its end, and the verifier knows nothing of it yet. -/
def OpensMethod (w : Walk) (offset : Nat) (code : List Op) (opened : Nat) (m : MethodCode) : Prop :=
  ∃ body inner more fields methods outer,
    code.drop (opened + 1) = body ++ .endMethod :: more ∧ Bracketed .inMethod body inner ∧
    inner.direct = m.ops ∧
    (w.run offset (code.take (opened + 1))).classes =
      openAt .inMethod fields ⟨m.name, 0, [], []⟩ methods outer

def FindsMethods (p : Place) (code : List Op) (found : List MethodCode) : Prop :=
  ∀ (w : Walk) (fields : List String) (f : MethodFrame) (methods : List MethodFrame)
    (outer : List ClassFrame) (offset opened : Nat) (name : String) (kind : MethodKind),
    w.classes = openAt p fields f methods outer →
    code[opened]? = some (.beginMethod name kind) →
      ∃ m ∈ found, OpensMethod w offset code opened m

theorem OpensMethod.append_right {w : Walk} {offset opened : Nat} {code : List Op} {m : MethodCode}
    (h : OpensMethod w offset code opened m) (hlt : opened < code.length) (rest : List Op) :
    OpensMethod w offset (code ++ rest) opened m := by
  obtain ⟨body, inner, more, fields, methods, outer, hdrop, hbody, hdirect, hclasses⟩ := h
  refine ⟨body, inner, more ++ rest, fields, methods, outer, ?_, hbody, hdirect, ?_⟩
  · rw [List.drop_append_of_le_length hlt, hdrop, List.append_assoc, List.cons_append]
  · rw [List.take_append_of_le_length hlt, hclasses]

theorem OpensMethod.append_left {w : Walk} {offset opened : Nat} {rest : List Op} {m : MethodCode}
    (code : List Op)
    (h : OpensMethod (w.run offset code) (offset + code.length) rest opened m) :
    OpensMethod w offset (code ++ rest) (code.length + opened) m := by
  obtain ⟨body, inner, more, fields, methods, outer, hdrop, hbody, hdirect, hclasses⟩ := h
  refine ⟨body, inner, more, fields, methods, outer, ?_, hbody, hdirect, ?_⟩
  · rw [Nat.add_assoc, List.drop_length_add_append, hdrop]
  · rw [Nat.add_assoc, List.take_length_add_append, Walk.run_append, hclasses]

namespace FindsMethods

variable {p q : Place} {code rest : List Op} {found found' : List MethodCode} {parts : Parts}

theorem append (h : FindsMethods p code found) (hcode : Bracketed p code parts)
    (h' : FindsMethods p rest found') : FindsMethods p (code ++ rest) (found ++ found') := by
  intro w fields f methods outer offset opened name kind hw hopened
  rcases Nat.lt_or_ge opened code.length with hlt | hge
  · rw [List.getElem?_append_left hlt] at hopened
    obtain ⟨m, hm, hopens⟩ := h _ _ _ _ _ offset _ _ _ hw hopened
    exact ⟨m, List.mem_append_left _ hm, hopens.append_right hlt rest⟩
  · obtain ⟨n, rfl⟩ := Nat.exists_eq_add_of_le hge
    rw [List.getElem?_append_right hge, Nat.add_sub_cancel_left] at hopened
    have hwalked := (hcode.passes hw offset).classes
    obtain ⟨m, hm, hopens⟩ := h' _ _ _ _ _ (offset + code.length) _ _ _ hwalked hopened
    exact ⟨m, List.mem_append_right _ hm, hopens.append_left code⟩

theorem bracket {opening closing : Op} (hclose : closing.closes)
    (hstep : ∀ w fields f methods outer offset, w.classes = openAt p fields f methods outer →
      ∃ fields' f' methods' outer',
        (w.step offset opening).classes = openAt q fields' f' methods' outer' ∧
        ∀ name kind, opening = .beginMethod name kind →
          ∃ m ∈ found, OpensMethod w offset (opening :: (code ++ [closing])) 0 m)
    (h : FindsMethods q code found) :
    FindsMethods p (opening :: (code ++ [closing])) found := by
  intro w fields f methods outer offset opened name kind hw hopened
  obtain ⟨fields', f', methods', outer', hinside, hfirst⟩ := hstep _ _ _ _ _ offset hw
  cases opened with
  | zero => exact hfirst name kind (Option.some.inj hopened)
  | succ n =>
    rw [List.getElem?_cons_succ] at hopened
    have hlt : n < code.length := by
      by_contra hge
      rw [List.getElem?_append_right (by omega)] at hopened
      have heq := List.mem_singleton.1 (List.mem_of_getElem? hopened)
      rw [← heq] at hclose
      cases hclose
    rw [List.getElem?_append_left hlt] at hopened
    obtain ⟨m, hm, hopens⟩ := h _ _ _ _ _ (offset + 1) _ _ _ hinside hopened
    have hin : OpensMethod w offset ([opening] ++ (code ++ [closing])) ([opening].length + n) m :=
      (hopens.append_right hlt [closing]).append_left [opening]
    rw [List.length_singleton, Nat.add_comm] at hin
    exact ⟨m, hm, hin⟩

theorem mono (h : FindsMethods p code found) (hsub : found ⊆ found') :
    FindsMethods p code found' := by
  intro w fields f methods outer offset opened name kind hw hopened
  obtain ⟨m, hm, hopens⟩ := h _ _ _ _ _ offset _ _ _ hw hopened
  exact ⟨m, hsub hm, hopens⟩

theorem single {op : Op} (h : op.opens = false) : FindsMethods p [op] [] := by
  intro w fields f methods outer offset opened name kind _ hopened
  have heq := List.mem_singleton.1 (List.mem_of_getElem? hopened)
  rw [← heq] at h
  cases h

end FindsMethods

theorem Bracketed.findsMethods {p : Place} {code : List Op} {parts : Parts}
    (h : Bracketed p code parts) : FindsMethods p code parts.methods := by
  induction h with
  | nil =>
    intro _ _ _ _ _ _ _ _ _ _ hopened
    cases hopened
  | declare hp _ ih => exact (FindsMethods.single rfl).append (.declare hp .nil) ih
  | plain hop _ ih =>
    exact (FindsMethods.single (Op.not_bracket (.inl hop)).1).append (.plain hop .nil) ih
  | @method p name kind body rest inner parts hp hbody hrest ihBody ihRest =>
    have hbracket : FindsMethods p (.beginMethod name kind :: (body ++ [.endMethod]))
        (⟨name, kind, inner.direct⟩ :: inner.methods) := by
      refine .bracket rfl (fun w fields f methods outer offset hw => ?_)
        (ihBody.mono (List.subset_cons_self _ _))
      have hinside := Walk.classes_beginMethod hp hw offset name
      exact ⟨_, _, _, _, hinside, fun _ _ _ => ⟨_, List.mem_cons_self,
        body, inner, [], _, _, _, rfl, hbody, rfl, hinside⟩⟩
    have hall := hbracket.append (.method hp hbody .nil) ihRest
    rw [List.cons_append, List.append_assoc] at hall
    exact hall
  | @container p name source body rest inner parts hbody hrest ihBody ihRest =>
    have hbracket : FindsMethods p (.beginClass name source :: (body ++ [.endClass]))
        inner.methods := by
      refine .bracket rfl (fun w fields f methods outer offset hw => ?_) ihBody
      exact ⟨[], f, [], w.classes, rfl, fun _ _ heq => by cases heq⟩
    have hall := hbracket.append (.container hbody .nil) ihRest
    rw [List.cons_append, List.append_assoc] at hall
    exact hall

namespace Walk

def depth? (w : Walk) : Option Nat :=
  (w.classes.head?.bind (·.methods.head?)).map (·.depth)

def Bounded (w : Walk) : Prop :=
  ∀ c ∈ w.classes, ∀ f ∈ c.methods, f.depth ≤ w.stats.maxStackDepth

theorem Bounded.le_of_depth? {w : Walk} (h : w.Bounded) {depth : Nat} (hd : w.depth? = some depth) :
    depth ≤ w.stats.maxStackDepth := by
  unfold depth? at hd
  match hc : w.classes, hd with
  | ⟨fields, f :: methods⟩ :: outer, hd =>
    cases hd
    exact h _ (hc ▸ List.mem_cons_self) f List.mem_cons_self

def Grows (w w' : Walk) : Prop :=
  w.stats.maxStackDepth ≤ w'.stats.maxStackDepth ∧ (w.Bounded → w'.Bounded)

theorem Grows.refl (w : Walk) : w.Grows w := ⟨Nat.le_refl _, id⟩

theorem Grows.trans {w w' w'' : Walk} (h : w.Grows w') (h' : w'.Grows w'') : w.Grows w'' :=
  ⟨Nat.le_trans h.1 h'.1, h'.2 ∘ h.2⟩

theorem stats_closeMethod (w : Walk) (f : MethodFrame) : (w.closeMethod f).stats = w.stats := by
  have herrors : ∀ (marks : List Mark) (w : Walk),
      (marks.foldl (fun w m => w.error (.undefinedMark f.name m)) w).stats = w.stats := by
    intro marks
    induction marks with
    | nil => intro w; rfl
    | cons m rest ih => intro w; exact ih _
  unfold closeMethod
  split
  · exact herrors _ _
  · exact herrors _ _

theorem stats_endMethod (w : Walk) (offset : Nat) : (w.endMethod offset).stats = w.stats := by
  unfold endMethod
  split
  · exact stats_closeMethod _ _
  · rfl

theorem stats_endClass (w : Walk) (offset : Nat) : (w.endClass offset).stats = w.stats := by
  unfold endClass
  split <;> rfl

theorem maxStackDepth_note (w : Walk) (offset : Nat) (f : MethodFrame) (op : Op) :
    (w.note offset f op).1.stats.maxStackDepth = w.stats.maxStackDepth := by
  cases op with
  | mark m =>
    simp only [note, placeMark]
    split <;> rfl
  | _ => rfl

theorem maxStackDepth_balance (w : Walk) (offset : Nat) (f : MethodFrame) (op : Op) :
    (w.balance offset f op).1.stats.maxStackDepth =
      max w.stats.maxStackDepth (op.depthFrom f.depth) := by
  simp only [balance, Op.depthFrom]
  split <;> rfl

theorem grows_code (w : Walk) (offset : Nat) (op : Op) : w.Grows (w.code offset op) := by
  unfold code
  split
  · rename_i fields f methods outer hc
    have hmax :
        ((w.note offset f op).1.balance offset (w.note offset f op).2 op).1.stats.maxStackDepth =
          max w.stats.maxStackDepth (op.depthFrom (w.note offset f op).2.depth) := by
      rw [maxStackDepth_balance, maxStackDepth_note]
    refine ⟨?_, fun h => ?_⟩
    · exact Nat.le_trans (Nat.le_max_left _ _) (Nat.le_of_eq hmax.symm)
    · rw [Bounded, hc, List.forall_mem_cons, List.forall_mem_cons] at h
      have hle : ∀ g : MethodFrame, g.depth ≤ w.stats.maxStackDepth → g.depth ≤
          ((w.note offset f op).1.balance offset
            (w.note offset f op).2 op).1.stats.maxStackDepth := by
        intro g hg
        rw [hmax]
        exact Nat.le_trans hg (Nat.le_max_left _ _)
      refine List.forall_mem_cons.2 ⟨List.forall_mem_cons.2 ⟨?_, fun g hg => hle g (h.1.2 g hg)⟩,
        fun c hmem g hg => hle g (h.2 c hmem g hg)⟩
      rw [hmax]
      exact Nat.le_max_right _ _
  · exact .refl w

theorem grows_endMethod (w : Walk) (offset : Nat) : w.Grows (w.endMethod offset) := by
  unfold endMethod
  split
  · rename_i fields f methods outer hc
    refine ⟨Nat.le_of_eq (by rw [stats_closeMethod]), fun h c hmem g hg => ?_⟩
    rw [stats_closeMethod]
    rw [(closeMethod_spec _ f).1] at hmem
    rw [Bounded, hc, List.forall_mem_cons] at h
    rcases List.mem_cons.1 hmem with rfl | hmem
    · exact h.1 g (List.mem_cons_of_mem _ hg)
    · exact h.2 c hmem g hg
  · exact .refl w

theorem grows_step (w : Walk) (offset : Nat) (op : Op) : w.Grows (w.step offset op) := by
  cases op with
  | beginClass => exact ⟨Nat.le_refl _, fun h => List.forall_mem_cons.2 ⟨by simp, h⟩⟩
  | endClass =>
    simp only [step, endClass]
    split
    · rename_i hc
      refine ⟨Nat.le_refl _, fun h => ?_⟩
      rw [Bounded, hc, List.forall_mem_cons] at h
      exact h.2
    · exact .refl w
  | declareField name =>
    simp only [step, declareField]
    split
    · exact .refl w
    · rename_i c outer hc
      split
      · exact .refl w
      · refine ⟨Nat.le_refl _, fun h => ?_⟩
        rw [Bounded, hc] at h
        exact List.forall_mem_cons.2 (List.forall_mem_cons.1 h)
  | beginMethod name =>
    simp only [step, beginMethod]
    split
    · exact .refl w
    · rename_i c outer hc
      refine ⟨Nat.le_refl _, fun h => ?_⟩
      rw [Bounded, hc, List.forall_mem_cons] at h
      exact List.forall_mem_cons.2 ⟨List.forall_mem_cons.2 ⟨Nat.zero_le _, h.1⟩, h.2⟩
  | endMethod => exact w.grows_endMethod offset
  | _ => exact w.grows_code offset _

theorem grows_run (w : Walk) (offset : Nat) (code : List Op) : w.Grows (w.run offset code) := by
  induction code generalizing w offset with
  | nil => exact .refl w
  | cons op rest ih => exact (w.grows_step offset op).trans (ih _ _)

end Walk

/-- The walk of the verifier before a position of the code. -/
def Verifier.walkBefore (v : Verifier) (code : List Op) (position : Nat) : Walk :=
  (v.start code.length).run 0 (code.take position)

theorem Verifier.bounded_walkBefore (v : Verifier) (code : List Op) (position : Nat) :
    (v.walkBefore code position).Bounded ∧
      (v.walkBefore code position).stats.maxStackDepth ≤ (v.verify code).stats.maxStackDepth := by
  have hbefore := (v.start code.length).grows_run 0 (code.take position)
  have hafter := (v.walkBefore code position).grows_run (0 + (code.take position).length)
    (code.drop position)
  rw [walkBefore, ← Walk.run_append, List.take_append_drop] at hafter
  refine ⟨hbefore.2 (by simp [Walk.Bounded, start]), Nat.le_trans hafter.1 ?_⟩
  rw [stats_verify, Walk.finish]
  split
  · exact Nat.le_refl _
  · exact Nat.le_refl _

/-- Every path through a method of bracketed code agrees with the walk of the verifier, if nothing
is wrong with the methods and the stack is empty where their paths meet. -/
theorem Bracketed.paths_sound {code : List Op} {parts : Parts} (h : Bracketed .outside code parts)
    (hvalid : ∀ m ∈ parts.methods, m.Valid)
    (hsettled : ∀ m ∈ parts.methods, Settled 0 m.ops ∧ depthAfter 0 m.ops = 0) (v : Verifier)
    {opened : Nat} {name : String} {kind : MethodKind}
    (hopened : code[opened]? = some (.beginMethod name kind)) {j : Nat} {depth : Int}
    (hpath : Reaches ((routineOps code opened).map Prod.snd) j depth) :
    ∃ d : Nat, depth = d ∧ d ≤ (v.verify code).stats.maxStackDepth ∧
      ∀ position op, (routineOps code opened)[j]? = some (position, op) →
        code[position]? = some op ∧ (v.walkBefore code position).depth? = some d ∧
        op.stackEffect.1 ≤ d ∧ (op.placed?.isSome → d = 0) := by
  obtain ⟨m, hm, body, inner, more, fields, methods, outer, hdrop, hbody, hdirect, hwalk⟩ :=
    h.findsMethods (v.start code.length) [] ⟨"", 0, [], []⟩ [] [] 0 _ _ _ rfl hopened
  obtain ⟨hread, hbefore⟩ := hbody.walkedDirectly _ _ _ _ _ (opened + 1) more hwalk
  rw [← hdrop, ← routineOps] at hread hbefore
  rw [hdirect] at hread hbefore
  rw [hread] at hpath
  have hdepth := hpath.depth_eq (hvalid m hm).covers (hsettled m hm).1
  have hops : ∀ position op, (routineOps code opened)[j]? = some (position, op) →
      m.ops[j]? = some op ∧ code[position]? = some op ∧
        (v.walkBefore code position).depth? = some (depthAfter 0 (m.ops.take j)) := by
    intro position op hj
    obtain ⟨n, fields', rfl, hop, hclasses⟩ := hbefore _ _ _ hj
    obtain ⟨hn, -⟩ := List.getElem?_eq_some_iff.1 hop
    obtain ⟨hlt, -⟩ := List.getElem?_eq_some_iff.1 hopened
    refine ⟨?_, ?_, ?_⟩
    · rw [← hread, List.getElem?_map, hj]
      rfl
    · rw [← List.getElem?_drop, hdrop, List.getElem?_append_left hn, hop]
    · have htake : code.take (opened + 1 + n) = code.take (opened + 1) ++ body.take n := by
        rw [List.take_add, hdrop, List.take_append_of_le_length (Nat.le_of_lt hn)]
      have hlength : (code.take (opened + 1)).length = opened + 1 := by
        rw [List.length_take]
        omega
      rw [Verifier.walkBefore, htake, Walk.run_append, hlength, Nat.zero_add, Walk.depth?, hclasses,
        openAt, if_neg (by decide), openMethods, if_pos rfl]
      exact congrArg some (MethodFrame.depth_after _ _)
  refine ⟨depthAfter 0 (m.ops.take j), hdepth, ?_, fun position op hj => ?_⟩
  · rcases Nat.lt_or_ge j (routineOps code opened).length with hlt | hge
    · obtain ⟨-, -, hdepth?⟩ := hops _ _ (List.getElem?_eq_getElem hlt)
      obtain ⟨hbounded, hle⟩ := v.bounded_walkBefore code ((routineOps code opened)[j]).1
      exact Nat.le_trans (hbounded.le_of_depth? hdepth?) hle
    · rw [List.take_of_length_le (by rw [← hread, List.length_map]; exact hge), (hsettled m hm).2]
      exact Nat.zero_le _
  · obtain ⟨hop, hposition, hdepth?⟩ := hops position op hj
    exact ⟨hposition, hdepth?, (hvalid m hm).covers.le_depth hop,
      ((hsettled m hm).1.at hop).1⟩

end StackBackend.Code
