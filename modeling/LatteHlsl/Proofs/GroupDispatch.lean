import LatteHlsl.Proofs.Halt
import LatteHlsl.Walk.Trace

/-!
# The calls made for a group

For every ALU group, which handlers are called for which instructions, and in which order. A group
whose X lane holds a reduction is one call for the lanes X to W and one for T. All other groups are
one call a lane. A reduction whose lanes differ is refused before any call, and a reduction in a
lane of its own is refused where it is met.

* `AluGroup.Accepts`, `AluGroup.Refuses`: the calls for a group, and the fault that ends them.
* `AluGroup.accepts_or_refuses`: every group is one or the other.
* `walkGroup_of_accepts`, `walkGroup_of_refuses`: the walk makes these calls and no others.
* `walkGroup_dispatches`: the outcomes, for handlers that succeed.
-/

namespace LatteHlsl

open Isa Effect

/-! ## Calls and verdicts -/

/-- A call of a handler: what it is called for, and the instruction. -/
structure Dispatch where
  target : Target
  instr : AluInstr
deriving DecidableEq

namespace AluGroup

/-- All instructions have known operations. -/
def Known (g : AluGroup) : Prop := ∀ l i, g.lane l = some i → ∃ op, i.op = .ok op

/-- The lane holds a reduction. -/
def Reduces (g : AluGroup) (l : Lane) : Prop :=
  ∃ i op, g.lane l = some i ∧ i.op = .ok op ∧ op.traits.reduction = true

/-- The lane holds an instruction like `first`. -/
def Matches (g : AluGroup) (first : AluInstr) (l : Lane) : Prop :=
  ∃ i, g.lane l = some i ∧ i.op = first.op ∧ i.omod = first.omod ∧ i.clamp = first.clamp

/-- The first field in which a lane is not like `first`. -/
inductive Differs (g : AluGroup) (first : AluInstr) (l : Lane) : ReductionField → Prop where
  | absent (hl : g.lane l = none) : Differs g first l .opcode
  | opcode {i : AluInstr} (hl : g.lane l = some i) (hop : i.op ≠ first.op) :
      Differs g first l .opcode
  | outputModifier {i : AluInstr} (hl : g.lane l = some i) (hop : i.op = first.op)
      (homod : i.omod ≠ first.omod) : Differs g first l .outputModifier
  | clamp {i : AluInstr} (hl : g.lane l = some i) (hop : i.op = first.op)
      (homod : i.omod = first.omod) (hclamp : i.clamp ≠ first.clamp) : Differs g first l .clamp

/-- One call for each of the lanes that is occupied. -/
def singles (g : AluGroup) (ls : List Lane) : List Dispatch :=
  ls.filterMap fun l => (g.lane l).map (Dispatch.mk (.lane l))

/-- The lanes that a reduction takes together with X. -/
def reductionLanes : List Lane := [.y, .z, .w]

/-- The X lane holds the reduction `first`. -/
def ReducesFrom (g : AluGroup) (first : AluInstr) : Prop := g.lane .x = some first ∧ g.Reduces .x

/-- The calls for a group that is walked to its end. -/
inductive Accepts (g : AluGroup) : List Dispatch → Prop where
  | reduction {first : AluInstr} (hx : g.ReducesFrom first)
      (hlanes : ∀ l ∈ reductionLanes, g.Matches first l) (ht : ¬ g.Reduces .t) :
      Accepts g (⟨.reduction, first⟩ :: g.singles [.t])
  | lanes (hlanes : ∀ l, ¬ g.Reduces l) : Accepts g (g.singles Lane.all)

/-- The calls for a group before it is refused, and why it is. -/
inductive Refuses (g : AluGroup) : List Dispatch → CompileFault → Prop where
  | mismatch {first : AluInstr} {before after : List Lane} {l : Lane} {field : ReductionField}
      (hx : g.ReducesFrom first) (hlanes : reductionLanes = before ++ l :: after)
      (hbefore : ∀ k ∈ before, g.Matches first k) (hl : g.Differs first l field) :
      Refuses g [] (.reductionMismatch field l)
  | afterReduction {first i : AluInstr} {op : AluOp} (hx : g.ReducesFrom first)
      (hlanes : ∀ l ∈ reductionLanes, g.Matches first l) (ht : g.lane .t = some i)
      (hop : i.op = .ok op) (hred : op.traits.reduction = true) :
      Refuses g [⟨.reduction, first⟩] (.misplacedReduction op .t)
  | misplaced {before after : List Lane} {l : Lane} {i : AluInstr} {op : AluOp}
      (hx : ¬ g.Reduces .x) (hlanes : Lane.all = before ++ l :: after)
      (hbefore : ∀ k ∈ before, ¬ g.Reduces k) (hl : g.lane l = some i) (hop : i.op = .ok op)
      (hred : op.traits.reduction = true) :
      Refuses g (g.singles before) (.misplacedReduction op l)

/-! ### Every group is accepted or refused -/

theorem matches_or_differs (g : AluGroup) (first : AluInstr) (l : Lane) :
    g.Matches first l ∨ ∃ field, g.Differs first l field := by
  cases hl : g.lane l with
  | none => exact .inr ⟨_, .absent hl⟩
  | some i =>
    by_cases hop : i.op = first.op
    · by_cases homod : i.omod = first.omod
      · by_cases hclamp : i.clamp = first.clamp
        · exact .inl ⟨i, hl, hop, homod, hclamp⟩
        · exact .inr ⟨_, .clamp hl hop homod hclamp⟩
      · exact .inr ⟨_, .outputModifier hl hop homod⟩
    · exact .inr ⟨_, .opcode hl hop⟩

/-- All members of a list have a property, or there is a first one that has not. -/
theorem forall_or_first {α : Type} (P : α → Prop) (as : List α) :
    (∀ a ∈ as, P a) ∨ ∃ before a after, as = before ++ a :: after ∧ (∀ b ∈ before, P b) ∧ ¬ P a := by
  induction as with
  | nil => exact .inl fun a ha => absurd ha List.not_mem_nil
  | cons a as ih =>
    by_cases ha : P a
    · rcases ih with hall | ⟨before, b, after, rfl, hbefore, hb⟩
      · exact .inl (List.forall_mem_cons.mpr ⟨ha, hall⟩)
      · exact .inr ⟨a :: before, b, after, rfl, List.forall_mem_cons.mpr ⟨ha, hbefore⟩, hb⟩
    · exact .inr ⟨[], a, as, rfl, fun b hb => absurd hb List.not_mem_nil, ha⟩

theorem accepts_or_refuses (g : AluGroup) :
    (∃ ds, g.Accepts ds) ∨ ∃ ds fault, g.Refuses ds fault := by
  by_cases hx : g.Reduces .x
  · obtain ⟨first, op, hfirst, -, -⟩ := id hx
    have hfrom : g.ReducesFrom first := ⟨hfirst, hx⟩
    rcases forall_or_first (g.Matches first) reductionLanes with
      hlanes | ⟨before, l, after, hsplit, hbefore, hl⟩
    · by_cases ht : g.Reduces .t
      · obtain ⟨i, op, ht, hop, hred⟩ := ht
        exact .inr ⟨_, _, .afterReduction hfrom hlanes ht hop hred⟩
      · exact .inl ⟨_, .reduction hfrom hlanes ht⟩
    · obtain ⟨field, hdiffers⟩ := (g.matches_or_differs first l).resolve_left hl
      exact .inr ⟨_, _, .mismatch hfrom hsplit hbefore hdiffers⟩
  · rcases forall_or_first (fun l => ¬ g.Reduces l) Lane.all with
      hlanes | ⟨before, l, after, hsplit, hbefore, hl⟩
    · refine .inl ⟨_, .lanes fun l => hlanes l ?_⟩
      cases l <;> decide
    · obtain ⟨i, op, hl, hop, hred⟩ := Classical.not_not.mp hl
      exact .inr ⟨_, _, .misplaced hx hsplit hbefore hl hop hred⟩

/-! ### Calls are for instructions of the group -/

theorem lane_of_mem_singles {g : AluGroup} {ls : List Lane} {d : Dispatch}
    (h : d ∈ g.singles ls) : ∃ l, g.lane l = some d.instr := by
  obtain ⟨l, -, hl⟩ := List.mem_filterMap.mp h
  obtain ⟨i, hi, rfl⟩ := Option.map_eq_some_iff.mp hl
  exact ⟨l, hi⟩

theorem Accepts.lane_of_mem {g : AluGroup} {ds : List Dispatch} {d : Dispatch}
    (h : g.Accepts ds) (hd : d ∈ ds) : ∃ l, g.lane l = some d.instr := by
  cases h with
  | reduction hx =>
    rcases List.mem_cons.mp hd with rfl | hd
    · exact ⟨.x, hx.1⟩
    · exact lane_of_mem_singles hd
  | lanes => exact lane_of_mem_singles hd

theorem Refuses.lane_of_mem {g : AluGroup} {ds : List Dispatch} {d : Dispatch}
    {fault : CompileFault} (h : g.Refuses ds fault) (hd : d ∈ ds) :
    ∃ l, g.lane l = some d.instr := by
  cases h with
  | mismatch => cases hd
  | afterReduction hx =>
    obtain rfl := List.mem_singleton.mp hd
    exact ⟨.x, hx.1⟩
  | misplaced => exact lane_of_mem_singles hd

end AluGroup

/-! ## The lanes of a reduction -/

theorem checkReductionLane_of_matches {g : AluGroup} {first : AluInstr} {op : AluOp} {l : Lane}
    (hop : first.op = .ok op) (h : g.Matches first l) :
    checkReductionLane g first op l = .ok () := by
  obtain ⟨i, hl, hlane, homod, hclamp⟩ := h
  rw [hop] at hlane
  simp [checkReductionLane, hl, hlane, homod, hclamp]

theorem checkReductionLane_of_differs {g : AluGroup} {first : AluInstr} {op : AluOp} {l : Lane}
    {field : ReductionField} (hg : g.Known) (hop : first.op = .ok op)
    (h : g.Differs first l field) :
    checkReductionLane g first op l = .error (.reductionMismatch field l) := by
  cases h with
  | absent hl => simp [checkReductionLane, hl]
  | opcode hl hne =>
    obtain ⟨laneOp, hlane⟩ := hg l _ hl
    rw [hop, hlane] at hne
    have hneq : laneOp ≠ op := fun heq => hne (congrArg Except.ok heq)
    simp [checkReductionLane, hl, hlane, hneq]
  | outputModifier hl heq homod =>
    rw [hop] at heq
    simp [checkReductionLane, hl, heq, homod]
  | clamp hl heq homod hclamp =>
    rw [hop] at heq
    simp [checkReductionLane, hl, heq, homod, hclamp]

theorem checkReduction_eq_forM (g : AluGroup) (first : AluInstr) (op : AluOp) :
    checkReduction g first op = AluGroup.reductionLanes.forM (checkReductionLane g first op) := by
  show _ = (do
    checkReductionLane g first op .y
    checkReductionLane g first op .z
    checkReductionLane g first op .w
    pure () : Except CompileFault Unit)
  rw [checkReduction, bind_pure_unit]

theorem Checked.forM_of_ok {ε α : Type} {f : α → Except ε Unit} {as : List α}
    (h : ∀ a ∈ as, f a = .ok ()) : as.forM f = .ok () := by
  induction as with
  | nil => rfl
  | cons a as ih =>
    show (f a >>= fun _ => as.forM f) = .ok ()
    rw [h a List.mem_cons_self]
    exact ih fun b hb => h b (List.mem_cons_of_mem a hb)

theorem Checked.forM_of_error {ε α : Type} {f : α → Except ε Unit} {before after : List α} {a : α}
    {e : ε} (h : ∀ b ∈ before, f b = .ok ()) (ha : f a = .error e) :
    (before ++ a :: after).forM f = .error e := by
  induction before with
  | nil =>
    show (f a >>= fun _ => after.forM f) = .error e
    rw [ha]
    rfl
  | cons b before ih =>
    show (f b >>= fun _ => (before ++ a :: after).forM f) = .error e
    rw [h b List.mem_cons_self]
    exact ih fun b' hb' => h b' (List.mem_cons_of_mem b hb')

/-! ## The calls of a walk -/

theorem Effect.forM_cons {σ α : Type} (f : α → Effect σ Unit) (a : α) (as : List α) :
    (a :: as).forM f = (do f a; as.forM f) := rfl

theorem Effect.fail_bind {σ α β : Type} (fault : CompileFault) (f : α → Effect σ β) :
    (fail fault >>= f) = fail fault := rfl

section

variable {σ : Type} {h : Handlers σ} {cf : CfInstr} {g : AluGroup}

/-- Make a call. -/
def Handlers.dispatch (h : Handlers σ) (cf : CfInstr) (g : AluGroup) (d : Dispatch) :
    Effect (Machine σ) Unit :=
  walkAlu h cf g d.target d.instr

theorem walkLane_of_not_reduces {l : Lane} (hg : g.Known) (hl : ¬ g.Reduces l) :
    walkLane h cf g l = (g.singles [l]).forM (h.dispatch cf g) := by
  unfold walkLane AluGroup.singles
  cases hi : g.lane l with
  | none => simp [hi]
  | some i =>
    obtain ⟨op, hop⟩ := hg l i hi
    have hred : op.traits.reduction = false := by
      rw [← Bool.not_eq_true]
      exact fun hred => hl ⟨i, op, hi, hop, hred⟩
    simp [hi, hop, hred, decode, Handlers.dispatch]

theorem walkLane_of_reduces {l : Lane} {i : AluInstr} {op : AluOp} (hl : g.lane l = some i)
    (hop : i.op = .ok op) (hred : op.traits.reduction = true) :
    walkLane h cf g l = fail (.misplacedReduction op l) := by
  simp [walkLane, hl, hop, hred, decode]

/-- Lanes without reductions are handed over one by one. -/
theorem forM_walkLane {ls : List Lane} (hg : g.Known) (hls : ∀ l ∈ ls, ¬ g.Reduces l) :
    ls.forM (walkLane h cf g) = (g.singles ls).forM (h.dispatch cf g) := by
  induction ls with
  | nil => rfl
  | cons l ls ih =>
    have hsplit : g.singles (l :: ls) = g.singles [l] ++ g.singles ls := by
      rw [AluGroup.singles, ← List.singleton_append, List.filterMap_append]
      rfl
    have hfirst : walkLane h cf g l = (g.singles [l]).forM (h.dispatch cf g) :=
      walkLane_of_not_reduces hg (hls l List.mem_cons_self)
    have hrest := ih fun k hk => hls k (List.mem_cons_of_mem l hk)
    show (walkLane h cf g l >>= fun _ => ls.forM (walkLane h cf g)) = _
    rw [hfirst, hrest, hsplit]
    exact List.forM_append.symm

/-- A reduction among them ends that. -/
theorem forM_walkLane_of_reduces {before after : List Lane} {l : Lane} {i : AluInstr} {op : AluOp}
    (hg : g.Known) (hbefore : ∀ k ∈ before, ¬ g.Reduces k) (hl : g.lane l = some i)
    (hop : i.op = .ok op) (hred : op.traits.reduction = true) :
    (before ++ l :: after).forM (walkLane h cf g) = (do
      (g.singles before).forM (h.dispatch cf g)
      fail (.misplacedReduction op l)) := by
  have hsplit : (before ++ l :: after).forM (walkLane h cf g) = (do
      before.forM (walkLane h cf g)
      walkLane h cf g l
      after.forM (walkLane h cf g)) := List.forM_append
  rw [hsplit, forM_walkLane hg hbefore, walkLane_of_reduces hl hop hred]
  rfl

/-- The lanes of a group without a reduction in X are all handed over one by one. -/
theorem walkReduction_of_not_reduces (hg : g.Known) (hx : ¬ g.Reduces .x) :
    walkReduction h cf g = pure Lane.all := by
  unfold walkReduction
  cases hfirst : g.lane .x with
  | none => rfl
  | some first =>
    obtain ⟨op, hop⟩ := hg .x first hfirst
    have hred : op.traits.reduction = false := by
      rw [← Bool.not_eq_true]
      exact fun hred => hx ⟨first, op, hfirst, hop, hred⟩
    simp [hop, hred, decode]

theorem walkReduction_of_reduces {first : AluInstr} {op : AluOp} (hfirst : g.lane .x = some first)
    (hop : first.op = .ok op) (hred : op.traits.reduction = true) :
    walkReduction h cf g = (do
      check (checkReduction g first op)
      h.dispatch cf g ⟨.reduction, first⟩
      pure [.t]) := by
  simp [walkReduction, hfirst, hop, hred, decode, Handlers.dispatch]

/-- A reduction whose lanes are alike is one call, and leaves the T lane. -/
theorem walkReduction_of_matches {first : AluInstr} (hx : g.ReducesFrom first)
    (hlanes : ∀ l ∈ AluGroup.reductionLanes, g.Matches first l) :
    walkReduction h cf g = (do
      h.dispatch cf g ⟨.reduction, first⟩
      pure [.t]) := by
  obtain ⟨hfirst, i, op, hi, hop, hred⟩ := hx
  obtain rfl : i = first := Option.some.inj (hi.symm.trans hfirst)
  have hcheck : checkReduction g i op = .ok () := by
    rw [checkReduction_eq_forM]
    exact Checked.forM_of_ok fun l hl => checkReductionLane_of_matches hop (hlanes l hl)
  rw [walkReduction_of_reduces hfirst hop hred, hcheck]
  rfl

/-- A reduction is refused at the first lane that differs. -/
theorem walkReduction_of_differs {first : AluInstr} {before after : List Lane} {l : Lane}
    {field : ReductionField} (hg : g.Known) (hx : g.ReducesFrom first)
    (hlanes : AluGroup.reductionLanes = before ++ l :: after)
    (hbefore : ∀ k ∈ before, g.Matches first k) (hl : g.Differs first l field) :
    walkReduction h cf g = fail (.reductionMismatch field l) := by
  obtain ⟨hfirst, i, op, hi, hop, hred⟩ := hx
  obtain rfl : i = first := Option.some.inj (hi.symm.trans hfirst)
  have hcheck : checkReduction g i op = .error (.reductionMismatch field l) := by
    rw [checkReduction_eq_forM, hlanes]
    exact Checked.forM_of_error (fun k hk => checkReductionLane_of_matches hop (hbefore k hk))
      (checkReductionLane_of_differs hg hop hl)
  rw [walkReduction_of_reduces hfirst hop hred, hcheck]
  rfl

/-- The walk of an accepted group is its calls between the two hooks; then the group is counted. -/
theorem walkGroup_of_accepts {ds : List Dispatch} (hg : g.Known) (hds : g.Accepts ds) :
    walkGroup h cf g = (do
      Machine.act fun w => h.beginGroup w cf g
      ds.forM (h.dispatch cf g)
      Machine.act fun w => h.endGroup w cf g
      Machine.count .group) := by
  unfold walkGroup
  cases hds with
  | reduction hx hlanes ht =>
    have hrest : [Lane.t].forM (walkLane h cf g) = (g.singles [.t]).forM (h.dispatch cf g) := by
      refine forM_walkLane hg fun l hl => ?_
      rw [List.mem_singleton.mp hl]
      exact ht
    -- the call for the reduction leaves T, which is walked like any single lane
    rw [walkReduction_of_matches hx hlanes, forM_cons, ← hrest]
    simp only [bind_assoc, pure_bind]
  | lanes hlanes =>
    rw [walkReduction_of_not_reduces hg (hlanes .x), pure_bind,
      forM_walkLane hg fun l _ => hlanes l]

/-- The walk of a refused group is its calls after the first hook; then it fails. -/
theorem walkGroup_of_refuses {ds : List Dispatch} {fault : CompileFault} (hg : g.Known)
    (hds : g.Refuses ds fault) :
    walkGroup h cf g = (do
      Machine.act fun w => h.beginGroup w cf g
      ds.forM (h.dispatch cf g)
      fail fault) := by
  unfold walkGroup
  cases hds with
  | mismatch hx hlanes hbefore hl =>
    rw [walkReduction_of_differs hg hx hlanes hbefore hl]
    rfl
  | @afterReduction first i op hx hlanes ht hop hred =>
    have hrest : [Lane.t].forM (walkLane h cf g) = fail (.misplacedReduction op .t) := by
      rw [forM_cons, walkLane_of_reduces ht hop hred, fail_bind]
    rw [walkReduction_of_matches hx hlanes, forM_cons]
    simp only [bind_assoc, pure_bind]
    rw [hrest]
    rfl
  | misplaced hx hlanes hbefore hl hop hred =>
    rw [walkReduction_of_not_reduces hg hx, pure_bind, hlanes,
      forM_walkLane_of_reduces hg hbefore hl hop hred]
    simp only [bind_assoc, fail_bind]

/-! ## Outcomes -/

/-- The action succeeds, and changes nothing but the state of the handlers. -/
def Effect.Acts (x : Effect (Machine σ) Unit) : Prop :=
  ∀ m, ∃ out, x m = .ok () { m with out := out }

theorem Effect.Acts.act {f : Walk → Effect σ Unit} (hf : ∀ w s, ∃ s', f w s = .ok () s') :
    Acts (Machine.act f) := by
  intro m
  obtain ⟨out, hout⟩ := hf m.walk m.out
  exact ⟨out, Machine.act_eq_ok.mpr ⟨out, hout, rfl⟩⟩

theorem Effect.Acts.forM {α : Type} {f : α → Effect (Machine σ) Unit} {as : List α}
    (hf : ∀ a ∈ as, Acts (f a)) : Acts (as.forM f) := by
  induction as with
  | nil => exact fun m => ⟨m.out, rfl⟩
  | cons a as ih =>
    intro m
    obtain ⟨out, hfirst⟩ := hf a List.mem_cons_self m
    obtain ⟨out', hrest⟩ := ih (fun b hb => hf b (List.mem_cons_of_mem a hb)) { m with out := out }
    exact ⟨out', forM_cons_eq_ok.mpr ⟨_, hfirst, hrest⟩⟩

/-- The handlers succeed for a group: its operations have handlers, and none of them halts. -/
structure Handlers.Serves (h : Handlers σ) (g : AluGroup) : Prop where
  beginGroup : ∀ w cf s, ∃ s', h.beginGroup w cf g s = .ok () s'
  endGroup : ∀ w cf s, ∃ s', h.endGroup w cf g s = .ok () s'
  alu : ∀ l i op, g.lane l = some i → i.op = .ok op → ∃ handle, h.alu op = some handle ∧
    ∀ w cf target s, ∃ s', handle w cf g target i s = .ok () s'

theorem acts_dispatch (hg : g.Known) (hh : h.Serves g) {d : Dispatch} {l : Lane}
    (hd : g.lane l = some d.instr) : Acts (h.dispatch cf g d) := by
  obtain ⟨op, hop⟩ := hg l d.instr hd
  obtain ⟨handle, hhandle, hrun⟩ := hh.alu l d.instr op hd hop
  have heq : h.dispatch cf g d = Machine.act fun w => handle w cf g d.target d.instr := by
    simp [Handlers.dispatch, walkAlu, walkInstr, invoke, Handlers.find, hop, hhandle, decode,
      handler, Except.map]
  rw [heq]
  exact .act fun w s => hrun w cf d.target s

/-- After the calls for a group, the walk is where it was. -/
theorem calls_then {ds : List Dispatch} (cf : CfInstr) (hg : g.Known) (hh : h.Serves g)
    (hds : ∀ d ∈ ds, ∃ l, g.lane l = some d.instr) (x : Effect (Machine σ) Unit) (m : Machine σ) :
    ∃ out, (do
      Machine.act fun w => h.beginGroup w cf g
      ds.forM (h.dispatch cf g)
      x) m = x { m with out := out } := by
  have hcalls : Acts (ds.forM (h.dispatch cf g)) := by
    refine .forM fun d hd => ?_
    obtain ⟨l, hl⟩ := hds d hd
    exact acts_dispatch hg hh hl
  obtain ⟨out, hbegin⟩ := Acts.act (fun w s => hh.beginGroup w cf s) m
  obtain ⟨out', hrun⟩ := hcalls { m with out := out }
  exact ⟨out', by rw [bind_of_eq_ok hbegin, bind_of_eq_ok hrun]⟩

theorem Machine.count_of_lt {counter : Counter} {m : Machine σ}
    (hm : (m.walk.counted counter).toNat + 1 < 2 ^ 32) :
    count counter m =
      .ok () { m with walk := m.walk.withCounted (m.walk.counted counter + 1) counter } := by
  have hne : m.walk.counted counter ≠ BitVec.allOnes 32 := by
    intro heq
    rw [heq, BitVec.toNat_allOnes] at hm
    omega
  show (Effect.next counter (m.walk.counted counter) >>= fun n =>
    modifyWalk fun w => w.withCounted n counter) m = _
  rw [Effect.next, if_neg hne]
  rfl

theorem Machine.count_of_last {counter : Counter} {m : Machine σ}
    (hm : (m.walk.counted counter).toNat + 1 = 2 ^ 32) :
    count counter m = .error (.counterOverflow counter) m := by
  have heq : m.walk.counted counter = BitVec.allOnes 32 := by
    refine BitVec.eq_of_toNat_eq ?_
    rw [BitVec.toNat_allOnes]
    omega
  show (Effect.next counter (m.walk.counted counter) >>= fun n =>
    modifyWalk fun w => w.withCounted n counter) m = _
  rw [Effect.next, if_pos heq]
  rfl

/-- An accepted group comes to the count after it. -/
theorem walkGroup_eq_count {ds : List Dispatch} (cf : CfInstr) (hg : g.Known)
    (hh : h.Serves g) (hds : g.Accepts ds) (m : Machine σ) :
    ∃ out, walkGroup h cf g m = Machine.count .group { m with out := out } := by
  rw [walkGroup_of_accepts hg hds]
  obtain ⟨out, hcalls⟩ := calls_then cf hg hh (fun _ => hds.lane_of_mem)
    (do Machine.act fun w => h.endGroup w cf g; Machine.count .group) m
  obtain ⟨out', hend⟩ := Acts.act (fun w s => hh.endGroup w cf s) { m with out := out }
  exact ⟨out', by rw [hcalls, bind_of_eq_ok hend]⟩

/-- A refused group comes to its fault, and is not counted. -/
theorem walkGroup_eq_fault {ds : List Dispatch} {fault : CompileFault} (cf : CfInstr)
    (hg : g.Known) (hh : h.Serves g) (hds : g.Refuses ds fault) (m : Machine σ) :
    ∃ out, walkGroup h cf g m = .error (.fault fault) { m with out := out } := by
  rw [walkGroup_of_refuses hg hds]
  obtain ⟨out, hcalls⟩ := calls_then cf hg hh (fun _ => hds.lane_of_mem) (fail fault) m
  exact ⟨out, hcalls⟩

/-- A group that was walked to its end was accepted, and could be counted. -/
theorem accepts_of_walkGroup {cf : CfInstr} {m m' : Machine σ} (hg : g.Known) (hh : h.Serves g)
    (hm' : walkGroup h cf g m = .ok () m') :
    (∃ ds, g.Accepts ds) ∧ m.walk.groupPc.toNat + 1 < 2 ^ 32 ∧
      m'.walk = { m.walk with groupPc := m.walk.groupPc + 1 } := by
  rcases g.accepts_or_refuses with ⟨ds, hds⟩ | ⟨ds, fault, hds⟩
  · obtain ⟨out, hcount⟩ := walkGroup_eq_count cf hg hh hds m
    by_cases hlt : m.walk.groupPc.toNat + 1 < 2 ^ 32
    · rw [hcount.trans (Machine.count_of_lt hlt)] at hm'
      cases hm'
      exact ⟨⟨ds, hds⟩, hlt, rfl⟩
    · have hmax := m.walk.groupPc.isLt
      have hlast : m.walk.groupPc.toNat + 1 = 2 ^ 32 := by omega
      rw [hcount.trans (Machine.count_of_last hlast)] at hm'
      cases hm'
  · obtain ⟨out, hfault⟩ := walkGroup_eq_fault cf hg hh hds m
    rw [hfault] at hm'
    cases hm'

/-- The calls made for a group and what they come to. -/
structure DispatchesExactly (h : Handlers σ) (cf : CfInstr) (g : AluGroup) : Prop where
  total : (∃ ds, g.Accepts ds) ∨ ∃ ds fault, g.Refuses ds fault
  accepted : ∀ ds, g.Accepts ds → walkGroup h cf g = (do
    Machine.act fun w => h.beginGroup w cf g
    ds.forM (h.dispatch cf g)
    Machine.act fun w => h.endGroup w cf g
    Machine.count .group)
  refused : ∀ ds fault, g.Refuses ds fault → walkGroup h cf g = (do
    Machine.act fun w => h.beginGroup w cf g
    ds.forM (h.dispatch cf g)
    fail fault)
  ok_iff : ∀ m, (∃ m', walkGroup h cf g m = .ok () m') ↔
    (∃ ds, g.Accepts ds) ∧ m.walk.groupPc.toNat + 1 < 2 ^ 32
  counted : ∀ m m', walkGroup h cf g m = .ok () m' →
    m'.walk = { m.walk with groupPc := m.walk.groupPc + 1 }
  fault : ∀ m ds fault, g.Refuses ds fault →
    ∃ m', walkGroup h cf g m = .error (.fault fault) m' ∧ m'.walk = m.walk
  /-- The counter is not raised past its end. -/
  overflow : ∀ m ds, g.Accepts ds → m.walk.groupPc.toNat + 1 = 2 ^ 32 →
    ∃ m', walkGroup h cf g m = .error (.counterOverflow .group) m' ∧ m'.walk = m.walk

/-- For handlers that succeed, the walk of a group makes exactly the calls it should, succeeds
exactly if the group is accepted and can be counted, and counts it exactly if it succeeds. -/
theorem walkGroup_dispatches (cf : CfInstr) (hg : g.Known) (hh : h.Serves g) :
    DispatchesExactly h cf g where
  total := g.accepts_or_refuses
  accepted _ hds := walkGroup_of_accepts hg hds
  refused _ _ hds := walkGroup_of_refuses hg hds
  ok_iff m := by
    constructor
    · rintro ⟨m', hm'⟩
      obtain ⟨haccepts, hlt, -⟩ := accepts_of_walkGroup hg hh hm'
      exact ⟨haccepts, hlt⟩
    · rintro ⟨⟨ds, hds⟩, hlt⟩
      obtain ⟨out, hcount⟩ := walkGroup_eq_count cf hg hh hds m
      exact ⟨_, hcount.trans (Machine.count_of_lt hlt)⟩
  counted m m' hm' := (accepts_of_walkGroup hg hh hm').2.2
  fault m ds fault hds := by
    obtain ⟨out, hfault⟩ := walkGroup_eq_fault cf hg hh hds m
    exact ⟨_, hfault, rfl⟩
  overflow m ds hds hlast := by
    obtain ⟨out, hcount⟩ := walkGroup_eq_count cf hg hh hds m
    exact ⟨_, hcount.trans (Machine.count_of_last hlast), rfl⟩

end

/-- Handlers that record all operations succeed for every group. -/
theorem Trace.serves (g : AluGroup) : (Trace.handlers fun _ => true).Serves g where
  beginGroup _ _ s := ⟨s, rfl⟩
  endGroup _ _ s := ⟨s, rfl⟩
  alu _ _ op _ _ := by
    cases op with
    | op2 op => exact ⟨_, rfl, fun _ _ _ s => ⟨_, rfl⟩⟩
    | op3 op => exact ⟨_, rfl, fun _ _ _ s => ⟨_, rfl⟩⟩

/-- A dot product on the lanes X to W, and a product on T. -/
def dotAndScale : AluGroup where
  vector := .replicate (some ⟨0, 0x2800⟩)
  trans := some ⟨0, 0x80⟩

theorem known_dotAndScale : dotAndScale.Known := by
  intro l i hi
  cases l with
  | x | y | z | w =>
    obtain rfl := Option.some.inj hi
    exact ⟨.op2 .dot4, rfl⟩
  | t =>
    obtain rfl := Option.some.inj hi
    exact ⟨.op2 .mul, rfl⟩

theorem accepts_dotAndScale :
    dotAndScale.Accepts [⟨.reduction, ⟨0, 0x2800⟩⟩, ⟨.lane .t, ⟨0, 0x80⟩⟩] := by
  have hx : dotAndScale.ReducesFrom ⟨0, 0x2800⟩ :=
    ⟨rfl, ⟨0, 0x2800⟩, .op2 .dot4, rfl, rfl, rfl⟩
  refine .reduction hx ?_ ?_
  · intro l hl
    refine ⟨⟨0, 0x2800⟩, ?_, rfl, rfl, rfl⟩
    revert l
    decide
  · rintro ⟨i, op, hi, hop, hred⟩
    obtain rfl := Option.some.inj hi
    obtain rfl : AluOp.op2 .mul = op := Except.ok.inj hop
    cases hred

/-- The start of a walk that has counted `n` groups. -/
def countedFrom (n : Word) : Machine Trace :=
  ⟨{ program := ⟨#[]⟩, stage := .pixel, groupPc := n }, []⟩

/-- The group is walked with its two calls. -/
theorem walkGroup_dispatches_dotAndScale :
    dotAndScale.Known ∧ (Trace.handlers fun _ => true).Serves dotAndScale ∧
      dotAndScale.Accepts [⟨.reduction, ⟨0, 0x2800⟩⟩, ⟨.lane .t, ⟨0, 0x80⟩⟩] ∧
      (∃ m', walkGroup (Trace.handlers fun _ => true) ⟨0, 0⟩ dotAndScale (countedFrom 0) =
        .ok () m') ∧
      (stateOf (walkGroup (Trace.handlers fun _ => true) ⟨0, 0⟩ dotAndScale (countedFrom 0))).out =
        [.alu 0 5 .reduction (.op2 .dot4), .alu 0 5 (.lane .t) (.op2 .mul)] := by
  have hexact := walkGroup_dispatches ⟨0, 0⟩ known_dotAndScale (Trace.serves dotAndScale)
  refine ⟨known_dotAndScale, Trace.serves _, accepts_dotAndScale, ?_, by decide⟩
  exact (hexact.ok_iff _).mpr ⟨⟨_, accepts_dotAndScale⟩, by decide⟩

/-- At the end of the counter the same calls are made, and then the walk halts. -/
theorem walkGroup_dotAndScale_last :
    dotAndScale.Accepts [⟨.reduction, ⟨0, 0x2800⟩⟩, ⟨.lane .t, ⟨0, 0x80⟩⟩] ∧
      (Trace.handlers fun _ => true).Serves dotAndScale ∧
      haltOf (walkGroup (Trace.handlers fun _ => true) ⟨0, 0⟩ dotAndScale
        (countedFrom (BitVec.allOnes 32))) = some (.counterOverflow .group) :=
  ⟨accepts_dotAndScale, Trace.serves _, by decide⟩

end LatteHlsl
