import LatteHlsl.Proofs.GroupReading
import LatteHlsl.Proofs.Halt

/-!
# Relations between walks

A walk is put together from few actions: it reads clauses, calls handlers and hooks, counts, and
records what it has come to. A relation between actions of two walks that holds of these and is kept
by sequences holds of the walks. Properties of single walks are the case of a relation that looks at
one side only.

The relation is graded by a number that adds up over sequences and is one for each group counted,
so that it may speak of how many groups an action counts.

* `GroupClosed`, `GroupClosed.walkGroup`: relations that hold of groups.
* `WalkClosed`, `WalkClosed.runHandler`: relations that hold of clauses.
* `FlowClosed`, `FlowClosed.walkCf`: relations that hold of control flow instructions.
* `RunClosed`, `RunClosed.walkProgram`: relations that hold of whole walks.
* `Handlers.Each`: what holds of every call of a handler.
-/

namespace LatteHlsl

open Isa Effect

/-! ## Groups -/

/-- A relation between actions of two walks that holds of everything a group is walked with. -/
structure GroupClosed {σ τ : Type} (h : Handlers σ) (h' : Handlers τ)
    (Q : (α : Type) → Nat → Effect (Machine σ) α → Effect (Machine τ) α → Prop) : Prop where
  mono : ∀ {α a b x y}, Q α a x y → a ≤ b → Q α b x y
  protected pure : ∀ {α} (v : α), Q α 0 (pure v) (pure v)
  /-- Want of a handler is left to the calls. -/
  fail : ∀ {α fault}, (∀ op, fault ≠ .unimplemented op) → Q α 0 (fail fault) (fail fault)
  protected bind : ∀ {α β a b x y f g}, Q α a x y → (∀ v, Q β b (f v) (g v)) →
    Q β (a + b) (x >>= f) (y >>= g)
  alu : ∀ {op cf g target i}, i.op = .ok op → g.Admits op target →
    Q (Option ClauseKind) 0 (invoke h (.alu op cf g target i)) (invoke h' (.alu op cf g target i))
  beginGroup : ∀ cf g, Q Unit 0 (Machine.act fun w => h.beginGroup w cf g)
    (Machine.act fun w => h'.beginGroup w cf g)
  endGroup : ∀ cf g, Q Unit 0 (Machine.act fun w => h.endGroup w cf g)
    (Machine.act fun w => h'.endGroup w cf g)
  countGroup : Q Unit 1 (Machine.count .group) (Machine.count .group)

namespace GroupClosed

variable {σ τ α β : Type} {h : Handlers σ} {h' : Handlers τ}
  {Q : (α : Type) → Nat → Effect (Machine σ) α → Effect (Machine τ) α → Prop}
  (hQ : GroupClosed h h' Q)
include hQ

theorem bind_zero {b : Nat} {x : Effect (Machine σ) α} {y : Effect (Machine τ) α}
    {f : α → Effect (Machine σ) β} {g : α → Effect (Machine τ) β} (hx : Q α 0 x y)
    (hf : ∀ v, Q β b (f v) (g v)) : Q β b (x >>= f) (y >>= g) :=
  hQ.mono (hQ.bind hx hf) (Nat.le_of_eq (Nat.zero_add b))

theorem decode_bind {b : Nat} {r : Except DecodeFault α} {f : α → Effect (Machine σ) β}
    {g : α → Effect (Machine τ) β} (hf : ∀ v, r = .ok v → Q β b (f v) (g v)) :
    Q β b (decode r >>= f) (decode r >>= g) := by
  cases r with
  | ok v => exact hf v rfl
  | error fault => exact hQ.mono (hQ.fail nofun) (Nat.zero_le b)

theorem check_bind {b : Nat} {r : Except CompileFault α} {f : α → Effect (Machine σ) β}
    {g : α → Effect (Machine τ) β} (hr : ∀ op, r ≠ .error (.unimplemented op))
    (hf : ∀ v, r = .ok v → Q β b (f v) (g v)) : Q β b (check r >>= f) (check r >>= g) := by
  cases r with
  | ok v => exact hf v rfl
  | error fault =>
    refine hQ.mono (hQ.fail fun op hop => hr op ?_) (Nat.zero_le b)
    rw [hop]

protected theorem forM {b : Nat} {f : α → Effect (Machine σ) Unit} {g : α → Effect (Machine τ) Unit}
    {as : List α} (hf : ∀ a ∈ as, Q Unit b (f a) (g a)) :
    Q Unit (as.length * b) (as.forM f) (as.forM g) := by
  induction as with
  | nil => exact hQ.mono (hQ.pure ()) (Nat.zero_le _)
  | cons a as ih =>
    have hrest := ih fun c hc => hf c (List.mem_cons_of_mem a hc)
    refine hQ.mono (hQ.bind (hf a List.mem_cons_self) fun _ => hrest) ?_
    rw [List.length_cons, Nat.succ_mul]
    omega

theorem walkInstr {r : Except DecodeFault Invocation}
    (hr : ∀ v, r = .ok v → Q (Option ClauseKind) 0 (invoke h v) (invoke h' v)) :
    Q Unit 0 (walkInstr h r) (walkInstr h' r) :=
  hQ.decode_bind fun v hv => hQ.bind_zero (hr v hv) fun _ => hQ.pure ()

theorem walkAlu {cf : CfInstr} {g : AluGroup} {target : Target} {i : AluInstr} {op : AluOp}
    (hop : i.op = .ok op) (hadmits : g.Admits op target) :
    Q Unit 0 (walkAlu h cf g target i) (walkAlu h' cf g target i) := by
  refine hQ.walkInstr fun v hv => ?_
  rw [hop] at hv
  cases hv
  exact hQ.alu hop hadmits

theorem walkLane (cf : CfInstr) (g : AluGroup) (l : Lane) :
    Q Unit 0 (walkLane h cf g l) (walkLane h' cf g l) := by
  unfold LatteHlsl.walkLane
  split
  · exact hQ.pure ()
  · refine hQ.decode_bind fun op hop => ?_
    split
    · exact hQ.fail nofun
    · rename_i hred
      exact hQ.walkAlu hop (Bool.eq_false_iff.mpr hred)

theorem walkReduction (cf : CfInstr) (g : AluGroup) :
    Q (List Lane) 0 (walkReduction h cf g) (walkReduction h' cf g) := by
  unfold LatteHlsl.walkReduction
  split
  · exact hQ.pure _
  · rename_i first hx
    refine hQ.decode_bind fun op hop => ?_
    split
    · rename_i hred
      refine hQ.check_bind (checkReduction_ne_unimplemented g first op) fun _ hcheck => ?_
      obtain ⟨is, -, hlanes, hops⟩ := checkReduction_eq_ok hx hop hcheck
      exact hQ.bind_zero (hQ.walkAlu hop ⟨hred, is, hlanes, hops⟩) fun _ => hQ.pure _
    · exact hQ.pure _

theorem walkGroup (cf : CfInstr) (g : AluGroup) :
    Q Unit 1 (walkGroup h cf g) (walkGroup h' cf g) := by
  refine hQ.bind_zero (hQ.beginGroup cf g) fun _ => ?_
  refine hQ.bind_zero (hQ.walkReduction cf g) fun lanes => ?_
  refine hQ.bind_zero (hQ.forM fun l _ => hQ.walkLane cf g l) fun _ => ?_
  exact hQ.bind_zero (hQ.endGroup cf g) fun _ => hQ.countGroup

end GroupClosed

/-! ## Clauses -/

/-- The reads of a walk inside an instruction. -/
inductive ClauseRead : {α : Type} → (Program → Except DecodeFault α) → Prop where
  | alu (addr count : Nat) : ClauseRead fun p => p.aluClause addr count
  | tex (addr count : Nat) : ClauseRead fun p => p.texClause addr count
  | vtx (addr count : Nat) : ClauseRead fun p => p.vtxClause addr count

/-- A relation that also holds of what clauses are walked with. -/
structure WalkClosed {σ τ : Type} (h : Handlers σ) (h' : Handlers τ)
    (Q : (α : Type) → Nat → Effect (Machine σ) α → Effect (Machine τ) α → Prop) : Prop
    extends GroupClosed h h' Q where
  /-- What follows a read may rely on what can be read. -/
  read_bind : ∀ {α β b f g} {reading : Program → Except DecodeFault α}, ClauseRead reading →
    (∀ p v, reading p = .ok v → Q β b (f v) (g v)) →
    Q β b (Machine.read reading >>= f) (Machine.read reading >>= g)
  invoke : ∀ v : Invocation, v.Admitted → Q (Option ClauseKind) 0 (invoke h v) (invoke h' v)

namespace WalkClosed

variable {σ τ : Type} {h : Handlers σ} {h' : Handlers τ}
  {Q : (α : Type) → Nat → Effect (Machine σ) α → Effect (Machine τ) α → Prop}
  (hQ : WalkClosed h h' Q)
include hQ

theorem walkAluClause (cf : CfInstr) :
    Q Unit clauseCapacity (walkAluClause h cf) (walkAluClause h' cf) := by
  refine hQ.read_bind (.alu _ _) fun p slots hslots => ?_
  have hbound := length_groups_le hslots
  have hgroups := hQ.forM fun g (_ : g ∈ (AluGroup.readAll slots).groups) => hQ.walkGroup cf g
  refine hQ.mono (hQ.bind hgroups fun _ => ?_) (show _ * 1 + 0 ≤ _ by omega)
  split
  · exact hQ.pure ()
  · exact hQ.fail nofun

/-- Both kinds of fetches are walked alike. -/
theorem walkFetches {ι : Type} {reading : Program → Nat → Nat → Except DecodeFault (List ι)}
    {invocation : ι → Except DecodeFault Invocation} {cf : CfInstr}
    (hread : ClauseRead fun p => reading p cf.addr cf.count)
    (hinvocation : ∀ i v, invocation i = .ok v → v.Admitted) :
    Q Unit 0 (walkFetches h reading invocation cf) (walkFetches h' reading invocation cf) :=
  hQ.read_bind hread fun _ _ _ => hQ.forM fun i _ =>
    hQ.walkInstr fun v hv => hQ.invoke v (hinvocation i v hv)

theorem walkClause (cf : CfInstr) (kind : ClauseKind) :
    Q Unit clauseCapacity (walkClause h cf kind) (walkClause h' cf kind) := by
  cases kind with
  | alu => exact hQ.walkAluClause cf
  | tex =>
    refine hQ.mono (hQ.walkFetches (.tex _ _) fun i v hv => ?_) (Nat.zero_le _)
    obtain ⟨op, -, rfl⟩ := Checked.map_eq_ok.mp hv
    trivial
  | vtx =>
    refine hQ.mono (hQ.walkFetches (.vtx _ _) fun i v hv => ?_) (Nat.zero_le _)
    obtain ⟨op, -, rfl⟩ := Checked.map_eq_ok.mp hv
    trivial

/-- A handler and its clause. -/
theorem runHandler {v : Invocation}
    (hv : Q (Option ClauseKind) 0 (LatteHlsl.invoke h v) (LatteHlsl.invoke h' v)) :
    Q Unit clauseCapacity (runHandler h v) (runHandler h' v) := by
  refine hQ.bind_zero hv fun clause => ?_
  cases clause with
  | none => exact hQ.mono (hQ.pure ()) (Nat.zero_le _)
  | some kind => exact hQ.walkClause v.owner kind

end WalkClosed

/-! ## Control flow -/

theorem checkPlacement_ne_unimplemented (w : Walk) (op : CfOp) (op' : Opcode) :
    checkPlacement w op ≠ .error (.unimplemented op') := by
  unfold checkPlacement
  split
  · split
    · exact nofun
    · split
      · exact nofun
      · split <;> exact nofun
  · split <;> exact nofun
  · exact nofun

theorem checkStart_ne_unimplemented (w : Walk) (op : Opcode) :
    checkStart w ≠ .error (.unimplemented op) := by
  unfold checkStart
  split
  · exact nofun
  · split <;> exact nofun

/-- A relation that also holds of what a walk does around clauses. -/
structure FlowClosed {σ τ : Type} (h : Handlers σ) (h' : Handlers τ)
    (Q : (α : Type) → Effect (Machine σ) α → Effect (Machine τ) α → Prop) : Prop
    extends WalkClosed h h' (fun α _ => Q α) where
  examine : ∀ op, Q Unit (Machine.examine fun w => checkPlacement w op)
    (Machine.examine fun w => checkPlacement w op)
  afterCf : ∀ op cf, Q Unit (Machine.modifyWalk fun w => w.afterCf op cf)
    (Machine.modifyWalk fun w => w.afterCf op cf)
  afterExport : ∀ cf, Q Unit (Machine.modifyWalk fun w => w.afterExport cf)
    (Machine.modifyWalk fun w => w.afterExport cf)
  countCf : Q Unit (Machine.count .cf) (Machine.count .cf)

namespace FlowClosed

variable {σ τ : Type} {h : Handlers σ} {h' : Handlers τ}
  {Q : (α : Type) → Effect (Machine σ) α → Effect (Machine τ) α → Prop} (hQ : FlowClosed h h' Q)
include hQ

theorem seq {α β : Type} {x : Effect (Machine σ) α} {y : Effect (Machine τ) α}
    {f : α → Effect (Machine σ) β} {g : α → Effect (Machine τ) β} (hx : Q α x y)
    (hf : ∀ v, Q β (f v) (g v)) : Q β (x >>= f) (y >>= g) :=
  hQ.toWalkClosed.bind (a := 0) (b := 0) hx hf

theorem decode_bind {α β : Type} {r : Except DecodeFault α} {f : α → Effect (Machine σ) β}
    {g : α → Effect (Machine τ) β} (hf : ∀ v, Q β (f v) (g v)) :
    Q β (decode r >>= f) (decode r >>= g) :=
  hQ.toWalkClosed.decode_bind (b := 0) fun v _ => hf v

theorem walkCfNormal (cf : CfInstr) : Q Unit (walkCfNormal h cf) (walkCfNormal h' cf) := by
  refine hQ.decode_bind fun op => hQ.seq (hQ.examine op) fun _ => ?_
  exact hQ.seq (hQ.runHandler (hQ.invoke _ trivial)) fun _ => hQ.afterCf op cf

theorem walkCfExport (cf : CfInstr) : Q Unit (walkCfExport h cf) (walkCfExport h' cf) :=
  hQ.decode_bind fun _ => hQ.seq (hQ.runHandler (hQ.invoke _ trivial)) fun _ => hQ.afterExport cf

theorem walkCfAlu (cf : CfInstr) : Q Unit (walkCfAlu h cf) (walkCfAlu h' cf) :=
  hQ.decode_bind fun _ => hQ.runHandler (hQ.invoke _ trivial)

theorem walkCf (cf : CfInstr) : Q Unit (walkCf h cf) (walkCf h' cf) := by
  unfold LatteHlsl.walkCf
  split
  · exact hQ.walkCfNormal cf
  · exact hQ.walkCfExport cf
  · exact hQ.walkCfAlu cf
  · exact hQ.walkCfAlu cf

end FlowClosed

/-! ## Programs -/

/-- A relation between walks of one machine that also holds of their loop. -/
structure RunClosed {σ : Type} (h h' : Handlers σ)
    (Q : (α : Type) → Effect (Machine σ) α → Effect (Machine σ) α → Prop) : Prop
    extends FlowClosed h h' Q where
  get_bind : ∀ {β} {f g : Machine σ → Effect (Machine σ) β}, (∀ m, Q β (f m) (g m)) →
    Q β (get >>= f) (get >>= g)
  start : Q Unit (Machine.modifyWalk fun w => { w with status := .walking })
    (Machine.modifyWalk fun w => { w with status := .walking })

namespace RunClosed

variable {σ : Type} {h h' : Handlers σ}
  {Q : (α : Type) → Effect (Machine σ) α → Effect (Machine σ) α → Prop} (hQ : RunClosed h h' Q)
include hQ

theorem walkSteps (n : Nat) : Q Unit (walkSteps h n) (walkSteps h' n) := by
  induction n with
  | zero => exact hQ.pure ()
  | succ n ih =>
    refine hQ.get_bind fun m => ?_
    dsimp only
    split
    · exact hQ.pure ()
    · refine hQ.decode_bind fun cf => hQ.seq (hQ.walkCf cf) fun _ => ?_
      exact hQ.seq hQ.countCf fun _ => ih

theorem walkProgram : Q Unit (walkProgram h) (walkProgram h') := by
  have hstart : Q Unit (Machine.examine checkStart) (Machine.examine checkStart) :=
    hQ.get_bind fun m => by
      have hcheck := hQ.check_bind (b := 0) (checkStart_ne_unimplemented m.walk) fun v _ =>
        hQ.pure v
      rwa [bind_pure] at hcheck
  refine hQ.seq hstart fun _ => hQ.seq hQ.start fun _ => ?_
  exact hQ.get_bind fun m => hQ.walkSteps _

end RunClosed

/-! ## Handlers -/

/-- What holds of every handler with what it is called for. The hooks of groups are called for no
operation. -/
structure Handlers.Each {σ : Type} (P : Option Invocation → (Walk → Effect σ Unit) → Prop)
    (h : Handlers σ) : Prop where
  call : ∀ v action, h.find v = some action → P (some v) action.run
  beginGroup : ∀ cf g, P none fun w => h.beginGroup w cf g
  endGroup : ∀ cf g, P none fun w => h.endGroup w cf g

theorem Handlers.Each.mono {σ : Type} {P P' : Option Invocation → (Walk → Effect σ Unit) → Prop}
    {h : Handlers σ} (hh : h.Each P) (hP : ∀ {v f}, P v f → P' v f) : h.Each P' where
  call v action hfind := hP (hh.call v action hfind)
  beginGroup cf g := hP (hh.beginGroup cf g)
  endGroup cf g := hP (hh.endGroup cf g)

end LatteHlsl
