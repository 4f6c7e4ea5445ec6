import LatteHlsl.Proofs.Outputs
import LatteHlsl.Proofs.SourceText

/-!
# Calls of the fetch program, and returns

A program may call the fetch program as the first thing it does, and return as the last one. Other
calls and returns are refused where the walk comes to them. So a compiled body calls the fetch
function once and first of all, or not at all, and its return is its last line.

* `Jump`: calls and returns, as instructions, tasks and statements.
* `Runs.jumps_eq`: the calls and returns of a body are those of the instructions.
* `Program.jumpFault?`: why a jump may not stand in a slot.
* `knowsCall_of_visit`, `Visits.reach`: the walk at each instruction that it comes to.
* `halts_of_jumpFault?`, `jumpsInPlace_of_compile`: walks that come to a jump in the wrong place,
  and compilations.
-/

namespace LatteHlsl

open Isa Hlsl Effect

/-! ## Jumps -/

/-- A call of the fetch program or a return. -/
inductive Jump where
  | call | ret
deriving DecidableEq

namespace Jump

/-- The operation of a jump. -/
def op : Jump → CfOp
  | .call => .callFs
  | .ret => .ret

/-- The statement of a jump. -/
def stmt : Jump → Stmt
  | .call => .fetchCall
  | .ret => .ret

/-- The text of a jump. -/
def text : Jump → String
  | .call => "FSMain(input, R);"
  | .ret => "return;"

end Jump

/-- The jump that an instruction asks for. -/
def Isa.CfInstr.jump? (cf : CfInstr) : Option Jump :=
  match cf.type with
  | .normal =>
    match cf.cfOp with
    | .ok .callFs => some .call
    | .ok .ret => some .ret
    | _ => none
  | .exp | .alu | .aluExtended => none

theorem Isa.CfInstr.jump?_eq_some_iff {cf : CfInstr} {jump : Jump} :
    cf.jump? = some jump ↔ cf.type = .normal ∧ cf.cfOp = .ok jump.op := by
  unfold jump?
  cases cf.type with
  | normal =>
    dsimp only
    split <;> cases jump <;> simp_all [Jump.op]
  | exp | alu | aluExtended => simp

/-- The jump that the instruction in a slot asks for. -/
def Program.jumpAt? (p : Program) (i : Nat) : Option Jump :=
  (p.cfAt i).toOption.bind CfInstr.jump?

theorem Program.jumpAt?_eq_some_iff {p : Program} {i : Nat} {jump : Jump} :
    p.jumpAt? i = some jump ↔ ∃ cf, p.cfAt i = .ok cf ∧ cf.jump? = some jump := by
  unfold jumpAt?
  cases p.cfAt i <;> simp [Except.toOption]

theorem Program.jumpAt?_of_cfAt {p : Program} {i : Nat} {cf : CfInstr} (h : p.cfAt i = .ok cf) :
    p.jumpAt? i = cf.jump? := by
  rw [jumpAt?, h]
  rfl

def Task.jump? : Task → Option Jump
  | .call => some .call
  | .ret => some .ret
  | .group _ _ | .sample _ | .fetch _ | .output _ _ _ => none

def Hlsl.Stmt.jump? : Stmt → Option Jump
  | .fetchCall => some .call
  | .ret => some .ret
  | _ => none

/-! ## Jumps of a body -/

theorem Hlsl.Line.jump?_eq_some_iff {l : Line} {jump : Jump} :
    l.stmt?.bind Stmt.jump? = some jump ↔ l = .stmt jump.stmt := by
  cases l with
  | stmt s => cases s <;> cases jump <;> simp [stmt?, Stmt.jump?, Jump.stmt]
  | controlNote | groupNote => simp [stmt?]

/-- A line is the text of a jump only if it is that jump. -/
theorem Hlsl.Line.text_eq_jump {l : Line} {jump : Jump} :
    l.text = jump.text ↔ l.stmt?.bind Stmt.jump? = some jump := by
  rw [jump?_eq_some_iff]
  cases jump with
  | call => exact text_eq_fetchCall
  | ret => exact text_eq_ret

/-- The lines of a body that read like a jump are its jumps. -/
theorem count_text (ls : List Line) (jump : Jump) :
    (ls.map Line.text).count jump.text =
      ((ls.filterMap Line.stmt?).filterMap Stmt.jump?).count jump := by
  rw [List.filterMap_filterMap, List.count, List.count, List.countP_map, List.countP_filterMap]
  refine List.countP_congr fun l _ => ?_
  simp only [Function.comp_apply, beq_iff_eq, Line.text_eq_jump]
  cases l.stmt?.bind Stmt.jump? <;> simp

namespace Compile

theorem jump?_of_groupStmt {cf : CfInstr} {g : AluGroup} {s : Stmt} (h : GroupStmt cf g s) :
    s.jump? = none := by
  cases h <;> rfl

theorem jumps_moveLines (m : Move) :
    ((moveLines m).filterMap Line.stmt?).filterMap Stmt.jump? = [] := by
  rw [List.filterMap_eq_nil_iff]
  intro s hs
  obtain ⟨a, -, rfl⟩ := mem_stmts_moveLines.mp hs
  rfl

/-- Only the tasks that jump add jumps. -/
theorem Task.Adds.jumps_eq {c : Context} {o : Output} {t : Task} {p : Piece}
    (h : Task.Adds c o t p) : p.stmts.filterMap Stmt.jump? = t.jump?.toList := by
  cases h with
  | call | ret | unused => rfl
  | group hls hp =>
    exact List.filterMap_eq_nil_iff.mpr fun s hs =>
      jump?_of_groupStmt ((groupShape_of_group hls hp).stmts s hs)
  | sample hs =>
    simp only [Piece.stmts, List.filterMap_append]
    rw [jumps_moveLines, jumps_moveLines]
    rfl
  | fetch hi => exact jumps_moveLines _
  | output => exact jumps_moveLines _

/-- A run jumps where its tasks do. -/
theorem Runs.jumps_eq {c : Context} {ts : List Task} {o o' : Output} (h : Runs c ts o o') :
    o'.stmts.filterMap Stmt.jump? = o.stmts.filterMap Stmt.jump? ++ ts.filterMap Task.jump? := by
  induction h with
  | nil => simp
  | note hls _ ih =>
    have hstmts : Piece.stmts { lines := _ } = [] := hls
    rw [ih, Output.stmts_add, hstmts, List.append_nil]
  | @cons t _ _ _ _ hp _ ih =>
    rw [ih, Output.stmts_add, List.filterMap_append, hp.jumps_eq, List.append_assoc]
    congr 1
    cases ht : t.jump? with
    | none => rw [List.filterMap_cons_none ht]; rfl
    | some jump => rw [List.filterMap_cons_some ht]; rfl

/-- A run keeps the statements that were there. -/
theorem Runs.prefix {c : Context} {ts : List Task} {o o' : Output} (h : Runs c ts o o') :
    o.stmts <+: o'.stmts := by
  induction h with
  | nil => exact List.prefix_rfl
  | note _ _ ih | cons _ _ ih =>
    rw [Output.stmts_add] at ih
    exact (List.prefix_append _ _).trans ih

end Compile

theorem Program.jumps_cfTasks (p : Program) (cf : CfInstr) :
    (p.cfTasks cf).filterMap Task.jump? = cf.jump?.toList := by
  unfold cfTasks CfInstr.jump?
  cases cf.type with
  | normal =>
    dsimp only
    generalize cf.cfOp = op?
    split <;> simp_all [Task.jump?, Function.comp_def]
  | exp =>
    dsimp only
    split <;> simp [Task.jump?, Function.comp_def]
  | alu | aluExtended =>
    dsimp only
    split <;> simp [Task.jump?, Function.comp_def]

theorem Program.cfTasks_of_call (p : Program) {cf : CfInstr} (h : cf.jump? = some .call) :
    p.cfTasks cf = [.call] := by
  obtain ⟨htype, hop⟩ := CfInstr.jump?_eq_some_iff.mp h
  simp [cfTasks, htype, hop, Jump.op]

theorem Program.jumps_tasks (p : Program) :
    p.tasks.filterMap Task.jump? = p.flow.filterMap CfInstr.jump? := by
  rw [tasks, List.filterMap_flatMap]
  simp only [jumps_cfTasks]
  rw [List.filterMap_eq_flatMap_toList]

/-! ## Visits of jumps -/

section

variable {σ : Type} {h : Handlers σ}

/-- A jump that may not stand where it stands is refused before anything is done. -/
theorem visit_of_misplaced {cf : CfInstr} {jump : Jump} {m : Machine σ} {fault : CompileFault}
    (hjump : cf.jump? = some jump) (hplace : checkPlacement m.walk jump.op = .error fault) :
    visit h cf m = .error (.fault fault) m := by
  obtain ⟨htype, hop⟩ := CfInstr.jump?_eq_some_iff.mp hjump
  have hwalk : walkCf h cf m = .error (.fault fault) m := by
    unfold walkCf
    rw [htype]
    show walkCfNormal h cf m = _
    unfold walkCfNormal
    rw [bind_of_eq_ok (decode_eq_ok.mpr ⟨hop, rfl⟩)]
    exact bind_of_eq_error (check_eq_error.mpr ⟨fault, hplace, rfl, rfl⟩)
  exact bind_of_eq_error hwalk

/-- The first instruction of a loop stands where the counter is. It halts the walk, or the loop goes
on after it. -/
theorem Visits.head {x : Nat × CfInstr} {xs : List (Nat × CfInstr)} {m : Machine σ}
    {r : EStateM.Result Halt (Machine σ) Unit} (hv : Visits h (x :: xs) m r) :
    x.1 = m.walk.cfPc.toNat ∧
      ((∃ halt m', visit h x.2 m = .error halt m' ∧ xs = [] ∧ r = .error halt m') ∨
        ∃ m', visit h x.2 m = .ok () m' ∧ Visits h xs m' r) := by
  cases hv with
  | halted _ _ _ hvisit => exact ⟨rfl, .inl ⟨_, _, hvisit, rfl, rfl⟩⟩
  | step _ _ _ hvisit hrest => exact ⟨rfl, .inr ⟨_, hvisit, hrest⟩⟩

/-- A loop whose program has ended does nothing. -/
theorem Visits.of_ended {xs : List (Nat × CfInstr)} {m : Machine σ}
    {r : EStateM.Result Halt (Machine σ) Unit} (hv : Visits h xs m r)
    (hend : m.walk.reachedEnd = true) : xs = [] ∧ r = .ok () m := by
  cases hv with
  | ended => exact ⟨rfl, rfl⟩
  | unreadable hgoes | halted hgoes | step hgoes =>
    exact absurd (hend.symm.trans hgoes) (by decide)

end

/-! ## What a walk knows of calls -/

/-- The fetch program was called exactly if the first instruction is past and has called it. -/
def Walk.KnowsCall (w : Walk) : Prop :=
  w.callsFetch = true ↔
    w.cfPc.toNat ≠ 0 ∧ w.stage = .vertex ∧ w.program.jumpAt? 0 = some .call

/-- Why a jump may not stand in slot `i`. A second call is refused as such, not for its place. -/
def Program.jumpFault? (p : Program) (stage : Stage) (isFunction : Bool) (i : Nat) :
    Jump → Option CompileFault
  | .call =>
    if stage ≠ .vertex then some (.fetchCallOutsideVertex stage)
    else if i = 0 then none
    else if p.jumpAt? 0 = some .call then some (.duplicateFetchCall (BitVec.ofNat 32 i))
    else some (.fetchCallNotFirst (BitVec.ofNat 32 i))
  | .ret => if isFunction then none else some (.returnOutsideFunction (BitVec.ofNat 32 i))

namespace Program

theorem jumpFault?_call_eq_none_iff {p : Program} {stage : Stage} {isFunction : Bool} {i : Nat} :
    p.jumpFault? stage isFunction i .call = none ↔ stage = .vertex ∧ i = 0 := by
  simp only [jumpFault?]
  by_cases hstage : stage = .vertex
  · by_cases hfirst : i = 0
    · simp [hstage, hfirst]
    · by_cases hcall : p.jumpAt? 0 = some .call <;> simp [hstage, hfirst, hcall]
  · simp [hstage]

theorem jumpFault?_ret_eq_none_iff {p : Program} {stage : Stage} {isFunction : Bool} {i : Nat} :
    p.jumpFault? stage isFunction i .ret = none ↔ isFunction = true := by
  simp [jumpFault?]

end Program

/-- The walk refuses the jumps that may not stand where it is. -/
theorem checkPlacement_eq {w : Walk} (hw : w.KnowsCall) (jump : Jump) :
    checkPlacement w jump.op =
      ((w.program.jumpFault? w.stage w.isFunction w.cfPc.toNat jump).map Except.error).getD
        (.ok ()) := by
  have hpc : BitVec.ofNat 32 w.cfPc.toNat = w.cfPc := by simp
  have hzero : w.cfPc = 0 ↔ w.cfPc.toNat = 0 := by simp [← BitVec.toNat_inj]
  unfold Walk.KnowsCall at hw
  cases jump with
  | call =>
    simp only [Jump.op, checkPlacement, Program.jumpFault?, hpc]
    by_cases hstage : w.stage = .vertex
    · by_cases hfirst : w.cfPc.toNat = 0
      · simp_all
      · by_cases hcall : w.program.jumpAt? 0 = some .call <;> simp_all
    · simp [hstage]
  | ret =>
    simp only [Jump.op, checkPlacement, Program.jumpFault?, hpc]
    cases w.isFunction <;> rfl

/-- A jump that may not stand where the walk is halts it. -/
theorem visit_of_jumpFault? {σ : Type} {h : Handlers σ} {cf : CfInstr} {jump : Jump} {m : Machine σ}
    {fault : CompileFault} (hm : m.walk.KnowsCall) (hjump : cf.jump? = some jump)
    (hfault : m.walk.program.jumpFault? m.walk.stage m.walk.isFunction m.walk.cfPc.toNat jump =
      some fault) : visit h cf m = .error (.fault fault) m := by
  refine visit_of_misplaced hjump ?_
  rw [checkPlacement_eq hm, hfault]
  rfl

theorem jumpFault?_of_visit {σ : Type} {h : Handlers σ} {cf : CfInstr} {jump : Jump}
    {m m' : Machine σ} {u : Unit} (hm : m.walk.KnowsCall) (hjump : cf.jump? = some jump)
    (hvisit : visit h cf m = .ok u m') :
    m.walk.program.jumpFault? m.walk.stage m.walk.isFunction m.walk.cfPc.toNat jump = none := by
  refine Option.eq_none_iff_forall_ne_some.mpr fun fault hfault => ?_
  rw [visit_of_jumpFault? hm hjump hfault] at hvisit
  cases hvisit

namespace Compile

/-- A visit knows whether the fetch program was called. -/
theorem callsFetch_of_visit {c : Context} {cf : CfInstr} {m m' : Machine Output} {u : Unit}
    (hvisit : visit (handlers c) cf m = .ok u m') :
    m'.walk.callsFetch = (m.walk.callsFetch || decide (cf.jump? = some .call)) := by
  obtain ⟨_, m₁, hrun, hcount⟩ := bind_eq_ok.mp hvisit
  obtain ⟨-, n, hwalk⟩ := walkCf_eq_ok hrun
  obtain ⟨pc, -, rfl⟩ := Machine.count_eq_ok hcount
  simp only [Walk.withCounted_cf, hwalk, call_mem_cfTasks, CfInstr.jump?_eq_some_iff, Jump.op]

/-- Visits keep track of calls. -/
theorem knowsCall_of_visit {c : Context} {cf : CfInstr} {m m' : Machine Output} {u : Unit}
    (hat : m.walk.program.cfAt m.walk.cfPc.toNat = .ok cf) (hm : m.walk.KnowsCall)
    (hvisit : visit (handlers c) cf m = .ok u m') : m'.walk.KnowsCall := by
  obtain ⟨hpc, -, hwalk⟩ := visit_ok (onlyFault_handlers c) hvisit
  have hstage : m'.walk.stage = m.walk.stage := by rw [hwalk]
  have hprogram : m'.walk.program = m.walk.program := by rw [hwalk]
  have hcalls : m'.walk.callsFetch = true ↔ m.walk.callsFetch = true ∨ cf.jump? = some .call := by
    rw [callsFetch_of_visit hvisit, Bool.or_eq_true, decide_eq_true_eq]
  unfold Walk.KnowsCall at hm ⊢
  rw [hcalls, hm, hpc, hstage, hprogram]
  by_cases hjump : cf.jump? = some .call
  · -- a call that is let through is the first instruction
    obtain ⟨hvertex, hfirst⟩ := Program.jumpFault?_call_eq_none_iff.mp
      (jumpFault?_of_visit hm hjump hvisit)
    rw [hfirst] at hat
    simp [hjump, hvertex, Program.jumpAt?_of_cfAt hat]
  · by_cases hfirst : m.walk.cfPc.toNat = 0
    · rw [hfirst] at hat
      simp [hjump, hfirst, Program.jumpAt?_of_cfAt hat]
    · simp [hjump, hfirst]

/-- The last line after the visit of a return is the return. -/
theorem getLast?_of_visit {c : Context} {cf : CfInstr} {m m' : Machine Output} {u : Unit}
    (hjump : cf.jump? = some .ret) (hvisit : visit (handlers c) cf m = .ok u m') :
    m'.out.body.toList.getLast? = some (.stmt .ret) := by
  obtain ⟨htype, hop⟩ := CfInstr.jump?_eq_some_iff.mp hjump
  obtain ⟨_, m₁, hrun, hcount⟩ := bind_eq_ok.mp hvisit
  obtain ⟨pc, -, rfl⟩ := Machine.count_eq_ok hcount
  unfold walkCf at hrun
  simp only [htype, walkCfNormal, bind_eq_ok, decode_eq_ok, Machine.examine_eq_ok,
    Machine.modifyWalk_eq_ok] at hrun
  obtain ⟨op, _, ⟨hop', rfl⟩, _, _, ⟨-, rfl⟩, _, m₂, hrun, rfl⟩ := hrun
  obtain rfl : op = .ret := Except.ok.inj (hop'.symm.trans hop)
  obtain ⟨action, o, hfind, ho, hnone, -⟩ := runHandler_eq_ok hrun
  obtain rfl : (stmtHandler c (.cf .ret) .ret).action cf = action := Option.some.inj hfind
  obtain rfl := hnone rfl
  simp only [CfHandler.action, stmtHandler, bind_eq_ok, emit_eq_ok] at ho
  obtain ⟨_, o₁, -, rfl⟩ := ho
  simp [Output.add]

end Compile

/-! ## Walks -/

theorem Isa.CfInstr.isTerminal_of_ret {cf : CfInstr} (h : cf.jump? = some .ret) :
    cf.isTerminal = true := by
  obtain ⟨htype, hop⟩ := jump?_eq_some_iff.mp h
  simp [isTerminal, htype, hop, Jump.op, Except.toOption]

namespace Visits

open Compile

variable {c : Context} {xs : List (Nat × CfInstr)} {m : Machine Output}

/-- Each instruction of a loop is come to with the same program, stage and kind of function. -/
theorem reach {r : EStateM.Result Halt (Machine Output) Unit} (hv : Visits (handlers c) xs m r)
    (hm : m.walk.KnowsCall) :
    ∀ x ∈ xs, ∃ m₁ zs, Visits (handlers c) (x :: zs) m₁ r ∧ m₁.walk.KnowsCall ∧
      m₁.walk.program = m.walk.program ∧ m₁.walk.stage = m.walk.stage ∧
        m₁.walk.isFunction = m.walk.isFunction := by
  induction hv with
  | ended | unreadable => exact List.forall_mem_nil _
  | halted hgoes hcf hat hvisit =>
    exact List.forall_mem_singleton.mpr
      ⟨_, _, .halted hgoes hcf hat hvisit, hm, rfl, rfl, rfl⟩
  | step hgoes hcf hat hvisit hrest ih =>
    obtain ⟨-, -, hwalk⟩ := visit_ok (onlyFault_handlers c) hvisit
    have hreach := ih (knowsCall_of_visit hat hm hvisit)
    rw [hwalk] at hreach
    exact List.forall_mem_cons.mpr
      ⟨⟨_, _, .step hgoes hcf hat hvisit hrest, hm, rfl, rfl, rfl⟩, hreach⟩

end Visits

theorem count_jumps_cons (cf : CfInstr) (cfs : List CfInstr) (jump : Jump) :
    ((cf :: cfs).filterMap CfInstr.jump?).count jump =
      (cfs.filterMap CfInstr.jump?).count jump + if cf.jump? = some jump then 1 else 0 := by
  cases hjump : cf.jump? with
  | none => simp [List.filterMap_cons_none hjump]
  | some jump' => simp [List.filterMap_cons_some hjump, List.count_cons]

/-- Only the last instruction that is reached can be a return. -/
theorem Program.count_ret_flowFrom (p : Program) (n pc : Nat) :
    ((p.flowFrom n pc).filterMap CfInstr.jump?).count .ret =
      if (p.flowFrom n pc).getLast?.bind CfInstr.jump? = some .ret then 1 else 0 := by
  induction n generalizing pc with
  | zero => rfl
  | succ n ih =>
    rw [flowFrom]
    split
    · split
      · rename_i cf _
        rw [count_jumps_cons]
        by_cases hret : cf.jump? = some .ret
        · simp [CfInstr.isTerminal_of_ret hret, hret]
        · rw [if_neg hret, Nat.add_zero]
          split
          · simp [hret]
          · rw [ih]
            cases p.flowFrom n (pc + 1) with
            | nil => simp [hret]
            | cons => rw [List.getLast?_cons_cons]
      · rfl
    · rfl

namespace Compile

theorem knowsCall_start (c : Context) (p : Program) (stage : Stage) (isFunction : Bool) :
    (Job.start c p stage isFunction).machine.walk.KnowsCall := by
  simp [Walk.KnowsCall, Job.start]

/-- A compilation halts as its walk does. -/
theorem compile_of_halt {j : Job} {halt : Halt}
    (h : haltOf (walkProgram (handlers j.context) j.machine) = some halt) :
    j.compile = .error halt := by
  rw [← halt_call_compile] at h
  unfold Job.compile
  split
  · rename_i hcall
    rw [hcall] at h
    cases h
  · rename_i hcall
    rw [hcall] at h
    exact congrArg _ (Option.some.inj h)

section

variable {c : Context} {p : Program} {stage : Stage} {isFunction : Bool}
  {xs : List (Nat × CfInstr)} {r : EStateM.Result Halt (Machine Output) Unit}

theorem reach_of_start
    (hw : WalksThrough (handlers c) xs (Job.start c p stage isFunction).machine r) :
    ∀ x ∈ xs, ∃ m zs, Visits (handlers c) (x :: zs) m r ∧ m.walk.KnowsCall ∧
      m.walk.program = p ∧ m.walk.stage = stage ∧ m.walk.isFunction = isFunction := by
  cases hw with
  | refused => exact List.forall_mem_nil _
  | walked _ hv => exact hv.reach (knowsCall_start c p stage isFunction)

/-- A walk halts at the first jump that may not stand where it is. -/
theorem halts_of_jumpFault?
    (hw : WalksThrough (handlers c) xs (Job.start c p stage isFunction).machine r)
    {x : Nat × CfInstr} {jump : Jump} {fault : CompileFault} (hx : x ∈ xs)
    (hjump : x.2.jump? = some jump) (hfault : p.jumpFault? stage isFunction x.1 jump = some fault) :
    haltOf r = some (.fault fault) := by
  obtain ⟨m, zs, hv, hm, hprogram, hstage, hfunction⟩ := reach_of_start hw x hx
  obtain ⟨hslot, hhead⟩ := hv.head
  have hvisit : visit (handlers c) x.2 m = .error (.fault fault) m := by
    refine visit_of_jumpFault? hm hjump ?_
    rw [hprogram, hstage, hfunction, ← hslot, hfault]
  rcases hhead with ⟨halt, m', hvisit', -, rfl⟩ | ⟨m', hvisit', -⟩
  · rw [hvisit] at hvisit'
    cases hvisit'
    rfl
  · rw [hvisit] at hvisit'
    cases hvisit'

/-- A return is the last line of the body. -/
theorem getLast?_of_ret {m' : Machine Output} {u : Unit}
    (hw : WalksThrough (handlers c) xs (Job.start c p stage isFunction).machine (.ok u m'))
    {x : Nat × CfInstr} (hx : x ∈ xs) (hjump : x.2.jump? = some .ret) :
    m'.out.body.toList.getLast? = some (.stmt .ret) := by
  obtain ⟨m, zs, hv, -⟩ := reach_of_start hw x hx
  obtain ⟨-, ⟨_, _, -, -, hr⟩ | ⟨m₁, hvisit, hrest⟩⟩ := hv.head
  · cases hr
  · obtain ⟨-, -, hwalk⟩ := visit_ok (onlyFault_handlers c) hvisit
    have hend : m₁.walk.reachedEnd = true := by
      rw [hwalk, CfInstr.isTerminal_of_ret hjump, Bool.or_true]
    obtain ⟨-, hr⟩ := hrest.of_ended hend
    cases hr
    exact getLast?_of_visit hjump hvisit

end

/-- A run whose first task is the call starts with it. -/
theorem Runs.head?_of_call {c : Context} {ts : List Task} {o o' : Output}
    (h : Runs c (.call :: ts) o o') (ho : o.stmts = []) : o'.stmts.head? = some .fetchCall := by
  generalize hcall : Task.call :: ts = ts' at h
  induction h with
  | nil => cases hcall
  | note hls _ ih =>
    have hstmts : Piece.stmts { lines := _ } = [] := hls
    exact ih (by rw [Output.stmts_add, hstmts, List.append_nil, ho]) hcall
  | cons hp hrest =>
    cases hcall
    cases hp
    have hprefix := hrest.prefix
    rw [Output.stmts_add, ho] at hprefix
    obtain ⟨ss, hss⟩ := hprefix
    rw [← hss]
    rfl

/-! ## Compiled bodies -/

/-- The texts of the lines of a job's body. -/
def Job.bodyTexts (j : Job) : List String := j.output.body.toList.map Line.text

/-- The calls and returns of a program that was compiled, where `xs` are the instructions that were
visited. -/
structure JumpsInPlace (p : Program) (xs : List (Nat × CfInstr)) (j : Job) : Prop where
  callsFetch : j.walk.callsFetch = true ↔ j.walk.stage = .vertex ∧ p.jumpAt? 0 = some .call
  calls : j.bodyTexts.count "FSMain(input, R);" = if j.walk.callsFetch then 1 else 0
  callFirst : j.walk.callsFetch = true → j.output.stmts.head? = some .fetchCall
  returns : j.bodyTexts.count "return;" =
    if (xs.getLast?.bind fun x => x.2.jump?) = some .ret then 1 else 0
  returnLast : "return;" ∈ j.bodyTexts → j.bodyTexts.getLast? = some "return;"
  /-- Functions that return like this have no result. -/
  returnVoid : "return;" ∈ j.bodyTexts →
    j.walk.isFunction = true ∧ "void ".toList <+: j.mainDecl.signature.text.toList

theorem void_callee (stage : Stage) :
    "void ".toList <+: (Signature.callee stage).text.toList := by
  cases stage <;> decide +kernel

/-- The jumps of a compiled body are those of the instructions that were visited. -/
theorem count_bodyTexts {c : Context} {p : Program} {stage : Stage} {isFunction : Bool} {j : Job}
    (h : (Job.start c p stage isFunction).compile = .ok j) (jump : Jump) :
    j.bodyTexts.count jump.text = (p.flow.filterMap CfInstr.jump?).count jump := by
  obtain ⟨-, -, -, -, -, hruns⟩ := runs_of_compile h
  have hjumps := hruns.jumps_eq
  rw [Program.jumps_tasks] at hjumps
  rw [Job.bodyTexts, count_text]
  exact congrArg (List.count jump) hjumps

section

variable {c : Context} {p : Program} {stage : Stage} {isFunction : Bool} {j : Job}
  {xs : List (Nat × CfInstr)} (h : (Job.start c p stage isFunction).compile = .ok j)
  (hw : WalksThrough (handlers c) xs (Job.start c p stage isFunction).machine
    (walkProgram (handlers c) (Job.start c p stage isFunction).machine))
include h hw

/-- A compiled program has no jump that may not stand where it is. -/
theorem jumpFault?_of_compile {x : Nat × CfInstr} {jump : Jump} (hx : x ∈ xs)
    (hjump : x.2.jump? = some jump) : p.jumpFault? stage isFunction x.1 jump = none := by
  refine Option.eq_none_iff_forall_ne_some.mpr fun fault hfault => ?_
  have herror := compile_of_halt (j := Job.start c p stage isFunction)
    (halts_of_jumpFault? hw hx hjump hfault)
  rw [h] at herror
  cases herror

theorem flow_of_compile : xs.map Prod.snd = p.flow := by
  obtain ⟨m, hwalk, -⟩ := walk_of_compile h
  have hw' : WalksThrough (handlers c) xs _ (.ok () m) := hwalk ▸ hw
  exact hw'.flow (onlyFault_handlers c) (fresh_start c p stage isFunction)

/-- A program calls the fetch program if one of its instructions does. -/
theorem exists_call_of_compile :
    j.walk.callsFetch = true ↔ ∃ x ∈ xs, x.2.jump? = some .call := by
  obtain ⟨-, -, -, -, hcalls, -⟩ := runs_of_compile h
  have hmem : Task.call ∈ p.tasks ↔ Jump.call ∈ p.tasks.filterMap Task.jump? := by
    rw [List.mem_filterMap]
    refine ⟨fun ht => ⟨.call, ht, rfl⟩, ?_⟩
    rintro ⟨t, ht, hjump⟩
    cases t with
    | call => exact ht
    | ret | group | sample | fetch | output => cases hjump
  rw [hcalls, decide_eq_true_eq, hmem, Program.jumps_tasks, ← flow_of_compile h hw,
    List.filterMap_map, List.mem_filterMap]
  rfl

/-- The fetch program is called by the first instruction of a vertex program or not at all. -/
theorem callsFetch_of_compile :
    j.walk.callsFetch = true ↔ stage = .vertex ∧ p.jumpAt? 0 = some .call := by
  have hh := onlyFault_handlers c
  have hm := fresh_start c p stage isFunction
  rw [exists_call_of_compile h hw]
  constructor
  · rintro ⟨x, hx, hjump⟩
    obtain ⟨hvertex, hfirst⟩ :=
      Program.jumpFault?_call_eq_none_iff.mp (jumpFault?_of_compile h hw hx hjump)
    have hat : p.cfAt x.1 = .ok x.2 := hw.cfAt hh x hx
    rw [hfirst] at hat
    exact ⟨hvertex, Program.jumpAt?_eq_some_iff.mpr ⟨x.2, hat, hjump⟩⟩
  · rintro ⟨-, hcall⟩
    obtain ⟨cf, hat, hjump⟩ := Program.jumpAt?_eq_some_iff.mp hcall
    obtain ⟨m, hwalk, -⟩ := walk_of_compile h
    have hw' : WalksThrough (handlers c) xs _ (.ok () m) := hwalk ▸ hw
    -- a walk that succeeds does not stop in front of the first instruction
    have hpos : 0 < xs.length := by
      obtain ⟨hpc, ⟨-, last, -, hlast, -⟩ | ⟨-, hsize, -⟩⟩ := hw'.stops hh hm
      · omega
      · have hroom := Program.le_size_of_cfAt hat
        have hsize : p.size = 8 * m.walk.cfPc.toNat := hsize
        omega
    exact ⟨(0, cf), hw.mem_of_cfAt hh hm hpos hat, hjump⟩

/-- A call is the first instruction, and the only call. -/
theorem eq_cons_of_call {x : Nat × CfInstr} (hx : x ∈ xs) (hjump : x.2.jump? = some .call) :
    ∃ zs, xs = x :: zs ∧ ∀ z ∈ zs, z.2.jump? ≠ some .call := by
  have hfirst : ∀ y ∈ xs, y.2.jump? = some .call → y.1 = 0 := fun y hy hcall =>
    (Program.jumpFault?_call_eq_none_iff.mp (jumpFault?_of_compile h hw hy hcall)).2
  have hslots := hw.slots (onlyFault_handlers c) (fresh_start c p stage isFunction)
  cases xs with
  | nil => cases hx
  | cons y zs =>
    rw [List.range_eq_range', List.map_cons, List.length_cons, List.range'_succ,
      List.cons.injEq] at hslots
    have hlater : ∀ z ∈ zs, z.1 ≠ 0 := by
      intro z hz hzero
      have hmem : z.1 ∈ zs.map Prod.fst := List.mem_map_of_mem hz
      rw [hslots.2, hzero, List.mem_range'_1] at hmem
      omega
    have hcalls : ∀ z ∈ zs, z.2.jump? ≠ some .call := fun z hz hcall =>
      hlater z hz (hfirst z (List.mem_cons_of_mem y hz) hcall)
    rcases List.mem_cons.mp hx with rfl | hx
    · exact ⟨zs, rfl, hcalls⟩
    · exact absurd hjump (hcalls x hx)

theorem calls_of_compile :
    j.bodyTexts.count "FSMain(input, R);" = if j.walk.callsFetch then 1 else 0 := by
  have hnone : ∀ zs : List (Nat × CfInstr), (∀ z ∈ zs, z.2.jump? ≠ some .call) →
      ((zs.map Prod.snd).filterMap CfInstr.jump?).count .call = 0 := by
    intro zs hzs
    rw [List.count_eq_zero, List.filterMap_map, List.mem_filterMap]
    rintro ⟨z, hz, hjump⟩
    exact hzs z hz hjump
  refine (count_bodyTexts h .call).trans ?_
  rw [← flow_of_compile h hw]
  split
  · rename_i hcalls
    obtain ⟨x, hx, hjump⟩ := (exists_call_of_compile h hw).mp hcalls
    obtain ⟨zs, rfl, hzs⟩ := eq_cons_of_call h hw hx hjump
    rw [List.map_cons, count_jumps_cons, hnone zs hzs, if_pos hjump]
  · rename_i hcalls
    refine hnone xs fun x hx hjump => hcalls ?_
    exact (exists_call_of_compile h hw).mpr ⟨x, hx, hjump⟩

theorem head?_of_compile (hcalls : j.walk.callsFetch = true) :
    j.output.stmts.head? = some .fetchCall := by
  obtain ⟨-, -, -, -, -, hruns⟩ := runs_of_compile h
  obtain ⟨x, hx, hjump⟩ := (exists_call_of_compile h hw).mp hcalls
  obtain ⟨zs, rfl, -⟩ := eq_cons_of_call h hw hx hjump
  have htasks : p.tasks = .call :: (zs.map Prod.snd).flatMap p.cfTasks := by
    rw [Program.tasks, ← flow_of_compile h hw, List.map_cons, List.flatMap_cons,
      p.cfTasks_of_call hjump]
    rfl
  rw [htasks] at hruns
  exact hruns.head?_of_call rfl

theorem returns_of_compile :
    j.bodyTexts.count "return;" =
      if (xs.getLast?.bind fun x => x.2.jump?) = some .ret then 1 else 0 := by
  refine (count_bodyTexts h .ret).trans ?_
  have hlast : p.flow.getLast?.bind CfInstr.jump? = xs.getLast?.bind fun x => x.2.jump? := by
    rw [← flow_of_compile h hw, List.getLast?_map, Option.bind_map]
    rfl
  rw [← hlast]
  exact p.count_ret_flowFrom p.cfSlots 0

/-- A body that holds a return ends with it, and belongs to a function without a result. -/
theorem return_of_compile (hret : "return;" ∈ j.bodyTexts) :
    j.bodyTexts.getLast? = some "return;" ∧ isFunction = true := by
  obtain ⟨m, hwalk, hj⟩ := walk_of_compile h
  have hw' : WalksThrough (handlers c) xs _ (.ok () m) := hwalk ▸ hw
  have hlast : (xs.getLast?.bind fun x => x.2.jump?) = some .ret := by
    by_contra hnone
    have hcount := returns_of_compile h hw
    rw [if_neg hnone, List.count_eq_zero] at hcount
    exact hcount hret
  obtain ⟨x, hx, hjump⟩ := Option.bind_eq_some_iff.mp hlast
  have hx := List.mem_of_getLast? hx
  have hbody := getLast?_of_ret hw' hx hjump
  refine ⟨?_, Program.jumpFault?_ret_eq_none_iff.mp (jumpFault?_of_compile h hw hx hjump)⟩
  rw [Job.bodyTexts, List.getLast?_map, hj]
  exact congrArg (Option.map Line.text) hbody

/-- Calls and returns stand in their places in every program that is compiled. -/
theorem jumpsInPlace_of_compile : JumpsInPlace p xs j := by
  obtain ⟨-, hstage, hfunction, -⟩ := runs_of_compile h
  refine ⟨?_, calls_of_compile h hw, head?_of_compile h hw, returns_of_compile h hw,
    fun hret => (return_of_compile h hw hret).1, fun hret => ?_⟩
  · rw [hstage]
    exact callsFetch_of_compile h hw
  · have hcallee : j.walk.isFunction = true := hfunction.trans (return_of_compile h hw hret).2
    refine ⟨hcallee, ?_⟩
    rw [Job.mainDecl, if_pos hcallee]
    exact void_callee j.walk.stage

end

/-- In every program that is compiled, calls and returns stand in their places. A walk that comes to
a jump in another place fails with the fault that says why. -/
theorem calls_and_returns (c : Context) (p : Program) (stage : Stage) (isFunction : Bool) :
    ∃ xs, WalksThrough (handlers c) xs (Job.start c p stage isFunction).machine
        (walkProgram (handlers c) (Job.start c p stage isFunction).machine) ∧
      (∀ j, (Job.start c p stage isFunction).compile = .ok j →
        j.walk.stage = stage ∧ j.walk.isFunction = isFunction ∧ JumpsInPlace p xs j) ∧
      ∀ i cf, (i, cf) ∈ xs → ∀ jump, cf.jump? = some jump →
        ∀ fault, p.jumpFault? stage isFunction i jump = some fault →
          (Job.start c p stage isFunction).compile = .error (.fault fault) := by
  obtain ⟨xs, hw⟩ :=
    exists_walksThrough (onlyFault_handlers c) (Job.start c p stage isFunction).machine
  refine ⟨xs, hw, ?_, ?_⟩
  · intro j h
    obtain ⟨-, hstage, hfunction, -⟩ := runs_of_compile h
    exact ⟨hstage, hfunction, jumpsInPlace_of_compile h hw⟩
  · intro i cf hx jump hjump fault hfault
    exact compile_of_halt (j := Job.start c p stage isFunction)
      (halts_of_jumpFault? hw hx hjump hfault)

/-- A call of the fetch program and a return. -/
def callThenReturn : Program :=
  ⟨(Word.listToBytes [0, 0x09800000, 0, 0x0A000000]).toArray⟩

/-- A vertex function may do both. -/
theorem calls_and_returns_callThenReturn :
    ∃ xs j, (Job.start { comments := false } callThenReturn .vertex true).compile = .ok j ∧
      JumpsInPlace callThenReturn xs j ∧ j.walk.callsFetch = true ∧
        j.bodyTexts = ["FSMain(input, R);", "return;"] := by
  have hrun : (Job.start { comments := false } callThenReturn .vertex true).compile.toOption.map
      (fun j => (j.walk.callsFetch, j.bodyTexts)) =
        some (true, ["FSMain(input, R);", "return;"]) := by
    decide +kernel
  obtain ⟨xs, -, hcompiled, -⟩ :=
    calls_and_returns { comments := false } callThenReturn .vertex true
  generalize (Job.start { comments := false } callThenReturn .vertex true).compile = r
    at hrun hcompiled ⊢
  cases r with
  | error halt => cases hrun
  | ok j =>
    obtain ⟨hcalls, hbody⟩ := Prod.mk.inj (Option.some.inj hrun)
    exact ⟨xs, j, rfl, (hcompiled j rfl).2.2, hcalls, hbody⟩

/-- A second call is refused as one, and not because it is not the first instruction. -/
example :
    ((Job.start {} ⟨(Word.listToBytes [0, 0x09800000, 0, 0x09800000]).toArray⟩ .vertex false).call
      .compile).1 = some (.fault (.duplicateFetchCall 1)) := by
  decide +kernel

end Compile

end LatteHlsl
