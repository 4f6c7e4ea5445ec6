import LatteHlsl.Walk.Handlers

/-!
# Walking clauses

A fetch clause is walked instruction by instruction. An ALU clause is walked group by group: a
group whose X lane holds a reduction gives its lanes X to W to the handler together, all other
lanes are handed over one by one.

* `checkReduction`: what the lanes of a reduction have to share.
* `invoke`, `walkInstr`: handing instructions over.
* `walkGroup`: one ALU group.
* `walkClause`: the clause of a control flow instruction.
-/

namespace LatteHlsl

open Isa Effect

/-! ## Reductions -/

/-- A lane of a reduction agrees with the X lane on operation, output modifier and clamp. -/
def checkReductionLane (g : AluGroup) (first : AluInstr) (op : AluOp) (l : Lane) :
    Except CompileFault Unit :=
  match g.lane l with
  | none => .error (.reductionMismatch .opcode l)
  | some i =>
    match i.op with
    | .error fault => .error (.decode fault)
    | .ok laneOp =>
      if laneOp ≠ op then .error (.reductionMismatch .opcode l)
      else if i.omod ≠ first.omod then .error (.reductionMismatch .outputModifier l)
      else if i.clamp ≠ first.clamp then .error (.reductionMismatch .clamp l)
      else .ok ()

/-- The lanes Y to W of a reduction agree with the X lane, which runs `op`. -/
def checkReduction (g : AluGroup) (first : AluInstr) (op : AluOp) : Except CompileFault Unit := do
  checkReductionLane g first op .y
  checkReductionLane g first op .z
  checkReductionLane g first op .w

/-! ## Calling handlers -/

section

variable {σ : Type} (h : Handlers σ)

/-- Call the handler for an invocation; gives the clause that is to be walked next. -/
def invoke (v : Invocation) : Effect (Machine σ) (Option ClauseKind) := do
  let action ← handler v.opcode (h.find v)
  Machine.act action.run
  return action.clause

/-- Hand an instruction of a clause to its handler, if its operation can be decoded. -/
def walkInstr (v : Except DecodeFault Invocation) : Effect (Machine σ) Unit := do
  let v ← decode v
  let _ ← invoke h v
  return ()

/-! ## Groups -/

/-- Hand an ALU instruction to its handler. -/
def walkAlu (cf : CfInstr) (g : AluGroup) (target : Target) (i : AluInstr) :
    Effect (Machine σ) Unit :=
  walkInstr h (i.op.map fun op => .alu op cf g target i)

/-- Hand over one lane, if it is occupied; it must not hold a reduction. -/
def walkLane (cf : CfInstr) (g : AluGroup) (l : Lane) : Effect (Machine σ) Unit := do
  match g.lane l with
  | none => pure ()
  | some i =>
    let op ← decode i.op
    if op.traits.reduction then fail (.misplacedReduction op l)
    else walkAlu h cf g (.lane l) i

/-- Hand over the reduction of a group, if its X lane holds one; gives the lanes that are left. -/
def walkReduction (cf : CfInstr) (g : AluGroup) : Effect (Machine σ) (List Lane) := do
  match g.lane .x with
  | none => return Lane.all
  | some first =>
    let op ← decode first.op
    if op.traits.reduction then
      check (checkReduction g first op)
      walkAlu h cf g .reduction first
      return [.t]
    else return Lane.all

/-- Walk one ALU group. -/
def walkGroup (cf : CfInstr) (g : AluGroup) : Effect (Machine σ) Unit := do
  Machine.act fun w => h.beginGroup w cf g
  let lanes ← walkReduction h cf g
  lanes.forM (walkLane h cf g)
  Machine.act fun w => h.endGroup w cf g
  Machine.count .group

/-! ## Clauses -/

/-- Walk the ALU clause of an instruction, up to the first fault in its slots. -/
def walkAluClause (cf : CfInstr) : Effect (Machine σ) Unit := do
  let slots ← Machine.read fun p => p.aluClause cf.aluAddr cf.aluCount
  let clause := AluGroup.readAll slots
  clause.groups.forM (walkGroup h cf)
  match clause.fault with
  | none => pure ()
  | some fault => fail (.decode fault)

/-- Walk a fetch clause of an instruction, given how its fetches are read and handed over. -/
def walkFetches {ι : Type} (reading : Program → Nat → Nat → Except DecodeFault (List ι))
    (invocation : ι → Except DecodeFault Invocation) (cf : CfInstr) : Effect (Machine σ) Unit := do
  let fetches ← Machine.read fun p => reading p cf.addr cf.count
  fetches.forM fun i => walkInstr h (invocation i)

/-- Walk the texture clause of an instruction. -/
def walkTexClause (cf : CfInstr) : Effect (Machine σ) Unit :=
  walkFetches h Program.texClause (fun i => i.op.map fun op => .tex op cf i) cf

/-- Walk the vertex clause of an instruction. -/
def walkVtxClause (cf : CfInstr) : Effect (Machine σ) Unit :=
  walkFetches h Program.vtxClause (fun i => i.op.map fun op => .vtx op cf i) cf

/-- Walk a clause of the given kind. -/
def walkClause (cf : CfInstr) : ClauseKind → Effect (Machine σ) Unit
  | .alu => walkAluClause h cf
  | .tex => walkTexClause h cf
  | .vtx => walkVtxClause h cf

end

end LatteHlsl
