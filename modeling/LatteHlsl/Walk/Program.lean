import LatteHlsl.Walk.Clause

/-!
# Walking programs

Control flow instructions are walked in order until one ends the program or none is left. Calls
of the fetch program and returns are checked before their handlers are looked up.

* `walkCf`: one control flow instruction.
* `walkProgram`: a whole program.
* `walkToEnd`: a whole program, with the outcome recorded in the status.
-/

namespace LatteHlsl

open Isa Effect

/-- Whether a plain instruction may stand where it stands. The fetch program is called at most
once, first of all, and by vertex programs only; only functions return. -/
def checkPlacement (w : Walk) : CfOp → Except CompileFault Unit
  | .callFs =>
    if w.stage ≠ .vertex then .error (.fetchCallOutsideVertex w.stage)
    else if w.callsFetch then .error (.duplicateFetchCall w.cfPc)
    else if w.cfPc ≠ 0 then .error (.fetchCallNotFirst w.cfPc)
    else .ok ()
  | .ret => if w.isFunction then .ok () else .error (.returnOutsideFunction w.cfPc)
  | _ => .ok ()

/-- The walk after a plain instruction. -/
def Walk.afterCf (w : Walk) (op : CfOp) (cf : CfInstr) : Walk :=
  { w with
    callsFetch := w.callsFetch || op = .callFs
    reachedEnd := w.reachedEnd || op = .ret || cf.endOfProgram }

/-- The walk after an export. -/
def Walk.afterExport (w : Walk) (cf : CfInstr) : Walk :=
  { w with reachedEnd := w.reachedEnd || cf.endOfProgram }

section

variable {σ : Type} (h : Handlers σ)

/-- Call the handler for an invocation and walk the clause that it asks for. -/
def runHandler (v : Invocation) : Effect (Machine σ) Unit := do
  match ← invoke h v with
  | none => pure ()
  | some kind => walkClause h v.owner kind

/-- Walk a plain instruction. -/
def walkCfNormal (cf : CfInstr) : Effect (Machine σ) Unit := do
  let op ← decode cf.cfOp
  Machine.examine fun w => checkPlacement w op
  runHandler h (.cf op cf)
  Machine.modifyWalk fun w => w.afterCf op cf

/-- Walk an export. -/
def walkCfExport (cf : CfInstr) : Effect (Machine σ) Unit := do
  let op ← decode cf.exportOp
  runHandler h (.exp op cf)
  Machine.modifyWalk fun w => w.afterExport cf

/-- Walk an instruction that starts an ALU clause. -/
def walkCfAlu (cf : CfInstr) : Effect (Machine σ) Unit := do
  let op ← decode cf.aluOp
  runHandler h (.cfAlu op cf)

/-- Walk one control flow instruction. -/
def walkCf (cf : CfInstr) : Effect (Machine σ) Unit :=
  match cf.type with
  | .normal => walkCfNormal h cf
  | .exp => walkCfExport h cf
  | .alu | .aluExtended => walkCfAlu h cf

/-- Walk at most `n` control flow instructions. -/
def walkSteps : Nat → Effect (Machine σ) Unit
  | 0 => pure ()
  | n + 1 => do
    let m ← get
    let pc := m.walk.cfPc.toNat
    if m.walk.reachedEnd || !m.walk.program.hasCf pc then pure ()
    else
      let cf ← decode (m.walk.program.cfAt pc)
      walkCf h cf
      Machine.count .cf
      walkSteps n

/-- Whether a walk may start: there is a program, and a fetch program is a function. -/
def checkStart (w : Walk) : Except CompileFault Unit :=
  if w.program.size = 0 then .error (.decode .emptyProgram)
  else if w.stage = .fetch ∧ ¬ w.isFunction then .error .fetchNotFunction
  else .ok ()

/-- Walk a program to its end. There are no more steps than slots left. -/
def walkProgram : Effect (Machine σ) Unit := do
  Machine.examine checkStart
  Machine.modifyWalk fun w => { w with status := .walking }
  let m ← get
  walkSteps h (m.walk.program.cfSlots - m.walk.cfPc.toNat)

/-- Walk a program to its end and record the outcome. -/
def walkToEnd : Effect (Machine σ) Unit := fun m =>
  match walkProgram h m with
  | .ok () m => .ok () { m with walk := { m.walk with status := .completed } }
  | .error halt m => .error halt { m with walk := { m.walk with status := .failed } }

end

end LatteHlsl
