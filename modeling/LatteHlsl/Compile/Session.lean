import LatteHlsl.Compile.Handlers
import LatteHlsl.Compile.Shader
import LatteHlsl.Walk.Program

/-!
# Compiling step by step

Every part of a walk can be called on its own. A call that halts leaves the job as far as it had
come, and later calls go on from there.
-/

namespace LatteHlsl.Compile

open Isa Hlsl

/-- A part of the walk. -/
inductive Call where
  /-- Walk to the end and record the outcome. -/
  | compile
  /-- Walk to the end. -/
  | walk
  | cf (i : CfInstr)
  | cfNormal (i : CfInstr)
  | cfExport (i : CfInstr)
  | cfAlu (i : CfInstr)
  /-- Walk the clause of an instruction. -/
  | clause (owner : CfInstr) (kind : ClauseKind)
  | group (owner : CfInstr) (g : AluGroup)
  | beginGroup (owner : CfInstr) (g : AluGroup)
  | endGroup (owner : CfInstr) (g : AluGroup)
  /-- Hand an instruction to the handler of its operation. -/
  | alu (owner : CfInstr) (g : AluGroup) (target : Target) (i : AluInstr)
  /-- Hand an instruction to the handler of the given operation, whatever its own is. -/
  | invoke (v : Invocation)
deriving DecidableEq

/-- What a call does. -/
def Call.action (c : Context) : Call → Effect (Machine Output) Unit
  | .compile => walkToEnd (handlers c)
  | .walk => walkProgram (handlers c)
  | .cf i => walkCf (handlers c) i
  | .cfNormal i => walkCfNormal (handlers c) i
  | .cfExport i => walkCfExport (handlers c) i
  | .cfAlu i => walkCfAlu (handlers c) i
  | .clause owner kind => walkClause (handlers c) owner kind
  | .group owner g => walkGroup (handlers c) owner g
  | .beginGroup owner g => Machine.act fun w => (handlers c).beginGroup w owner g
  | .endGroup owner g => Machine.act fun w => (handlers c).endGroup w owner g
  | .alu owner g target i => walkAlu (handlers c) owner g target i
  | .invoke v => runHandler (handlers c) v

/-- A change to the state of the walk from outside. -/
inductive WalkEdit where
  | cfPc (n : Word)
  | groupPc (n : Word)
  | reachedEnd (b : Bool)
  | callsFetch (b : Bool)
  | isFunction (b : Bool)
deriving DecidableEq

/-- Apply a change. -/
def WalkEdit.apply (w : Walk) : WalkEdit → Walk
  | .cfPc n => { w with cfPc := n }
  | .groupPc n => { w with groupPc := n }
  | .reachedEnd b => { w with reachedEnd := b }
  | .callsFetch b => { w with callsFetch := b }
  | .isFunction b => { w with isFunction := b }

namespace Job

/-- Make a call: why it halted, if it did, and the job after it. -/
def call (j : Job) (c : Call) : Option Halt × Job :=
  match c.action j.context j.machine with
  | .ok () m => (none, { j with machine := m })
  | .error halt m => (some halt, { j with machine := m })

/-- Change the state of the walk from outside. -/
def edit (j : Job) (e : WalkEdit) : Job :=
  { j with machine := { j.machine with walk := e.apply j.machine.walk } }

/-- The text of the lines that `j` has and `before` had not. -/
def textSince (j before : Job) : String :=
  Output.linesText (j.output.body.toList.drop before.output.body.size)

/-- Walk to the end. -/
def compile (j : Job) : Except Halt Job :=
  match j.call .compile with
  | (none, j) => .ok j
  | (some halt, _) => .error halt

/-- Walk to the end and finish. -/
def compileAlone (j : Job) : Except Halt Shader := do
  let j ← j.compile
  j.finish.mapError .fault

end Job

end LatteHlsl.Compile
