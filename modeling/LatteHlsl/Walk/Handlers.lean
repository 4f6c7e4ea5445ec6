import LatteHlsl.Walk.State

/-!
# Handlers

What a walk calls for each instruction. An operation without a handler cannot be walked over.

* `Handlers`: a handler for each operation, and hooks for groups.
* `Invocation`: what a handler can be called for.
* `Handlers.find`: the handler for an invocation.
-/

namespace LatteHlsl

open Isa

/-- Which part of a group an ALU handler is called for. -/
inductive Target where
  | lane (l : Lane)
  /-- The lanes X to W together. -/
  | reduction
deriving DecidableEq

/-- The kinds of clauses. -/
inductive ClauseKind where
  | alu | tex | vtx
deriving DecidableEq

/-- A handler for control flow instructions. -/
structure CfHandler (σ : Type) where
  /-- What the handler does first. -/
  run : Walk → CfInstr → Effect σ Unit
  /-- The clause that is walked after that. -/
  clause : Option ClauseKind := none

/-- A handler for ALU instructions, given the instruction that owns the clause and the group. -/
abbrev AluHandler (σ : Type) := Walk → CfInstr → AluGroup → Target → AluInstr → Effect σ Unit

/-- A handler for texture fetches, given the instruction that owns the clause. -/
abbrev TexHandler (σ : Type) := Walk → CfInstr → TexInstr → Effect σ Unit

/-- A handler for vertex fetches, given the instruction that owns the clause. -/
abbrev VtxHandler (σ : Type) := Walk → CfInstr → VtxInstr → Effect σ Unit

/-- A hook of groups, given the instruction that owns the clause. -/
abbrev GroupHook (σ : Type) := Walk → CfInstr → AluGroup → Effect σ Unit

/-- The handlers of a walk. -/
structure Handlers (σ : Type) where
  cf : CfOp → Option (CfHandler σ) := fun _ => none
  exp : ExportOp → Option (CfHandler σ) := fun _ => none
  cfAlu : CfAluOp → Option (CfHandler σ) := fun _ => none
  op2 : AluOp2 → Option (AluHandler σ) := fun _ => none
  op3 : AluOp3 → Option (AluHandler σ) := fun _ => none
  tex : TexOp → Option (TexHandler σ) := fun _ => none
  vtx : VtxOp → Option (VtxHandler σ) := fun _ => none
  /-- Called before the lanes of a group. -/
  beginGroup : GroupHook σ := fun _ _ _ => pure ()
  /-- Called after the lanes of a group. -/
  endGroup : GroupHook σ := fun _ _ _ => pure ()

/-- The handler for an ALU operation. -/
def Handlers.alu {σ : Type} (h : Handlers σ) : AluOp → Option (AluHandler σ)
  | .op2 op => h.op2 op
  | .op3 op => h.op3 op

/-! ## Invocations -/

/-- What a handler is called for: an operation, and the instruction that names it. -/
inductive Invocation where
  | cf (op : CfOp) (i : CfInstr)
  | exp (op : ExportOp) (i : CfInstr)
  | cfAlu (op : CfAluOp) (i : CfInstr)
  | alu (op : AluOp) (owner : CfInstr) (g : AluGroup) (target : Target) (i : AluInstr)
  | tex (op : TexOp) (owner : CfInstr) (i : TexInstr)
  | vtx (op : VtxOp) (owner : CfInstr) (i : VtxInstr)
deriving DecidableEq

namespace Invocation

/-- The operation that has the handler. -/
def opcode : Invocation → Opcode
  | .cf op _ => .cf op
  | .exp op _ => .exp op
  | .cfAlu op _ => .cfAlu op
  | .alu op _ _ _ _ => op.opcode
  | .tex op _ _ => .tex op
  | .vtx op _ _ => .vtx op

/-- The control flow instruction: the one that is walked, or the owner of the clause. -/
def owner : Invocation → CfInstr
  | .cf _ i | .exp _ i | .cfAlu _ i => i
  | .alu _ owner _ _ _ | .tex _ owner _ | .vtx _ owner _ => owner

end Invocation

/-- A handler with what it is called for. -/
structure Action (σ : Type) where
  run : Walk → Effect σ Unit
  /-- The clause that is walked after that. -/
  clause : Option ClauseKind := none

/-- A control flow handler called for an instruction. -/
def CfHandler.action {σ : Type} (i : CfInstr) (handle : CfHandler σ) : Action σ where
  run w := handle.run w i
  clause := handle.clause

/-- The handler for an invocation. -/
def Handlers.find {σ : Type} (h : Handlers σ) : Invocation → Option (Action σ)
  | .cf op i => (h.cf op).map (CfHandler.action i)
  | .exp op i => (h.exp op).map (CfHandler.action i)
  | .cfAlu op i => (h.cfAlu op).map (CfHandler.action i)
  | .alu op owner g target i =>
    (h.alu op).map fun handle => { run := fun w => handle w owner g target i }
  | .tex op owner i => (h.tex op).map fun handle => { run := fun w => handle w owner i }
  | .vtx op owner i => (h.vtx op).map fun handle => { run := fun w => handle w owner i }

/-- A handler, or the fault for an operation that has none. -/
def Effect.handler {σ α : Type} (op : Opcode) : Option α → Effect σ α
  | some h => pure h
  | none => fail (.unimplemented op)

end LatteHlsl
