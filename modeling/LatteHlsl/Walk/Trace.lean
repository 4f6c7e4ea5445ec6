import LatteHlsl.Walk.Program

/-!
# Traces

Handlers that only record what they are called for. `Trace.handlers` takes the set of operations
it knows as a parameter.
-/

namespace LatteHlsl

open Isa

/-- One call of a handler. -/
inductive Event where
  | cf (cfPc : Word) (op : CfOp)
  | exp (cfPc : Word) (op : ExportOp)
  | cfAlu (cfPc : Word) (op : CfAluOp)
  /-- An ALU instruction in a group with `size` occupied lanes. -/
  | alu (groupPc : Word) (size : Nat) (target : Target) (op : AluOp)
  | tex (op : TexOp) (resource : Nat)
  | vtx (op : VtxOp) (buffer : Nat)
deriving DecidableEq

/-- The text of a target. -/
def Target.text : Target → String
  | .lane .x => "Unit(X)"
  | .lane .y => "Unit(Y)"
  | .lane .z => "Unit(Z)"
  | .lane .w => "Unit(W)"
  | .lane .t => "Unit(T)"
  | .reduction => "Reduction"

/-- The text of an event. -/
def Event.text : Event → String
  | .cf pc op => s!"{pc.toNat} cf {op.name}"
  | .exp pc op => s!"{pc.toNat} exp {op.name}"
  | .cfAlu pc op => s!"{pc.toNat} alu {op.name}"
  | .alu pc size target op => s!"group {pc.toNat} of {size}: {target.text} {op.name}"
  | .tex op resource => s!"tex {op.name} {resource}"
  | .vtx op buffer => s!"vtx {op.name} {buffer}"

/-- The events recorded so far. -/
abbrev Trace := List Event

namespace Trace

/-- Record an event. -/
def push (e : Event) : Effect Trace Unit := modify fun es => es ++ [e]

/-- The clause that a plain instruction owns. -/
def clauseOf : CfOp → Option ClauseKind
  | .tex => some .tex
  | .vtx | .vtxTc => some .vtx
  | _ => none

/-- A value that exists for known operations only. -/
def known {α : Type} (accepts : Opcode → Bool) (op : Opcode) (a : α) : Option α :=
  if accepts op then some a else none

/-- Record an ALU instruction. -/
def recordAlu (op : AluOp) : AluHandler Trace :=
  fun walk _ g target _ => push (.alu walk.groupPc g.size target op)

/-- Handlers that record calls for the operations `accepts` holds of. -/
def handlers (accepts : Opcode → Bool) : Handlers Trace where
  cf op := known accepts (.cf op)
    { run := fun walk _ => push (.cf walk.cfPc op), clause := clauseOf op }
  exp op := known accepts (.exp op) { run := fun walk _ => push (.exp walk.cfPc op) }
  cfAlu op := known accepts (.cfAlu op)
    { run := fun walk _ => push (.cfAlu walk.cfPc op), clause := some .alu }
  op2 op := known accepts (.op2 op) (recordAlu (.op2 op))
  op3 op := known accepts (.op3 op) (recordAlu (.op3 op))
  tex op := known accepts (.tex op) fun _ _ i => push (.tex op i.resourceId)
  vtx op := known accepts (.vtx op) fun _ _ i => push (.vtx op i.bufferId)

end Trace

end LatteHlsl
