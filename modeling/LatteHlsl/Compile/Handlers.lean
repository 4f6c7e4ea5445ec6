import LatteHlsl.Compile.Attribute
import LatteHlsl.Compile.Lane
import LatteHlsl.Compile.Sample

/-!
# The compiler's handlers

The operations that can be compiled. Every control flow instruction leaves a comment first.
-/

namespace LatteHlsl.Compile

open Isa Hlsl Effect

/-- The comment that names a control flow instruction. -/
def controlNote (c : Context) (walk : Walk) (op : Opcode) : Emit Unit :=
  note c (.controlNote walk.cfPc op)

/-- The comment with the operation that an instruction itself names, if it names one. -/
def ownNote (c : Context) (walk : Walk) (op : Except DecodeFault Opcode) : Emit Unit := do
  controlNote c walk (← decode op)

/-- A handler that only names its instruction before its clause is walked. -/
def noteHandler (c : Context) (op : Opcode) (clause : Option ClauseKind) : CfHandler Output where
  run walk _ := controlNote c walk op
  clause := clause

/-- The handler of vertex clauses. It serves two operations and names that of its instruction. -/
def vertexHandler (c : Context) : CfHandler Output where
  run walk cf := ownNote c walk (cf.cfOp.map .cf)
  clause := some .vtx

/-- A handler that names its instruction and writes a statement. -/
def stmtHandler (c : Context) (op : Opcode) (s : Stmt) : CfHandler Output where
  run walk _ := do
    controlNote c walk op
    emit s

/-- Handlers of plain control flow instructions. -/
def cfHandler (c : Context) (op : CfOp) : Option (CfHandler Output) :=
  match op with
  | .nop => some (noteHandler c (.cf op) none)
  | .tex => some (noteHandler c (.cf op) (some .tex))
  | .vtx | .vtxTc => some (vertexHandler c)
  | .callFs => some (stmtHandler c (.cf op) .fetchCall)
  | .ret => some (stmtHandler c (.cf op) .ret)
  | _ => none

/-- Handlers of exports. -/
def exportHandler (c : Context) (op : ExportOp) : Option (CfHandler Output) :=
  match op with
  | .exp | .expDone =>
    some
      { run := fun walk cf => do
          ownNote c walk (cf.exportOp.map .exp)
          compileExport walk.stage cf }
  | _ => none

/-- Handlers of instructions that start ALU clauses. -/
def cfAluHandler (c : Context) (op : CfAluOp) : Option (CfHandler Output) :=
  match op with
  | .alu => some (noteHandler c (.cfAlu op) (some .alu))
  | _ => none

/-- Handlers of two-operand ALU instructions. -/
def op2Handler (op : AluOp2) : Option (AluHandler Output) :=
  match op with
  | .nop => some compileNop
  | .movaFloor => some compileAddress
  | .dot4 | .dot4Ieee | .max4 => some compileReduction
  | op => if (shape? op).isSome then some compileOp2 else none

/-- Handlers of three-operand ALU instructions. -/
def op3Handler (op : AluOp3) : Option (AluHandler Output) :=
  if (arith3? (.op3 op)).isSome then some compileOp3 else none

/-- Start a group: writes that an earlier group left behind are dropped. -/
def beginGroup (c : Context) : GroupHook Output := fun walk _ _ => do
  modify fun o => { o with deferred := [] }
  note c (.groupNote walk.groupPc)

/-- End a group: write the registers, and the results become those of the previous group. -/
def endGroup : GroupHook Output := fun _ _ _ => do
  let o ← get
  set { o with deferred := [] }
  o.deferred.forM fun w => emit (.regWrite w)
  emit .latchVector
  emit .latchScalar

/-- The handlers of the compiler. -/
def handlers (c : Context) : Handlers Output where
  cf := cfHandler c
  exp := exportHandler c
  cfAlu := cfAluHandler c
  op2 := op2Handler
  op3 := op3Handler
  tex op := if op = .sample then some (compileSample c) else none
  vtx op := if op = .semantic then some (compileAttribute c) else none
  beginGroup := beginGroup c
  endGroup := endGroup

end LatteHlsl.Compile
