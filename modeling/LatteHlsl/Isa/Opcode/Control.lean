/-!
# Control flow operations

The three families of control flow operations: plain ones, exports and memory writes, and those
that start an ALU clause. Each table gives an operation its id in the instruction word and its
mnemonic.
-/

namespace LatteHlsl.Isa

/-- Plain control flow operations. -/
inductive CfOp where
  | nop | tex | vtx | vtxTc | loopStart | loopEnd | loopStartDx10 | loopStartNoAl | loopContinue
  | loopBreak | jump | push | pushElse | elseOp | pop | popJump | popPush | popPushElse | call
  | callFs | ret | emitVertex | emitCutVertex | cutVertex | kill | waitAck | texAck | vtxAck
  | vtxTcAck
deriving DecidableEq

namespace CfOp

/-- The operations in the order of their ids. -/
def all : List CfOp :=
  [.nop, .tex, .vtx, .vtxTc, .loopStart, .loopEnd, .loopStartDx10, .loopStartNoAl, .loopContinue,
   .loopBreak, .jump, .push, .pushElse, .elseOp, .pop, .popJump, .popPush, .popPushElse, .call,
   .callFs, .ret, .emitVertex, .emitCutVertex, .cutVertex, .kill, .waitAck, .texAck, .vtxAck,
   .vtxTcAck]

/-- Id and mnemonic. -/
def entry : CfOp → Nat × String
  | .nop => (0, "NOP")
  | .tex => (1, "TEX")
  | .vtx => (2, "VTX")
  | .vtxTc => (3, "VTX_TC")
  | .loopStart => (4, "LOOP_START")
  | .loopEnd => (5, "LOOP_END")
  | .loopStartDx10 => (6, "LOOP_START_DX10")
  | .loopStartNoAl => (7, "LOOP_START_NO_AL")
  | .loopContinue => (8, "LOOP_CONTINUE")
  | .loopBreak => (9, "LOOP_BREAK")
  | .jump => (10, "JUMP")
  | .push => (11, "PUSH")
  | .pushElse => (12, "PUSH_ELSE")
  | .elseOp => (13, "ELSE")
  | .pop => (14, "POP")
  | .popJump => (15, "POP_JUMP")
  | .popPush => (16, "POP_PUSH")
  | .popPushElse => (17, "POP_PUSH_ELSE")
  | .call => (18, "CALL")
  | .callFs => (19, "CALL_FS")
  | .ret => (20, "RETURN")
  | .emitVertex => (21, "EMIT_VERTEX")
  | .emitCutVertex => (22, "EMIT_CUT_VERTEX")
  | .cutVertex => (23, "CUT_VERTEX")
  | .kill => (24, "KILL")
  | .waitAck => (26, "WAIT_ACK")
  | .texAck => (27, "TEX_ACK")
  | .vtxAck => (28, "VTX_ACK")
  | .vtxTcAck => (29, "VTX_TC_ACK")

/-- The id in the instruction word. -/
def id (op : CfOp) : Nat := (entry op).1

/-- The mnemonic. -/
def name (op : CfOp) : String := (entry op).2

/-- The operation with the given id. -/
def ofId? (n : Nat) : Option CfOp := all.find? (·.id == n)

/-- The operation with the given mnemonic. -/
def ofName? (s : String) : Option CfOp := all.find? (·.name == s)

end CfOp

/-- Export and memory write operations. -/
inductive ExportOp where
  | memStream0 | memStream1 | memStream2 | memStream3 | memScratch | memReduction | memRing | exp
  | expDone | memExport
deriving DecidableEq

namespace ExportOp

/-- The operations in the order of their ids. -/
def all : List ExportOp :=
  [.memStream0, .memStream1, .memStream2, .memStream3, .memScratch, .memReduction, .memRing, .exp,
   .expDone, .memExport]

/-- Id and mnemonic. -/
def entry : ExportOp → Nat × String
  | .memStream0 => (32, "MEM_STREAM0")
  | .memStream1 => (33, "MEM_STREAM1")
  | .memStream2 => (34, "MEM_STREAM2")
  | .memStream3 => (35, "MEM_STREAM3")
  | .memScratch => (36, "MEM_SCRATCH")
  | .memReduction => (37, "MEM_REDUCTION")
  | .memRing => (38, "MEM_RING")
  | .exp => (39, "EXP")
  | .expDone => (40, "EXP_DONE")
  | .memExport => (58, "MEM_EXPORT")

/-- The id in the instruction word. -/
def id (op : ExportOp) : Nat := (entry op).1

/-- The mnemonic. -/
def name (op : ExportOp) : String := (entry op).2

/-- The operation with the given id. -/
def ofId? (n : Nat) : Option ExportOp := all.find? (·.id == n)

/-- The operation with the given mnemonic. -/
def ofName? (s : String) : Option ExportOp := all.find? (·.name == s)

end ExportOp

/-- Control flow operations that start an ALU clause. -/
inductive CfAluOp where
  | alu | aluPushBefore | aluPopAfter | aluPop2After | aluContinue | aluBreak | aluElseAfter
deriving DecidableEq

namespace CfAluOp

/-- The operations in the order of their ids. -/
def all : List CfAluOp :=
  [.alu, .aluPushBefore, .aluPopAfter, .aluPop2After, .aluContinue, .aluBreak, .aluElseAfter]

/-- Id and mnemonic. -/
def entry : CfAluOp → Nat × String
  | .alu => (8, "ALU")
  | .aluPushBefore => (9, "ALU_PUSH_BEFORE")
  | .aluPopAfter => (10, "ALU_POP_AFTER")
  | .aluPop2After => (11, "ALU_POP2_AFTER")
  | .aluContinue => (13, "ALU_CONTINUE")
  | .aluBreak => (14, "ALU_BREAK")
  | .aluElseAfter => (15, "ALU_ELSE_AFTER")

/-- The id in the instruction word. -/
def id (op : CfAluOp) : Nat := (entry op).1

/-- The mnemonic. -/
def name (op : CfAluOp) : String := (entry op).2

/-- The operation with the given id. -/
def ofId? (n : Nat) : Option CfAluOp := all.find? (·.id == n)

/-- The operation with the given mnemonic. -/
def ofName? (s : String) : Option CfAluOp := all.find? (·.name == s)

end CfAluOp

end LatteHlsl.Isa
