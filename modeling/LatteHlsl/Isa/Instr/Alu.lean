import LatteHlsl.Fault
import LatteHlsl.Isa.Layout
import LatteHlsl.Isa.Operand

/-!
# ALU instructions

An ALU instruction is two words in one of two encodings. The two-operand encoding has modifiers
that the three-operand encoding gives up for its third source.
-/

namespace LatteHlsl.Isa

/-- The two encodings of the second word. -/
inductive AluEncoding where
  | op2 | op3
deriving DecidableEq, Repr

/-- One source operand of an ALU instruction. -/
structure AluSource where
  sel : Nat
  /-- Whether the index register is added. -/
  rel : Bool
  chan : Chan
  neg : Bool
  abs : Bool
deriving DecidableEq

/-- An ALU instruction. -/
structure AluInstr where
  word0 : Word
  word1 : Word
deriving DecidableEq

namespace AluInstr

open Layout

/-- Size in bytes. -/
def byteSize : Nat := 8

/-- The instruction that starts at a byte position. -/
def readAt (bytes : Array UInt8) (pos : Nat) : AluInstr :=
  ⟨Word.readAt bytes pos, Word.readAt bytes (pos + 4)⟩

/-- The instruction's bytes. -/
def toBytes (i : AluInstr) : List UInt8 := Word.listToBytes [i.word0, i.word1]

/-- The encoding: two operands exactly when the encoding field is zero. -/
def encoding (i : AluInstr) : AluEncoding :=
  if AluWord1Op2.encoding.value i.word1 = 0 then .op2 else .op3

/-- The operation. -/
def op (i : AluInstr) : Except DecodeFault AluOp :=
  match i.encoding with
  | .op2 =>
    let id := AluWord1Op2.aluInst.value i.word1
    match AluOp2.ofId? id with
    | some op => .ok (.op2 op)
    | none => .error (.unexpectedOpcode .op2 id)
  | .op3 =>
    let id := AluWord1Op3.aluInst.value i.word1
    match AluOp3.ofId? id with
    | some op => .ok (.op3 op)
    | none => .error (.unexpectedOpcode .op3 id)

/-! ## Sources -/

/-- Number of source operands. -/
def srcCount (i : AluInstr) : Nat :=
  match i.encoding with
  | .op2 => 2
  | .op3 => 3

/-- Source operand `n`; every number past one names the third source. -/
def src (i : AluInstr) (n : Nat) : AluSource :=
  match n with
  | 0 =>
    { sel := AluWord0.src0Sel.value i.word0
      rel := AluWord0.src0Rel.test i.word0
      chan := .ofBits (AluWord0.src0Chan.value i.word0)
      neg := AluWord0.src0Neg.test i.word0
      abs := i.encoding = .op2 && AluWord1Op2.src0Abs.test i.word1 }
  | 1 =>
    { sel := AluWord0.src1Sel.value i.word0
      rel := AluWord0.src1Rel.test i.word0
      chan := .ofBits (AluWord0.src1Chan.value i.word0)
      neg := AluWord0.src1Neg.test i.word0
      abs := i.encoding = .op2 && AluWord1Op2.src1Abs.test i.word1 }
  | _ =>
    { sel := AluWord1Op3.src2Sel.value i.word1
      rel := AluWord1Op3.src2Rel.test i.word1
      chan := .ofBits (AluWord1Op3.src2Chan.value i.word1)
      neg := AluWord1Op3.src2Neg.test i.word1
      abs := false }

/-- The source operands in order. -/
def srcs (i : AluInstr) : List AluSource := (List.range i.srcCount).map i.src

/-- The number of the mode that names the index register. -/
def indexMode (i : AluInstr) : Nat := AluWord0.indexMode.value i.word0

def predSel (i : AluInstr) : Nat := AluWord0.predSel.value i.word0

/-- Whether the instruction ends its group. -/
def last (i : AluInstr) : Bool := AluWord0.last.test i.word0

/-! ## Destination -/

def dstGpr (i : AluInstr) : Nat := AluWord1Op2.dstGpr.value i.word1

def dstRel (i : AluInstr) : Bool := AluWord1Op2.dstRel.test i.word1

def dstChan (i : AluInstr) : Chan := .ofBits (AluWord1Op2.dstChan.value i.word1)

def clamp (i : AluInstr) : Bool := AluWord1Op2.clamp.test i.word1

def bankSwizzle (i : AluInstr) : Nat := AluWord1Op2.bankSwizzle.value i.word1

/-- Whether the result goes to a register; three-operand instructions always write. -/
def writes (i : AluInstr) : Bool :=
  match i.encoding with
  | .op2 => AluWord1Op2.writeMask.test i.word1
  | .op3 => true

/-- The output modifier; three-operand instructions have none. -/
def omod (i : AluInstr) : OutputModifier :=
  match i.encoding with
  | .op2 => .ofBits (AluWord1Op2.omod.value i.word1)
  | .op3 => .off

def updateExecMask (i : AluInstr) : Bool :=
  i.encoding = .op2 && AluWord1Op2.updateExecuteMask.test i.word1

def updatePred (i : AluInstr) : Bool :=
  i.encoding = .op2 && AluWord1Op2.updatePred.test i.word1

end AluInstr

end LatteHlsl.Isa
