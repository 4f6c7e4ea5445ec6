import LatteHlsl.Fault
import LatteHlsl.Isa.Layout
import LatteHlsl.Isa.Operand

/-!
# Control flow instructions

A control flow instruction is two words. Its type field says which of three views applies: a
plain instruction, an export, or the start of an ALU clause. The views read overlapping bits of
the same words.
-/

namespace LatteHlsl.Isa

/-- The type field of a control flow instruction. -/
inductive CfType where
  | normal | exp | alu | aluExtended
deriving DecidableEq, Repr

/-- The type named by the two low bits of a number. -/
def CfType.ofBits (n : Nat) : CfType :=
  match n % 4 with
  | 0 => .normal
  | 1 => .exp
  | 2 => .alu
  | _ => .aluExtended

/-- A control flow instruction. -/
structure CfInstr where
  word0 : Word
  word1 : Word
deriving DecidableEq

namespace CfInstr

open Layout

/-- Size in bytes. -/
def byteSize : Nat := 8

/-- The instruction that starts at a byte position. -/
def readAt (bytes : Array UInt8) (pos : Nat) : CfInstr :=
  ⟨Word.readAt bytes pos, Word.readAt bytes (pos + 4)⟩

/-- The instruction's bytes. -/
def toBytes (i : CfInstr) : List UInt8 := Word.listToBytes [i.word0, i.word1]

/-- Which view applies. -/
def type (i : CfInstr) : CfType := CfType.ofBits (CfWord1.cfInstType.value i.word1)

/-! ## The plain view -/

/-- The operation. -/
def cfOp (i : CfInstr) : Except DecodeFault CfOp :=
  let id := CfWord1.cfInst.value i.word1
  match CfOp.ofId? id with
  | some op => .ok op
  | none => .error (.unexpectedOpcode .cf id)

/-- Clause address in units of eight bytes. -/
def addr (i : CfInstr) : Nat := CfWord0.addr.value i.word0

/-- Number of instructions in a fetch clause. -/
def count (i : CfInstr) : Nat :=
  (CfWord1.count.value i.word1 + 1) ||| (CfWord1.count3.value i.word1 <<< 3)

def popCount (i : CfInstr) : Nat := CfWord1.popCount.value i.word1

/-- Whether the program ends after this instruction. Exports keep the bit in the same place; in an
instruction that starts an ALU clause it belongs to the slot count. -/
def endOfProgram (i : CfInstr) : Bool := CfWord1.endOfProgram.test i.word1

def barrier (i : CfInstr) : Bool := CfWord1.barrier.test i.word1

/-! ## The ALU clause view -/

/-- The operation. -/
def aluOp (i : CfInstr) : Except DecodeFault CfAluOp :=
  let id := CfAluWord1.cfInst.value i.word1
  match CfAluOp.ofId? id with
  | some op => .ok op
  | none => .error (.unexpectedOpcode .cfAlu id)

/-- Clause address in units of eight bytes. -/
def aluAddr (i : CfInstr) : Nat := CfAluWord0.addr.value i.word0

/-- Number of slots in the clause, literals included. -/
def aluCount (i : CfInstr) : Nat := CfAluWord1.count.value i.word1 + 1

/-- The field that names the uniform block of a constant cache bank. -/
def kcacheBlockField : KcacheBank → BitField
  | .first => CfAluWord0.kcacheBank0
  | .second => CfAluWord0.kcacheBank1

/-- The uniform block locked into a constant cache bank. -/
def kcacheBlock (i : CfInstr) (bank : KcacheBank) : Nat := (kcacheBlockField bank).value i.word0

def kcacheMode (i : CfInstr) : KcacheBank → KcacheMode
  | .first => .ofBits (CfAluWord0.kcacheMode0.value i.word0)
  | .second => .ofBits (CfAluWord1.kcacheMode1.value i.word1)

/-- Start of the locked window in units of sixteen constants. -/
def kcacheAddr (i : CfInstr) : KcacheBank → Nat
  | .first => CfAluWord1.kcacheAddr0.value i.word1
  | .second => CfAluWord1.kcacheAddr1.value i.word1

/-- A constant cache bank names one of sixteen uniform blocks. -/
theorem kcacheBlock_lt (i : CfInstr) (bank : KcacheBank) : i.kcacheBlock bank < 16 := by
  cases bank <;> exact BitField.value_lt _ _ (by decide)

/-! ## The export view -/

/-- The operation. -/
def exportOp (i : CfInstr) : Except DecodeFault ExportOp :=
  let id := CfExportWord1.cfInst.value i.word1
  match ExportOp.ofId? id with
  | some op => .ok op
  | none => .error (.unexpectedOpcode .exp id)

/-- The first export target. -/
def arrayBase (i : CfInstr) : Nat := CfExportWord0.arrayBase.value i.word0

/-- The number of the export kind. -/
def exportType (i : CfInstr) : Nat := CfExportWord0.type.value i.word0

/-- The first exported register. -/
def exportGpr (i : CfInstr) : Nat := CfExportWord0.rwGpr.value i.word0

/-- Whether the loop index is added to the register number. -/
def exportRel (i : CfInstr) : Bool := CfExportWord0.rwRel.test i.word0

def indexGpr (i : CfInstr) : Nat := CfExportWord0.indexGpr.value i.word0

def elemSize (i : CfInstr) : Nat := CfExportWord0.elemSize.value i.word0

/-- The selectors of the exported components. -/
def exportSels (i : CfInstr) : Quad Sel where
  x := .ofBits (CfExportWord1.selX.value i.word1)
  y := .ofBits (CfExportWord1.selY.value i.word1)
  z := .ofBits (CfExportWord1.selZ.value i.word1)
  w := .ofBits (CfExportWord1.selW.value i.word1)

/-- Number of consecutive registers exported. -/
def burstCount (i : CfInstr) : Nat := CfExportWord1.burstCount.value i.word1 + 1

end CfInstr

end LatteHlsl.Isa
