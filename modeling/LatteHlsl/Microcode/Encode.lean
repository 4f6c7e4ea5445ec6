import LatteHlsl.Isa.Instr.Alu
import LatteHlsl.Isa.Instr.Control
import LatteHlsl.Isa.Instr.Fetch

/-!
# Encoding instructions

Instructions are made from an operation and a list of edits. An edit sets fields through the same
layouts that the instruction views read. Numbers that do not fit a field lose their high bits.

* `CfInstr.ofOp`, `CfInstr.ofAluOp`, `CfInstr.ofExport`, with `CfEdit`.
* `AluInstr.ofOp2`, `AluInstr.ofOp3`, with `AluEdit`.
* `TexInstr.ofOp`, with `TexEdit`.
* `VtxInstr.ofOp`, `VtxInstr.ofSemantic`, with `VtxEdit`.
-/

namespace LatteHlsl.Isa

open Layout

/-! ## Control flow instructions -/

/-- A change to a control flow instruction. -/
inductive CfEdit where
  /-- Set the number of the export kind, reserved ones included. -/
  | exportType (n : Nat)
  | endOfProgram
  | addr (n : Nat)
  /-- Set the number of instructions of a fetch clause. -/
  | count (n : Nat)
  | aluAddr (n : Nat)
  /-- Set the number of slots of an ALU clause. -/
  | aluCount (n : Nat)
  /-- Lock a window of a uniform block into a constant cache bank. -/
  | kcache (bank : KcacheBank) (block : Nat) (mode : KcacheMode) (addr : Nat)
  | sels (s : Quad Sel)
  /-- Set the number of consecutive registers exported. -/
  | burst (n : Nat)
deriving DecidableEq

namespace CfInstr

/-- Set the selectors of the exported components. -/
def setSels (i : CfInstr) (s : Quad Sel) : CfInstr :=
  let w := CfExportWord1.selX.put i.word1 s.x.index
  let w := CfExportWord1.selY.put w s.y.index
  let w := CfExportWord1.selZ.put w s.z.index
  { i with word1 := CfExportWord1.selW.put w s.w.index }

/-- Set the number of instructions of a fetch clause. The count is held less one, in three bits
and a fourth that is set from nine instructions on. -/
def setCount (i : CfInstr) (n : Nat) : CfInstr :=
  let low := if 8 < n then n - 9 else n - 1
  let high := if 8 < n then 1 else 0
  { i with word1 := CfWord1.count3.put (CfWord1.count.put i.word1 low) high }

/-- Lock a window of a uniform block into a constant cache bank. -/
def setKcache (i : CfInstr) (bank : KcacheBank) (block : Nat) (mode : KcacheMode) (addr : Nat) :
    CfInstr :=
  match bank with
  | .first =>
    { word0 := CfAluWord0.kcacheMode0.put (CfAluWord0.kcacheBank0.put i.word0 block) mode.index
      word1 := CfAluWord1.kcacheAddr0.put i.word1 addr }
  | .second =>
    { word0 := CfAluWord0.kcacheBank1.put i.word0 block
      word1 := CfAluWord1.kcacheAddr1.put (CfAluWord1.kcacheMode1.put i.word1 mode.index) addr }

/-- Apply an edit. -/
def edit (i : CfInstr) : CfEdit → CfInstr
  | .exportType n => { i with word0 := CfExportWord0.type.put i.word0 n }
  | .endOfProgram => { i with word1 := CfWord1.endOfProgram.put i.word1 1 }
  | .addr n => { i with word0 := CfWord0.addr.put i.word0 n }
  | .count n => i.setCount n
  | .aluAddr n => { i with word0 := CfAluWord0.addr.put i.word0 n }
  | .aluCount n => { i with word1 := CfAluWord1.count.put i.word1 (n - 1) }
  | .kcache bank block mode addr => i.setKcache bank block mode addr
  | .sels s => i.setSels s
  | .burst n => { i with word1 := CfExportWord1.burstCount.put i.word1 (n - 1) }

/-- A plain instruction. -/
def ofOp (op : CfOp) : CfInstr := ⟨0, CfWord1.cfInst.put 0 op.id⟩

/-- An instruction that starts an ALU clause. -/
def ofAluOp (op : CfAluOp) : CfInstr := ⟨0, CfAluWord1.cfInst.put 0 op.id⟩

/-- An export of register `gpr` to target `arrayBase`, every component from its own channel. -/
def ofExport (op : ExportOp) (kind : ExportKind) (arrayBase gpr : Nat) : CfInstr :=
  let w := CfExportWord0.arrayBase.put 0 arrayBase
  let w := CfExportWord0.type.put w kind.index
  setSels ⟨CfExportWord0.rwGpr.put w gpr, CfExportWord1.cfInst.put 0 op.id⟩ Sel.identity

end CfInstr

/-! ## ALU instructions -/

/-- A change to an ALU instruction. Sources are numbered as in `AluInstr.src`. -/
inductive AluEdit where
  | dst (gpr : Nat) (chan : Chan)
  | dstRel
  | src (n sel : Nat) (chan : Chan)
  | srcRel (n mode : Nat)
  | neg (n : Nat)
  /-- Take the absolute value of a source; only two-operand instructions can. -/
  | abs (n : Nat)
  /-- Set the register write bit; only two-operand instructions have one. -/
  | write (enabled : Bool)
  | clamp
  /-- Set the output modifier; only two-operand instructions have one. -/
  | omod (m : OutputModifier)
  | last
deriving DecidableEq

namespace AluInstr

/-- Set selector and channel of a source. -/
def setSrc (i : AluInstr) (n sel : Nat) (chan : Chan) : AluInstr :=
  match n with
  | 0 => { i with word0 := AluWord0.src0Chan.put (AluWord0.src0Sel.put i.word0 sel) chan.index }
  | 1 => { i with word0 := AluWord0.src1Chan.put (AluWord0.src1Sel.put i.word0 sel) chan.index }
  | _ =>
    { i with word1 := AluWord1Op3.src2Chan.put (AluWord1Op3.src2Sel.put i.word1 sel) chan.index }

/-- Address a source relatively. -/
def setSrcRel (i : AluInstr) (n mode : Nat) : AluInstr :=
  let w := AluWord0.indexMode.put i.word0 mode
  match n with
  | 0 => { i with word0 := AluWord0.src0Rel.put w 1 }
  | 1 => { i with word0 := AluWord0.src1Rel.put w 1 }
  | _ => { word0 := w, word1 := AluWord1Op3.src2Rel.put i.word1 1 }

/-- Negate a source. -/
def setNeg (i : AluInstr) (n : Nat) : AluInstr :=
  match n with
  | 0 => { i with word0 := AluWord0.src0Neg.put i.word0 1 }
  | 1 => { i with word0 := AluWord0.src1Neg.put i.word0 1 }
  | _ => { i with word1 := AluWord1Op3.src2Neg.put i.word1 1 }

/-- Change a field of the second word that only two-operand instructions have. -/
def putOp2 (i : AluInstr) (f : BitField) (n : Nat) : AluInstr :=
  match i.encoding with
  | .op2 => { i with word1 := f.put i.word1 n }
  | .op3 => i

/-- Apply an edit. -/
def edit (i : AluInstr) : AluEdit → AluInstr
  | .dst gpr chan =>
    { i with word1 := AluWord1Op2.dstChan.put (AluWord1Op2.dstGpr.put i.word1 gpr) chan.index }
  | .dstRel => { i with word1 := AluWord1Op2.dstRel.put i.word1 1 }
  | .src n sel chan => i.setSrc n sel chan
  | .srcRel n mode => i.setSrcRel n mode
  | .neg n => i.setNeg n
  | .abs n =>
    match n with
    | 0 => i.putOp2 AluWord1Op2.src0Abs 1
    | _ => i.putOp2 AluWord1Op2.src1Abs 1
  | .write enabled => i.putOp2 AluWord1Op2.writeMask enabled.toNat
  | .clamp => { i with word1 := AluWord1Op2.clamp.put i.word1 1 }
  | .omod m => i.putOp2 AluWord1Op2.omod m.index
  | .last => { i with word0 := AluWord0.last.put i.word0 1 }

/-- A two-operand instruction that writes its register. -/
def ofOp2 (op : AluOp2) : AluInstr :=
  ⟨0, AluWord1Op2.writeMask.put (AluWord1Op2.aluInst.put 0 op.id) 1⟩

/-- A three-operand instruction. -/
def ofOp3 (op : AluOp3) : AluInstr := ⟨0, AluWord1Op3.aluInst.put 0 op.id⟩

end AluInstr

/-! ## Texture fetches -/

/-- A change to a texture fetch. -/
inductive TexEdit where
  | src (gpr : Nat) (sels : Quad Sel)
  | dst (gpr : Nat) (sels : Quad Sel)
  | offset (x y z : Int)
  /-- Count texels on one channel. -/
  | unnormalized (chan : Chan)
  | fractionMode
deriving DecidableEq

namespace TexInstr

/-- Set where the coordinates come from. -/
def setSrc (i : TexInstr) (gpr : Nat) (s : Quad Sel) : TexInstr :=
  let w := TexWord2.srcSelX.put i.word2 s.x.index
  let w := TexWord2.srcSelY.put w s.y.index
  let w := TexWord2.srcSelZ.put w s.z.index
  { i with
    word0 := TexWord0.srcGpr.put i.word0 gpr
    word2 := TexWord2.srcSelW.put w s.w.index }

/-- Set where the result goes. -/
def setDst (i : TexInstr) (gpr : Nat) (s : Quad Sel) : TexInstr :=
  let w := TexWord1.dstGpr.put i.word1 gpr
  let w := TexWord1.dstSelX.put w s.x.index
  let w := TexWord1.dstSelY.put w s.y.index
  let w := TexWord1.dstSelZ.put w s.z.index
  { i with word1 := TexWord1.dstSelW.put w s.w.index }

/-- Set the texel offsets. -/
def setOffset (i : TexInstr) (x y z : Int) : TexInstr :=
  let w := TexWord2.offsetX.set i.word2 (BitVec.ofInt 32 x)
  let w := TexWord2.offsetY.set w (BitVec.ofInt 32 y)
  { i with word2 := TexWord2.offsetZ.set w (BitVec.ofInt 32 z) }

/-- The coordinate type field of a channel. -/
def coordTypeField : Chan → BitField
  | .x => TexWord1.coordTypeX
  | .y => TexWord1.coordTypeY
  | .z => TexWord1.coordTypeZ
  | .w => TexWord1.coordTypeW

/-- Apply an edit. -/
def edit (i : TexInstr) : TexEdit → TexInstr
  | .src gpr sels => i.setSrc gpr sels
  | .dst gpr sels => i.setDst gpr sels
  | .offset x y z => i.setOffset x y z
  | .unnormalized chan => { i with word1 := (coordTypeField chan).put i.word1 0 }
  | .fractionMode => { i with word0 := TexWord0.bcFracMode.put i.word0 1 }

/-- A fetch with normalized coordinates on every channel. -/
def ofOp (op : TexOp) (resource sampler : Nat) : TexInstr :=
  let i : TexInstr :=
    { word0 := TexWord0.resourceId.put (TexWord0.texInst.put 0 op.id) resource
      word1 := Chan.all.foldl (fun w c => (coordTypeField c).put w 1) 0
      word2 := TexWord2.samplerId.put 0 sampler
      padding := 0 }
  (i.setSrc 0 Sel.identity).setDst 0 Sel.identity

end TexInstr

/-! ## Vertex fetches -/

/-- A change to a vertex fetch. -/
inductive VtxEdit where
  | dstSels (s : Quad Sel)
  | fetchType (t : FetchType)
  | srcSelX (s : Sel)
  /-- Set the number of the data format, unknown ones included. -/
  | dataFormat (n : Nat)
  | offset (n : Nat)
deriving DecidableEq

namespace VtxInstr

/-- Set what goes into each component of the destination. -/
def setDstSels (i : VtxInstr) (s : Quad Sel) : VtxInstr :=
  let w := VtxWord1.dstSelX.put i.word1 s.x.index
  let w := VtxWord1.dstSelY.put w s.y.index
  let w := VtxWord1.dstSelZ.put w s.z.index
  { i with word1 := VtxWord1.dstSelW.put w s.w.index }

/-- Apply an edit. -/
def edit (i : VtxInstr) : VtxEdit → VtxInstr
  | .dstSels s => i.setDstSels s
  | .fetchType t => { i with word0 := VtxWord0.fetchType.put i.word0 t.index }
  | .srcSelX s => { i with word0 := VtxWord0.srcSelX.put i.word0 s.index }
  | .dataFormat n => { i with word1 := VtxWord1.dataFormat.put i.word1 n }
  | .offset n => { i with word2 := VtxWord2.offset.put i.word2 n }

/-- A fetch of four floats indexed by the X channel. -/
def ofOp (op : VtxOp) (buffer : Nat) : VtxInstr :=
  let w := VtxWord0.bufferId.put (VtxWord0.vtxInst.put 0 op.id) buffer
  let i : VtxInstr :=
    { word0 := VtxWord0.srcSelX.put w Sel.x.index
      word1 := VtxWord1.dataFormat.put 0 DataFormat.fmt32_32_32_32Float.index
      word2 := 0
      padding := 0 }
  i.setDstSels Sel.identity

/-- A fetch into the register of semantic `id`. -/
def ofSemantic (buffer id : Nat) : VtxInstr :=
  let i := ofOp .semantic buffer
  { i with word1 := VtxWord1.semanticId.put i.word1 id }

end VtxInstr

end LatteHlsl.Isa
