import LatteHlsl.Word.BitField

/-!
# Instruction word layouts

The bit fields of every instruction word. A layout lists fields that do not overlap, in bit
order; `overlays` are further views of bits that the fields already cover.

* One namespace per word holds its fields.
* `WordLayout`, `layouts`: the table of all words, by their architectural names.
* `field?`: a field by the names of its word and itself.
-/

namespace LatteHlsl.Isa

/-- The fields of one instruction word. -/
structure WordLayout where
  name : String
  fields : List BitField
  overlays : List BitField := []

namespace Layout

/-! ## The first word of a plain control flow instruction -/

namespace CfWord0

def addr : BitField := ⟨"ADDR", 0, 32⟩

def layout : WordLayout where
  name := "CF_WORD0"
  fields :=
    [addr]

end CfWord0

/-! ## The second word of a plain control flow instruction -/

namespace CfWord1

def popCount : BitField := ⟨"POP_COUNT", 0, 3⟩
def cfConst : BitField := ⟨"CF_CONST", 3, 5⟩
def cond : BitField := ⟨"COND", 8, 2⟩
def count : BitField := ⟨"COUNT", 10, 3⟩
def callCount : BitField := ⟨"CALL_COUNT", 13, 6⟩
def count3 : BitField := ⟨"COUNT_3", 19, 1⟩
def endOfProgram : BitField := ⟨"END_OF_PROGRAM", 21, 1⟩
def validPixelMode : BitField := ⟨"VALID_PIXEL_MODE", 22, 1⟩
def cfInst : BitField := ⟨"CF_INST", 23, 7⟩
def wholeQuadMode : BitField := ⟨"WHOLE_QUAD_MODE", 30, 1⟩
def barrier : BitField := ⟨"BARRIER", 31, 1⟩
def cfInstType : BitField := ⟨"CF_INST_TYPE", 28, 2⟩

def layout : WordLayout where
  name := "CF_WORD1"
  fields :=
    [popCount, cfConst, cond, count, callCount, count3, endOfProgram, validPixelMode, cfInst,
      wholeQuadMode, barrier]
  overlays := [cfInstType]

end CfWord1

/-! ## The first word of a control flow instruction that starts an ALU clause -/

namespace CfAluWord0

def addr : BitField := ⟨"ADDR", 0, 22⟩
def kcacheBank0 : BitField := ⟨"KCACHE_BANK0", 22, 4⟩
def kcacheBank1 : BitField := ⟨"KCACHE_BANK1", 26, 4⟩
def kcacheMode0 : BitField := ⟨"KCACHE_MODE0", 30, 2⟩

def layout : WordLayout where
  name := "CF_ALU_WORD0"
  fields :=
    [addr, kcacheBank0, kcacheBank1, kcacheMode0]

end CfAluWord0

/-! ## The second word of a control flow instruction that starts an ALU clause -/

namespace CfAluWord1

def kcacheMode1 : BitField := ⟨"KCACHE_MODE1", 0, 2⟩
def kcacheAddr0 : BitField := ⟨"KCACHE_ADDR0", 2, 8⟩
def kcacheAddr1 : BitField := ⟨"KCACHE_ADDR1", 10, 8⟩
def count : BitField := ⟨"COUNT", 18, 7⟩
def altConst : BitField := ⟨"ALT_CONST", 25, 1⟩
def cfInst : BitField := ⟨"CF_INST", 26, 4⟩
def wholeQuadMode : BitField := ⟨"WHOLE_QUAD_MODE", 30, 1⟩
def barrier : BitField := ⟨"BARRIER", 31, 1⟩

def layout : WordLayout where
  name := "CF_ALU_WORD1"
  fields :=
    [kcacheMode1, kcacheAddr0, kcacheAddr1, count, altConst, cfInst, wholeQuadMode, barrier]

end CfAluWord1

/-! ## The first word of an export -/

namespace CfExportWord0

def arrayBase : BitField := ⟨"ARRAY_BASE", 0, 13⟩
def type : BitField := ⟨"TYPE", 13, 2⟩
def rwGpr : BitField := ⟨"RW_GPR", 15, 7⟩
def rwRel : BitField := ⟨"RW_REL", 22, 1⟩
def indexGpr : BitField := ⟨"INDEX_GPR", 23, 7⟩
def elemSize : BitField := ⟨"ELEM_SIZE", 30, 2⟩

def layout : WordLayout where
  name := "CF_ALLOC_EXPORT_WORD0"
  fields :=
    [arrayBase, type, rwGpr, rwRel, indexGpr, elemSize]

end CfExportWord0

/-! ## The second word of an export, in the form that carries selectors -/

namespace CfExportWord1

def selX : BitField := ⟨"SEL_X", 0, 3⟩
def selY : BitField := ⟨"SEL_Y", 3, 3⟩
def selZ : BitField := ⟨"SEL_Z", 6, 3⟩
def selW : BitField := ⟨"SEL_W", 9, 3⟩
def burstCount : BitField := ⟨"BURST_COUNT", 17, 4⟩
def endOfProgram : BitField := ⟨"END_OF_PROGRAM", 21, 1⟩
def validPixelMode : BitField := ⟨"VALID_PIXEL_MODE", 22, 1⟩
def cfInst : BitField := ⟨"CF_INST", 23, 7⟩
def wholeQuadMode : BitField := ⟨"WHOLE_QUAD_MODE", 30, 1⟩
def barrier : BitField := ⟨"BARRIER", 31, 1⟩

def layout : WordLayout where
  name := "CF_ALLOC_EXPORT_WORD1"
  fields :=
    [selX, selY, selZ, selW, burstCount, endOfProgram, validPixelMode, cfInst, wholeQuadMode,
      barrier]

end CfExportWord1

/-! ## The first word of an ALU instruction -/

namespace AluWord0

def src0Sel : BitField := ⟨"SRC0_SEL", 0, 9⟩
def src0Rel : BitField := ⟨"SRC0_REL", 9, 1⟩
def src0Chan : BitField := ⟨"SRC0_CHAN", 10, 2⟩
def src0Neg : BitField := ⟨"SRC0_NEG", 12, 1⟩
def src1Sel : BitField := ⟨"SRC1_SEL", 13, 9⟩
def src1Rel : BitField := ⟨"SRC1_REL", 22, 1⟩
def src1Chan : BitField := ⟨"SRC1_CHAN", 23, 2⟩
def src1Neg : BitField := ⟨"SRC1_NEG", 25, 1⟩
def indexMode : BitField := ⟨"INDEX_MODE", 26, 3⟩
def predSel : BitField := ⟨"PRED_SEL", 29, 2⟩
def last : BitField := ⟨"LAST", 31, 1⟩

def layout : WordLayout where
  name := "ALU_WORD0"
  fields :=
    [src0Sel, src0Rel, src0Chan, src0Neg, src1Sel, src1Rel, src1Chan, src1Neg, indexMode,
      predSel, last]

end AluWord0

/-! ## The second word of an ALU instruction with two operands -/

namespace AluWord1Op2

def src0Abs : BitField := ⟨"SRC0_ABS", 0, 1⟩
def src1Abs : BitField := ⟨"SRC1_ABS", 1, 1⟩
def updateExecuteMask : BitField := ⟨"UPDATE_EXECUTE_MASK", 2, 1⟩
def updatePred : BitField := ⟨"UPDATE_PRED", 3, 1⟩
def writeMask : BitField := ⟨"WRITE_MASK", 4, 1⟩
def omod : BitField := ⟨"OMOD", 5, 2⟩
def aluInst : BitField := ⟨"ALU_INST", 7, 11⟩
def bankSwizzle : BitField := ⟨"BANK_SWIZZLE", 18, 3⟩
def dstGpr : BitField := ⟨"DST_GPR", 21, 7⟩
def dstRel : BitField := ⟨"DST_REL", 28, 1⟩
def dstChan : BitField := ⟨"DST_CHAN", 29, 2⟩
def clamp : BitField := ⟨"CLAMP", 31, 1⟩
def encoding : BitField := ⟨"ENCODING", 15, 3⟩

def layout : WordLayout where
  name := "ALU_WORD1_OP2"
  fields :=
    [src0Abs, src1Abs, updateExecuteMask, updatePred, writeMask, omod, aluInst, bankSwizzle,
      dstGpr, dstRel, dstChan, clamp]
  overlays := [encoding]

end AluWord1Op2

/-! ## The second word of an ALU instruction with three operands -/

namespace AluWord1Op3

def src2Sel : BitField := ⟨"SRC2_SEL", 0, 9⟩
def src2Rel : BitField := ⟨"SRC2_REL", 9, 1⟩
def src2Chan : BitField := ⟨"SRC2_CHAN", 10, 2⟩
def src2Neg : BitField := ⟨"SRC2_NEG", 12, 1⟩
def aluInst : BitField := ⟨"ALU_INST", 13, 5⟩
def bankSwizzle : BitField := ⟨"BANK_SWIZZLE", 18, 3⟩
def dstGpr : BitField := ⟨"DST_GPR", 21, 7⟩
def dstRel : BitField := ⟨"DST_REL", 28, 1⟩
def dstChan : BitField := ⟨"DST_CHAN", 29, 2⟩
def clamp : BitField := ⟨"CLAMP", 31, 1⟩

def layout : WordLayout where
  name := "ALU_WORD1_OP3"
  fields :=
    [src2Sel, src2Rel, src2Chan, src2Neg, aluInst, bankSwizzle, dstGpr, dstRel, dstChan, clamp]

end AluWord1Op3

/-! ## The first word of a texture fetch -/

namespace TexWord0

def texInst : BitField := ⟨"TEX_INST", 0, 5⟩
def bcFracMode : BitField := ⟨"BC_FRAC_MODE", 5, 1⟩
def fetchWholeQuad : BitField := ⟨"FETCH_WHOLE_QUAD", 7, 1⟩
def resourceId : BitField := ⟨"RESOURCE_ID", 8, 8⟩
def srcGpr : BitField := ⟨"SRC_GPR", 16, 7⟩
def srcRel : BitField := ⟨"SRC_REL", 23, 1⟩
def altConst : BitField := ⟨"ALT_CONST", 24, 1⟩

def layout : WordLayout where
  name := "TEX_WORD0"
  fields :=
    [texInst, bcFracMode, fetchWholeQuad, resourceId, srcGpr, srcRel, altConst]

end TexWord0

/-! ## The second word of a texture fetch -/

namespace TexWord1

def dstGpr : BitField := ⟨"DST_GPR", 0, 7⟩
def dstRel : BitField := ⟨"DST_REL", 7, 1⟩
def dstSelX : BitField := ⟨"DST_SEL_X", 9, 3⟩
def dstSelY : BitField := ⟨"DST_SEL_Y", 12, 3⟩
def dstSelZ : BitField := ⟨"DST_SEL_Z", 15, 3⟩
def dstSelW : BitField := ⟨"DST_SEL_W", 18, 3⟩
def lodBias : BitField := ⟨"LOD_BIAS", 21, 7⟩
def coordTypeX : BitField := ⟨"COORD_TYPE_X", 28, 1⟩
def coordTypeY : BitField := ⟨"COORD_TYPE_Y", 29, 1⟩
def coordTypeZ : BitField := ⟨"COORD_TYPE_Z", 30, 1⟩
def coordTypeW : BitField := ⟨"COORD_TYPE_W", 31, 1⟩

def layout : WordLayout where
  name := "TEX_WORD1"
  fields :=
    [dstGpr, dstRel, dstSelX, dstSelY, dstSelZ, dstSelW, lodBias, coordTypeX, coordTypeY,
      coordTypeZ, coordTypeW]

end TexWord1

/-! ## The third word of a texture fetch -/

namespace TexWord2

def offsetX : BitField := ⟨"OFFSET_X", 0, 5⟩
def offsetY : BitField := ⟨"OFFSET_Y", 5, 5⟩
def offsetZ : BitField := ⟨"OFFSET_Z", 10, 5⟩
def samplerId : BitField := ⟨"SAMPLER_ID", 15, 5⟩
def srcSelX : BitField := ⟨"SRC_SEL_X", 20, 3⟩
def srcSelY : BitField := ⟨"SRC_SEL_Y", 23, 3⟩
def srcSelZ : BitField := ⟨"SRC_SEL_Z", 26, 3⟩
def srcSelW : BitField := ⟨"SRC_SEL_W", 29, 3⟩

def layout : WordLayout where
  name := "TEX_WORD2"
  fields :=
    [offsetX, offsetY, offsetZ, samplerId, srcSelX, srcSelY, srcSelZ, srcSelW]

end TexWord2

/-! ## The first word of a vertex fetch -/

namespace VtxWord0

def vtxInst : BitField := ⟨"VTX_INST", 0, 5⟩
def fetchType : BitField := ⟨"FETCH_TYPE", 5, 2⟩
def fetchWholeQuad : BitField := ⟨"FETCH_WHOLE_QUAD", 7, 1⟩
def bufferId : BitField := ⟨"BUFFER_ID", 8, 8⟩
def srcGpr : BitField := ⟨"SRC_GPR", 16, 7⟩
def srcRel : BitField := ⟨"SRC_REL", 23, 1⟩
def srcSelX : BitField := ⟨"SRC_SEL_X", 24, 2⟩
def megaFetchCount : BitField := ⟨"MEGA_FETCH_COUNT", 26, 6⟩

def layout : WordLayout where
  name := "VTX_WORD0"
  fields :=
    [vtxInst, fetchType, fetchWholeQuad, bufferId, srcGpr, srcRel, srcSelX, megaFetchCount]

end VtxWord0

/-! ## The second word of a vertex fetch; a semantic fetch reuses its low byte -/

namespace VtxWord1

def dstGpr : BitField := ⟨"DST_GPR", 0, 7⟩
def dstRel : BitField := ⟨"DST_REL", 7, 1⟩
def dstSelX : BitField := ⟨"DST_SEL_X", 9, 3⟩
def dstSelY : BitField := ⟨"DST_SEL_Y", 12, 3⟩
def dstSelZ : BitField := ⟨"DST_SEL_Z", 15, 3⟩
def dstSelW : BitField := ⟨"DST_SEL_W", 18, 3⟩
def useConstFields : BitField := ⟨"USE_CONST_FIELDS", 21, 1⟩
def dataFormat : BitField := ⟨"DATA_FORMAT", 22, 6⟩
def numFormatAll : BitField := ⟨"NUM_FORMAT_ALL", 28, 2⟩
def formatCompAll : BitField := ⟨"FORMAT_COMP_ALL", 30, 1⟩
def srfModeAll : BitField := ⟨"SRF_MODE_ALL", 31, 1⟩
def semanticId : BitField := ⟨"SEMANTIC_ID", 0, 8⟩

def layout : WordLayout where
  name := "VTX_WORD1"
  fields :=
    [dstGpr, dstRel, dstSelX, dstSelY, dstSelZ, dstSelW, useConstFields, dataFormat,
      numFormatAll, formatCompAll, srfModeAll]
  overlays := [semanticId]

end VtxWord1

/-! ## The third word of a vertex fetch -/

namespace VtxWord2

def offset : BitField := ⟨"OFFSET", 0, 16⟩
def endianSwap : BitField := ⟨"ENDIAN_SWAP", 16, 2⟩
def constBufNoStride : BitField := ⟨"CONST_BUF_NO_STRIDE", 18, 1⟩
def megaFetch : BitField := ⟨"MEGA_FETCH", 19, 1⟩
def altConst : BitField := ⟨"ALT_CONST", 20, 1⟩

def layout : WordLayout where
  name := "VTX_WORD2"
  fields :=
    [offset, endianSwap, constBufNoStride, megaFetch, altConst]

end VtxWord2

end Layout

/-- Every word layout. -/
def layouts : List WordLayout :=
  [Layout.CfWord0.layout,
   Layout.CfWord1.layout,
   Layout.CfAluWord0.layout,
   Layout.CfAluWord1.layout,
   Layout.CfExportWord0.layout,
   Layout.CfExportWord1.layout,
   Layout.AluWord0.layout,
   Layout.AluWord1Op2.layout,
   Layout.AluWord1Op3.layout,
   Layout.TexWord0.layout,
   Layout.TexWord1.layout,
   Layout.TexWord2.layout,
   Layout.VtxWord0.layout,
   Layout.VtxWord1.layout,
   Layout.VtxWord2.layout]

/-- The layout of the word called `name`. -/
def layout? (name : String) : Option WordLayout := layouts.find? (·.name == name)

/-- The field or overlay `name` of the word called `word`. -/
def field? (word name : String) : Option BitField := do
  let l ← layout? word
  (l.fields ++ l.overlays).find? (·.name == name)

end LatteHlsl.Isa
