import LatteHlsl.Fault
import LatteHlsl.Isa.Layout

/-!
# Fetch instructions

Texture and vertex fetches are three words and a fourth that pads them to sixteen bytes.
-/

namespace LatteHlsl.Isa

open Layout

/-! ## Texture fetches -/

/-- A texture fetch. -/
structure TexInstr where
  word0 : Word
  word1 : Word
  word2 : Word
  padding : Word
deriving DecidableEq

namespace TexInstr

/-- Size in bytes. -/
def byteSize : Nat := 16

/-- The instruction that starts at a byte position. -/
def readAt (bytes : Array UInt8) (pos : Nat) : TexInstr :=
  ⟨Word.readAt bytes pos, Word.readAt bytes (pos + 4), Word.readAt bytes (pos + 8),
    Word.readAt bytes (pos + 12)⟩

/-- The instruction's bytes. -/
def toBytes (i : TexInstr) : List UInt8 :=
  Word.listToBytes [i.word0, i.word1, i.word2, i.padding]

/-- The operation. -/
def op (i : TexInstr) : Except DecodeFault TexOp :=
  let id := TexWord0.texInst.value i.word0
  match TexOp.ofId? id with
  | some op => .ok op
  | none => .error (.unexpectedOpcode .tex id)

/-- Whether the fetch addresses fractions of a texel. -/
def fractionMode (i : TexInstr) : Bool := TexWord0.bcFracMode.test i.word0

/-- The texture's number. -/
def resourceId (i : TexInstr) : Nat := TexWord0.resourceId.value i.word0

def srcGpr (i : TexInstr) : Nat := TexWord0.srcGpr.value i.word0

def srcRel (i : TexInstr) : Bool := TexWord0.srcRel.test i.word0

def dstGpr (i : TexInstr) : Nat := TexWord1.dstGpr.value i.word1

def dstRel (i : TexInstr) : Bool := TexWord1.dstRel.test i.word1

/-- What goes into each component of the destination. -/
def dstSels (i : TexInstr) : Quad Sel where
  x := .ofBits (TexWord1.dstSelX.value i.word1)
  y := .ofBits (TexWord1.dstSelY.value i.word1)
  z := .ofBits (TexWord1.dstSelZ.value i.word1)
  w := .ofBits (TexWord1.dstSelW.value i.word1)

def lodBias (i : TexInstr) : Int := TexWord1.lodBias.signed i.word1

/-- The coordinate type of each channel. -/
def coordTypes (i : TexInstr) : Quad CoordType where
  x := .ofBool (TexWord1.coordTypeX.test i.word1)
  y := .ofBool (TexWord1.coordTypeY.test i.word1)
  z := .ofBool (TexWord1.coordTypeZ.test i.word1)
  w := .ofBool (TexWord1.coordTypeW.test i.word1)

/-- Texel offset along the first axis. -/
def offsetX (i : TexInstr) : Int := TexWord2.offsetX.signed i.word2

/-- Texel offset along the second axis. -/
def offsetY (i : TexInstr) : Int := TexWord2.offsetY.signed i.word2

/-- Texel offset along the third axis. -/
def offsetZ (i : TexInstr) : Int := TexWord2.offsetZ.signed i.word2

/-- The sampler's number. -/
def samplerId (i : TexInstr) : Nat := TexWord2.samplerId.value i.word2

/-- Where each coordinate comes from. -/
def srcSels (i : TexInstr) : Quad Sel where
  x := .ofBits (TexWord2.srcSelX.value i.word2)
  y := .ofBits (TexWord2.srcSelY.value i.word2)
  z := .ofBits (TexWord2.srcSelZ.value i.word2)
  w := .ofBits (TexWord2.srcSelW.value i.word2)

end TexInstr

/-! ## Vertex fetches -/

/-- A vertex fetch. -/
structure VtxInstr where
  word0 : Word
  word1 : Word
  word2 : Word
  padding : Word
deriving DecidableEq

namespace VtxInstr

/-- Size in bytes. -/
def byteSize : Nat := 16

/-- The instruction that starts at a byte position. -/
def readAt (bytes : Array UInt8) (pos : Nat) : VtxInstr :=
  ⟨Word.readAt bytes pos, Word.readAt bytes (pos + 4), Word.readAt bytes (pos + 8),
    Word.readAt bytes (pos + 12)⟩

/-- The instruction's bytes. -/
def toBytes (i : VtxInstr) : List UInt8 :=
  Word.listToBytes [i.word0, i.word1, i.word2, i.padding]

/-- The operation. -/
def op (i : VtxInstr) : Except DecodeFault VtxOp :=
  let id := VtxWord0.vtxInst.value i.word0
  match VtxOp.ofId? id with
  | some op => .ok op
  | none => .error (.unexpectedOpcode .vtx id)

/-- The number of the fetch type. -/
def fetchType (i : VtxInstr) : Nat := VtxWord0.fetchType.value i.word0

def bufferId (i : VtxInstr) : Nat := VtxWord0.bufferId.value i.word0

def srcGpr (i : VtxInstr) : Nat := VtxWord0.srcGpr.value i.word0

/-- The channel the index comes from. -/
def srcSelX (i : VtxInstr) : Sel := .ofBits (VtxWord0.srcSelX.value i.word0)

def megaFetchCount (i : VtxInstr) : Nat := VtxWord0.megaFetchCount.value i.word0

def dstGpr (i : VtxInstr) : Nat := VtxWord1.dstGpr.value i.word1

/-- The semantic a semantic fetch loads; it lies over the destination register. -/
def semanticId (i : VtxInstr) : Nat := VtxWord1.semanticId.value i.word1

/-- What goes into each component of the destination. -/
def dstSels (i : VtxInstr) : Quad Sel where
  x := .ofBits (VtxWord1.dstSelX.value i.word1)
  y := .ofBits (VtxWord1.dstSelY.value i.word1)
  z := .ofBits (VtxWord1.dstSelZ.value i.word1)
  w := .ofBits (VtxWord1.dstSelW.value i.word1)

def useConstFields (i : VtxInstr) : Bool := VtxWord1.useConstFields.test i.word1

/-- The number of the data format. -/
def dataFormat (i : VtxInstr) : Nat := VtxWord1.dataFormat.value i.word1

def numFormatAll (i : VtxInstr) : Nat := VtxWord1.numFormatAll.value i.word1

def formatCompAll (i : VtxInstr) : Bool := VtxWord1.formatCompAll.test i.word1

/-- Byte offset inside one vertex. -/
def offset (i : VtxInstr) : Nat := VtxWord2.offset.value i.word2

def endianSwap (i : VtxInstr) : Nat := VtxWord2.endianSwap.value i.word2

def megaFetch (i : VtxInstr) : Bool := VtxWord2.megaFetch.test i.word2

end VtxInstr

end LatteHlsl.Isa
