/-!
# Fetch operations

Operations of texture fetch clauses and of vertex fetch clauses.
-/

namespace LatteHlsl.Isa

/-- Operations of a texture fetch clause. -/
inductive TexOp where
  | vtxFetch | vtxSemantic | mem | ld | getTextureInfo | getNumberOfSamples | getLod
  | getGradientsH | getGradientsV | getLerp | keepGradients | setGradientsH | setGradientsV
  | pass | setCubemapIndex | fetch4 | sample | sampleL | sampleLb | sampleLz | sampleG | sampleGL
  | sampleGLb | sampleGLz | sampleC | sampleCL | sampleCLb | sampleCLz | sampleCG | sampleCGL
  | sampleCGLb | sampleCGLz
deriving DecidableEq

namespace TexOp

/-- The operations in the order of their ids. -/
def all : List TexOp :=
  [.vtxFetch, .vtxSemantic, .mem, .ld, .getTextureInfo, .getNumberOfSamples, .getLod,
   .getGradientsH, .getGradientsV, .getLerp, .keepGradients, .setGradientsH, .setGradientsV,
   .pass, .setCubemapIndex, .fetch4, .sample, .sampleL, .sampleLb, .sampleLz, .sampleG, .sampleGL,
   .sampleGLb, .sampleGLz, .sampleC, .sampleCL, .sampleCLb, .sampleCLz, .sampleCG, .sampleCGL,
   .sampleCGLb, .sampleCGLz]

/-- Id and mnemonic. -/
def entry : TexOp → Nat × String
  | .vtxFetch => (0, "VTX_FETCH")
  | .vtxSemantic => (1, "VTX_SEMANTIC")
  | .mem => (2, "MEM")
  | .ld => (3, "LD")
  | .getTextureInfo => (4, "GET_TEXTURE_INFO")
  | .getNumberOfSamples => (5, "GET_NUMBER_OF_SAMPLES")
  | .getLod => (6, "GET_LOD")
  | .getGradientsH => (7, "GET_GRADIENTS_H")
  | .getGradientsV => (8, "GET_GRADIENTS_V")
  | .getLerp => (9, "GET_LERP")
  | .keepGradients => (10, "KEEP_GRADIENTS")
  | .setGradientsH => (11, "SET_GRADIENTS_H")
  | .setGradientsV => (12, "SET_GRADIENTS_V")
  | .pass => (13, "PASS")
  | .setCubemapIndex => (14, "SET_CUBEMAP_INDEX")
  | .fetch4 => (15, "FETCH4")
  | .sample => (16, "SAMPLE")
  | .sampleL => (17, "SAMPLE_L")
  | .sampleLb => (18, "SAMPLE_LB")
  | .sampleLz => (19, "SAMPLE_LZ")
  | .sampleG => (20, "SAMPLE_G")
  | .sampleGL => (21, "SAMPLE_G_L")
  | .sampleGLb => (22, "SAMPLE_G_LB")
  | .sampleGLz => (23, "SAMPLE_G_LZ")
  | .sampleC => (24, "SAMPLE_C")
  | .sampleCL => (25, "SAMPLE_C_L")
  | .sampleCLb => (26, "SAMPLE_C_LB")
  | .sampleCLz => (27, "SAMPLE_C_LZ")
  | .sampleCG => (28, "SAMPLE_C_G")
  | .sampleCGL => (29, "SAMPLE_C_G_L")
  | .sampleCGLb => (30, "SAMPLE_C_G_LB")
  | .sampleCGLz => (31, "SAMPLE_C_G_LZ")

/-- The id in the instruction word. -/
def id (op : TexOp) : Nat := (entry op).1

/-- The mnemonic. -/
def name (op : TexOp) : String := (entry op).2

/-- The operation with the given id. -/
def ofId? (n : Nat) : Option TexOp := all.find? (·.id == n)

/-- The operation with the given mnemonic. -/
def ofName? (s : String) : Option TexOp := all.find? (·.name == s)

end TexOp

/-- Operations of a vertex fetch clause. -/
inductive VtxOp where
  | fetch | semantic | mem | bufinfo
deriving DecidableEq

namespace VtxOp

/-- The operations in the order of their ids. -/
def all : List VtxOp :=
  [.fetch, .semantic, .mem, .bufinfo]

/-- Id and mnemonic. -/
def entry : VtxOp → Nat × String
  | .fetch => (0, "FETCH")
  | .semantic => (1, "SEMANTIC")
  | .mem => (2, "MEM")
  | .bufinfo => (14, "BUFINFO")

/-- The id in the instruction word. -/
def id (op : VtxOp) : Nat := (entry op).1

/-- The mnemonic. -/
def name (op : VtxOp) : String := (entry op).2

/-- The operation with the given id. -/
def ofId? (n : Nat) : Option VtxOp := all.find? (·.id == n)

/-- The operation with the given mnemonic. -/
def ofName? (s : String) : Option VtxOp := all.find? (·.name == s)

end VtxOp

end LatteHlsl.Isa
