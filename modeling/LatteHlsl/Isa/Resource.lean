/-!
# Stages, textures, exports and vertex formats

The small vocabularies of the resources that a program addresses.
-/

namespace LatteHlsl.Isa

/-! ## Stages -/

/-- The pipeline stage a program is compiled for. -/
inductive Stage where
  | fetch | vertex | geometry | pixel
deriving DecidableEq

namespace Stage

/-- The stages in pipeline order. -/
def all : List Stage := [.fetch, .vertex, .geometry, .pixel]

/-- The stage's name. -/
def name : Stage → String
  | .fetch => "fetch"
  | .vertex => "vertex"
  | .geometry => "geometry"
  | .pixel => "pixel"

/-- The stage with the given name. -/
def ofName? (s : String) : Option Stage := all.find? (·.name == s)

end Stage

/-! ## Textures -/

/-- The shape of a texture. -/
inductive TexDim where
  | dim1D | dim2D | dim3D | cubemap | dim1DArray | dim2DArray | dim2DMsaa | dim2DArrayMsaa
deriving DecidableEq, Repr

namespace TexDim

/-- The shape named by the three low bits of a number. -/
def ofBits (n : Nat) : TexDim :=
  match n % 8 with
  | 0 => .dim1D
  | 1 => .dim2D
  | 2 => .dim3D
  | 3 => .cubemap
  | 4 => .dim1DArray
  | 5 => .dim2DArray
  | 6 => .dim2DMsaa
  | _ => .dim2DArrayMsaa

/-- The shape's name in diagnostics. -/
def name : TexDim → String
  | .dim1D => "1D"
  | .dim2D => "2D"
  | .dim3D => "3D"
  | .cubemap => "CUBEMAP"
  | .dim1DArray => "1D_ARRAY"
  | .dim2DArray => "2D_ARRAY"
  | .dim2DMsaa => "2D_MSAA"
  | .dim2DArrayMsaa => "2D_ARRAY_MSAA"

end TexDim

/-- Whether a texture coordinate counts texels or runs from zero to one. -/
inductive CoordType where
  | unnormalized | normalized
deriving DecidableEq, Repr

/-- A set bit means normalized coordinates. -/
def CoordType.ofBool : Bool → CoordType
  | false => .unnormalized
  | true => .normalized

/-! ## Exports -/

/-- What a shader output is. -/
inductive ExportKind where
  | pixel | pos | param
deriving DecidableEq, Repr

namespace ExportKind

/-- The kind with the given number. -/
def ofNat? : Nat → Option ExportKind
  | 0 => some .pixel
  | 1 => some .pos
  | 2 => some .param
  | _ => none

/-- The kind's number. -/
def index : ExportKind → Nat
  | .pixel => 0
  | .pos => 1
  | .param => 2

/-- The kind's name. -/
def name : ExportKind → String
  | .pixel => "pixel"
  | .pos => "position"
  | .param => "parameter"

end ExportKind

/-! ## Vertex fetches -/

/-- Which index a vertex fetch follows. -/
inductive FetchType where
  | vertexData | instanceData | noIndexOffset
deriving DecidableEq, Repr

namespace FetchType

/-- The type with the given number. -/
def ofNat? : Nat → Option FetchType
  | 0 => some .vertexData
  | 1 => some .instanceData
  | 2 => some .noIndexOffset
  | _ => none

/-- The type's number. -/
def index : FetchType → Nat
  | .vertexData => 0
  | .instanceData => 1
  | .noIndexOffset => 2

end FetchType

/-- The format of one vertex element. -/
inductive DataFormat where
  | fmt8 | fmt4_4 | fmt16 | fmt16Float | fmt8_8 | fmt5_6_5 | fmt1_5_5_5 | fmt4_4_4_4 | fmt32
  | fmt32Float | fmt16_16 | fmt16_16Float | fmt10_11_11 | fmt2_10_10_10 | fmt8_8_8_8
  | fmt10_10_10_2 | fmt32_32 | fmt32_32Float | fmt16_16_16_16 | fmt16_16_16_16Float
  | fmt32_32_32_32 | fmt32_32_32_32Float | fmt32_32_32 | fmt32_32_32Float
deriving DecidableEq, Repr

namespace DataFormat

/-- The formats in the order of their numbers. -/
def all : List DataFormat :=
  [.fmt8, .fmt4_4, .fmt16, .fmt16Float, .fmt8_8, .fmt5_6_5, .fmt1_5_5_5, .fmt4_4_4_4, .fmt32,
   .fmt32Float, .fmt16_16, .fmt16_16Float, .fmt10_11_11, .fmt2_10_10_10, .fmt8_8_8_8,
   .fmt10_10_10_2, .fmt32_32, .fmt32_32Float, .fmt16_16_16_16, .fmt16_16_16_16Float,
   .fmt32_32_32_32, .fmt32_32_32_32Float, .fmt32_32_32, .fmt32_32_32Float]

/-- The format's number. -/
def index : DataFormat → Nat
  | .fmt8 => 1
  | .fmt4_4 => 2
  | .fmt16 => 5
  | .fmt16Float => 6
  | .fmt8_8 => 7
  | .fmt5_6_5 => 8
  | .fmt1_5_5_5 => 10
  | .fmt4_4_4_4 => 11
  | .fmt32 => 13
  | .fmt32Float => 14
  | .fmt16_16 => 15
  | .fmt16_16Float => 16
  | .fmt10_11_11 => 21
  | .fmt2_10_10_10 => 25
  | .fmt8_8_8_8 => 26
  | .fmt10_10_10_2 => 27
  | .fmt32_32 => 29
  | .fmt32_32Float => 30
  | .fmt16_16_16_16 => 31
  | .fmt16_16_16_16Float => 32
  | .fmt32_32_32_32 => 34
  | .fmt32_32_32_32Float => 35
  | .fmt32_32_32 => 47
  | .fmt32_32_32Float => 48

/-- The format with the given number. -/
def ofNat? (n : Nat) : Option DataFormat := all.find? (·.index == n)

/-- Bits per component and number of components; packed formats whose components differ in width
have no such layout. -/
def layout? : DataFormat → Option (Nat × Nat)
  | .fmt8 => some (8, 1)
  | .fmt8_8 => some (8, 2)
  | .fmt8_8_8_8 => some (8, 4)
  | .fmt16 | .fmt16Float => some (16, 1)
  | .fmt16_16 | .fmt16_16Float => some (16, 2)
  | .fmt16_16_16_16 | .fmt16_16_16_16Float => some (16, 4)
  | .fmt32 | .fmt32Float => some (32, 1)
  | .fmt32_32 | .fmt32_32Float => some (32, 2)
  | .fmt32_32_32 | .fmt32_32_32Float => some (32, 3)
  | .fmt32_32_32_32 | .fmt32_32_32_32Float => some (32, 4)
  | .fmt4_4 | .fmt5_6_5 | .fmt1_5_5_5 | .fmt4_4_4_4 | .fmt10_11_11 | .fmt2_10_10_10
  | .fmt10_10_10_2 => none

end DataFormat

end LatteHlsl.Isa
