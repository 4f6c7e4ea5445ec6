import LatteHlsl.Hlsl.Stmt
import LatteHlsl.Hlsl.Writer

/-!
# Shader listings

A whole shader source: resource declarations, interface structures and functions, in this order.

* `Decl`, `StructDecl`, `FuncDecl`: the parts.
* `Listing.text`: the source.
-/

namespace LatteHlsl.Hlsl

open Isa

/-- Number of general purpose registers. -/
def gprCount : Nat := 128

/-! ## Resources -/

/-- A resource declaration. -/
inductive Decl where
  | texture (slot : Slot) (dim : TexDim)
  | sampler (slot : Slot)
  /-- A uniform block and its size in vectors. -/
  | uniformBlock (block : Slot) (size : Nat)
  /-- The uniform register file and its size in vectors. -/
  | cfile (size : Nat)
deriving DecidableEq

/-- The type of the textures of one shape. -/
def textureType : TexDim → String
  | .dim1D => "Texture1D"
  | .dim2D => "Texture2D"
  | .dim3D => "Texture3D"
  | .cubemap => "TextureCube"
  | .dim1DArray => "Texture1DArray"
  | .dim2DArray => "Texture2DArray"
  | .dim2DMsaa => "Texture2DMS<float4>"
  | .dim2DArrayMsaa => "Texture2DMSArray<float4>"

/-- The text of a resource declaration. -/
def Decl.text : Decl → String
  | .texture slot dim =>
    s!"{textureType dim} texture{slot.val} : register(t{slot.val});"
  | .sampler slot => s!"SamplerState sampler{slot.val} : register(s{slot.val});"
  | .uniformBlock block size =>
    s!"cbuffer UniformBlock{block.val} : register(b{block.val}) \x7b float4 CB{block.val}[{size}]; \x7d;"
  | .cfile size => s!"cbuffer Registers \x7b float4 C[{size}]; \x7d;"

/-! ## Interface structures -/

/-- A member of an interface structure. -/
inductive Member where
  | vertexId
  | instanceId
  | attr (location : Nat)
  /-- The position a pixel is shaded at. -/
  | pixelPosition
  /-- A position output; the first one is the position of the vertex. -/
  | position (slot : Nat)
  | param (slot : Nat)
  /-- A color output and the render target it goes to. -/
  | color (slot target : Nat)
deriving DecidableEq

namespace Member

/-- The member's name. -/
def name : Member → String
  | .vertexId => "vid"
  | .instanceId => "iid"
  | .attr location => s!"attr{location}"
  | .pixelPosition => "pos"
  | .position slot => s!"pos{slot}"
  | .param slot => s!"param{slot}"
  | .color slot _ => s!"color{slot}"

/-- The member's type. -/
def typeName : Member → String
  | .vertexId | .instanceId => "uint"
  | _ => "float4"

/-- What the member is bound to. -/
def semantic : Member → String
  | .vertexId => "SV_VertexID"
  | .instanceId => "SV_InstanceID"
  | .attr location => s!"ATTR{location}"
  | .pixelPosition => "SV_Position"
  | .position 0 => "SV_Position"
  | .position slot => s!"POSITION{slot}"
  | .param slot => s!"TEXCOORD{slot}"
  | .color _ target => s!"SV_Target{target}"

/-- The text of a member. -/
def text (m : Member) : String := s!"{m.typeName} {m.name} : {m.semantic};"

end Member

/-- The interface structures. -/
inductive StructName where
  | vertexInput | vertexOutput | geometryOutput | pixelInput | pixelOutput
deriving DecidableEq

/-- The structure's name. -/
def StructName.text : StructName → String
  | .vertexInput => "VSInput"
  | .vertexOutput => "VSOutput"
  | .geometryOutput => "GSOutput"
  | .pixelInput => "PSInput"
  | .pixelOutput => "PSOutput"

/-- The structure that the functions of a stage fill in. -/
def StructName.outputOf : Stage → StructName
  | .geometry => .geometryOutput
  | .pixel => .pixelOutput
  | .fetch | .vertex => .vertexOutput

/-- An interface structure. -/
structure StructDecl where
  name : StructName
  members : List Member
deriving DecidableEq

/-- The lines of a structure, and the blank line after it. -/
def StructDecl.lines (d : StructDecl) : List TextLine :=
  TextLine.block s!"struct {d.name.text}" (TextLine.atDepth 1 (d.members.map Member.text)) "\x7d;" ++
    TextLine.atDepth 0 [""]

/-! ## Functions -/

/-- The functions of a shader. -/
inductive Signature where
  /-- A function that other code calls, with the registers of its caller. -/
  | callee (stage : Stage)
  /-- The entry point of a stage. -/
  | entry (stage : Stage)
deriving DecidableEq

namespace Signature

/-- The text of a signature. -/
def text : Signature → String
  | .callee stage =>
    let out := (StructName.outputOf stage).text
    match stage with
    | .fetch => s!"void FSMain(VSInput input, inout float4 R[{gprCount}])"
    | .vertex => s!"void VSFunc(VSInput input, inout {out} output, inout float4 R[{gprCount}])"
    | .geometry => s!"void GSFunc(inout {out} output, inout float4 R[{gprCount}])"
    | .pixel => s!"void PSFunc(PSInput input, inout {out} output, inout float4 R[{gprCount}])"
  | .entry stage =>
    let out := (StructName.outputOf stage).text
    match stage with
    | .geometry => s!"{out} GSMain()"
    | .pixel => s!"{out} PSMain(PSInput input)"
    | .fetch | .vertex => s!"{out} VSMain(VSInput input)"

end Signature

/-- A function with its compiled body. -/
structure FuncDecl where
  signature : Signature
  /-- Registers filled before the body runs; entry points only. -/
  preloads : List Assignment := []
  body : List Line
deriving DecidableEq

/-- Declarations of the working variables of a body. -/
def localLines : List TextLine :=
  TextLine.atDepth 1
    ["int4 AR = 0;", "int AL = 0;", "float4 PV = 0, PVo = 0;", "float PS = 0, PSo = 0;",
      "float4 tmp = 0;"]

/-- Declaration of the register file, cleared. -/
def registerLines : List TextLine :=
  TextLine.atDepth 1
      [s!"float4 R[{gprCount}];", s!"for (int i = 0; i < {gprCount}; ++i)", "\x7b"] ++
    TextLine.atDepth 2 ["R[i] = 0;"] ++ TextLine.atDepth 1 ["\x7d"]

/-- The lines of a body. -/
def bodyLines (body : List Line) : List TextLine := TextLine.atDepth 1 (body.map Line.text)

namespace FuncDecl

/-- The lines of a function. -/
def lines (f : FuncDecl) : List TextLine :=
  let contents :=
    match f.signature with
    | .callee _ => localLines ++ bodyLines f.body
    | .entry stage =>
      let out := (StructName.outputOf stage).text
      TextLine.atDepth 1 [s!"{out} output = ({out})0;"] ++ registerLines ++
        TextLine.atDepth 1 (f.preloads.map Assignment.text) ++ localLines ++ bodyLines f.body ++
        TextLine.atDepth 1 ["return output;"]
  TextLine.block f.signature.text contents "\x7d"

end FuncDecl

/-! ## Listings -/

/-- A shader source. -/
structure Listing where
  stage : Stage
  decls : List Decl
  structs : List StructDecl
  /-- The fetch function, if the main function calls one. -/
  fetch : Option FuncDecl := none
  main : FuncDecl
deriving DecidableEq

namespace Listing

/-- The lines of a source. -/
def lines (m : Listing) : List TextLine :=
  TextLine.atDepth 0 [s!"// Latte {m.stage.name} shader", ""] ++
    TextLine.atDepth 0 (m.decls.map Decl.text) ++
    TextLine.atDepth 0 (if m.decls.isEmpty then [] else [""]) ++
    m.structs.flatMap StructDecl.lines ++
    (m.fetch.map fun f => f.lines ++ TextLine.atDepth 0 [""]).getD [] ++
    m.main.lines

/-- The text of a source. -/
def text (m : Listing) : String := TextLine.renderAll m.lines

end Listing

end LatteHlsl.Hlsl
