import LatteHlsl.Compile.Output
import LatteHlsl.Hlsl.Listing

/-!
# Shaders

The source that a compiled program becomes, with its resource usage and its interface.

* `Job`: a program that is being compiled, or has been.
* `Shader`: the finished source.
* `Job.finish`, `Job.finishWith`: from the one to the other.
-/

namespace LatteHlsl.Compile

open Isa Hlsl

/-- A program that is being compiled, or has been. -/
structure Job where
  context : Context
  machine : Machine Output

/-- A finished shader. -/
structure Shader where
  stage : Stage
  source : Listing
  usage : Usage
  inputs : List VertexInput
  callsFetch : Bool
  exports : ExportMap
deriving DecidableEq

/-- The text of a shader's source. -/
def Shader.code (s : Shader) : String := s.source.text

/-! ## Declarations -/

/-- The declarations of the resources in use; a texture needs a declared shape. -/
def resourceDecls (u : Usage) (dims : TextureDims) : List Decl :=
  u.usedTextures.filterMap (fun s => dims[s].map fun dim => .texture s dim) ++
    u.usedSamplers.map .sampler ++ u.usedBlocks.map (fun (b, size) => .uniformBlock b size) ++
    (if 0 < u.cfile then [.cfile u.cfile] else [])

/-- The distinct attribute locations in ascending order. -/
def attrLocations (inputs : List VertexInput) : List Nat :=
  ((inputs.map (·.location)).mergeSort (· ≤ ·)).eraseReps

/-- The input structure of vertex programs. -/
def vertexInputDecl (inputs : List VertexInput) : StructDecl :=
  ⟨.vertexInput, [.vertexId, .instanceId] ++ (attrLocations inputs).map .attr⟩

/-- The output structure of vertex and geometry programs; the first position is always there. -/
def vertexOutputDecl (name : StructName) (exports : ExportMap) : StructDecl :=
  ⟨name,
    .position 0 :: (List.range' 1 ((exports.count .pos).toNat - 1)).map .position ++
      (exports.ofKind .param).map fun e => .param e.slot.toNat⟩

/-- The input structure of pixel programs. -/
def pixelInputDecl (count : Nat) : StructDecl :=
  ⟨.pixelInput, .pixelPosition :: (List.range count).map .param⟩

/-- The output structure of pixel programs. -/
def pixelOutputDecl (exports : ExportMap) : StructDecl :=
  ⟨.pixelOutput, (exports.ofKind .pixel).map fun e => .color e.slot.toNat e.arrayBase.toNat⟩

/-- The interface structures of a stage. -/
def interfaceDecls (stage : Stage) (pixelInputs : Nat) (inputs : List VertexInput)
    (exports : ExportMap) : List StructDecl :=
  match stage with
  | .fetch => [vertexInputDecl inputs]
  | .vertex => [vertexInputDecl inputs, vertexOutputDecl .vertexOutput exports]
  | .geometry => [vertexOutputDecl .geometryOutput exports]
  | .pixel => [pixelInputDecl pixelInputs, pixelOutputDecl exports]

/-- The registers that hold the interpolated inputs when a pixel program starts. -/
def pixelPreloads (stage : Stage) (count : Nat) : List Assignment :=
  if stage = .pixel then
    (List.range (Nat.min count gprCount)).map fun n =>
      ⟨.gpr ⟨n, []⟩, Chan.all, .param n, .whole⟩
  else []

/-! ## Finished shaders -/

namespace Job

/-- A fresh job. -/
def start (context : Context) (program : Program) (stage : Stage) (isFunction : Bool) : Job where
  context := context
  machine :=
    { walk := { program := program, stage := stage, isFunction := isFunction }, out := {} }

/-- The state of the walk. -/
def walk (j : Job) : Walk := j.machine.walk

/-- What was produced so far. -/
def output (j : Job) : Output := j.machine.out

/-- Whether the walk reached the end of the program. -/
def isComplete (j : Job) : Bool := j.walk.status = .completed

/-- The function that a job's body goes into. -/
def mainDecl (j : Job) : FuncDecl :=
  if j.walk.isFunction then ⟨.callee j.walk.stage, [], j.output.body.toList⟩
  else
    ⟨.entry j.walk.stage, pixelPreloads j.walk.stage j.context.pixelInputs, j.output.body.toList⟩

/-- The shader of a job together with the fetch program it calls. -/
def shader (j : Job) (fetch : Option Job) : Shader :=
  let usage := (fetch.map fun f => j.output.usage.merge f.output.usage).getD j.output.usage
  let inputs := (fetch.map fun f => f.output.inputs).getD [] ++ j.output.inputs
  { stage := j.walk.stage
    source :=
      { stage := j.walk.stage
        decls := resourceDecls usage j.context.texDims
        structs := interfaceDecls j.walk.stage j.context.pixelInputs inputs j.output.exports
        fetch := fetch.map fun f => ⟨.callee .fetch, [], f.output.body.toList⟩
        main := j.mainDecl }
    usage := usage
    inputs := inputs
    callsFetch := j.walk.callsFetch
    exports := j.output.exports }

/-- The shader of a completed job, with the fetch program given, which is completed too. -/
def finishWith (j : Job) (fetch : Option Job) : Except CompileFault Shader :=
  if j.isComplete && fetch.all Job.isComplete then .ok (j.shader fetch) else .error .incomplete

/-- The shader of a completed job. -/
def finish (j : Job) : Except CompileFault Shader := j.finishWith none

end Job

end LatteHlsl.Compile
