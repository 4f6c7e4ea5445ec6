import LatteHlsl.Compile.Session

/-!
# Shader descriptors

What a shader of each stage is compiled from, the shader itself, and the descriptor cut down to
what the shader uses.

* `VertexDesc`, `GeometryDesc`, `PixelDesc`, each with `compile` and `clean`.
* `compileProgram`: a single program of any stage.
-/

namespace LatteHlsl.Compile

open Isa

/-- Options of the compiler. -/
structure Options where
  /-- Whether comments are written. -/
  comments : Bool := true
  /-- Whether sources are logged; the shader does not depend on it. -/
  logSource : Bool := false
deriving DecidableEq

/-- The context of a program with the given options and resources. -/
def Options.context (o : Options) (r : StageResources) : Context where
  comments := o.comments
  texDims := r.textureDims

/-- Compile a single program of any stage. -/
def compileProgram (program : Program) (stage : Stage) (isFunction : Bool) (r : StageResources)
    (o : Options) : Except Halt Shader :=
  (Job.start (o.context r) program stage isFunction).compileAlone

/-! ## Vertex shaders -/

/-- A vertex program, the fetch program it may call, and what they are bound to. -/
structure VertexDesc where
  program : Program
  fetchProgram : Program := ⟨#[]⟩
  resources : StageResources := {}
  semantics : Semantics := .none
  stepRates : StepRates := {}
deriving DecidableEq

namespace VertexDesc

/-- The context of both programs. -/
def context (d : VertexDesc) (o : Options) : Context :=
  { o.context d.resources with semantics := d.semantics, stepRates := d.stepRates }

/-- Compile the vertex program, and the fetch program if it is called. -/
def compile (d : VertexDesc) (o : Options) : Except Halt Shader := do
  let vertex ← (Job.start (d.context o) d.program .vertex false).compile
  let fetch ←
    if vertex.walk.callsFetch then
      some <$> (Job.start (d.context o) d.fetchProgram .fetch true).compile
    else pure none
  (vertex.finishWith fetch).mapError .fault

/-- The descriptor with only the bindings that a usage needs. -/
def clean (d : VertexDesc) (u : Usage) : VertexDesc :=
  { d with resources := d.resources.clean u }

end VertexDesc

/-! ## Geometry shaders -/

/-- A geometry program and what it is bound to. -/
structure GeometryDesc where
  program : Program
  resources : StageResources := {}
deriving DecidableEq

namespace GeometryDesc

/-- Compile the program. -/
def compile (d : GeometryDesc) (o : Options) : Except Halt Shader :=
  compileProgram d.program .geometry false d.resources o

/-- The descriptor with only the bindings that a usage needs. -/
def clean (d : GeometryDesc) (u : Usage) : GeometryDesc :=
  { d with resources := d.resources.clean u }

end GeometryDesc

/-! ## Pixel shaders -/

/-- A pixel program, its number of interpolated inputs, and what it is bound to. -/
structure PixelDesc where
  program : Program
  resources : StageResources := {}
  inputCount : Nat := 0
deriving DecidableEq

namespace PixelDesc

/-- Compile the program. -/
def compile (d : PixelDesc) (o : Options) : Except Halt Shader :=
  let context := { o.context d.resources with pixelInputs := d.inputCount }
  (Job.start context d.program .pixel false).compileAlone

/-- The descriptor with only the bindings that a usage needs. -/
def clean (d : PixelDesc) (u : Usage) : PixelDesc :=
  { d with resources := d.resources.clean u }

end PixelDesc

end LatteHlsl.Compile
