import LatteHlsl.Hlsl.Stmt
import LatteHlsl.Hlsl.Writer
import LatteHlsl.Interface.Bindings
import LatteHlsl.Interface.Exports
import LatteHlsl.Interface.VertexInput
import LatteHlsl.Walk.State

/-!
# Compiled output

What the compilation of one program knows from the start (`Context`) and what it has produced so
far (`Output`), with the actions that extend the output.
-/

namespace LatteHlsl.Compile

open Isa Hlsl

/-- What is known of a program before it is compiled. -/
structure Context where
  /-- Whether comments are written. -/
  comments : Bool := true
  /-- The declared shape of each texture slot. -/
  texDims : TextureDims := .replicate slotCount none
  semantics : Semantics := .none
  stepRates : StepRates := {}
  /-- Number of interpolated inputs of a pixel program. -/
  pixelInputs : Nat := 0

/-- What a program has been compiled to so far. -/
structure Output where
  body : Array Line := #[]
  /-- Register writes held back to the end of the current group. -/
  deferred : List RegWrite := []
  usage : Usage := {}
  inputs : List VertexInput := []
  exports : ExportMap := {}
deriving DecidableEq

/-- An action of the compilation. -/
abbrev Emit (α : Type) := Effect Output α

/-- Append a line to the body. -/
def emitLine (l : Line) : Emit Unit := modify fun o => { o with body := o.body.push l }

/-- Append a statement to the body. -/
def emit (s : Stmt) : Emit Unit := emitLine (.stmt s)

/-- Append a comment to the body, if comments are written. -/
def note (c : Context) (l : Line) : Emit Unit := if c.comments then emitLine l else pure ()

/-- Append the assignment that carries out a move, if there is something to do. -/
def emitMove (m : Move) : Emit Unit :=
  match m.assignment? with
  | some a => emit (.assign a)
  | none => pure ()

/-- Record the use of a resource. -/
def record (a : Access) : Emit Unit := modify fun o => { o with usage := o.usage.record a }

/-- Hold a register write back to the end of the group. -/
def defer (w : RegWrite) : Emit Unit := modify fun o => { o with deferred := o.deferred ++ [w] }

/-- Record a vertex attribute. -/
def addInput (i : VertexInput) : Emit Unit := modify fun o => { o with inputs := o.inputs ++ [i] }

/-- The output slot of an export target. -/
def exportSlot (kind : ExportKind) (target : Word) : Emit Word := fun o =>
  let (slot, exports) := o.exports.assign kind target
  .ok slot { o with exports := exports }

/-- The text of lines of a body. -/
def Output.linesText (ls : List Line) : String :=
  TextLine.renderAll (TextLine.atDepth 1 (ls.map Line.text))

end LatteHlsl.Compile
