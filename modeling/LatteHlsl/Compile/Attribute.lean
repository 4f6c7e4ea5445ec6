import LatteHlsl.Compile.Output
import LatteHlsl.Walk.Handlers

/-!
# Attribute fetches

A semantic fetch loads one vertex attribute into the register that the semantic table gives for
it. Everything is checked before anything is written.
-/

namespace LatteHlsl.Compile

open Isa Hlsl Effect

/-- The number of the first attribute buffer. -/
def firstAttributeBuffer : Nat := 160

/-- Number of attribute buffers. -/
def attributeBufferCount : Nat := 16

/-- The attribute buffer with the given number. -/
def bufferIndex (buffer : Nat) : Except CompileFault Nat :=
  if firstAttributeBuffer ≤ buffer ∧ buffer < firstAttributeBuffer + attributeBufferCount then
    .ok (buffer - firstAttributeBuffer)
  else .error (.invalidFetchBuffer buffer)

/-- How the attribute of a fetch advances, and by how many instances. -/
def stepOf (rates : StepRates) (i : VtxInstr) : Except CompileFault (StepMode × Nat) :=
  match FetchType.ofNat? i.fetchType with
  | some .vertexData => .ok (.perVertex, 0)
  | some .instanceData =>
    match i.srcSelX with
    | .w => .ok (.perInstance, 1)
    | .y => .ok (.perInstance, rates.first)
    | .z => .ok (.perInstance, rates.second)
    | sel => .error (.unsupportedFetch .instanceSelector sel.index)
  | _ => .error (.unsupportedFetch .fetchType i.fetchType)

/-- Bits per component and number of components of a data format. -/
def elementLayout (format : Nat) : Except CompileFault (Nat × Nat) :=
  match (DataFormat.ofNat? format).bind DataFormat.layout? with
  | some layout => .ok layout
  | none => .error (.unsupportedFetch .dataFormat format)

/-- The register that a semantic is loaded into. -/
def semanticGpr (semantics : Semantics) (id : Nat) : Except CompileFault UInt8 :=
  if h : id < semanticCount then .ok semantics[id]
  else .error (.unsupportedFetch .semanticId id)

/-- The attribute that a fetch loads and its register; nothing if the semantic is unused. -/
def attributeOf (c : Context) (i : VtxInstr) :
    Except CompileFault (Option (VertexInput × Nat)) := do
  let buffer ← bufferIndex i.bufferId
  let (stepMode, divisor) ← stepOf c.stepRates i
  let (bits, count) ← elementLayout i.dataFormat
  let gpr ← semanticGpr c.semantics i.semanticId
  if gpr = Semantics.unused then return none
  else
    return some
      ({ bufferIndex := buffer
         offset := i.offset
         elemWidth := bits / 8
         elemCount := count
         stepMode := stepMode
         divisor := divisor
         location := i.semanticId }, gpr.toNat)

/-- Compile a semantic fetch. -/
def compileAttribute (c : Context) : VtxHandler Output := fun _ _ i => do
  match ← check (attributeOf c i) with
  | none => pure ()
  | some (input, gpr) =>
    addInput input
    emitMove ⟨.gpr ⟨gpr, []⟩, .attr input.location, i.dstSels⟩

end LatteHlsl.Compile
