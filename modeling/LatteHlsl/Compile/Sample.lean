import LatteHlsl.Compile.Export
import LatteHlsl.Walk.Handlers

/-!
# Texture samples

A sample copies its coordinates to the scratch variable, samples there, and copies the result to
its destination. Everything is checked before anything is written.

* `sampleOf`: the sample that an instruction asks for.
* `compileSample`: its statements.
-/

namespace LatteHlsl.Compile

open Isa Hlsl Effect

/-- The channels that hold the coordinates of a texture of the given shape. -/
def coordChans : TexDim → List Chan
  | .dim1D => [.x]
  | .dim1DArray | .dim2D | .dim2DMsaa => [.x, .y]
  | .dim3D | .cubemap | .dim2DArray | .dim2DArrayMsaa => [.x, .y, .z]

/-- The texel offsets that a texture of the given shape takes; cube maps take none. -/
def offsetsOf (dim : TexDim) (x y z : Int) : Except CompileFault (List Int) :=
  if x = 0 ∧ y = 0 ∧ z = 0 then .ok []
  else
    match dim with
    | .dim1D | .dim1DArray => .ok [x]
    | .dim2D | .dim2DArray | .dim2DMsaa | .dim2DArrayMsaa => .ok [x, y]
    | .dim3D => .ok [x, y, z]
    | .cubemap => .error (.offsetsOnDim dim)

/-- The first channel whose coordinate counts texels. -/
def unnormalizedChan? (i : TexInstr) : Option Chan :=
  Chan.all.find? fun c => i.coordTypes.get c = .unnormalized

/-- The slot with the given number, or the fault for a number past the last slot. -/
def slotOf (kind : SampleResource) (n : Nat) : Except CompileFault Slot :=
  match slot? n with
  | some slot => .ok slot
  | none => .error (.resourceOutOfRange kind n)

/-- The sample that an instruction asks for. -/
def sampleOf (dims : TextureDims) (i : TexInstr) : Except CompileFault Sample :=
  if i.fractionMode then .error .fractionAddressing
  else
    match unnormalizedChan? i with
    | some chan => .error (.unnormalizedCoords chan)
    | none => do
      let texture ← slotOf .texture i.resourceId
      let sampler ← slotOf .sampler i.samplerId
      match dims[texture] with
      | none => .error (.unknownTextureDim texture.val)
      | some dim =>
        let offsets ← offsetsOf dim i.offsetX i.offsetY i.offsetZ
        return ⟨texture, sampler, coordChans dim, offsets⟩

/-- Compile a sample. -/
def compileSample (c : Context) : TexHandler Output := fun _ _ i => do
  let s ← check (sampleOf c.texDims i)
  emitMove ⟨.tmp, loopRelative i.srcGpr i.srcRel, i.srcSels⟩
  emit (.sample s)
  emitMove ⟨loopRelative i.dstGpr i.dstRel, .tmp, i.dstSels⟩
  record (.texture s.texture)
  record (.sampler s.sampler)

end LatteHlsl.Compile
