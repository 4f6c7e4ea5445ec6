import LatteHlsl.Interface.Usage

/-!
# Bound resources

The textures, samplers and uniform blocks bound to a stage, and the part of them that a given
usage needs.
-/

namespace LatteHlsl

open Isa

/-- A bound texture. The handle belongs to the host and is passed on as it is. -/
structure TextureBinding where
  dim : TexDim
  handle : Nat
deriving DecidableEq

/-- A bound sampler. -/
structure SamplerBinding where
  handle : Nat
deriving DecidableEq

/-- A bound uniform block with its size in vectors. -/
structure BlockBinding where
  handle : Nat
  size : Nat
deriving DecidableEq

/-- Everything bound to one stage. -/
structure StageResources where
  textures : Vector (Option TextureBinding) slotCount := .replicate slotCount none
  samplers : Vector (Option SamplerBinding) slotCount := .replicate slotCount none
  uniformBlocks : Vector (Option BlockBinding) slotCount := .replicate slotCount none
  /-- Size of the uniform register file in vectors. -/
  cfileSize : Nat := cfileCapacity
deriving DecidableEq

/-- The declared shape of each texture slot. -/
abbrev TextureDims := Vector (Option TexDim) slotCount

namespace StageResources

/-- Bind a texture. -/
def withTexture (r : StageResources) (s : Slot) (b : TextureBinding) : StageResources :=
  { r with textures := setSlot r.textures s (some b) }

/-- Bind a sampler. -/
def withSampler (r : StageResources) (s : Slot) (b : SamplerBinding) : StageResources :=
  { r with samplers := setSlot r.samplers s (some b) }

/-- Bind a uniform block. -/
def withUniformBlock (r : StageResources) (s : Slot) (b : BlockBinding) : StageResources :=
  { r with uniformBlocks := setSlot r.uniformBlocks s (some b) }

/-- The declared shape of each texture slot. -/
def textureDims (r : StageResources) : TextureDims := r.textures.map fun b => b.map (·.dim)

/-- A binding that is kept only if it is used. -/
def keepIf {α : Type} (binding : Option α) (used : Bool) : Option α :=
  if used then binding else none

/-- A uniform block cut to the vectors in use, or nothing if none is. -/
def trimBlock (binding : Option BlockBinding) (count : Nat) : Option BlockBinding :=
  if 0 < count then binding.map fun b => { b with size := Nat.min b.size count } else none

/-- The bindings that a usage needs, cut to the sizes it needs. -/
def clean (r : StageResources) (u : Usage) : StageResources where
  textures := r.textures.zipWith keepIf u.textures
  samplers := r.samplers.zipWith keepIf u.samplers
  uniformBlocks := r.uniformBlocks.zipWith trimBlock u.uniformBlocks
  cfileSize := Nat.min r.cfileSize u.cfile

end StageResources

end LatteHlsl
