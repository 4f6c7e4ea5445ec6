import LatteHlsl.Isa.Resource

/-!
# Resource usage

Which textures, samplers and constants a compiled program refers to. Usage is recorded access by
access.

* `Access`, `Usage.record`, `Usage.ofAccesses`: single accesses and their record.
* `Usage.merge`: the usage of two programs together.
-/

namespace LatteHlsl

/-- Number of texture slots, of sampler slots and of uniform blocks. -/
def slotCount : Nat := 16

/-- A texture slot, a sampler slot or a uniform block. -/
abbrev Slot := Fin slotCount

/-- The slot with the given number. -/
def slot? (n : Nat) : Option Slot := if h : n < slotCount then some ⟨n, h⟩ else none

/-- Every slot is in range, so its entry in a table is read without a proof. -/
instance {α : Type} : GetElem (Vector α slotCount) Slot α fun _ _ => True where
  getElem v s _ := v[s.val]

/-- A table with the entry of one slot replaced. -/
def setSlot {α : Type} (v : Vector α slotCount) (s : Slot) (a : α) : Vector α slotCount := v.set s a

section

variable {α β γ : Type}

theorem getElem_slot (v : Vector α slotCount) (s : Slot) : v[s] = v[s.val] := rfl

@[simp] theorem getElem_replicate_slot (a : α) (s : Slot) :
    (Vector.replicate slotCount a)[s] = a := by
  simp [getElem_slot]

@[simp] theorem getElem_map_slot (f : α → β) (v : Vector α slotCount) (s : Slot) :
    (v.map f)[s] = f v[s] := by
  simp [getElem_slot]

@[simp] theorem getElem_zipWith_slot (f : α → β → γ) (v : Vector α slotCount)
    (w : Vector β slotCount) (s : Slot) : (v.zipWith f w)[s] = f v[s] w[s] := by
  simp [getElem_slot]

theorem getElem_setSlot (v : Vector α slotCount) (s t : Slot) (a : α) :
    (setSlot v s a)[t] = if t = s then a else v[t] := by
  simp only [getElem_slot, setSlot, Vector.getElem_set, Fin.val_inj, eq_comm]

end

/-- The slots in order. -/
def allSlots : List Slot := List.finRange slotCount

/-- Size of the uniform register file in vectors. -/
def cfileCapacity : Nat := 256

/-- Size of a uniform block in vectors, as assumed for accesses with a computed index. -/
def uniformBlockCapacity : Nat := 4096

/-- A reference to a resource. -/
inductive Access where
  | texture (slot : Slot)
  | sampler (slot : Slot)
  /-- Vector `index` of a uniform block. -/
  | uniform (block : Slot) (index : Nat)
  /-- A uniform block at a computed index. -/
  | uniformBlock (block : Slot)
  /-- Vector `index` of the uniform register file. -/
  | cfile (index : Nat)
  /-- The uniform register file at a computed index. -/
  | cfileAll
deriving DecidableEq

/-- The resources a program refers to. -/
structure Usage where
  textures : Vector Bool slotCount := .replicate slotCount false
  samplers : Vector Bool slotCount := .replicate slotCount false
  /-- Number of vectors accessed in each uniform block. -/
  uniformBlocks : Vector Nat slotCount := .replicate slotCount 0
  /-- Number of vectors accessed in the uniform register file. -/
  cfile : Nat := 0
deriving DecidableEq

namespace Usage

/-- A size that covers vector `index` too, held below a capacity. -/
def cover (capacity size index : Nat) : Nat := Nat.min (Nat.max size (index + 1)) capacity

/-- Add one access. -/
def record (u : Usage) : Access → Usage
  | .texture s => { u with textures := setSlot u.textures s true }
  | .sampler s => { u with samplers := setSlot u.samplers s true }
  | .uniform b i =>
    { u with
      uniformBlocks :=
        setSlot u.uniformBlocks b (cover uniformBlockCapacity u.uniformBlocks[b] i) }
  | .uniformBlock b => { u with uniformBlocks := setSlot u.uniformBlocks b uniformBlockCapacity }
  | .cfile i => { u with cfile := cover cfileCapacity u.cfile i }
  | .cfileAll => { u with cfile := cfileCapacity }

/-- The usage of a list of accesses. -/
def ofAccesses (as : List Access) : Usage := as.foldl record {}

/-- The usage with the given slots in use and the given sizes. -/
def ofSlots (textures samplers : List Slot) (blocks : List (Slot × Nat)) (cfile : Nat) : Usage where
  textures := textures.foldl (fun v s => setSlot v s true) (.replicate slotCount false)
  samplers := samplers.foldl (fun v s => setSlot v s true) (.replicate slotCount false)
  uniformBlocks := blocks.foldl (fun v b => setSlot v b.1 b.2) (.replicate slotCount 0)
  cfile := cfile

/-- The usage of two programs together. -/
def merge (u v : Usage) : Usage where
  textures := u.textures.zipWith (· || ·) v.textures
  samplers := u.samplers.zipWith (· || ·) v.samplers
  uniformBlocks := u.uniformBlocks.zipWith Nat.max v.uniformBlocks
  cfile := Nat.max u.cfile v.cfile

/-- The textures in use. -/
def usedTextures (u : Usage) : List Slot := allSlots.filter fun s => u.textures[s]

/-- The samplers in use. -/
def usedSamplers (u : Usage) : List Slot := allSlots.filter fun s => u.samplers[s]

/-- The uniform blocks in use, with their sizes. -/
def usedBlocks (u : Usage) : List (Slot × Nat) :=
  (allSlots.map fun b => (b, u.uniformBlocks[b])).filter fun p => 0 < p.2

/-- Whether nothing is in use. -/
def isEmpty (u : Usage) : Bool :=
  u.usedTextures.isEmpty && u.usedSamplers.isEmpty && u.usedBlocks.isEmpty && u.cfile == 0

end Usage

end LatteHlsl
