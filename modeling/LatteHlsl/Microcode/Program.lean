import LatteHlsl.Isa.Instr.Alu
import LatteHlsl.Isa.Instr.Control
import LatteHlsl.Isa.Instr.Fetch

/-!
# Microcode programs

A program is a string of bytes. It starts with control flow instructions, eight bytes each, and
they address clauses of ALU slots and of fetch instructions anywhere in the same bytes. Every
read is checked against the size of the program.

* `slice`: a checked range of bytes.
* `hasCf`, `cfAt`: control flow slots.
* `aluClause`, `texClause`, `vtxClause`: the instructions of a clause.
-/

namespace LatteHlsl

open Isa

/-- The bytes of one compiled program. -/
structure Program where
  bytes : Array UInt8
deriving DecidableEq

namespace Program

/-- Clause addresses count in units of this many bytes. -/
def clauseUnit : Nat := 8

/-- Byte positions are 64-bit numbers; a sum or product that does not fit is out of every bound. -/
def positionLimit : Nat := UInt64.size

/-- Size in bytes. -/
def size (p : Program) : Nat := p.bytes.size

/-- The sum of two positions, if it is one. -/
def position? (offset len : Nat) : Option Nat :=
  if offset + len < positionLimit then some (offset + len) else none

/-- The `len` bytes at `offset`. -/
def slice (p : Program) (offset len : Nat) : Except DecodeFault (Array UInt8) :=
  match position? offset len with
  | some stop =>
    if stop ≤ p.size then .ok (p.bytes.extract offset stop)
    else .error (.outOfBounds offset len p.size)
  | none => .error (.outOfBounds offset len p.size)

theorem slice_eq (p : Program) (offset len : Nat) :
    p.slice offset len =
      if offset + len < positionLimit ∧ offset + len ≤ p.size then
        .ok (p.bytes.extract offset (offset + len))
      else .error (.outOfBounds offset len p.size) := by
  unfold slice position?
  by_cases hfits : offset + len < positionLimit
  · simp [hfits]
  · simp [hfits]

theorem slice_of_le {p : Program} {offset len : Nat} (hfits : offset + len < positionLimit)
    (h : offset + len ≤ p.size) :
    p.slice offset len = .ok (p.bytes.extract offset (offset + len)) := by
  rw [slice_eq, if_pos ⟨hfits, h⟩]

/-- A range that does not lie in the program is refused, whether its end is a position or not. -/
theorem slice_of_lt {p : Program} {offset len : Nat} (h : p.size < offset + len) :
    p.slice offset len = .error (.outOfBounds offset len p.size) := by
  rw [slice_eq, if_neg fun hin => Nat.not_le_of_lt h hin.2]

/-- `n` units in bytes, or the fault for a position that is no 64-bit number. -/
def scale (p : Program) (n unit : Nat) : Except DecodeFault Nat :=
  if n * unit < positionLimit then .ok (n * unit)
  else .error (.outOfBounds (positionLimit - 1) unit p.size)

/-- Whether control flow slot `index` starts inside the program. -/
def hasCf (p : Program) (index : Nat) : Bool :=
  index * CfInstr.byteSize < positionLimit && index * CfInstr.byteSize < p.size

/-- Control flow instruction `index`. -/
def cfAt (p : Program) (index : Nat) : Except DecodeFault CfInstr := do
  let offset ← p.scale index CfInstr.byteSize
  let bytes ← p.slice offset CfInstr.byteSize
  return CfInstr.readAt bytes 0

/-- The bytes of `count` instructions of `unit` bytes at clause address `addr`. -/
def clauseBytes (p : Program) (addr count unit : Nat) : Except DecodeFault (Array UInt8) := do
  let offset ← p.scale addr clauseUnit
  let len ← p.scale count unit
  p.slice offset len

/-- The `count` ALU slots at clause address `addr`. -/
def aluClause (p : Program) (addr count : Nat) : Except DecodeFault (List AluInstr) := do
  let bytes ← p.clauseBytes addr count AluInstr.byteSize
  return (List.range count).map fun i => AluInstr.readAt bytes (i * AluInstr.byteSize)

/-- The `count` texture fetches at clause address `addr`. -/
def texClause (p : Program) (addr count : Nat) : Except DecodeFault (List TexInstr) := do
  let bytes ← p.clauseBytes addr count TexInstr.byteSize
  return (List.range count).map fun i => TexInstr.readAt bytes (i * TexInstr.byteSize)

/-- The `count` vertex fetches at clause address `addr`. -/
def vtxClause (p : Program) (addr count : Nat) : Except DecodeFault (List VtxInstr) := do
  let bytes ← p.clauseBytes addr count VtxInstr.byteSize
  return (List.range count).map fun i => VtxInstr.readAt bytes (i * VtxInstr.byteSize)

/-- Number of control flow slots that start inside the program. -/
def cfSlots (p : Program) : Nat := (p.size + CfInstr.byteSize - 1) / CfInstr.byteSize

end Program

end LatteHlsl
