import LatteHlsl.Microcode.Encode
import LatteHlsl.Microcode.Program

/-!
# Laying out programs

An assembly lists control flow instructions, each with the clause it owns, if any. The program
holds the control flow instructions first and then the clauses in the same order. Each owner gets
the address and the length of its clause.
-/

namespace LatteHlsl

open Isa

/-- The contents of a clause. -/
inductive ClauseBody where
  /-- Instructions and literals of an ALU clause. -/
  | alu (slots : List AluInstr)
  | tex (fetches : List TexInstr)
  | vtx (fetches : List VtxInstr)
deriving DecidableEq

namespace ClauseBody

/-- The bytes of a clause. -/
def bytes : ClauseBody → List UInt8
  | .alu slots => slots.flatMap AluInstr.toBytes
  | .tex fetches => fetches.flatMap TexInstr.toBytes
  | .vtx fetches => fetches.flatMap VtxInstr.toBytes

/-- Zero bytes needed before a clause that would start at `pos`: fetch clauses start at multiples
of sixteen. -/
def padding (c : ClauseBody) (pos : Nat) : Nat :=
  match c with
  | .alu _ => 0
  | .tex _ | .vtx _ => if pos % 16 = 0 then 0 else 8

/-- The owner of a clause with the clause's address, in units of eight bytes, and its length. -/
def link (c : ClauseBody) (owner : CfInstr) (addr : Nat) : CfInstr :=
  match c with
  | .alu slots => (owner.edit (.aluAddr addr)).edit (.aluCount slots.length)
  | .tex fetches => (owner.edit (.addr addr)).edit (.count fetches.length)
  | .vtx fetches => (owner.edit (.addr addr)).edit (.count fetches.length)

end ClauseBody

/-- A control flow instruction and the clause it owns. -/
structure AssemblyItem where
  cf : CfInstr
  clause : Option ClauseBody := none
deriving DecidableEq

namespace Assembly

/-- The linked control flow instructions of `items` and the bytes of their clauses, the first of
which may start at byte `pos`. -/
def place (pos : Nat) : List AssemblyItem → List CfInstr × List UInt8
  | [] => ([], [])
  | ⟨cf, none⟩ :: rest =>
    let (cfs, bytes) := place pos rest
    (cf :: cfs, bytes)
  | ⟨cf, some clause⟩ :: rest =>
    let pad := clause.padding pos
    let start := pos + pad
    let (cfs, bytes) := place (start + clause.bytes.length) rest
    (clause.link cf (start / Program.clauseUnit) :: cfs,
      List.replicate pad 0 ++ clause.bytes ++ bytes)

/-- The program of a list of items. -/
def build (items : List AssemblyItem) : Program :=
  let (cfs, bytes) := place (items.length * CfInstr.byteSize) items
  ⟨(cfs.flatMap CfInstr.toBytes ++ bytes).toArray⟩

end Assembly

end LatteHlsl
