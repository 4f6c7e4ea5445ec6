/-!
# Vertex inputs

The attributes that vertex fetches load, and the table that says which register each semantic is
loaded into.
-/

namespace LatteHlsl

/-- How an attribute advances. -/
inductive StepMode where
  | perVertex | perInstance
deriving DecidableEq, Repr

/-- One vertex attribute. -/
structure VertexInput where
  /-- Attribute buffer, below sixteen. -/
  bufferIndex : Nat
  /-- Byte offset inside one vertex. -/
  offset : Nat
  /-- Bytes per component. -/
  elemWidth : Nat
  /-- Number of components. -/
  elemCount : Nat
  stepMode : StepMode
  /-- Instances per step; zero for attributes that advance with the vertex. -/
  divisor : Nat
  /-- The attribute's location in the shader interface. -/
  location : Nat
deriving DecidableEq

/-- Number of vertex semantics. -/
def semanticCount : Nat := 32

/-- The register each semantic is loaded into; `Semantics.unused` marks the others. -/
abbrev Semantics := Vector UInt8 semanticCount

namespace Semantics

/-- The entry of a semantic that the vertex program does not consume. -/
def unused : UInt8 := 255

/-- No semantic is consumed. -/
def none : Semantics := .replicate semanticCount unused

/-- The consumed semantics in ascending order, with their registers. -/
def used (t : Semantics) : List (Nat × UInt8) :=
  ((List.range semanticCount).zip t.toList).filter fun e => e.2 ≠ unused

end Semantics

/-- Instances per step, for the two rates an attribute can select. -/
structure StepRates where
  first : Nat := 1
  second : Nat := 1
deriving DecidableEq

end LatteHlsl
