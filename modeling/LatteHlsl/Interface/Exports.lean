import LatteHlsl.Isa.Resource
import LatteHlsl.Word.Basic

/-!
# Export slots

Hardware export targets are mapped to dense output slots, one numbering per kind of export, in the
order in which targets are first seen. Targets, slots and their number are 32-bit numbers.
-/

namespace LatteHlsl

open Isa

/-- The output slot given to one export target. -/
structure ExportEntry where
  kind : ExportKind
  arrayBase : Word
  slot : Word
deriving DecidableEq

/-- The export targets seen so far, in order. -/
structure ExportMap where
  entries : List ExportEntry := []
deriving DecidableEq

namespace ExportMap

/-- The entries of one kind. -/
def ofKind (m : ExportMap) (kind : ExportKind) : List ExportEntry :=
  m.entries.filter (·.kind = kind)

/-- Number of slots given out for one kind, as far as 32 bits hold it. -/
def count (m : ExportMap) (kind : ExportKind) : Word := .ofNat 32 (m.ofKind kind).length

/-- The slot of a target that was seen before. -/
def slot? (m : ExportMap) (kind : ExportKind) (arrayBase : Word) : Option Word :=
  (m.entries.find? fun e => e.kind = kind && e.arrayBase = arrayBase).map (·.slot)

/-- The slot of a target, and the map that knows it: a new target gets the next slot of its
kind. -/
def assign (m : ExportMap) (kind : ExportKind) (arrayBase : Word) : Word × ExportMap :=
  match m.slot? kind arrayBase with
  | some slot => (slot, m)
  | none =>
    let slot := m.count kind
    (slot, { entries := m.entries ++ [⟨kind, arrayBase, slot⟩] })

/-- Whether no target was seen. -/
def isEmpty (m : ExportMap) : Bool := m.entries.isEmpty

end ExportMap

end LatteHlsl
