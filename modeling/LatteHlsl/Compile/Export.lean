import LatteHlsl.Compile.Output

/-!
# Exports

An export copies consecutive registers to consecutive targets. Each target has a member of the
output structure.
-/

namespace LatteHlsl.Compile

open Isa Hlsl Effect

/-- Number of render targets. -/
def renderTargetCount : Nat := 8

/-- Whether programs of a stage may export outputs of a kind. -/
def mayExport : ExportKind → Stage → Bool
  | .pos, .vertex | .pos, .geometry | .param, .vertex | .param, .geometry => true
  | .pixel, .pixel => true
  | _, _ => false

/-- A register, with the loop index added if it is relative. -/
def loopRelative (gpr : Nat) (rel : Bool) : Place := .gpr ⟨gpr, if rel then [.al] else []⟩

/-- Compile element `n` of an export. -/
def compileExportElement (stage : Stage) (kind : ExportKind) (cf : CfInstr) (n : Nat) :
    Emit Unit := do
  let target := cf.arrayBase + n
  if kind = .pixel ∧ renderTargetCount ≤ target then
    fail (.invalidExport (some kind) target stage)
  else
    let slot ← exportSlot kind (.ofNat 32 target)
    emitMove
      { target := .output kind slot.toNat
        source := loopRelative (cf.exportGpr + n) cf.exportRel
        sels := cf.exportSels }

/-- Compile an export. -/
def compileExport (stage : Stage) (cf : CfInstr) : Emit Unit :=
  match ExportKind.ofNat? cf.exportType with
  | none => fail (.invalidExport none cf.arrayBase stage)
  | some kind =>
    if mayExport kind stage then
      (List.range cf.burstCount).forM (compileExportElement stage kind cf)
    else fail (.invalidExport (some kind) cf.arrayBase stage)

end LatteHlsl.Compile
