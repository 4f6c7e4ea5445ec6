import LatteHlsl.Hlsl.Assign

/-!
# Statements

The statements and comments of a compiled body, one a line. `PV` and `PS` hold the results of
the previous group. `PVo` and `PSo` collect those of the current one.
-/

namespace LatteHlsl.Hlsl

open Isa

/-- The variable that takes the result of one lane. -/
inductive LaneOut where
  /-- A channel of `PVo`. -/
  | vector (chan : Chan)
  /-- `PSo`. -/
  | scalar
deriving DecidableEq

namespace LaneOut

/-- The variable of a unit. -/
def ofLane (l : Lane) : LaneOut :=
  match l.chan? with
  | some c => .vector c
  | none => .scalar

/-- The variable's text. -/
def text : LaneOut → String
  | .vector chan => s!"PVo.{chan.letter}"
  | .scalar => "PSo"

end LaneOut

/-- A lane result copied to a register. -/
structure RegWrite where
  index : Index
  chan : Chan
  value : LaneOut
deriving DecidableEq

/-- The text of a register write. -/
def RegWrite.text (w : RegWrite) : String :=
  s!"R[{w.index.text}].{w.chan.letter} = {w.value.text};"

/-- A texture sample at coordinates held in `tmp`, into `tmp`. -/
structure Sample where
  texture : Slot
  sampler : Slot
  /-- The channels of `tmp` that hold the coordinates. -/
  coords : List Chan
  /-- Texel offsets, one a dimension; empty when there are none. -/
  offsets : List Int
deriving DecidableEq

namespace Sample

/-- The argument for texel offsets, if there is one. -/
def offsetText? : List Int → Option String
  | [] => none
  | [x] => some (toString x)
  | xs =>
    let parts := ", ".intercalate (xs.map toString)
    some s!"int{xs.length}({parts})"

/-- The text of a sample. -/
def text (s : Sample) : String :=
  let args := ", ".intercalate
    ([s!"sampler{s.sampler.val}", s!"tmp.{swizzleText s.coords}"] ++ (offsetText? s.offsets).toList)
  s!"tmp = texture{s.texture.val}.Sample({args});"

end Sample

/-- A statement of a compiled body. -/
inductive Stmt where
  /-- Store the result of one lane. -/
  | lane (out : LaneOut) (result : Result)
  /-- Store one result in all channels of `PVo`. -/
  | reduction (result : Result)
  /-- Load a channel of the address register. -/
  | address (chan : Chan) (source : Source)
  | regWrite (write : RegWrite)
  /-- The vector results become those of the previous group. -/
  | latchVector
  /-- The T result becomes that of the previous group. -/
  | latchScalar
  | assign (a : Assignment)
  | sample (s : Sample)
  /-- Call the fetch function. -/
  | fetchCall
  | ret
deriving DecidableEq

/-- The text of a statement. -/
def Stmt.text : Stmt → String
  | .lane out result => s!"{out.text} = {result.text};"
  | .reduction result => s!"PVo = (float4)({result.text});"
  | .address chan source => s!"AR.{chan.letter} = clamp((int)floor({source.text}), -256, 255);"
  | .regWrite write => write.text
  | .latchVector => "PV = PVo;"
  | .latchScalar => "PS = PSo;"
  | .assign a => a.text
  | .sample s => s.text
  | .fetchCall => "FSMain(input, R);"
  | .ret => "return;"

/-- A line of a compiled body. -/
inductive Line where
  | stmt (s : Stmt)
  /-- A comment that names a control flow instruction. -/
  | controlNote (cfPc : Word) (op : Opcode)
  /-- A comment that numbers an ALU group. -/
  | groupNote (groupPc : Word)
deriving DecidableEq

/-- The text of a line, without indentation. -/
def Line.text : Line → String
  | .stmt s => s.text
  | .controlNote pc op => s!"// CF {pc.toNat} {op.name}"
  | .groupNote pc => s!"// group {pc.toNat}"

end LatteHlsl.Hlsl
