import LatteHlsl.Isa.Channel
import LatteHlsl.Isa.Opcode.Kind
import LatteHlsl.Isa.Resource
import LatteHlsl.Word.Basic

/-!
# Faults

Everything that can stop the reading or the compilation of a program, by cause, with the wording
of each cause in one place.

* `DecodeFault`: the bytes are no program.
* `CompileFault`: the program cannot be compiled.
* `Halt`: a compilation stopped, by a fault or because a handler indexed past the end of a list.
-/

namespace LatteHlsl

open Isa

/-- The lower-case hexadecimal digits of a number. -/
def hexDigits (n : Nat) : String := String.ofList (Nat.toDigits 16 n)

/-- Why bytes could not be read as instructions. -/
inductive DecodeFault where
  /-- The program has no bytes. -/
  | emptyProgram
  /-- A read of `len` bytes at `offset` leaves a program of `size` bytes. -/
  | outOfBounds (offset len size : Nat)
  /-- The table has no operation with this id. -/
  | unexpectedOpcode (kind : OpcodeKind) (id : Nat)
  /-- The instruction in this slot is the second one for the T unit. -/
  | unitConflict (slot : Nat)
  /-- The clause ends before the group that starts in this slot. -/
  | unterminatedGroup (slot : Nat)
  /-- The clause ends before the literals of the group that starts in this slot. -/
  | missingLiterals (slot needed : Nat)
deriving DecidableEq

/-- The wording of a decode fault. -/
def DecodeFault.message : DecodeFault → String
  | .emptyProgram => "Shader binary is empty"
  | .outOfBounds offset len size =>
    s!"Read of {len} bytes at offset 0x{hexDigits offset} exceeds {size}-byte shader binary"
  | .unexpectedOpcode kind id => s!"Unexpected {kind.label} instruction id {id}"
  | .unitConflict slot => s!"ALU group at slot {slot} assigns more than one instruction to the T unit"
  | .unterminatedGroup slot => s!"ALU clause ended inside a group at slot {slot}"
  | .missingLiterals slot needed =>
    s!"ALU group at slot {slot} is missing {needed} literal slot(s)"

/-- What the lanes of a reduction have to share. -/
inductive ReductionField where
  | opcode | outputModifier | clamp
deriving DecidableEq

/-- The field's name in diagnostics. -/
def ReductionField.label : ReductionField → String
  | .opcode => "opcode"
  | .outputModifier => "output modifier"
  | .clamp => "clamp"

/-- The two kinds of bound resources a sample addresses by number. -/
inductive SampleResource where
  | texture | sampler
deriving DecidableEq

/-- The kind's name in diagnostics. -/
def SampleResource.label : SampleResource → String
  | .texture => "texture"
  | .sampler => "sampler"

/-- What a vertex fetch asks for and cannot have. -/
inductive FetchAspect where
  | instanceSelector | fetchType | dataFormat | semanticId
deriving DecidableEq

/-- The aspect's name in diagnostics. -/
def FetchAspect.label : FetchAspect → String
  | .instanceSelector => "instance index selector"
  | .fetchType => "fetch type"
  | .dataFormat => "data format"
  | .semanticId => "semantic id"

/-- Why a program could not be compiled. -/
inductive CompileFault where
  /-- No handler is known for the operation. -/
  | unimplemented (op : Opcode)
  | fetchCallNotFirst (cfPc : Word)
  | duplicateFetchCall (cfPc : Word)
  | fetchCallOutsideVertex (stage : Stage)
  | returnOutsideFunction (cfPc : Word)
  | fetchNotFunction
  /-- A lane of a reduction is missing or differs from the X lane. -/
  | reductionMismatch (field : ReductionField) (lane : Lane)
  | misplacedReduction (op : AluOp) (lane : Lane)
  | reductionOnly (op : AluOp)
  | unnormalizedCoords (chan : Chan)
  | fractionAddressing
  | unknownTextureDim (slot : Nat)
  | offsetsOnDim (dim : TexDim)
  | invalidOperand (sel : Nat)
  | invalidIndexMode (mode : Nat)
  | kcacheNotLocked (bank : Nat)
  | resourceOutOfRange (kind : SampleResource) (slot : Nat)
  /-- An export of a reserved kind (`none`), in the wrong stage, or past the last target. -/
  | invalidExport (kind : Option ExportKind) (arrayBase : Nat) (stage : Stage)
  | invalidFetchBuffer (buffer : Nat)
  | unsupportedFetch (what : FetchAspect) (value : Nat)
  /-- The shader was asked for before the walk had completed. -/
  | incomplete
  | decode (fault : DecodeFault)
deriving DecidableEq

/-- The wording of a compilation fault. -/
def CompileFault.message : CompileFault → String
  | .unimplemented op => s!"Unimplemented {op.kind.label} instruction {op.name}"
  | .fetchCallNotFirst pc =>
    s!"CALL_FS is only allowed as the first CF instruction (found at CF {pc.toNat})"
  | .duplicateFetchCall pc => s!"CALL_FS issued more than once (CF {pc.toNat})"
  | .fetchCallOutsideVertex stage =>
    s!"CALL_FS is only allowed in vertex shaders, not {stage.name} shaders"
  | .returnOutsideFunction pc => s!"RETURN outside of a function body (CF {pc.toNat})"
  | .fetchNotFunction => "Fetch shaders must be translated as functions"
  | .reductionMismatch field lane =>
    s!"Expected every instruction in reduction group to have the same {field.label} (unit {lane.index})"
  | .misplacedReduction op lane =>
    s!"Unexpected reduction instruction {op.name} in ALU unit {lane.index}"
  | .reductionOnly op => s!"Instruction {op.name} is only valid as a reduction"
  | .unnormalizedCoords chan =>
    s!"Texture fetch with non-normalized coordinates on channel {chan.letter}"
  | .fractionAddressing => "Texture fetch with fraction addressing mode is unsupported"
  | .unknownTextureDim slot =>
    s!"Texture slot {slot} has no declared dimension (texture coordinates)"
  | .offsetsOnDim dim => s!"Unexpected texture dimension {dim.name} for texel offsets"
  | .invalidOperand sel => s!"Invalid ALU operand selector {sel}"
  | .invalidIndexMode mode => s!"Invalid index mode {mode} for relative addressing"
  | .kcacheNotLocked bank => s!"Kcache bank {bank} referenced while unlocked"
  | .resourceOutOfRange kind slot => s!"{kind.label} slot {slot} is out of range"
  | .invalidExport kind arrayBase stage =>
    let label := (kind.map ExportKind.name).getD "reserved"
    s!"Invalid {label} export to array base {arrayBase} in {stage.name} shader"
  | .invalidFetchBuffer buffer => s!"Vertex fetch from non-attribute buffer {buffer}"
  | .unsupportedFetch what value => s!"Unsupported vertex fetch {what.label} {value}"
  | .incomplete => "Translation result requested before the walk completed"
  | .decode fault => s!"Decode error: {fault.message}"

/-- A fault of the library as a whole. -/
inductive Fault where
  | decode (fault : DecodeFault)
  | compile (fault : CompileFault)
deriving DecidableEq

/-- The wording of a fault, headed by the part of the library it comes from. -/
def Fault.message : Fault → String
  | .decode fault => s!"Decode error: {fault.message}"
  | .compile fault => s!"Translation error: {fault.message}"

/-- What a walk counts. -/
inductive Counter where
  /-- Control flow instructions. -/
  | cf
  /-- ALU groups. -/
  | group
deriving DecidableEq

/-- Why a compilation stopped. -/
inductive Halt where
  | fault (fault : CompileFault)
  /-- Element `index` was taken from a list with `size` elements. -/
  | indexOutOfRange (index size : Nat)
  /-- A counter at its largest value was to be raised. -/
  | counterOverflow (counter : Counter)
deriving DecidableEq

end LatteHlsl
