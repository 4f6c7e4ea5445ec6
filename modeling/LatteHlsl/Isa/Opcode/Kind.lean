import LatteHlsl.Isa.Opcode.Control
import LatteHlsl.Isa.Opcode.Alu
import LatteHlsl.Isa.Opcode.Fetch

/-!
# Opcode families

`Opcode` is an operation of any of the seven tables; `OpcodeKind` names the table. Diagnostics
speak of operations through these two.
-/

namespace LatteHlsl.Isa

/-- The seven opcode tables. -/
inductive OpcodeKind where
  | cf | exp | cfAlu | op2 | op3 | tex | vtx
deriving DecidableEq

namespace OpcodeKind

/-- The table's name in diagnostics. -/
def label : OpcodeKind → String
  | .cf => "CF NORMAL"
  | .exp => "CF EXPORT"
  | .cfAlu => "CF ALU"
  | .op2 => "ALU OP2"
  | .op3 => "ALU OP3"
  | .tex => "TEX"
  | .vtx => "VTX"

end OpcodeKind

/-- An operation of any table. -/
inductive Opcode where
  | cf (op : CfOp)
  | exp (op : ExportOp)
  | cfAlu (op : CfAluOp)
  | op2 (op : AluOp2)
  | op3 (op : AluOp3)
  | tex (op : TexOp)
  | vtx (op : VtxOp)
deriving DecidableEq

namespace Opcode

/-- The table an operation belongs to. -/
def kind : Opcode → OpcodeKind
  | .cf _ => .cf
  | .exp _ => .exp
  | .cfAlu _ => .cfAlu
  | .op2 _ => .op2
  | .op3 _ => .op3
  | .tex _ => .tex
  | .vtx _ => .vtx

/-- The mnemonic. -/
def name : Opcode → String
  | .cf op => op.name
  | .exp op => op.name
  | .cfAlu op => op.name
  | .op2 op => op.name
  | .op3 op => op.name
  | .tex op => op.name
  | .vtx op => op.name

end Opcode

/-- An ALU operation as a member of its table. -/
def AluOp.opcode : AluOp → Opcode
  | .op2 op => .op2 op
  | .op3 op => .op3 op

end LatteHlsl.Isa
