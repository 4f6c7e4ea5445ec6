/-!
# ALU operand selectors and modifiers

The number space of ALU source selectors, the registers that relative addressing adds, the
constant cache banks and their modes, and the output modifier.
-/

namespace LatteHlsl.Isa

/-- One of the two constant cache banks that an ALU clause can lock. -/
inductive KcacheBank where
  | first | second
deriving DecidableEq

/-- The bank's number. -/
def KcacheBank.index : KcacheBank → Nat
  | .first => 0
  | .second => 1

/-- What an ALU source selector names. -/
inductive Operand where
  /-- A general purpose register. -/
  | gpr (index : Nat)
  /-- A constant of a locked window of a uniform block. -/
  | kcache (bank : KcacheBank) (index : Nat)
  | zero | one | intOne | intMinusOne | half
  /-- A constant that follows the group in the clause. -/
  | literal
  /-- The previous group's vector result. -/
  | prevVector
  /-- The previous group's T result. -/
  | prevScalar
  /-- A constant of the uniform register file. -/
  | cfile (index : Nat)
deriving DecidableEq

namespace Operand

/-- The selector of literal constants. -/
def literalSel : Nat := 253

/-- The operand a selector names, if it names one. -/
def ofSel? (sel : Nat) : Option Operand :=
  if sel ≤ 127 then some (.gpr sel)
  else if sel ≤ 159 then some (.kcache .first (sel - 128))
  else if sel ≤ 191 then some (.kcache .second (sel - 160))
  else if sel = 248 then some .zero
  else if sel = 249 then some .one
  else if sel = 250 then some .intOne
  else if sel = 251 then some .intMinusOne
  else if sel = 252 then some .half
  else if sel = literalSel then some .literal
  else if sel = 254 then some .prevVector
  else if sel = 255 then some .prevScalar
  else if 256 ≤ sel ∧ sel ≤ 511 then some (.cfile (sel - 256))
  else none

end Operand

/-- The register that relative addressing adds to an index. -/
inductive IndexMode where
  | arX | arY | arZ | arW | loop | global | globalArX
deriving DecidableEq, Repr

namespace IndexMode

/-- The modes in the order of their numbers. -/
def all : List IndexMode := [.arX, .arY, .arZ, .arW, .loop, .global, .globalArX]

/-- The mode with the given number. -/
def ofNat? (n : Nat) : Option IndexMode := all[n]?

/-- The mode's number. -/
def index : IndexMode → Nat
  | .arX => 0
  | .arY => 1
  | .arZ => 2
  | .arW => 3
  | .loop => 4
  | .global => 5
  | .globalArX => 6

end IndexMode

/-- How a constant cache bank is locked. -/
inductive KcacheMode where
  | nop | lock1 | lock2 | lockLoopIndex
deriving DecidableEq, Repr

namespace KcacheMode

/-- The mode named by the two low bits of a number. -/
def ofBits (n : Nat) : KcacheMode :=
  match n % 4 with
  | 0 => .nop
  | 1 => .lock1
  | 2 => .lock2
  | _ => .lockLoopIndex

/-- The mode's number. -/
def index : KcacheMode → Nat
  | .nop => 0
  | .lock1 => 1
  | .lock2 => 2
  | .lockLoopIndex => 3

end KcacheMode

/-- A factor applied to a float result. -/
inductive OutputModifier where
  | off | mul2 | mul4 | div2
deriving DecidableEq, Repr

namespace OutputModifier

/-- The modifier named by the two low bits of a number. -/
def ofBits (n : Nat) : OutputModifier :=
  match n % 4 with
  | 0 => .off
  | 1 => .mul2
  | 2 => .mul4
  | _ => .div2

/-- The modifier's number. -/
def index : OutputModifier → Nat
  | .off => 0
  | .mul2 => 1
  | .mul4 => 2
  | .div2 => 3

end OutputModifier

end LatteHlsl.Isa
