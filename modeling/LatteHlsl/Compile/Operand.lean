import LatteHlsl.Compile.Output

/-!
# ALU operands

The expression for a source operand, and the resources it uses.
-/

namespace LatteHlsl.Compile

open Isa Hlsl Effect

/-- The register that a mode of relative addressing adds. -/
def indexReg (mode : Nat) : Except CompileFault IndexReg :=
  match IndexMode.ofNat? mode with
  | some .arX => .ok (.ar .x)
  | some .arY => .ok (.ar .y)
  | some .arZ => .ok (.ar .z)
  | some .arW => .ok (.ar .w)
  | some .loop => .ok .al
  | _ => .error (.invalidIndexMode mode)

/-- An index that adds the register of `mode` if it is relative. -/
def relIndex (base : Nat) (rel : Bool) (mode : Nat) : Except CompileFault Index :=
  if rel then do return ⟨base, [← indexReg mode]⟩ else .ok ⟨base, []⟩

/-- The registers that the mode of a constant cache bank adds. -/
def bankOffsets (bank : KcacheBank) : KcacheMode → Except CompileFault (List IndexReg)
  | .nop => .error (.kcacheNotLocked bank.index)
  | .lockLoopIndex => .ok [.al]
  | .lock1 | .lock2 => .ok []

/-- Number of constants in one unit of a locked window's start. -/
def windowUnit : Nat := 16

/-- Constant `index` of the window of a uniform block that a bank has locked. -/
def kcacheAtom (cf : CfInstr) (bank : KcacheBank) (index : Nat) (rel : Bool) (mode : Nat)
    (chan : Chan) : Except CompileFault Atom := do
  let locked ← bankOffsets bank (cf.kcacheMode bank)
  let own ← relIndex (cf.kcacheAddr bank * windowUnit + index) rel mode
  return .uniform ⟨cf.kcacheBlock bank, cf.kcacheBlock_lt bank⟩
    { own with offsets := locked ++ own.offsets } chan

/-- The atom that a source names. -/
def sourceAtom (cf : CfInstr) (g : AluGroup) (mode : Nat) (s : AluSource) :
    Except CompileFault Atom :=
  match Operand.ofSel? s.sel with
  | none => .error (.invalidOperand s.sel)
  | some (.gpr index) => do return .gpr (← relIndex index s.rel mode) s.chan
  | some (.kcache bank index) => kcacheAtom cf bank index s.rel mode s.chan
  | some .zero => .ok .zero
  | some .one => .ok .one
  | some .intOne => .ok .intOne
  | some .intMinusOne => .ok .intMinusOne
  | some .half => .ok .half
  | some .literal => .ok (.literal (g.literal s.chan))
  | some .prevVector => .ok (.prevVector s.chan)
  | some .prevScalar => .ok .prevScalar
  | some (.cfile index) => do return .cfile (← relIndex index s.rel mode) s.chan

/-- Record the constant that an atom refers to. -/
def recordAtom (a : Atom) : Emit Unit :=
  match a.access? with
  | some access => record access
  | none => pure ()

/-- The expression for source `n` of an instruction. -/
def source (cf : CfInstr) (g : AluGroup) (i : AluInstr) (n : Nat) : Emit Source := do
  let s := i.src n
  let atom ← check (sourceAtom cf g i.indexMode s)
  recordAtom atom
  let op ← decode i.op
  return { atom := atom, abs := s.abs, neg := s.neg, view := op.traits.reads }

end LatteHlsl.Compile
