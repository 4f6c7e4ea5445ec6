import Mathlib.Algebra.Ring.Int.Defs
import LatteHlsl.Proofs.Piece

/-!
# Executing the statements of a group

What the statements of an ALU group do to the registers, under any interpretation of operands and
operations. Statements that never stand in a group have no meaning here.

* `Regs`, `State`: what operands may read, and with it the two variables that collect results.
* `Interp`: an interpretation, with values of any type.
* `execAll`: statements one after the other.
* `execAll_regWrites`: the register writes at the end of a group.
-/

namespace LatteHlsl.Meaning

open Isa Hlsl

variable {V : Type}

/-! ## States -/

/-- The registers that operands and indices read. -/
structure Regs (V : Type) where
  gpr : Int → Chan → V
  /-- Vector results of the previous group. -/
  pv : Chan → V
  /-- T result of the previous group. -/
  ps : V
  ar : Chan → Int
  al : Int

/-- Write one channel of one general purpose register. -/
def Regs.write (r : Regs V) (index : Int) (chan : Chan) (v : V) : Regs V :=
  { r with gpr := fun k c => if k = index ∧ c = chan then v else r.gpr k c }

/-- The registers, and the variables that collect the results of the current group. -/
structure State (V : Type) extends Regs V where
  pvo : Chan → V
  pso : V

namespace State

/-- The collected results are those of the previous group, as they are between groups. -/
def Latched (s : State V) : Prop := s.pvo = s.pv ∧ s.pso = s.ps

/-- The content of the variable of a lane. -/
def out (s : State V) : LaneOut → V
  | .vector c => s.pvo c
  | .scalar => s.pso

/-- Store the result of a lane, if it has one. -/
def put (s : State V) (l : Lane) (v? : Option V) : State V :=
  { s with
    pvo := fun c => if l = .ofChan c then v?.getD (s.pvo c) else s.pvo c
    pso := if l = .t then v?.getD s.pso else s.pso }

@[simp] theorem toRegs_put (s : State V) (l : Lane) (v? : Option V) :
    (s.put l v?).toRegs = s.toRegs := rfl

@[simp] theorem put_none (s : State V) (l : Lane) : s.put l none = s := by
  simp [put]

/-- Store the results of several lanes. -/
def putAll (s : State V) (value? : Lane → Option V) (ls : List Lane) : State V :=
  ls.foldl (fun s l => s.put l (value? l)) s

@[simp] theorem toRegs_putAll (value? : Lane → Option V) (ls : List Lane) (s : State V) :
    (s.putAll value? ls).toRegs = s.toRegs := by
  unfold putAll
  induction ls generalizing s with
  | nil => rfl
  | cons l ls ih => rw [List.foldl_cons, ih, toRegs_put]

theorem putAll_append (s : State V) (value? : Lane → Option V) (ls ls' : List Lane) :
    s.putAll value? (ls ++ ls') = (s.putAll value? ls).putAll value? ls' := by
  simp [putAll]

/-- All lanes stored: every variable holds the result of its lane, or what it held before. -/
theorem putAll_all (s : State V) (value? : Lane → Option V) :
    s.putAll value? Lane.all =
      { s with
        pvo := fun c => (value? (.ofChan c)).getD (s.pvo c)
        pso := (value? .t).getD s.pso } := by
  have hpvo : ∀ c, (s.putAll value? Lane.all).pvo c = (value? (.ofChan c)).getD (s.pvo c) := by
    intro c
    cases c <;> rfl
  have hpso : (s.putAll value? Lane.all).pso = (value? .t).getD s.pso := rfl
  have hregs := toRegs_putAll value? Lane.all s
  generalize s.putAll value? Lane.all = t at hpvo hpso hregs
  cases t
  simp only at hpvo hpso hregs
  rw [← funext hpvo, hpso, hregs]

end State

/-! ## Interpretations -/

/-- What an operand refers to once its index is known. -/
inductive Ref where
  | gpr (index : Int) (chan : Chan)
  | uniform (block : Slot) (index : Int) (chan : Chan)
  | cfile (index : Int) (chan : Chan)
  | zero | one | half | intOne | intMinusOne
  | literal (bits : Word)
  | prevVector (chan : Chan)
  | prevScalar

/-- An operand to be read: what it refers to, its modifiers, and the domain it is read in. -/
structure Read where
  ref : Ref
  abs : Bool
  neg : Bool
  view : Domain

/-- The function that an operation applies to its operands. -/
inductive Fn where
  | copy
  | call (fn : UnaryFn)
  | convert (kind : Conversion)
  | recip
  | binary (op : BinaryOp)
  | call2 (fn : BinaryFn)
  | mulAdd
  | select (test : ZeroTest)
  | dot
  | max4

/-- An interpretation of operands and operations. An operand may depend on all registers, and on
constants as they are part of the interpretation. -/
structure Interp (V : Type) where
  read : Read → Regs V → V
  apply : Fn → List V → V
  /-- An integer result kept as a float of the same bits. -/
  reinterpret : V → V
  scale : OutputModifier → V → V
  saturate : V → V
  /-- The address that a value stands for. -/
  address : V → Int

/-- A float result under its output modifier and its clamp. -/
def Interp.modify (I : Interp V) (omod : OutputModifier) (clamp : Bool) (v : V) : V :=
  if clamp then I.saturate (I.scale omod v) else I.scale omod v

/-! ## Expressions -/

/-- The value of a register that is added to an index. -/
def offset (r : Regs V) : IndexReg → Int
  | .ar chan => r.ar chan
  | .al => r.al

/-- The value of an index. -/
def indexValue (r : Regs V) (k : Index) : Int := k.base + (k.offsets.map (offset r)).sum

/-- What an atom refers to. -/
def atomRef (r : Regs V) : Atom → Ref
  | .gpr k chan => .gpr (indexValue r k) chan
  | .uniform block k chan => .uniform block (indexValue r k) chan
  | .cfile k chan => .cfile (indexValue r k) chan
  | .zero => .zero
  | .one => .one
  | .half => .half
  | .intOne => .intOne
  | .intMinusOne => .intMinusOne
  | .literal bits => .literal bits
  | .prevVector chan => .prevVector chan
  | .prevScalar => .prevScalar

/-- The value of a source. -/
def sourceValue (I : Interp V) (r : Regs V) (s : Source) : V :=
  I.read ⟨atomRef r s.atom, s.abs, s.neg, s.view⟩ r

/-- The function of an operation. -/
def arithFn : Arith → Fn
  | .copy _ => .copy
  | .call f _ => .call f
  | .convert kind _ => .convert kind
  | .recip _ => .recip
  | .binary op _ _ => .binary op
  | .call2 f _ _ => .call2 f
  | .mulAdd _ _ _ => .mulAdd
  | .select test _ _ _ => .select test
  | .dot _ _ => .dot
  | .max4 _ _ _ _ => .max4

/-- The value of an operation. -/
def arithValue (I : Interp V) (r : Regs V) (a : Arith) : V :=
  I.apply (arithFn a) (a.operands.map (sourceValue I r))

/-- The value of a result. -/
def resultValue (I : Interp V) (r : Regs V) (x : Result) : V :=
  match x.finish with
  | .reinterpret => I.reinterpret (arithValue I r x.value)
  | .float omod clamp => I.modify omod clamp (arithValue I r x.value)

/-! ## Statements -/

/-- The lane whose result a variable takes. -/
def laneOut : LaneOut → Lane
  | .vector c => .ofChan c
  | .scalar => .t

/-- Where a register write goes, and what it writes. -/
def resolve (s : State V) (w : RegWrite) : Int × Chan × V :=
  (indexValue s.toRegs w.index, w.chan, s.out w.value)

/-- Register writes in order. -/
def writeAll (r : Regs V) (ws : List (Int × Chan × V)) : Regs V :=
  ws.foldl (fun r w => r.write w.1 w.2.1 w.2.2) r

/-- Execute one statement. -/
def exec (I : Interp V) (s : State V) : Stmt → Option (State V)
  | .lane out x => some (s.put (laneOut out) (some (resultValue I s.toRegs x)))
  | .reduction x => some { s with pvo := fun _ => resultValue I s.toRegs x }
  | .address chan a =>
    some { s with ar := fun c => if c = chan then I.address (sourceValue I s.toRegs a) else s.ar c }
  | .regWrite w => some { s with toRegs := writeAll s.toRegs [resolve s w] }
  | .latchVector => some { s with pv := s.pvo }
  | .latchScalar => some { s with ps := s.pso }
  | .assign _ | .sample _ | .fetchCall | .ret => none

/-- Execute statements one after the other. -/
def execAll (I : Interp V) (s : State V) (ss : List Stmt) : Option (State V) := ss.foldlM (exec I) s

theorem execAll_append (I : Interp V) (s : State V) (ss ss' : List Stmt) :
    execAll I s (ss ++ ss') = (execAll I s ss).bind fun t => execAll I t ss' := by
  unfold execAll
  rw [List.foldlM_append]
  rfl

/-! ## The end of a group -/

/-- A register write changes general purpose registers only, so it leaves the places and the values
of the writes after it alone. -/
theorem resolve_writeAll (s : State V) (ws : List (Int × Chan × V)) (w : RegWrite) :
    resolve { s with toRegs := writeAll s.toRegs ws } w = resolve s w := by
  have hfix : ∀ r : Regs V, (writeAll r ws).ar = r.ar ∧ (writeAll r ws).al = r.al := by
    unfold writeAll
    induction ws with
    | nil => exact fun r => ⟨rfl, rfl⟩
    | cons x ws ih => exact fun r => ih (r.write x.1 x.2.1 x.2.2)
  obtain ⟨har, hal⟩ := hfix s.toRegs
  have hreg : ∀ x, offset (writeAll s.toRegs ws) x = offset s.toRegs x := by
    intro x
    cases x with
    | ar chan => exact congrFun har chan
    | al => exact hal
  have hindex : indexValue (writeAll s.toRegs ws) w.index = indexValue s.toRegs w.index := by
    simp only [indexValue, funext hreg]
  simp only [resolve, hindex]
  cases w.value <;> rfl

theorem execAll_regWrites (I : Interp V) (ws : List RegWrite) (s : State V) :
    execAll I s (ws.map .regWrite) =
      some { s with toRegs := writeAll s.toRegs (ws.map (resolve s)) } := by
  induction ws generalizing s with
  | nil => rfl
  | cons w ws ih =>
    have hfirst : exec I s (.regWrite w) =
        some { s with toRegs := writeAll s.toRegs [resolve s w] } := rfl
    have hrest : ws.map (resolve { s with toRegs := writeAll s.toRegs [resolve s w] }) =
        ws.map (resolve s) := by
      apply List.map_congr_left
      intro w' _
      exact resolve_writeAll s _ w'
    rw [List.map_cons, execAll, List.foldlM_cons, hfirst]
    show execAll I _ (ws.map .regWrite) = _
    rw [ih, hrest]
    rfl

end LatteHlsl.Meaning
