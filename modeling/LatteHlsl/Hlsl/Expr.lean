import LatteHlsl.Fault
import LatteHlsl.Interface.Usage
import LatteHlsl.Isa.Operand

/-!
# Expressions

The expressions that appear on the right of compiled ALU statements, with their text.

* `Index`, `Atom`: register and constant references.
* `Source`: an atom with its modifiers and the domain it is read in.
* `Arith`, `Result`: what an operation computes, and how the value is finished.
-/

namespace LatteHlsl.Hlsl

open Isa

/-! ## Indices -/

/-- A register whose value is added to an index. -/
inductive IndexReg where
  /-- A channel of the address register. -/
  | ar (chan : Chan)
  /-- The loop index. -/
  | al
deriving DecidableEq

/-- The register's name. -/
def IndexReg.text : IndexReg → String
  | .ar chan => s!"AR.{chan.letter}"
  | .al => "AL"

/-- An index into an array: a constant and the registers added to it. -/
structure Index where
  base : Nat
  offsets : List IndexReg := []
deriving DecidableEq

namespace Index

/-- Whether the index is a constant. -/
def isStatic (i : Index) : Bool := i.offsets.isEmpty

/-- The terms of the index, joined by plus signs. -/
def text (i : Index) : String :=
  " + ".intercalate (toString i.base :: i.offsets.map IndexReg.text)

end Index

/-! ## Atoms -/

/-- A scalar operand without modifiers. -/
inductive Atom where
  | gpr (index : Index) (chan : Chan)
  /-- A constant of a uniform block. -/
  | uniform (block : Slot) (index : Index) (chan : Chan)
  /-- A constant of the uniform register file. -/
  | cfile (index : Index) (chan : Chan)
  | zero | one | half
  /-- The float with the bits of the integer one. -/
  | intOne
  /-- The float with the bits of the integer minus one. -/
  | intMinusOne
  /-- The float with the given bits. -/
  | literal (bits : Word)
  | prevVector (chan : Chan)
  | prevScalar
deriving DecidableEq

namespace Atom

/-- Eight upper-case hexadecimal digits. -/
def hexWord (w : Word) : String :=
  let digits := (Nat.toDigits 16 w.toNat).map Char.toUpper
  String.ofList (List.replicate (8 - digits.length) '0' ++ digits)

/-- The text of an atom. -/
def text : Atom → String
  | .gpr index chan => s!"R[{index.text}].{chan.letter}"
  | .uniform block index chan => s!"CB{block.val}[{index.text}].{chan.letter}"
  | .cfile index chan => s!"C[{index.text}].{chan.letter}"
  | .zero => "0.0f"
  | .one => "1.0f"
  | .half => "0.5f"
  | .intOne => "asfloat(1)"
  | .intMinusOne => "asfloat(-1)"
  | .literal bits => s!"asfloat(0x{hexWord bits}u)"
  | .prevVector chan => s!"PV.{chan.letter}"
  | .prevScalar => "PS"

/-- The constant an atom refers to. A computed index may reach every constant of its array. -/
def access? : Atom → Option Access
  | .uniform block index _ =>
    some (if index.isStatic then .uniform block index.base else .uniformBlock block)
  | .cfile index _ => some (if index.isStatic then .cfile index.base else .cfileAll)
  | _ => none

end Atom

/-! ## Sources -/

/-- A source operand: absolute value first, then the sign, then the domain it is read in. -/
structure Source where
  atom : Atom
  abs : Bool := false
  neg : Bool := false
  view : Domain := .float
deriving DecidableEq

/-- The text of a source. -/
def Source.text (s : Source) : String :=
  let t := s.atom.text
  let t := if s.abs then s!"abs({t})" else t
  let t := if s.neg then s!"-{t}" else t
  match s.view with
  | .float => t
  | .int => s!"asint({t})"
  | .uint => s!"asuint({t})"

/-! ## Operations -/

/-- An operator between two operands. -/
inductive BinaryOp where
  | add | mul | and | or | xor | shr | shl
deriving DecidableEq

/-- The operator's sign. -/
def BinaryOp.sign : BinaryOp → String
  | .add => "+"
  | .mul => "*"
  | .and => "&"
  | .or => "|"
  | .xor => "^"
  | .shr => ">>"
  | .shl => "<<"

/-- A function of one operand. -/
inductive UnaryFn where
  | frac | trunc | floor | rsqrt | sqrt
deriving DecidableEq

/-- The function's name. -/
def UnaryFn.name : UnaryFn → String
  | .frac => "frac"
  | .trunc => "trunc"
  | .floor => "floor"
  | .rsqrt => "rsqrt"
  | .sqrt => "sqrt"

/-- A function of two operands. -/
inductive BinaryFn where
  | max | min
deriving DecidableEq

/-- The function's name. -/
def BinaryFn.name : BinaryFn → String
  | .max => "max"
  | .min => "min"

/-- A conversion between number types. -/
inductive Conversion where
  | toFloat | toInt
deriving DecidableEq

/-- The name of the type converted to. -/
def Conversion.typeName : Conversion → String
  | .toFloat => "float"
  | .toInt => "int"

/-- How a condition compares with zero. -/
inductive ZeroTest where
  | eq | gt | ge
deriving DecidableEq

/-- The comparison's sign. -/
def ZeroTest.sign : ZeroTest → String
  | .eq => "=="
  | .gt => ">"
  | .ge => ">="

/-- What an operation computes from its operands. -/
inductive Arith where
  | copy (a : Source)
  | call (fn : UnaryFn) (a : Source)
  | convert (kind : Conversion) (a : Source)
  | recip (a : Source)
  | binary (op : BinaryOp) (a b : Source)
  | call2 (fn : BinaryFn) (a b : Source)
  | mulAdd (a b c : Source)
  /-- `b` if `a` passes the test, else `c`. -/
  | select (test : ZeroTest) (a b c : Source)
  /-- Dot product of two vectors given by their components. -/
  | dot (as bs : List Source)
  | max4 (a b c d : Source)
deriving DecidableEq

namespace Arith

/-- The operands in the order in which they are written. -/
def operands : Arith → List Source
  | .copy a | .call _ a | .convert _ a | .recip a => [a]
  | .binary _ a b | .call2 _ a b => [a, b]
  | .mulAdd a b c | .select _ a b c => [a, b, c]
  | .dot as bs => as ++ bs
  | .max4 a b c d => [a, b, c, d]

/-- A comma separated list of sources. -/
def listText (ss : List Source) : String := ", ".intercalate (ss.map Source.text)

/-- The text of an operation. -/
def text : Arith → String
  | .copy a => a.text
  | .call fn a => s!"{fn.name}({a.text})"
  | .convert kind a => s!"({kind.typeName}){a.text}"
  | .recip a => s!"1.0f / {a.text}"
  | .binary op a b => s!"{a.text} {op.sign} {b.text}"
  | .call2 fn a b => s!"{fn.name}({a.text}, {b.text})"
  | .mulAdd a b c => s!"{a.text} * {b.text} + {c.text}"
  | .select test a b c => s!"({a.text} {test.sign} 0.0f) ? {b.text} : {c.text}"
  | .dot as bs => s!"dot(float4({listText as}), float4({listText bs}))"
  | .max4 a b c d => s!"max(max({a.text}, {b.text}), max({c.text}, {d.text}))"

end Arith

/-! ## Results -/

/-- How the value of an operation becomes a lane result. -/
inductive Finish where
  /-- An integer result is stored as the float with the same bits. -/
  | reinterpret
  /-- A float result is scaled and then clamped to the unit interval. -/
  | float (omod : OutputModifier) (clamp : Bool)
deriving DecidableEq

/-- A lane result: an operation and the finish of its value. -/
structure Result where
  value : Arith
  finish : Finish
deriving DecidableEq

namespace Result

/-- The text of an expression under an output modifier. -/
def scaleText (t : String) : OutputModifier → String
  | .off => t
  | .mul2 => s!"({t}) * 2.0f"
  | .mul4 => s!"({t}) * 4.0f"
  | .div2 => s!"({t}) / 2.0f"

/-- The text of a result. -/
def text (r : Result) : String :=
  match r.finish with
  | .reinterpret => s!"asfloat({r.value.text})"
  | .float omod clamp =>
    let t := scaleText r.value.text omod
    if clamp then s!"saturate({t})" else t

end Result

end LatteHlsl.Hlsl
