import LatteHlsl.Compile.Operand
import LatteHlsl.Walk.Handlers

/-!
# ALU lanes

Each lane stores its result into a variable of the group and holds its register write back to the
group's end, so every lane of a group reads the registers as they were before it.

* `compileOp2`, `compileOp3`: lanes with two and with three operands.
* `compileReduction`: the lanes X to W together.
* `compileAddress`: loads of the address register.
-/

namespace LatteHlsl.Compile

open Isa Hlsl Effect

/-! ## Results -/

/-- How the result of an instruction with the given traits is finished. -/
def finishOf (t : AluTraits) (i : AluInstr) : Finish :=
  match t.writes with
  | .float => .float i.omod i.clamp
  | .int | .uint => .reinterpret

/-- Hold back the write of a lane result to the register of an instruction, if it has one. -/
def deferWrite (i : AluInstr) (value : LaneOut) : Emit Unit := do
  if i.writes then
    let index ← check (relIndex i.dstGpr i.dstRel i.indexMode)
    defer ⟨index, i.dstChan, value⟩

/-- Store what a lane computes. -/
def storeLane (l : Lane) (i : AluInstr) (value : Arith) : Emit Unit := do
  let op ← decode i.op
  let out := LaneOut.ofLane l
  emit (.lane out ⟨value, finishOf op.traits i⟩)
  deferWrite i out

/-- The lane of a target; a reduction counts as its first lane. -/
def laneOf : Target → Lane
  | .lane l => l
  | .reduction => .x

/-! ## Two operands -/

/-- How an operation computes its result from its first operands. -/
inductive Shape where
  | unary (f : Source → Arith)
  | binary (f : Source → Source → Arith)

/-- What the two-operand operations compute. -/
def shape? : AluOp2 → Option Shape
  | .add | .addInt => some (.binary (.binary .add))
  | .mul | .mulIeee => some (.binary (.binary .mul))
  | .max => some (.binary (.call2 .max))
  | .min => some (.binary (.call2 .min))
  | .fract => some (.unary (.call .frac))
  | .trunc => some (.unary (.call .trunc))
  | .floor => some (.unary (.call .floor))
  | .mov => some (.unary .copy)
  | .andInt => some (.binary (.binary .and))
  | .orInt => some (.binary (.binary .or))
  | .xorInt => some (.binary (.binary .xor))
  | .ashrInt | .lshrInt => some (.binary (.binary .shr))
  | .lshlInt => some (.binary (.binary .shl))
  | .intToFlt | .uintToFlt => some (.unary (.convert .toFloat))
  | .fltToInt => some (.unary (.convert .toInt))
  | .recipIeee => some (.unary .recip)
  | .recipsqrtIeee => some (.unary (.call .rsqrt))
  | .sqrtIeee => some (.unary (.call .sqrt))
  | _ => none

/-- The value of a shape at the operands of an instruction. -/
def Shape.value (cf : CfInstr) (g : AluGroup) (i : AluInstr) : Shape → Emit Arith
  | .unary f => do return f (← source cf g i 0)
  | .binary f => do
    let a ← source cf g i 0
    let b ← source cf g i 1
    return f a b

/-- Compile a lane with two operands. -/
def compileOp2 : AluHandler Output := fun _ cf g target i => do
  let op ← decode i.op
  match op with
  | .op3 _ => fail (.unimplemented op.opcode)
  | .op2 op2 =>
    match shape? op2 with
    | none => fail (.unimplemented op.opcode)
    | some shape => storeLane (laneOf target) i (← shape.value cf g i)

/-- Compile a load of the address register. -/
def compileAddress : AluHandler Output := fun _ cf g _ i => do
  let s ← source cf g i 0
  emit (.address i.dstChan s)

/-- Compile nothing. -/
def compileNop : AluHandler Output := fun _ _ _ _ _ => pure ()

/-! ## Three operands -/

/-- What the three-operand operations compute. -/
def arith3? : AluOp → Option (Source → Source → Source → Arith)
  | .op3 .muladd | .op3 .muladdIeee => some .mulAdd
  | .op3 .cnde => some (.select .eq)
  | .op3 .cndgt => some (.select .gt)
  | .op3 .cndge => some (.select .ge)
  | _ => none

/-- Compile a lane with three operands. -/
def compileOp3 : AluHandler Output := fun _ cf g target i => do
  let op ← decode i.op
  let a ← source cf g i 0
  let b ← source cf g i 1
  let c ← source cf g i 2
  match arith3? op with
  | none => fail (.unimplemented op.opcode)
  | some f => storeLane (laneOf target) i (f a b c)

/-! ## Reductions -/

/-- The occupied lanes X to W with their channels. -/
def vectorLanes (g : AluGroup) : List (Chan × AluInstr) :=
  Chan.all.filterMap fun c => (g.vector.get c).map fun i => (c, i)

/-- The operands of one lane of a reduction: the first one, and the second one unless the
reduction is a maximum. -/
def reductionOperands (cf : CfInstr) (g : AluGroup) (op : AluOp) (i : AluInstr) :
    Emit (Source × Option Source) := do
  let a ← source cf g i 0
  if op = .op2 .max4 then return (a, none)
  else return (a, some (← source cf g i 1))

/-- What a reduction computes from the operands of its lanes. The maximum takes one operand from
each of the four lanes. -/
def reductionValue (op : AluOp) (operands : List (Source × Option Source)) : Emit Arith :=
  let firsts := operands.map Prod.fst
  match op with
  | .op2 .dot4 | .op2 .dot4Ieee => return .dot firsts (operands.filterMap Prod.snd)
  | .op2 .max4 =>
    match firsts with
    | a :: b :: c :: d :: _ => return .max4 a b c d
    | _ => throw (.indexOutOfRange firsts.length firsts.length)
  | op => fail (.unimplemented op.opcode)

/-- Compile the lanes X to W of a group as one reduction. -/
def compileReduction : AluHandler Output := fun _ cf g target i => do
  let op ← decode i.op
  if target ≠ .reduction then fail (.reductionOnly op)
  else
    let lanes := vectorLanes g
    let operands ← lanes.mapM fun (_, lane) => reductionOperands cf g op lane
    let value ← reductionValue op operands
    emit (.reduction ⟨value, .float i.omod i.clamp⟩)
    lanes.forM fun (c, lane) => deferWrite lane (.vector c)

end LatteHlsl.Compile
