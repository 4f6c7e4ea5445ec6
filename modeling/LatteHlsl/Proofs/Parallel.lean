import Mathlib.Data.List.Basic
import LatteHlsl.Proofs.Execution
import LatteHlsl.Proofs.Group

/-!
# Groups execute in parallel

The instructions of a group run at the same time. All of them read the registers as they were before
the group, and their results are written afterwards. The statements of a compiled group run one
after the other; this module shows that they come to the same.

* `operand?`, `value?`, `write?`: what a lane reads, computes and writes, from the registers before
  the group.
* `parallel`: the registers after the group.
* `Computes`: statements that store the results of some lanes, and hold their writes back.
* `execAll_group`: the statements of a group lead to `parallel`.
-/

namespace LatteHlsl.Meaning

open Isa Hlsl Compile Effect

variable {V : Type}

/-! ## What a group computes -/

/-- The register that a mode of relative addressing adds. -/
def modeOffset? (r : Regs V) : IndexMode → Option Int
  | .arX => some (r.ar .x)
  | .arY => some (r.ar .y)
  | .arZ => some (r.ar .z)
  | .arW => some (r.ar .w)
  | .loop => some r.al
  | .global | .globalArX => none

/-- What relative addressing adds to an index. -/
def relOffset? (r : Regs V) (rel : Bool) (mode : Nat) : Option Int :=
  if rel then (IndexMode.ofNat? mode).bind (modeOffset? r) else some 0

/-- What the lock of a constant cache bank adds to an index. -/
def lockOffset? (r : Regs V) : KcacheMode → Option Int
  | .nop => none
  | .lock1 | .lock2 => some 0
  | .lockLoopIndex => some r.al

/-- What a source refers to. A bank shows a uniform block from a multiple of sixteen on. -/
def operand? (cf : CfInstr) (g : AluGroup) (r : Regs V) (mode : Nat) (s : AluSource) : Option Ref :=
  match Operand.ofSel? s.sel with
  | none => none
  | some (.gpr n) => (relOffset? r s.rel mode).map fun k => .gpr (n + k) s.chan
  | some (.kcache bank n) =>
    (lockOffset? r (cf.kcacheMode bank)).bind fun lock =>
      (relOffset? r s.rel mode).map fun k =>
        .uniform ⟨cf.kcacheBlock bank, cf.kcacheBlock_lt bank⟩
          (16 * cf.kcacheAddr bank + n + lock + k) s.chan
  | some (.cfile n) => (relOffset? r s.rel mode).map fun k => .cfile (n + k) s.chan
  | some .zero => some .zero
  | some .one => some .one
  | some .intOne => some .intOne
  | some .intMinusOne => some .intMinusOne
  | some .half => some .half
  | some .literal => some (.literal (g.literals.get s.chan))
  | some .prevVector => some (.prevVector s.chan)
  | some .prevScalar => some .prevScalar

/-- What an operation on a single lane applies, and to how many operands. -/
def laneFn? : AluOp → Option (Fn × Nat)
  | .op2 .add | .op2 .addInt => some (.binary .add, 2)
  | .op2 .mul | .op2 .mulIeee => some (.binary .mul, 2)
  | .op2 .andInt => some (.binary .and, 2)
  | .op2 .orInt => some (.binary .or, 2)
  | .op2 .xorInt => some (.binary .xor, 2)
  | .op2 .ashrInt | .op2 .lshrInt => some (.binary .shr, 2)
  | .op2 .lshlInt => some (.binary .shl, 2)
  | .op2 .max => some (.call2 .max, 2)
  | .op2 .min => some (.call2 .min, 2)
  | .op2 .mov => some (.copy, 1)
  | .op2 .fract => some (.call .frac, 1)
  | .op2 .trunc => some (.call .trunc, 1)
  | .op2 .floor => some (.call .floor, 1)
  | .op2 .recipsqrtIeee => some (.call .rsqrt, 1)
  | .op2 .sqrtIeee => some (.call .sqrt, 1)
  | .op2 .recipIeee => some (.recip, 1)
  | .op2 .intToFlt | .op2 .uintToFlt => some (.convert .toFloat, 1)
  | .op2 .fltToInt => some (.convert .toInt, 1)
  | .op3 .muladd | .op3 .muladdIeee => some (.mulAdd, 3)
  | .op3 .cnde => some (.select .eq, 3)
  | .op3 .cndgt => some (.select .gt, 3)
  | .op3 .cndge => some (.select .ge, 3)
  | _ => none

section

variable (I : Interp V) (cf : CfInstr) (g : AluGroup) (r : Regs V)

/-- The value of source `n` of an instruction that runs `op`. -/
def sourceValue? (op : AluOp) (i : AluInstr) (n : Nat) : Option V :=
  (operand? cf g r i.indexMode (i.src n)).map fun ref =>
    I.read ⟨ref, (i.src n).abs, (i.src n).neg, op.traits.reads⟩ r

/-- The result of an instruction on a single lane. Only float results are scaled and clamped. -/
def laneValue? (op : AluOp) (i : AluInstr) : Option V := do
  let (f, n) ← laneFn? op
  let vs ← (List.range n).mapM (sourceValue? I cf g r op i)
  match op.traits.writes with
  | .float => return I.modify i.omod i.clamp (I.apply f vs)
  | .int | .uint => return I.reinterpret (I.apply f vs)

/-- The values of source `n` of the lanes X to W. -/
def vectorValues? (op : AluOp) (n : Nat) : Option (List V) :=
  Chan.all.mapM fun c => (g.vector.get c).bind fun i => sourceValue? I cf g r op i n

/-- The one result of the lanes X to W of a reduction, scaled and clamped as the X lane says. -/
def reductionValue? (op : AluOp) : Option V := do
  let first ← g.vector.x
  let as ← vectorValues? I cf g r op 0
  match op with
  | .op2 .dot4 | .op2 .dot4Ieee => do
    let bs ← vectorValues? I cf g r op 1
    return I.modify first.omod first.clamp (I.apply .dot (as ++ bs))
  | .op2 .max4 => return I.modify first.omod first.clamp (I.apply .max4 as)
  | _ => none

/-- The result of a lane, if it has one. -/
def value? (l : Lane) : Option V := do
  let i ← g.lane l
  let op ← i.op.toOption
  if op.traits.reduction then reductionValue? I cf g r op else laneValue? I cf g r op i

/-- The register, the channel and the value that a lane writes, if it writes. -/
def write? (l : Lane) : Option (Int × Chan × V) := do
  let i ← g.lane l
  let v ← value? I cf g r l
  if i.writes then
    let k ← relOffset? r i.dstRel i.indexMode
    return (i.dstGpr + k, i.dstChan, v)
  else none

/-- The registers after a group that finds the registers `r`: the lanes write in the order X to W
and T, and a lane without a result leaves its previous result as it is. -/
def parallel : Regs V :=
  { writeAll r (Lane.all.filterMap (write? I cf g r)) with
    pv := fun c => (value? I cf g r (.ofChan c)).getD (r.pv c)
    ps := (value? I cf g r .t).getD r.ps }

end

/-! ## Operands are read alike -/

theorem modeOffset?_of_indexReg {mode : Nat} {x : IndexReg} (h : indexReg mode = .ok x)
    (r : Regs V) : (IndexMode.ofNat? mode).bind (modeOffset? r) = some (offset r x) := by
  unfold indexReg at h
  cases hmode : IndexMode.ofNat? mode with
  | none =>
    simp only [hmode] at h
    cases h
  | some m => cases m <;> simp only [hmode] at h <;> cases h <;> rfl

/-- The value of an index is its constant and what relative addressing adds. -/
theorem relOffset?_of_relIndex {base mode : Nat} {rel : Bool} {k : Index}
    (h : relIndex base rel mode = .ok k) (r : Regs V) :
    ∃ d, relOffset? r rel mode = some d ∧ k.base = base ∧ (k.offsets.map (offset r)).sum = d := by
  unfold relIndex at h
  unfold relOffset?
  cases rel with
  | false =>
    cases h
    exact ⟨0, rfl, rfl, rfl⟩
  | true =>
    simp only [if_true, Checked.bind_eq_ok, Checked.pure_eq_ok] at h
    obtain ⟨x, hx, rfl⟩ := h
    exact ⟨offset r x, modeOffset?_of_indexReg hx r, rfl, by simp⟩

theorem lockOffset?_of_bankOffsets {bank : KcacheBank} {mode : KcacheMode} {xs : List IndexReg}
    (h : bankOffsets bank mode = .ok xs) (r : Regs V) :
    lockOffset? r mode = some (xs.map (offset r)).sum := by
  cases mode <;> cases h <;> simp [lockOffset?, offset]

/-- An atom refers to what its source names. -/
theorem operand?_of_sourceAtom {cf : CfInstr} {g : AluGroup} {mode : Nat} {s : AluSource} {a : Atom}
    (h : sourceAtom cf g mode s = .ok a) (r : Regs V) :
    operand? cf g r mode s = some (atomRef r a) := by
  unfold sourceAtom at h
  unfold operand?
  cases hsel : Operand.ofSel? s.sel with
  | none =>
    simp only [hsel] at h
    cases h
  | some o =>
    simp only [hsel] at h
    cases o with
    | gpr n | cfile n =>
      simp only [Checked.bind_eq_ok, Checked.pure_eq_ok] at h
      obtain ⟨k, hk, rfl⟩ := h
      obtain ⟨d, hd, hbase, hsum⟩ := relOffset?_of_relIndex hk r
      simp only [hd, Option.map_some, atomRef, indexValue, hbase, hsum]
    | kcache bank n =>
      simp only [kcacheAtom, Checked.bind_eq_ok, Checked.pure_eq_ok] at h
      obtain ⟨locked, hlocked, k, hk, rfl⟩ := h
      obtain ⟨d, hd, hbase, hsum⟩ := relOffset?_of_relIndex hk r
      have hvalue : indexValue r { k with offsets := locked ++ k.offsets } =
          16 * cf.kcacheAddr bank + n + (locked.map (offset r)).sum + d := by
        simp only [indexValue, hbase, List.map_append, List.sum_append, hsum, windowUnit]
        push_cast
        omega
      simp only [lockOffset?_of_bankOffsets hlocked r, hd, Option.bind_some, Option.map_some,
        atomRef, hvalue]
    | zero | one | intOne | intMinusOne | half | prevVector | prevScalar | literal =>
      cases h
      rfl

theorem sourceValue?_of_sourceOf {cf : CfInstr} {g : AluGroup} {i : AluInstr} {n : Nat} {s : Source}
    {op : AluOp} (hop : i.op = .ok op) (h : SourceOf cf g i n s) (I : Interp V) (r : Regs V) :
    sourceValue? I cf g r op i n = some (sourceValue I r s) := by
  obtain ⟨op', hop', hview⟩ := h.view
  obtain rfl : op = op' := Except.ok.inj (hop.symm.trans hop')
  simp only [sourceValue?, operand?_of_sourceAtom h.atom r, Option.map_some, sourceValue, h.abs,
    h.neg, hview]

/-! ## Results are computed alike -/

/-- Operations of single lanes are no reductions. -/
theorem reduction_of_laneFn? {op : AluOp} {fn : Fn × Nat} (h : laneFn? op = some fn) :
    op.traits.reduction = false := by
  cases op with
  | op2 op => cases op <;> first | rfl | cases h
  | op3 op => cases op <;> rfl

theorem laneFn?_of_unary {op : AluOp2} {f : Source → Arith} (h : shape? op = some (.unary f))
    (a : Source) : laneFn? (.op2 op) = some (arithFn (f a), 1) := by
  cases op <;> simp only [shape?, Option.some.injEq, Shape.unary.injEq, reduceCtorEq] at h <;>
    subst h <;> rfl

theorem laneFn?_of_binary {op : AluOp2} {f : Source → Source → Arith}
    (h : shape? op = some (.binary f)) (a b : Source) :
    laneFn? (.op2 op) = some (arithFn (f a b), 2) := by
  cases op <;> simp only [shape?, Option.some.injEq, Shape.binary.injEq, reduceCtorEq] at h <;>
    subst h <;> rfl

theorem laneFn?_of_ternary {op : AluOp} {f : Source → Source → Source → Arith}
    (h : arith3? op = some f) (a b c : Source) :
    laneFn? op = some (arithFn (f a b c), 3) := by
  unfold arith3? at h
  split at h <;> first | (cases h; rfl) | cases h

theorem laneFn?_of_valueOf {cf : CfInstr} {g : AluGroup} {i : AluInstr} {op : AluOp}
    {value : Arith} (h : ValueOf cf g i op value) :
    laneFn? op = some (arithFn value, value.operands.length) := by
  cases h with
  | unary hshape ha =>
    rw [laneFn?_of_unary hshape, operands_unary hshape]
    rfl
  | binary hshape ha hb =>
    rw [laneFn?_of_binary hshape, operands_binary hshape]
    rfl
  | ternary harith ha hb hc =>
    rw [laneFn?_of_ternary harith, operands_ternary harith]
    rfl

/-- The function and the operands of a compiled value are those of its operation. -/
theorem laneOperands_of_valueOf {cf : CfInstr} {g : AluGroup} {i : AluInstr} {op : AluOp}
    {value : Arith} (hop : i.op = .ok op) (h : ValueOf cf g i op value) (I : Interp V)
    (r : Regs V) :
    ∃ n, laneFn? op = some (arithFn value, n) ∧
      (List.range n).mapM (sourceValue? I cf g r op i) =
        some (value.operands.map (sourceValue I r)) := by
  cases h with
  | unary hshape ha =>
    refine ⟨1, laneFn?_of_unary hshape _, ?_⟩
    rw [operands_unary hshape]
    simp [List.range, List.range.loop, sourceValue?_of_sourceOf hop ha]
  | binary hshape ha hb =>
    refine ⟨2, laneFn?_of_binary hshape _ _, ?_⟩
    rw [operands_binary hshape]
    simp [List.range, List.range.loop, sourceValue?_of_sourceOf hop ha,
      sourceValue?_of_sourceOf hop hb]
  | ternary harith ha hb hc =>
    refine ⟨3, laneFn?_of_ternary harith _ _ _, ?_⟩
    rw [operands_ternary harith]
    simp [List.range, List.range.loop, sourceValue?_of_sourceOf hop ha,
      sourceValue?_of_sourceOf hop hb, sourceValue?_of_sourceOf hop hc]

theorem value?_of_valueOf {cf : CfInstr} {g : AluGroup} {l : Lane} {i : AluInstr} {op : AluOp}
    {value : Arith} (hl : g.lane l = some i) (hop : i.op = .ok op) (h : ValueOf cf g i op value)
    (I : Interp V) (r : Regs V) :
    value? I cf g r l = some (resultValue I r ⟨value, finishOf op.traits i⟩) := by
  obtain ⟨n, hfn, hoperands⟩ := laneOperands_of_valueOf hop h I r
  have hlane : value? I cf g r l = laneValue? I cf g r op i := by
    simp [value?, hl, hop, Except.toOption, reduction_of_laneFn? hfn]
  rw [hlane]
  simp only [laneValue?, hfn, hoperands, Option.bind_eq_bind, Option.bind_some, resultValue,
    finishOf, arithValue]
  cases op.traits.writes <;> rfl

/-- A lane of a full reduction has the value of the reduction. -/
theorem value?_of_reduction {cf : CfInstr} {g : AluGroup} {is : Quad AluInstr} {op : AluOp}
    (hlanes : g.vector = is.map some) (hop : ∀ c, (is.get c).op = .ok op)
    (hred : op.traits.reduction = true) (I : Interp V) (r : Regs V) (c : Chan) :
    value? I cf g r (.ofChan c) = reductionValue? I cf g r op := by
  simp [value?, lane_ofChan_of_full hlanes c, hop c, Except.toOption, hred]

theorem vectorValues?_of_sourceOf {cf : CfInstr} {g : AluGroup} {is : Quad AluInstr} {op : AluOp}
    {n : Nat} {ss : Quad Source} (hlanes : g.vector = is.map some)
    (hop : ∀ c, (is.get c).op = .ok op) (h : ∀ c, SourceOf cf g (is.get c) n (ss.get c))
    (I : Interp V) (r : Regs V) :
    vectorValues? I cf g r op n = some (ss.toList.map (sourceValue I r)) := by
  have hvalue : ∀ c, sourceValue? I cf g r op (is.get c) n = some (sourceValue I r (ss.get c)) :=
    fun c => sourceValue?_of_sourceOf (hop c) (h c) I r
  have hx := hvalue .x
  have hy := hvalue .y
  have hz := hvalue .z
  have hw := hvalue .w
  simp only [Quad.get] at hx hy hz hw
  simp [vectorValues?, Chan.all, hlanes, Quad.map, Quad.get, Quad.toList, hx, hy, hz, hw]

/-! ## The lanes of a group -/

/-- The statements of `p` store the results of the lanes `ls` and change nothing else, and the
writes that `p` holds back are those of the lanes `ls` once their results are stored. -/
structure Computes (I : Interp V) (cf : CfInstr) (g : AluGroup) (ls : List Lane) (p : Piece) :
    Prop where
  stmts : ∀ s : State V,
    execAll I s p.stmts = some (s.putAll (value? I cf g s.toRegs) ls)
  held : ∀ s : State V,
    (∀ l ∈ ls, ∀ v, value? I cf g s.toRegs l = some v → s.out (.ofLane l) = v) →
      p.held.map (resolve s) = ls.filterMap (write? I cf g s.toRegs)

section

variable {I : Interp V} {cf : CfInstr} {g : AluGroup}

theorem Computes.nil : Computes I cf g [] {} := ⟨fun _ => rfl, fun _ _ => rfl⟩

theorem Computes.append {ls ls' : List Lane} {p q : Piece} (hp : Computes I cf g ls p)
    (hq : Computes I cf g ls' q) : Computes I cf g (ls ++ ls') (p ++ q) where
  stmts s := by
    rw [Piece.stmts_append, execAll_append, hp.stmts, Option.bind_some, hq.stmts,
      State.toRegs_putAll, State.putAll_append]
  held s hs := by
    rw [Piece.held_append, List.map_append, List.filterMap_append,
      hp.held s fun l hl => hs l (List.mem_append_left _ hl),
      hq.held s fun l hl => hs l (List.mem_append_right _ hl)]

/-- A lane without a result neither stores nor writes. -/
theorem Computes.of_value?_eq_none {l : Lane} (h : ∀ r, value? I cf g r l = none) :
    Computes I cf g [l] {} where
  stmts s := by simp [State.putAll, h, execAll, Piece.stmts]
  held s _ := by simp [write?, h]

/-- The write of an instruction that is held back is the write of its lane. -/
theorem map_resolve_heldWrite {l : Lane} {i : AluInstr} {v : V} {held : List RegWrite} {s : State V}
    (hl : g.lane l = some i) (hv : value? I cf g s.toRegs l = some v) (hout : s.out (.ofLane l) = v)
    (h : HeldWrite i (.ofLane l) held) :
    held.map (resolve s) = (write? I cf g s.toRegs l).toList := by
  cases h with
  | masked hw => simp [write?, hl, hv, hw]
  | write hw hindex =>
    obtain ⟨d, hd, hbase, hsum⟩ := relOffset?_of_relIndex hindex s.toRegs
    simp [write?, hl, hv, hw, hd, resolve, indexValue, hbase, hsum, hout]

theorem laneOut_ofLane (l : Lane) : laneOut (.ofLane l) = l := by
  cases l <;> rfl

theorem computes_of_lanePiece {l : Lane} {i : AluInstr} {p : Piece} (hl : g.lane l = some i)
    (hmova : i.op ≠ .ok (.op2 .movaFloor)) (h : LanePiece cf g l i p) : Computes I cf g [l] p := by
  cases h with
  | nop hop =>
    refine .of_value?_eq_none fun r => ?_
    have hreduction : (AluOp.op2 .nop).traits.reduction = false := rfl
    have hfn : laneFn? (.op2 .nop) = none := rfl
    simp [value?, hl, hop, Except.toOption, hreduction, laneValue?, hfn]
  | address hop => exact absurd hop hmova
  | store hop hvalue hheld =>
    have hv := value?_of_valueOf hl hop hvalue I
    constructor
    · intro s
      simp only [Piece.stmts, List.filterMap_cons, Line.stmt?, List.filterMap_nil, execAll,
        List.foldlM_cons, List.foldlM_nil, exec, laneOut_ofLane, State.putAll, List.foldl_cons,
        List.foldl_nil, hv]
      rfl
    · intro s hs
      rw [map_resolve_heldWrite hl (hv s.toRegs) (hs l (by simp) _ (hv s.toRegs)) hheld]
      cases hw : write? I cf g s.toRegs l <;> simp [hw]

/-- Single lanes, by induction on the lanes that were handed over. -/
theorem computes_of_lanesPiece {ls : List Lane} {p : Piece}
    (hmova : ∀ l i, g.lane l = some i → i.op ≠ .ok (.op2 .movaFloor)) (h : LanesPiece cf g ls p) :
    Computes I cf g ls p := by
  induction h with
  | nil => exact .nil
  | skip hl _ ih => exact (Computes.of_value?_eq_none fun r => by simp [value?, hl]).append ih
  | cons hl hp _ ih => exact (computes_of_lanePiece hl (hmova _ _ hl) hp).append ih

/-- The four lanes of a reduction whose result is `x`. -/
theorem computes_of_reduction {is : Quad AluInstr} {x : Result} {hs : Quad (List RegWrite)}
    {as : List Access} (hlanes : g.vector = is.map some)
    (hv : ∀ r c, value? I cf g r (.ofChan c) = some (resultValue I r x))
    (hheld : ∀ c, HeldWrite (is.get c) (.vector c) (hs.get c)) :
    Computes I cf g (Chan.all.map .ofChan)
      { lines := [.stmt (.reduction x)], held := hs.toList.flatten, accesses := as } where
  stmts s := by
    have hput : { s with pvo := fun _ => resultValue I s.toRegs x } =
        s.putAll (value? I cf g s.toRegs) (Chan.all.map .ofChan) := by
      have hpvo : ∀ c, resultValue I s.toRegs x =
          (s.putAll (value? I cf g s.toRegs) (Chan.all.map .ofChan)).pvo c := by
        intro c
        have hc := hv s.toRegs c
        cases c <;> simp [State.putAll, State.put, Chan.all, Lane.ofChan] at hc ⊢ <;> simp [hc]
      rw [funext hpvo]
      rfl
    show some _ = some _
    rw [← hput]
  held s hs' := by
    have hwrite : ∀ c,
        (hs.get c).map (resolve s) = (write? I cf g s.toRegs (.ofChan c)).toList := by
      intro c
      have hmem : Lane.ofChan c ∈ Chan.all.map Lane.ofChan := by
        cases c <;> decide
      have hout : LaneOut.ofLane (.ofChan c) = .vector c := by
        cases c <;> rfl
      have hc := hheld c
      rw [← hout] at hc
      exact map_resolve_heldWrite (lane_ofChan_of_full hlanes c) (hv _ c) (hs' _ hmem _ (hv _ c)) hc
    simp only [Quad.toList, List.flatten_cons, List.flatten_nil, List.append_nil, List.map_append]
    have hx := hwrite .x
    have hy := hwrite .y
    have hz := hwrite .z
    have hw := hwrite .w
    simp only [Quad.get] at hx hy hz hw
    rw [hx, hy, hz, hw]
    simp only [Chan.all, List.map_cons, List.map_nil, List.filterMap_eq_flatMap_toList,
      List.flatMap_cons, List.flatMap_nil, List.append_nil]

theorem computes_of_reductionPiece {p : Piece} (h : ReductionPiece cf g p) :
    Computes I cf g (Chan.all.map .ofChan) p := by
  cases h with
  | @dot op _ _ _ _ hdot hlanes hop has hbs hheld =>
    refine computes_of_reduction hlanes (fun r c => ?_) hheld
    have hred : (AluOp.op2 op).traits.reduction = true := by
      rcases hdot with rfl | rfl <;> rfl
    rw [value?_of_reduction hlanes hop hred]
    rcases hdot with rfl | rfl <;>
      simp [reductionValue?, hlanes, Quad.map, vectorValues?_of_sourceOf hlanes hop has,
        vectorValues?_of_sourceOf hlanes hop hbs, resultValue, arithValue, arithFn,
        Arith.operands]
  | max4 hlanes hop has hheld =>
    refine computes_of_reduction hlanes (fun r c => ?_) hheld
    rw [value?_of_reduction hlanes hop rfl]
    simp [reductionValue?, hlanes, Quad.map, vectorValues?_of_sourceOf hlanes hop has, resultValue,
      arithValue, arithFn, Arith.operands, Quad.toList]

theorem computes_of_groupPiece {p : Piece}
    (hmova : ∀ l i, g.lane l = some i → i.op ≠ .ok (.op2 .movaFloor)) (h : GroupPiece cf g p) :
    Computes I cf g Lane.all p := by
  cases h with
  | lanes hp => exact computes_of_lanesPiece hmova hp
  | reduction hp hq =>
    exact (computes_of_reductionPiece hp).append (computes_of_lanesPiece hmova hq)

end

/-! ## Groups -/

/-- Closing a group that has stored its results: the writes go to the registers, and the results
become those of the previous group. -/
theorem execAll_close {I : Interp V} {cf : CfInstr} {g : AluGroup} {p : Piece} {s : State V}
    (hp : Computes I cf g Lane.all p) (hs : s.Latched) :
    ∃ t, execAll I s p.close.stmts = some t ∧ t.toRegs = parallel I cf g s.toRegs ∧ t.Latched := by
  obtain ⟨hpv, hps⟩ := hs
  have hlanes := hp.stmts s
  rw [State.putAll_all] at hlanes
  generalize ht : ({ s with
    pvo := fun c => (value? I cf g s.toRegs (.ofChan c)).getD (s.pvo c)
    pso := (value? I cf g s.toRegs .t).getD s.pso } : State V) = t at hlanes
  have hregs : t.toRegs = s.toRegs := by rw [← ht]
  have hout : ∀ l ∈ Lane.all, ∀ v, value? I cf g t.toRegs l = some v → t.out (.ofLane l) = v := by
    intro l _ v hv
    rw [hregs] at hv
    rw [← ht]
    cases l <;> simp [State.out, LaneOut.ofLane, Lane.chan?, Lane.ofChan, hv]
  have hheld := hp.held t hout
  refine ⟨{ t with
    toRegs := { writeAll t.toRegs (Lane.all.filterMap (write? I cf g t.toRegs)) with
      pv := t.pvo
      ps := t.pso } }, ?_, ?_, rfl, rfl⟩
  · rw [Piece.stmts_close, execAll_append, execAll_append, hlanes, Option.bind_some,
      execAll_regWrites, Option.bind_some, hheld]
    rfl
  · show { writeAll t.toRegs _ with pv := t.pvo, ps := t.pso } = parallel I cf g s.toRegs
    rw [hregs, ← ht, hpv, hps]
    rfl

/-- The statements of a group, after the comment that numbers it. -/
theorem execAll_group {I : Interp V} {cf : CfInstr} {g : AluGroup} {ls : List Line} {p : Piece}
    {s : State V} (hmova : ∀ l i, g.lane l = some i → i.op ≠ .ok (.op2 .movaFloor))
    (hls : ls.filterMap Line.stmt? = []) (hp : GroupPiece cf g p) (hs : s.Latched) :
    ∃ t, execAll I s ({ lines := ls } ++ p : Piece).close.stmts = some t ∧
      t.toRegs = parallel I cf g s.toRegs ∧ t.Latched := by
  have hnote : Computes I cf g [] { lines := ls } := by
    refine ⟨fun s => ?_, fun _ _ => rfl⟩
    rw [Piece.stmts, hls]
    rfl
  exact execAll_close (hnote.append (computes_of_groupPiece hmova hp)) hs

end LatteHlsl.Meaning
