import LatteHlsl.Proofs.GroupReading
import LatteHlsl.Proofs.Piece

/-!
# What a group adds

The pieces that the lanes of an ALU group add when the group compiles, and the piece of the group as
a whole. They depend on the group and on the instruction that owns its clause only.

* `LanePiece`, `LanesPiece`: single lanes in their order.
* `ReductionPiece`: the lanes X to W together.
* `GroupPiece`, `walkGroup_eq_ok`: the whole group.
-/

namespace LatteHlsl.Compile

open Isa Hlsl Effect

/-! ## Register writes -/

/-- The register write that an instruction holds back when its result lies in `out`. -/
inductive HeldWrite (i : AluInstr) (out : LaneOut) : List RegWrite → Prop where
  | masked (h : i.writes = false) : HeldWrite i out []
  | write {index : Index} (h : i.writes = true)
      (hindex : relIndex i.dstGpr i.dstRel i.indexMode = .ok index) :
      HeldWrite i out [⟨index, i.dstChan, out⟩]

theorem deferWrite_eq_ok {i : AluInstr} {out : LaneOut} {o o' : Output} {u : Unit}
    (h : deferWrite i out o = .ok u o') :
    ∃ held, HeldWrite i out held ∧ o' = o.add { held := held } := by
  unfold deferWrite at h
  split at h
  · rename_i hw
    simp only [bind_eq_ok, check_eq_ok] at h
    obtain ⟨index, _, ⟨hindex, rfl⟩, hdefer⟩ := h
    exact ⟨_, .write hw hindex, defer_eq_ok.mp hdefer⟩
  · rename_i hw
    obtain ⟨-, rfl⟩ := pure_eq_ok.mp h
    exact ⟨[], .masked (by simpa using hw), by simp⟩

/-! ## Single lanes -/

/-- `value` is what a lane computes that runs `op`. -/
inductive ValueOf (cf : CfInstr) (g : AluGroup) (i : AluInstr) : AluOp → Arith → Prop where
  | unary {op : AluOp2} {f : Source → Arith} {a : Source} (hshape : shape? op = some (.unary f))
      (ha : SourceOf cf g i 0 a) : ValueOf cf g i (.op2 op) (f a)
  | binary {op : AluOp2} {f : Source → Source → Arith} {a b : Source}
      (hshape : shape? op = some (.binary f)) (ha : SourceOf cf g i 0 a)
      (hb : SourceOf cf g i 1 b) : ValueOf cf g i (.op2 op) (f a b)
  | ternary {op : AluOp} {f : Source → Source → Source → Arith} {a b c : Source}
      (harith : arith3? op = some f) (ha : SourceOf cf g i 0 a) (hb : SourceOf cf g i 1 b)
      (hc : SourceOf cf g i 2 c) : ValueOf cf g i op (f a b c)

/-- The accesses of an operation. -/
def arithAccesses (value : Arith) : List Access := value.operands.flatMap sourceAccesses

/-- The piece of one lane that is handed over on its own. -/
inductive LanePiece (cf : CfInstr) (g : AluGroup) (l : Lane) (i : AluInstr) : Piece → Prop where
  | nop (hop : i.op = .ok (.op2 .nop)) : LanePiece cf g l i {}
  | address {s : Source} (hop : i.op = .ok (.op2 .movaFloor)) (hs : SourceOf cf g i 0 s) :
      LanePiece cf g l i
        { lines := [.stmt (.address i.dstChan s)], accesses := sourceAccesses s }
  | store {op : AluOp} {value : Arith} {held : List RegWrite} (hop : i.op = .ok op)
      (hvalue : ValueOf cf g i op value) (hheld : HeldWrite i (.ofLane l) held) :
      LanePiece cf g l i
        { lines := [.stmt (.lane (.ofLane l) ⟨value, finishOf op.traits i⟩)]
          held := held
          accesses := arithAccesses value }

/-- The operands of a unary shape are its argument. -/
theorem operands_unary {op : AluOp2} {f : Source → Arith} (h : shape? op = some (.unary f))
    (a : Source) : (f a).operands = [a] := by
  cases op <;> simp only [shape?, Option.some.injEq, Shape.unary.injEq, reduceCtorEq] at h <;>
    subst h <;> rfl

/-- The operands of a binary shape are its arguments. -/
theorem operands_binary {op : AluOp2} {f : Source → Source → Arith}
    (h : shape? op = some (.binary f)) (a b : Source) : (f a b).operands = [a, b] := by
  cases op <;> simp only [shape?, Option.some.injEq, Shape.binary.injEq, reduceCtorEq] at h <;>
    subst h <;> rfl

/-- The operands of a three-operand operation are its arguments. -/
theorem operands_ternary {op : AluOp} {f : Source → Source → Source → Arith}
    (h : arith3? op = some f) (a b c : Source) : (f a b c).operands = [a, b, c] := by
  unfold arith3? at h
  split at h <;> first | (cases h; rfl) | cases h

/-- The sources `0` to `n - 1` of an instruction, in order. -/
inductive SourcesOf (cf : CfInstr) (g : AluGroup) (i : AluInstr) : Nat → List Source → Prop where
  | nil : SourcesOf cf g i 0 []
  | snoc {n : Nat} {ss : List Source} {s : Source} (hss : SourcesOf cf g i n ss)
      (hs : SourceOf cf g i n s) : SourcesOf cf g i (n + 1) (ss ++ [s])

/-- The operands of a compiled value are the first sources of its instruction. -/
theorem sourcesOf_of_valueOf {cf : CfInstr} {g : AluGroup} {i : AluInstr} {op : AluOp}
    {value : Arith} (h : ValueOf cf g i op value) :
    SourcesOf cf g i value.operands.length value.operands := by
  cases h with
  | unary hshape ha =>
    rw [operands_unary hshape]
    exact .snoc .nil ha
  | binary hshape ha hb =>
    rw [operands_binary hshape]
    exact .snoc (.snoc .nil ha) hb
  | ternary harith ha hb hc =>
    rw [operands_ternary harith]
    exact .snoc (.snoc (.snoc .nil ha) hb) hc

theorem storeLane_eq_ok {l : Lane} {i : AluInstr} {value : Arith} {o o' : Output} {u : Unit}
    (h : storeLane l i value o = .ok u o') :
    ∃ op held, i.op = .ok op ∧ HeldWrite i (.ofLane l) held ∧
      o' = o.add
        { lines := [.stmt (.lane (.ofLane l) ⟨value, finishOf op.traits i⟩)], held := held } := by
  simp only [storeLane, bind_eq_ok, decode_eq_ok, emit_eq_ok] at h
  obtain ⟨op, _, ⟨hop, rfl⟩, _, _, rfl, hdefer⟩ := h
  obtain ⟨held, hheld, rfl⟩ := deferWrite_eq_ok hdefer
  exact ⟨op, held, hop, hheld, by simp [Output.add_add]⟩

theorem shapeValue_eq_ok {cf : CfInstr} {g : AluGroup} {i : AluInstr} {op : AluOp2} {shape : Shape}
    {value : Arith} {o o' : Output} (hshape : shape? op = some shape)
    (h : shape.value cf g i o = .ok value o') :
    ValueOf cf g i (.op2 op) value ∧ o' = o.add { accesses := arithAccesses value } := by
  cases shape with
  | unary f =>
    simp only [Shape.value, bind_eq_ok, pure_eq_ok] at h
    obtain ⟨a, _, hrun, rfl, rfl⟩ := h
    obtain ⟨ha, rfl⟩ := source_eq_ok hrun
    have hacc : arithAccesses (f a) = sourceAccesses a := by
      simp [arithAccesses, operands_unary hshape]
    exact ⟨.unary hshape ha, by rw [hacc]⟩
  | binary f =>
    simp only [Shape.value, bind_eq_ok, pure_eq_ok] at h
    obtain ⟨a, _, hrun, b, _, hrun', rfl, rfl⟩ := h
    obtain ⟨ha, rfl⟩ := source_eq_ok hrun
    obtain ⟨hb, rfl⟩ := source_eq_ok hrun'
    have hacc : arithAccesses (f a b) = sourceAccesses a ++ sourceAccesses b := by
      simp [arithAccesses, operands_binary hshape]
    exact ⟨.binary hshape ha hb, by simp [hacc, Output.add_add]⟩

/-- The piece of a lane that stores a result. -/
inductive StorePiece (cf : CfInstr) (g : AluGroup) (l : Lane) (i : AluInstr) : Piece → Prop where
  | mk {op : AluOp} {value : Arith} {held : List RegWrite} (hop : i.op = .ok op)
      (hvalue : ValueOf cf g i op value) (hheld : HeldWrite i (.ofLane l) held) :
      StorePiece cf g l i
        { lines := [.stmt (.lane (.ofLane l) ⟨value, finishOf op.traits i⟩)]
          held := held
          accesses := arithAccesses value }

theorem StorePiece.lanePiece {cf : CfInstr} {g : AluGroup} {l : Lane} {i : AluInstr} {p : Piece}
    (h : StorePiece cf g l i p) : LanePiece cf g l i p := by
  obtain ⟨hop, hvalue, hheld⟩ := h
  exact .store hop hvalue hheld

/-- The lane of a compiled value, with the accesses of its operands recorded before. -/
theorem storePiece_of_storeLane {cf : CfInstr} {g : AluGroup} {l : Lane} {i : AluInstr} {op : AluOp}
    {value : Arith} {o o' : Output} {u : Unit} (hop : i.op = .ok op)
    (hvalue : ValueOf cf g i op value)
    (h : storeLane l i value (o.add { accesses := arithAccesses value }) = .ok u o') :
    ∃ p, StorePiece cf g l i p ∧ o' = o.add p := by
  obtain ⟨op', held, hop', hheld, rfl⟩ := storeLane_eq_ok h
  rw [hop, Except.ok.injEq] at hop'
  subst hop'
  exact ⟨_, .mk hop hvalue hheld, by simp [Output.add_add]⟩

/-- A reduction counts as its first lane. -/
theorem compileOp2_stores {w : Walk} {cf : CfInstr} {g : AluGroup} {target : Target} {i : AluInstr}
    {o o' : Output} {u : Unit} (h : compileOp2 w cf g target i o = .ok u o') :
    ∃ p, StorePiece cf g (laneOf target) i p ∧ o' = o.add p := by
  simp only [compileOp2, bind_eq_ok, decode_eq_ok] at h
  obtain ⟨op, _, ⟨hop, rfl⟩, h⟩ := h
  cases op with
  | op3 op => exact absurd h fail_ne_ok
  | op2 op =>
    cases hshape : shape? op with
    | none =>
      simp only [hshape] at h
      exact absurd h fail_ne_ok
    | some shape =>
      simp only [hshape] at h
      obtain ⟨value, _, hrun, hstore⟩ := bind_eq_ok.mp h
      obtain ⟨hvalue, rfl⟩ := shapeValue_eq_ok hshape hrun
      exact storePiece_of_storeLane hop hvalue hstore

theorem compileOp3_stores {w : Walk} {cf : CfInstr} {g : AluGroup} {target : Target} {i : AluInstr}
    {o o' : Output} {u : Unit} (h : compileOp3 w cf g target i o = .ok u o') :
    ∃ p, StorePiece cf g (laneOf target) i p ∧ o' = o.add p := by
  simp only [compileOp3, bind_eq_ok, decode_eq_ok] at h
  obtain ⟨op, _, ⟨hop, rfl⟩, a, _, hrunA, b, _, hrunB, c, _, hrunC, h⟩ := h
  obtain ⟨ha, rfl⟩ := source_eq_ok hrunA
  obtain ⟨hb, rfl⟩ := source_eq_ok hrunB
  obtain ⟨hc, rfl⟩ := source_eq_ok hrunC
  cases harith : arith3? op with
  | none =>
    simp only [harith] at h
    exact absurd h fail_ne_ok
  | some f =>
    simp only [harith] at h
    have hacc : arithAccesses (f a b c) =
        sourceAccesses a ++ sourceAccesses b ++ sourceAccesses c := by
      simp [arithAccesses, operands_ternary harith]
    refine storePiece_of_storeLane (u := u) hop (.ternary harith ha hb hc) ?_
    rw [hacc]
    simpa [Output.add_add] using h

theorem compileOp2_eq_ok {w : Walk} {cf : CfInstr} {g : AluGroup} {l : Lane} {i : AluInstr}
    {o o' : Output} {u : Unit} (h : compileOp2 w cf g (.lane l) i o = .ok u o') :
    ∃ p, LanePiece cf g l i p ∧ o' = o.add p := by
  obtain ⟨p, hp, rfl⟩ := compileOp2_stores h
  exact ⟨p, hp.lanePiece, rfl⟩

theorem compileOp3_eq_ok {w : Walk} {cf : CfInstr} {g : AluGroup} {l : Lane} {i : AluInstr}
    {o o' : Output} {u : Unit} (h : compileOp3 w cf g (.lane l) i o = .ok u o') :
    ∃ p, LanePiece cf g l i p ∧ o' = o.add p := by
  obtain ⟨p, hp, rfl⟩ := compileOp3_stores h
  exact ⟨p, hp.lanePiece, rfl⟩

theorem compileAddress_eq_ok {w : Walk} {cf : CfInstr} {g : AluGroup} {l : Lane} {i : AluInstr}
    {o o' : Output} {u : Unit} (hop : i.op = .ok (.op2 .movaFloor))
    (h : compileAddress w cf g (.lane l) i o = .ok u o') :
    ∃ p, LanePiece cf g l i p ∧ o' = o.add p := by
  simp only [compileAddress, bind_eq_ok, emit_eq_ok] at h
  obtain ⟨s, _, hrun, rfl⟩ := h
  obtain ⟨hs, rfl⟩ := source_eq_ok hrun
  exact ⟨_, .address hop hs, by simp [Output.add_add]⟩

/-- Which handler an operation with two operands has. -/
theorem op2Handler_eq_some {op : AluOp2} {handle : AluHandler Output}
    (h : op2Handler op = some handle) :
    op = .nop ∧ handle = compileNop ∨ op = .movaFloor ∧ handle = compileAddress ∨
      op.traits.reduction = true ∧ handle = compileReduction ∨
        op.traits.reduction = false ∧ handle = compileOp2 := by
  unfold op2Handler at h
  split at h
  · exact .inl ⟨rfl, (Option.some.inj h).symm⟩
  · exact .inr (.inl ⟨rfl, (Option.some.inj h).symm⟩)
  · exact .inr (.inr (.inl ⟨rfl, (Option.some.inj h).symm⟩))
  · exact .inr (.inr (.inl ⟨rfl, (Option.some.inj h).symm⟩))
  · exact .inr (.inr (.inl ⟨rfl, (Option.some.inj h).symm⟩))
  · split at h
    · rename_i hshape
      refine .inr (.inr (.inr ⟨?_, (Option.some.inj h).symm⟩))
      revert hshape
      cases op <;> decide
    · cases h

theorem walkAlu_eq_ok {σ : Type} {h : Handlers σ} {cf : CfInstr} {g : AluGroup} {t : Target}
    {i : AluInstr} {m m' : Machine σ} {u : Unit} (hrun : walkAlu h cf g t i m = .ok u m') :
    ∃ op handle out, i.op = .ok op ∧ h.alu op = some handle ∧
      handle m.walk cf g t i m.out = .ok () out ∧ m' = { m with out := out } := by
  obtain ⟨v, action, out, hv, hfind, hout, rfl⟩ := walkInstr_eq_ok.mp hrun
  obtain ⟨op, hop, rfl⟩ := Checked.map_eq_ok.mp hv
  obtain ⟨handle, hhandle, rfl⟩ := Option.map_eq_some_iff.mp hfind
  exact ⟨op, handle, out, hop, hhandle, hout, rfl⟩

theorem walkLane_eq_ok {c : Context} {cf : CfInstr} {g : AluGroup} {l : Lane} {i : AluInstr}
    {m m' : Machine Output} {u : Unit} (hl : g.lane l = some i)
    (h : walkLane (handlers c) cf g l m = .ok u m') :
    ∃ p, LanePiece cf g l i p ∧ m' = { m with out := m.out.add p } := by
  simp only [walkLane, hl, bind_eq_ok, decode_eq_ok] at h
  obtain ⟨op, _, ⟨hop, rfl⟩, h⟩ := h
  split at h
  · exact absurd h fail_ne_ok
  · rename_i hred
    obtain ⟨op', handle, out, hop', hhandle, hout, rfl⟩ := walkAlu_eq_ok h
    rw [hop, Except.ok.injEq] at hop'
    subst hop'
    suffices hp : ∃ p, LanePiece cf g l i p ∧ out = m.out.add p by
      obtain ⟨p, hp, rfl⟩ := hp
      exact ⟨p, hp, rfl⟩
    cases op with
    | op2 op =>
      rcases op2Handler_eq_some hhandle with ⟨rfl, rfl⟩ | ⟨rfl, rfl⟩ | ⟨htrue, -⟩ | ⟨-, rfl⟩
      · obtain ⟨-, rfl⟩ := pure_eq_ok.mp hout
        exact ⟨{}, .nop hop, by simp⟩
      · exact compileAddress_eq_ok hop hout
      · exact absurd htrue hred
      · exact compileOp2_eq_ok hout
    | op3 op =>
      have hop3 : handle = compileOp3 := by
        simp only [Handlers.alu, handlers, op3Handler] at hhandle
        split at hhandle
        · exact (Option.some.inj hhandle).symm
        · cases hhandle
      subst hop3
      exact compileOp3_eq_ok hout

/-- The pieces of lanes that are handed over one after the other. -/
inductive LanesPiece (cf : CfInstr) (g : AluGroup) : List Lane → Piece → Prop where
  | nil : LanesPiece cf g [] {}
  | skip {l : Lane} {ls : List Lane} {p : Piece} (hl : g.lane l = none)
      (hp : LanesPiece cf g ls p) : LanesPiece cf g (l :: ls) p
  | cons {l : Lane} {ls : List Lane} {i : AluInstr} {p q : Piece} (hl : g.lane l = some i)
      (hp : LanePiece cf g l i p) (hq : LanesPiece cf g ls q) : LanesPiece cf g (l :: ls) (p ++ q)

theorem walkLanes_eq_ok {c : Context} {cf : CfInstr} {g : AluGroup} {ls : List Lane} {u : Unit} :
    ∀ {m m' : Machine Output}, ls.forM (walkLane (handlers c) cf g) m = .ok u m' →
      ∃ p, LanesPiece cf g ls p ∧ m' = { m with out := m.out.add p } := by
  induction ls with
  | nil =>
    intro m m' h
    obtain rfl := forM_nil_eq_ok.mp h
    exact ⟨{}, .nil, by simp⟩
  | cons l ls ih =>
    intro m m' h
    obtain ⟨t, hhead, htail⟩ := forM_cons_eq_ok.mp h
    cases hl : g.lane l with
    | none =>
      simp only [walkLane, hl, pure_eq_ok] at hhead
      obtain ⟨-, rfl⟩ := hhead
      obtain ⟨p, hp, rfl⟩ := ih htail
      exact ⟨p, .skip hl hp, rfl⟩
    | some i =>
      obtain ⟨p, hp, rfl⟩ := walkLane_eq_ok hl hhead
      obtain ⟨q, hq, rfl⟩ := ih htail
      exact ⟨p ++ q, .cons hl hp hq, by simp [Output.add_add]⟩

/-! ## Reductions -/

/-- The piece of the lanes X to W of a group that is a reduction. The second operands take part in
dot products only. -/
inductive ReductionPiece (cf : CfInstr) (g : AluGroup) : Piece → Prop where
  | dot {op : AluOp2} {is : Quad AluInstr} {as bs : Quad Source} {hs : Quad (List RegWrite)}
      (hdot : op = .dot4 ∨ op = .dot4Ieee) (hlanes : g.vector = is.map some)
      (hop : ∀ c, (is.get c).op = .ok (.op2 op)) (has : ∀ c, SourceOf cf g (is.get c) 0 (as.get c))
      (hbs : ∀ c, SourceOf cf g (is.get c) 1 (bs.get c))
      (hheld : ∀ c, HeldWrite (is.get c) (.vector c) (hs.get c)) :
      ReductionPiece cf g
        { lines :=
            [.stmt (.reduction ⟨.dot as.toList bs.toList, .float is.x.omod is.x.clamp⟩)]
          held := hs.toList.flatten
          accesses :=
            (as.toList.zip bs.toList).flatMap fun ab => sourceAccesses ab.1 ++ sourceAccesses ab.2 }
  | max4 {is : Quad AluInstr} {as : Quad Source} {hs : Quad (List RegWrite)}
      (hlanes : g.vector = is.map some) (hop : ∀ c, (is.get c).op = .ok (.op2 .max4))
      (has : ∀ c, SourceOf cf g (is.get c) 0 (as.get c))
      (hheld : ∀ c, HeldWrite (is.get c) (.vector c) (hs.get c)) :
      ReductionPiece cf g
        { lines :=
            [.stmt (.reduction ⟨.max4 as.x as.y as.z as.w, .float is.x.omod is.x.clamp⟩)]
          held := hs.toList.flatten
          accesses := as.toList.flatMap sourceAccesses }

theorem lane_ofChan_of_full {g : AluGroup} {is : Quad AluInstr} (h : g.vector = is.map some)
    (c : Chan) : g.lane (.ofChan c) = some (is.get c) := by
  cases c <;> simp [AluGroup.lane, Lane.ofChan, h, Quad.map, Quad.get]

theorem vectorLanes_of_full {g : AluGroup} {is : Quad AluInstr} (h : g.vector = is.map some) :
    vectorLanes g = [(.x, is.x), (.y, is.y), (.z, is.z), (.w, is.w)] := by
  simp [vectorLanes, h, Quad.map, Chan.all, Quad.get]

theorem deferWrites_eq_ok {is : Quad AluInstr} {o o' : Output} {u : Unit}
    (h : [(Chan.x, is.x), (.y, is.y), (.z, is.z), (.w, is.w)].forM (m := Emit)
      (fun (c, lane) => deferWrite lane (.vector c)) o = .ok u o') :
    ∃ hs : Quad (List RegWrite), (∀ c, HeldWrite (is.get c) (.vector c) (hs.get c)) ∧
      o' = o.add { held := hs.toList.flatten } := by
  simp only [forM_cons_eq_ok, forM_nil_eq_ok] at h
  obtain ⟨_, hx, _, hy, _, hz, _, hw, rfl⟩ := h
  obtain ⟨wx, hwx, rfl⟩ := deferWrite_eq_ok hx
  obtain ⟨wy, hwy, rfl⟩ := deferWrite_eq_ok hy
  obtain ⟨wz, hwz, rfl⟩ := deferWrite_eq_ok hz
  obtain ⟨ww, hww, rfl⟩ := deferWrite_eq_ok hw
  refine ⟨⟨wx, wy, wz, ww⟩, fun c => ?_, by simp [Output.add_add, Quad.toList]⟩
  cases c <;> assumption

/-- The operands of a lane of a dot product. -/
theorem reductionOperands_eq_ok {cf : CfInstr} {g : AluGroup} {op : AluOp} {i : AluInstr}
    {ab : Source × Option Source} {o o' : Output} (hop : op ≠ .op2 .max4)
    (h : reductionOperands cf g op i o = .ok ab o') :
    ∃ a b, SourceOf cf g i 0 a ∧ SourceOf cf g i 1 b ∧ ab = (a, some b) ∧
      o' = o.add { accesses := sourceAccesses a ++ sourceAccesses b } := by
  simp only [reductionOperands, hop, if_false, bind_eq_ok, pure_eq_ok] at h
  obtain ⟨a, _, hrunA, b, _, hrunB, rfl, rfl⟩ := h
  obtain ⟨ha, rfl⟩ := source_eq_ok hrunA
  obtain ⟨hb, rfl⟩ := source_eq_ok hrunB
  exact ⟨a, b, ha, hb, rfl, by simp [Output.add_add]⟩

/-- The operand of a lane of a maximum. -/
theorem reductionOperands_max4_eq_ok {cf : CfInstr} {g : AluGroup} {i : AluInstr}
    {ab : Source × Option Source} {o o' : Output}
    (h : reductionOperands cf g (.op2 .max4) i o = .ok ab o') :
    ∃ a, SourceOf cf g i 0 a ∧ ab = (a, none) ∧ o' = o.add { accesses := sourceAccesses a } := by
  simp only [reductionOperands, if_true, bind_eq_ok, pure_eq_ok] at h
  obtain ⟨a, _, hrun, rfl, rfl⟩ := h
  obtain ⟨ha, rfl⟩ := source_eq_ok hrun
  exact ⟨a, ha, rfl, rfl⟩

/-- Only dot products and the maximum have a value. -/
theorem reductionValue_eq_ok {op : AluOp} {operands : List (Source × Option Source)} {value : Arith}
    {o o' : Output} (h : reductionValue op operands o = .ok value o') :
    o = o' ∧
      ((op = .op2 .dot4 ∨ op = .op2 .dot4Ieee) ∧
          value = .dot (operands.map Prod.fst) (operands.filterMap Prod.snd) ∨
        op = .op2 .max4 ∧ ∃ a b c d rest,
          operands.map Prod.fst = a :: b :: c :: d :: rest ∧ value = .max4 a b c d) := by
  unfold reductionValue at h
  split at h
  · obtain ⟨rfl, rfl⟩ := pure_eq_ok.mp h
    exact ⟨rfl, .inl ⟨.inl rfl, rfl⟩⟩
  · obtain ⟨rfl, rfl⟩ := pure_eq_ok.mp h
    exact ⟨rfl, .inl ⟨.inr rfl, rfl⟩⟩
  · generalize operands.map Prod.fst = firsts at h ⊢
    split at h
    · obtain ⟨rfl, rfl⟩ := pure_eq_ok.mp h
      exact ⟨rfl, .inr ⟨rfl, _, _, _, _, _, rfl, rfl⟩⟩
    · exact absurd h throw_ne_ok
  · exact absurd h fail_ne_ok

theorem compileReduction_eq_ok {w : Walk} {cf : CfInstr} {g : AluGroup} {is : Quad AluInstr}
    {op : AluOp} {o o' : Output} {u : Unit} (hlanes : g.vector = is.map some)
    (hops : ∀ c, (is.get c).op = .ok op)
    (h : compileReduction w cf g .reduction is.x o = .ok u o') :
    ∃ p, ReductionPiece cf g p ∧ o' = o.add p := by
  simp only [compileReduction, ne_eq, not_true, if_false, vectorLanes_of_full hlanes, bind_eq_ok,
    decode_eq_ok, emit_eq_ok] at h
  obtain ⟨op', _, ⟨hop', rfl⟩, operands, o₁, hmap, value, _, hvalue, _, _, rfl, hdefer⟩ := h
  obtain rfl : op = op' := Except.ok.inj ((hops .x).symm.trans hop')
  obtain ⟨rfl, hkind⟩ := reductionValue_eq_ok hvalue
  obtain ⟨hs, hheld, rfl⟩ := deferWrites_eq_ok hdefer
  simp only [mapM_cons_eq_ok, mapM_nil_eq_ok] at hmap
  obtain ⟨_, _, _, hx, ⟨_, _, _, hy, ⟨_, _, _, hz, ⟨_, _, _, hw, ⟨rfl, rfl⟩, rfl⟩, rfl⟩, rfl⟩,
    rfl⟩ := hmap
  rcases hkind with ⟨hdot, rfl⟩ | ⟨rfl, a, b, c, d, rest, hfirsts, rfl⟩
  · have hne : op ≠ .op2 .max4 := by
      rcases hdot with rfl | rfl <;> decide
    obtain ⟨ax, bx, hax, hbx, rfl, rfl⟩ := reductionOperands_eq_ok hne hx
    obtain ⟨ay, by', hay, hby, rfl, rfl⟩ := reductionOperands_eq_ok hne hy
    obtain ⟨az, bz, haz, hbz, rfl, rfl⟩ := reductionOperands_eq_ok hne hz
    obtain ⟨aw, bw, haw, hbw, rfl, rfl⟩ := reductionOperands_eq_ok hne hw
    obtain ⟨op2, hdot2, rfl⟩ : ∃ op2 : AluOp2, (op2 = .dot4 ∨ op2 = .dot4Ieee) ∧ op = .op2 op2 := by
      rcases hdot with rfl | rfl
      · exact ⟨.dot4, .inl rfl, rfl⟩
      · exact ⟨.dot4Ieee, .inr rfl, rfl⟩
    have has : ∀ c, SourceOf cf g (is.get c) 0 ((⟨ax, ay, az, aw⟩ : Quad Source).get c) := by
      intro c
      cases c <;> assumption
    have hbs : ∀ c, SourceOf cf g (is.get c) 1 ((⟨bx, by', bz, bw⟩ : Quad Source).get c) := by
      intro c
      cases c <;> assumption
    exact ⟨_, .dot hdot2 hlanes hops has hbs hheld, by simp [Output.add_add, Quad.toList]⟩
  · obtain ⟨ax, hax, rfl, rfl⟩ := reductionOperands_max4_eq_ok hx
    obtain ⟨ay, hay, rfl, rfl⟩ := reductionOperands_max4_eq_ok hy
    obtain ⟨az, haz, rfl, rfl⟩ := reductionOperands_max4_eq_ok hz
    obtain ⟨aw, haw, rfl, rfl⟩ := reductionOperands_max4_eq_ok hw
    simp only [List.map_cons, List.map_nil, List.cons.injEq] at hfirsts
    obtain ⟨rfl, rfl, rfl, rfl, -⟩ := hfirsts
    have has : ∀ c, SourceOf cf g (is.get c) 0 ((⟨ax, ay, az, aw⟩ : Quad Source).get c) := by
      intro c
      cases c <;> assumption
    exact ⟨_, .max4 hlanes hops has hheld, by simp [Output.add_add, Quad.toList]⟩

/-! ## Groups -/

/-- The piece of the lanes of a group. -/
inductive GroupPiece (cf : CfInstr) (g : AluGroup) : Piece → Prop where
  | lanes {p : Piece} (hp : LanesPiece cf g Lane.all p) : GroupPiece cf g p
  | reduction {p q : Piece} (hp : ReductionPiece cf g p) (hq : LanesPiece cf g [.t] q) :
      GroupPiece cf g (p ++ q)

theorem op3_reduction (op : AluOp3) : op.traits.reduction = false := by
  cases op <;> rfl

/-- What the reduction of a group adds, and which lanes are left. -/
theorem walkReduction_eq_ok {c : Context} {cf : CfInstr} {g : AluGroup} {ls : List Lane}
    {m m' : Machine Output} (h : walkReduction (handlers c) cf g m = .ok ls m') :
    ls = Lane.all ∧ m = m' ∨
      ls = [.t] ∧ ∃ p, ReductionPiece cf g p ∧ m' = { m with out := m.out.add p } := by
  unfold walkReduction at h
  cases hx : g.lane .x with
  | none =>
    simp only [hx, pure_eq_ok] at h
    exact .inl h
  | some first =>
    simp only [hx, bind_eq_ok, decode_eq_ok] at h
    obtain ⟨op, _, ⟨hop, rfl⟩, h⟩ := h
    split at h
    · rename_i hred
      simp only [bind_eq_ok, check_eq_ok, pure_eq_ok] at h
      obtain ⟨_, _, ⟨hcheck, rfl⟩, _, _, hrun, rfl, rfl⟩ := h
      obtain ⟨is, rfl, hlanes, hops⟩ := checkReduction_eq_ok hx hop hcheck
      obtain ⟨op', handle, out, hop', hhandle, hout, rfl⟩ := walkAlu_eq_ok hrun
      obtain rfl : op = op' := Except.ok.inj (hop.symm.trans hop')
      cases op with
      | op3 op => exact absurd hred (by simp [AluOp.traits, op3_reduction])
      | op2 op =>
        rcases op2Handler_eq_some hhandle with ⟨rfl, rfl⟩ | ⟨rfl, rfl⟩ | ⟨-, rfl⟩ | ⟨hfalse, -⟩
        · exact absurd hred (by decide)
        · exact absurd hred (by decide)
        · obtain ⟨p, hp, rfl⟩ := compileReduction_eq_ok hlanes hops hout
          exact .inr ⟨rfl, p, hp, rfl⟩
        · simp [AluOp.traits, hfalse] at hred
    · exact .inl (pure_eq_ok.mp h)

/-- An output without held back writes. -/
def Output.released (o : Output) : Output := { o with deferred := [] }

theorem beginGroup_eq_ok {c : Context} {w : Walk} {cf : CfInstr} {g : AluGroup} {o o' : Output}
    {u : Unit} (h : (handlers c).beginGroup w cf g o = .ok u o') :
    ∃ ls : List Line, ls.filterMap Line.stmt? = [] ∧ o' = o.released.add { lines := ls } := by
  simp only [handlers, beginGroup, bind_eq_ok, modify_eq_ok] at h
  obtain ⟨_, _, rfl, hnote⟩ := h
  exact note_eq_ok rfl hnote

theorem emitRegWrites_eq_ok {ws : List RegWrite} {u : Unit} :
    ∀ {o o' : Output}, ws.forM (m := Emit) (fun w => emit (.regWrite w)) o = .ok u o' →
      o' = o.add { lines := ws.map fun w => .stmt (.regWrite w) } := by
  induction ws with
  | nil =>
    intro o o' h
    obtain rfl := forM_nil_eq_ok.mp h
    simp
  | cons w ws ih =>
    intro o o' h
    obtain ⟨_, hhead, htail⟩ := forM_cons_eq_ok.mp h
    obtain rfl := emit_eq_ok.mp hhead
    rw [ih htail]
    simp [Output.add_add]

/-- The end of a group closes what the group has added. -/
theorem endGroup_eq_ok {c : Context} {w : Walk} {cf : CfInstr} {g : AluGroup} {o o' : Output}
    {p : Piece} {u : Unit} (h : (handlers c).endGroup w cf g (o.released.add p) = .ok u o') :
    o' = o.released.add p.close := by
  simp only [handlers, endGroup, bind_eq_ok, get_eq_ok, set_eq_ok, emit_eq_ok] at h
  obtain ⟨_, _, ⟨rfl, rfl⟩, _, _, rfl, _, _, hwrites, _, _, rfl, rfl⟩ := h
  rw [emitRegWrites_eq_ok hwrites]
  simp [Output.add, Output.released, Piece.close]

/-- What a group adds when it compiles: nothing that was held back before it, then the comment, the
lanes, the register writes and the latches. -/
theorem walkGroup_eq_ok {c : Context} {cf : CfInstr} {g : AluGroup} {m m' : Machine Output}
    {u : Unit} (h : walkGroup (handlers c) cf g m = .ok u m') :
    ∃ (n : Word) (ls : List Line) (p : Piece), ls.filterMap Line.stmt? = [] ∧ GroupPiece cf g p ∧
      m' = { walk := { m.walk with groupPc := n }
             out := m.out.released.add ({ lines := ls } ++ p).close } := by
  simp only [walkGroup, bind_eq_ok, Machine.act_eq_ok] at h
  obtain ⟨_, _, ⟨_, hbegin, rfl⟩, lanes, _, hred, _, _, hlanes, _, _, ⟨out, hend, rfl⟩, hcount⟩ := h
  obtain ⟨ls, hls, rfl⟩ := beginGroup_eq_ok hbegin
  obtain ⟨n, -, rfl⟩ := Machine.count_eq_ok hcount
  rcases walkReduction_eq_ok hred with ⟨rfl, rfl⟩ | ⟨rfl, p, hp, rfl⟩
  · obtain ⟨p, hp, rfl⟩ := walkLanes_eq_ok hlanes
    rw [Output.add_add] at hend
    obtain rfl := endGroup_eq_ok hend
    exact ⟨n, ls, p, hls, .lanes hp, rfl⟩
  · obtain ⟨q, hq, rfl⟩ := walkLanes_eq_ok hlanes
    simp only [Output.add_add, Piece.append_assoc] at hend
    obtain rfl := endGroup_eq_ok hend
    exact ⟨n, ls, p ++ q, hls, .reduction hp hq, rfl⟩

end LatteHlsl.Compile
