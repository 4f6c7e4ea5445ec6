import Mathlib.Tactic.Tauto
import LatteHlsl.Proofs.Run

/-!
# The statements of tasks

Which statements a task can add, and what their operands, register writes and accesses are.

* `Stmt.sources`, `Stmt.accesses`: the operands and the resources of a statement.
* `atomInRange_of_sourceAtom`: how far the constant part of an index reaches.
* `GroupStmt`: a statement of an ALU group, with operands that the group's instructions name.
* `groupShape_of_group`: all statements of a group are of this kind, and the accesses of the
  group are those of its statements.
-/

namespace LatteHlsl

open Isa Hlsl Compile

/-- The operands of a statement. -/
def Hlsl.Stmt.sources : Stmt → List Source
  | .lane _ x | .reduction x => x.value.operands
  | .address _ s => [s]
  | _ => []

/-- The vectors of a dot product have four components. -/
def Hlsl.Arith.IsSized : Arith → Prop
  | .dot as bs => as.length = 4 ∧ bs.length = 4
  | _ => True

/-- The resources that a statement refers to. -/
def Hlsl.Stmt.accesses : Stmt → List Access
  | .sample x => [.texture x.texture, .sampler x.sampler]
  | s => s.sources.flatMap sourceAccesses

namespace Compile

/-! ## Ranges of operands -/

/-- How far the index of an operand reaches. -/
def OperandInRange : Operand → Prop
  | .gpr n => n < gprCount
  | .kcache _ n => n < 32
  | .cfile n => n < cfileCapacity
  | _ => True

theorem operandInRange_of_ofSel? {sel : Nat} {o : Operand} (h : Operand.ofSel? sel = some o) :
    OperandInRange o := by
  revert h
  unfold Operand.ofSel?
  -- one goal for each range of selectors
  repeat'
    refine iteInduction (motive := fun x => x = some o → OperandInRange o) (fun h => ?_) fun h => ?_
  all_goals rintro ⟨⟩
  all_goals simp only [OperandInRange, gprCount, cfileCapacity]
  all_goals omega

/-- How far the constant part of an index reaches: registers and the uniform register file are
covered as a whole, a uniform block from the window of a bank on. -/
def AtomInRange (cf : CfInstr) : Atom → Prop
  | .gpr k _ => k.base < gprCount
  | .uniform b k _ =>
    ∃ bank n, cf.kcacheBlock bank = b ∧ n < 32 ∧ k.base = windowUnit * cf.kcacheAddr bank + n
  | .cfile k _ => k.base < cfileCapacity
  | _ => True

theorem base_of_relIndex {base mode : Nat} {rel : Bool} {k : Index}
    (h : relIndex base rel mode = .ok k) : k.base = base := by
  unfold relIndex at h
  split at h
  · simp only [Checked.bind_eq_ok, Checked.pure_eq_ok] at h
    obtain ⟨x, -, rfl⟩ := h
    rfl
  · cases h
    rfl

theorem atomInRange_of_sourceAtom {cf : CfInstr} {g : AluGroup} {mode : Nat} {s : AluSource}
    {a : Atom} (h : sourceAtom cf g mode s = .ok a) : AtomInRange cf a := by
  unfold sourceAtom at h
  cases hsel : Operand.ofSel? s.sel with
  | none =>
    simp only [hsel] at h
    cases h
  | some o =>
    have hrange := operandInRange_of_ofSel? hsel
    simp only [hsel] at h
    cases o with
    | gpr n | cfile n =>
      simp only [Checked.bind_eq_ok, Checked.pure_eq_ok] at h
      obtain ⟨k, hk, rfl⟩ := h
      rw [AtomInRange, base_of_relIndex hk]
      exact hrange
    | kcache bank n =>
      simp only [kcacheAtom, Checked.bind_eq_ok, Checked.pure_eq_ok] at h
      obtain ⟨locked, -, k, hk, rfl⟩ := h
      exact ⟨bank, n, rfl, hrange, by rw [base_of_relIndex hk, Nat.mul_comm]⟩
    | zero | one | intOne | intMinusOne | half | prevVector | prevScalar | literal =>
      cases h
      trivial

/-! ## Groups -/

/-- `s` is an operand of some instruction. -/
def OperandOf (cf : CfInstr) (g : AluGroup) (s : Source) : Prop := ∃ i n, SourceOf cf g i n s

/-- `k` is the index of the register that some instruction writes. -/
def DestIndex (k : Index) : Prop := ∃ i : AluInstr, relIndex i.dstGpr i.dstRel i.indexMode = .ok k

/-- A statement of a group. -/
inductive GroupStmt (cf : CfInstr) (g : AluGroup) : Stmt → Prop where
  | lane {out : LaneOut} {x : Result} (h : ∀ s ∈ x.value.operands, OperandOf cf g s)
      (hx : x.value.IsSized) : GroupStmt cf g (.lane out x)
  | reduction {x : Result} (h : ∀ s ∈ x.value.operands, OperandOf cf g s) (hx : x.value.IsSized) :
      GroupStmt cf g (.reduction x)
  | address {chan : Chan} {s : Source} (h : OperandOf cf g s) : GroupStmt cf g (.address chan s)
  | regWrite {w : RegWrite} (h : DestIndex w.index) : GroupStmt cf g (.regWrite w)
  | latchVector : GroupStmt cf g .latchVector
  | latchScalar : GroupStmt cf g .latchScalar

/-- The accesses of a piece are those of its statements. -/
def Piece.Exact (p : Piece) : Prop := ∀ a, a ∈ p.accesses ↔ ∃ s ∈ p.stmts, a ∈ s.accesses

/-- What every piece of a group has. -/
structure GroupShape (cf : CfInstr) (g : AluGroup) (p : Piece) : Prop where
  stmts : ∀ s ∈ p.stmts, GroupStmt cf g s
  held : ∀ w ∈ p.held, DestIndex w.index
  exact : p.Exact

section

variable {cf : CfInstr} {g : AluGroup}

theorem Piece.exact_empty : Piece.Exact {} := fun a => by simp [Piece.stmts]

theorem Piece.Exact.append {p q : Piece} (hp : p.Exact) (hq : q.Exact) : (p ++ q).Exact := by
  intro a
  rw [Piece.accesses_append, Piece.stmts_append, List.mem_append, hp a, hq a]
  simp only [List.mem_append, or_and_right, exists_or]

theorem GroupShape.append {p q : Piece} (hp : GroupShape cf g p) (hq : GroupShape cf g q) :
    GroupShape cf g (p ++ q) where
  stmts := by
    rw [Piece.stmts_append]
    exact List.forall_mem_append.mpr ⟨hp.stmts, hq.stmts⟩
  held := by
    rw [Piece.held_append]
    exact List.forall_mem_append.mpr ⟨hp.held, hq.held⟩
  exact := hp.exact.append hq.exact

/-- Lines without statements. -/
theorem groupShape_of_note {ls : List Line} (hls : ls.filterMap Line.stmt? = []) :
    GroupShape cf g { lines := ls } := by
  have hstmts : Piece.stmts { lines := ls } = [] := hls
  exact ⟨by simp [hstmts], by simp, fun a => by simp [hstmts]⟩

theorem destIndex_of_heldWrite {i : AluInstr} {out : LaneOut} {held : List RegWrite}
    (h : HeldWrite i out held) : ∀ w ∈ held, DestIndex w.index := by
  cases h with
  | masked => simp
  | write _ hindex =>
    intro w hw
    obtain rfl := List.mem_singleton.mp hw
    exact ⟨i, hindex⟩

theorem operandOf_of_valueOf {i : AluInstr} {op : AluOp} {value : Arith}
    (h : ValueOf cf g i op value) : ∀ s ∈ value.operands, OperandOf cf g s := by
  cases h with
  | unary hshape ha =>
    rw [operands_unary hshape]
    simpa using ⟨i, 0, ha⟩
  | binary hshape ha hb =>
    rw [operands_binary hshape]
    simpa using ⟨⟨i, 0, ha⟩, ⟨i, 1, hb⟩⟩
  | ternary harith ha hb hc =>
    rw [operands_ternary harith]
    simpa using ⟨⟨i, 0, ha⟩, ⟨i, 1, hb⟩, ⟨i, 2, hc⟩⟩

/-- Single lanes compute no dot products. -/
theorem isSized_of_valueOf {i : AluInstr} {op : AluOp} {value : Arith} (h : ValueOf cf g i op value) :
    value.IsSized := by
  cases h with
  | @unary op2 _ _ hshape =>
    cases op2 <;> simp only [shape?, Option.some.injEq, Shape.unary.injEq, reduceCtorEq] at hshape <;>
      subst hshape <;> trivial
  | @binary op2 _ _ _ hshape =>
    cases op2 <;>
      simp only [shape?, Option.some.injEq, Shape.binary.injEq, reduceCtorEq] at hshape <;>
      subst hshape <;> trivial
  | ternary harith =>
    unfold arith3? at harith
    split at harith <;> first | (cases harith; trivial) | cases harith

theorem groupShape_of_lanePiece {l : Lane} {i : AluInstr} {p : Piece} (h : LanePiece cf g l i p) :
    GroupShape cf g p := by
  cases h with
  | nop => exact ⟨by simp [Piece.stmts], by simp, Piece.exact_empty⟩
  | address hop hs =>
    refine ⟨?_, by simp, fun a => ?_⟩
    · simpa [Piece.stmts, Line.stmt?] using GroupStmt.address ⟨i, 0, hs⟩
    · simp [Piece.stmts, Line.stmt?, Stmt.accesses, Stmt.sources]
  | store hop hvalue hheld =>
    refine ⟨?_, destIndex_of_heldWrite hheld, fun a => ?_⟩
    · simpa [Piece.stmts, Line.stmt?] using GroupStmt.lane (operandOf_of_valueOf hvalue) (isSized_of_valueOf hvalue)
    · simp [Piece.stmts, Line.stmt?, Stmt.accesses, Stmt.sources, arithAccesses]

theorem groupShape_of_lanesPiece {ls : List Lane} {p : Piece} (h : LanesPiece cf g ls p) :
    GroupShape cf g p := by
  induction h with
  | nil => exact ⟨by simp [Piece.stmts], by simp, Piece.exact_empty⟩
  | skip _ _ ih => exact ih
  | cons _ hp _ ih => exact (groupShape_of_lanePiece hp).append ih

/-- The values of all channels, in a property. -/
theorem forall_mem_toList {α : Type} {q : Quad α} {P : α → Prop} :
    (∀ x ∈ q.toList, P x) ↔ ∀ c, P (q.get c) := by
  constructor
  · intro h c
    cases c <;> exact h _ (by simp [Quad.toList, Quad.get])
  · intro h x hx
    simp only [Quad.toList, List.mem_cons, List.not_mem_nil, or_false] at hx
    rcases hx with rfl | rfl | rfl | rfl
    · exact h .x
    · exact h .y
    · exact h .z
    · exact h .w

theorem destIndex_of_heldWrites {is : Quad AluInstr} {hs : Quad (List RegWrite)}
    (h : ∀ c, HeldWrite (is.get c) (.vector c) (hs.get c)) :
    ∀ w ∈ hs.toList.flatten, DestIndex w.index := by
  intro w hw
  obtain ⟨held, hheld, hw⟩ := List.mem_flatten.mp hw
  have hall : ∀ held ∈ hs.toList, ∀ w ∈ held, DestIndex w.index :=
    forall_mem_toList.mpr fun c => destIndex_of_heldWrite (h c)
  exact hall held hheld w hw

theorem groupShape_of_reductionPiece {p : Piece} (h : ReductionPiece cf g p) :
    GroupShape cf g p := by
  cases h with
  | dot hdot hlanes hop has hbs hheld =>
    have hoperands := List.forall_mem_append.mpr
      ⟨(forall_mem_toList (P := OperandOf cf g)).mpr fun c => ⟨_, 0, has c⟩,
        (forall_mem_toList (P := OperandOf cf g)).mpr fun c => ⟨_, 1, hbs c⟩⟩
    refine ⟨?_, destIndex_of_heldWrites hheld, fun a => ?_⟩
    · intro s hs
      obtain rfl := List.mem_singleton.mp hs
      exact .reduction hoperands ⟨rfl, rfl⟩
    -- the operands are recorded lane by lane, and written down first ones first
    · simp only [Quad.toList, List.zip_cons_cons, List.zip_nil_right, List.flatMap_cons,
        List.flatMap_nil, List.append_nil, List.mem_append, Piece.stmts, List.filterMap_cons,
        Line.stmt?, List.filterMap_nil, List.mem_singleton, exists_eq_left, Stmt.accesses,
        Stmt.sources, Arith.operands, List.cons_append, List.nil_append]
      tauto
  | max4 hlanes hop has hheld =>
    have hoperands := (forall_mem_toList (P := OperandOf cf g)).mpr fun c => ⟨_, 0, has c⟩
    refine ⟨?_, destIndex_of_heldWrites hheld, fun a => ?_⟩
    · intro s hs
      obtain rfl := List.mem_singleton.mp hs
      exact .reduction hoperands trivial
    · simp [Quad.toList, Piece.stmts, Line.stmt?, Stmt.accesses, Stmt.sources, Arith.operands]

theorem groupShape_of_groupPiece {p : Piece} (h : GroupPiece cf g p) : GroupShape cf g p := by
  cases h with
  | lanes hp => exact groupShape_of_lanesPiece hp
  | reduction hp hq =>
    exact (groupShape_of_reductionPiece hp).append (groupShape_of_lanesPiece hq)

/-- The register writes and the latches at the end of a group refer to no resources. -/
theorem GroupShape.close {p : Piece} (hp : GroupShape cf g p) : GroupShape cf g p.close where
  stmts := by
    rw [Piece.stmts_close]
    refine List.forall_mem_append.mpr ⟨List.forall_mem_append.mpr ⟨hp.stmts, ?_⟩, ?_⟩
    · intro s hs
      obtain ⟨w, hw, rfl⟩ := List.mem_map.mp hs
      exact .regWrite (hp.held w hw)
    · simpa using ⟨GroupStmt.latchVector, GroupStmt.latchScalar⟩
  held := by simp [Piece.close]
  exact := by
    intro a
    have hends : ¬ ∃ s ∈ p.held.map Stmt.regWrite ++ [.latchVector, .latchScalar],
        a ∈ s.accesses := by
      rintro ⟨s, hs, ha⟩
      rcases List.mem_append.mp hs with hs | hs
      · obtain ⟨w, -, rfl⟩ := List.mem_map.mp hs
        simp [Stmt.accesses, Stmt.sources] at ha
      · simp only [List.mem_cons, List.not_mem_nil, or_false] at hs
        rcases hs with rfl | rfl <;> simp [Stmt.accesses, Stmt.sources] at ha
    have hclose : p.close.accesses = p.accesses := rfl
    rw [Piece.stmts_close, List.append_assoc, hclose, hp.exact a]
    simp only [List.mem_append (s := p.stmts), or_and_right, exists_or]
    exact (or_iff_left hends).symm

/-- The shape of a whole group, with the comment before it. -/
theorem groupShape_of_group {ls : List Line} {p : Piece} (hls : ls.filterMap Line.stmt? = [])
    (hp : GroupPiece cf g p) : GroupShape cf g ({ lines := ls } ++ p).close :=
  ((groupShape_of_note hls).append (groupShape_of_groupPiece hp)).close

end

/-! ## Tasks -/

/-- Statements of a move refer to no resources. -/
theorem accesses_of_mem_moveLines {m : Move} {s : Stmt}
    (h : s ∈ (moveLines m).filterMap Line.stmt?) : s.accesses = [] := by
  obtain ⟨a, -, rfl⟩ := mem_stmts_moveLines.mp h
  rfl

theorem Piece.exact_of_moveLines {p : Piece} {m : Move} (hlines : p.lines = moveLines m)
    (haccesses : p.accesses = []) : p.Exact := by
  intro a
  rw [haccesses, Piece.stmts, hlines]
  refine ⟨fun ha => absurd ha List.not_mem_nil, ?_⟩
  rintro ⟨s, hs, ha⟩
  rw [accesses_of_mem_moveLines hs] at ha
  exact ha

/-- The accesses of a task are those of its statements. -/
theorem Task.Adds.exact {c : Context} {o : Output} {t : Task} {p : Piece} (h : Task.Adds c o t p) :
    p.Exact := by
  cases h with
  | call | ret => exact fun a => by simp [Piece.stmts, Line.stmt?, Stmt.accesses, Stmt.sources]
  | group hls hp => exact (groupShape_of_group hls hp).exact
  | unused => exact Piece.exact_empty
  | fetch | output => exact Piece.exact_of_moveLines rfl rfl
  | @sample i x hx =>
    intro a
    simp only [Piece.stmts, List.filterMap_append, List.mem_append, or_and_right, exists_or]
    have hnone : ∀ m, ¬ ∃ s ∈ (moveLines m).filterMap Line.stmt?, a ∈ s.accesses := by
      rintro m ⟨s, hs, ha⟩
      simp [accesses_of_mem_moveLines hs] at ha
    simp only [hnone, false_or, or_false]
    simp [Line.stmt?, Stmt.accesses]

/-- The statement of a group, as the task adds it. -/
theorem Task.Adds.groupStmt {c : Context} {o : Output} {cf : CfInstr} {g : AluGroup} {p : Piece}
    {s : Stmt} (h : Task.Adds c o (.group cf g) p) (hs : s ∈ p.stmts) : GroupStmt cf g s := by
  cases h with
  | group hls hp => exact (groupShape_of_group hls hp).stmts s hs

/-- Only groups have operands. -/
theorem Task.Adds.operandOf {c : Context} {o : Output} {t : Task} {p : Piece} {s : Stmt}
    {x : Source} (h : Task.Adds c o t p) (hs : s ∈ p.stmts) (hx : x ∈ s.sources) :
    ∃ cf g, t = .group cf g ∧ OperandOf cf g x := by
  have hmove : ∀ m, s ∉ (moveLines m).filterMap Line.stmt? := by
    intro m hm
    obtain ⟨a, -, rfl⟩ := mem_stmts_moveLines.mp hm
    simp [Stmt.sources] at hx
  cases t with
  | group cf g =>
    refine ⟨cf, g, rfl, ?_⟩
    cases h.groupStmt hs with
    | lane hall | reduction hall => exact hall x hx
    | address hop =>
      obtain rfl := List.mem_singleton.mp hx
      exact hop
    | regWrite | latchVector | latchScalar => simp [Stmt.sources] at hx
  | call | ret | sample i | fetch i | output cf kind n =>
    cases h
    all_goals simp [Piece.stmts, Line.stmt?, hmove] at hs
    all_goals subst hs; simp [Stmt.sources] at hx

end Compile

end LatteHlsl
