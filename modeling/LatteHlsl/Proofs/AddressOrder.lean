import LatteHlsl.Proofs.CodeReading
import LatteHlsl.Proofs.Parallel

/-!
# Loads of the address register within a group

The register writes of a group are held back to its end, but a load of the address register is a
statement in its place among the lanes. What comes after it and is indexed by the loaded channel
meets the new value: the operands of later lanes, and the held back writes of all lanes. This module
says for which groups that never happens.

* `Stmt.UsesAddress`, `AddressesSettled`: no statement uses a channel that one before it assigns.
* `UsesChannel`, `CodeSettled`: the same of the assignments in a code.
* `AluInstr.ReadsThrough`, `AluInstr.WritesThrough`, `AluInstr.LoadsAddress`: what an instruction
  does with the address register, by its fields.
* `Footprint`: the same for a piece of output.
* `walkGroup_addressesSettled_iff`: the statements of a group are settled exactly if its
  instructions are, and so is their text.
-/

namespace LatteHlsl

open Isa Hlsl Compile Grammar

/-! ## Statements -/

namespace Hlsl

/-- The index in an atom. -/
def Atom.index? : Atom → Option Index
  | .gpr k _ | .uniform _ k _ | .cfile k _ => some k
  | _ => none

/-- The index of a variable. -/
def Place.index? : Place → Option Index
  | .gpr k => some k
  | _ => none

/-- The indices in a statement. -/
def Stmt.indices : Stmt → List Index
  | .regWrite w => [w.index]
  | .assign a => [a.target, a.source].filterMap Place.index?
  | s => s.sources.filterMap fun x => x.atom.index?

/-- The statement uses a channel of the address register as a relative index. -/
def Stmt.UsesAddress (s : Stmt) (c : Chan) : Prop := ∃ k ∈ s.indices, IndexReg.ar c ∈ k.offsets

instance (s : Stmt) (c : Chan) : Decidable (s.UsesAddress c) :=
  inferInstanceAs (Decidable (∃ k ∈ s.indices, IndexReg.ar c ∈ k.offsets))

/-- The operand is indexed by a channel of the address register. -/
def Source.UsesAddress (s : Source) (c : Chan) : Prop :=
  ∃ k ∈ s.atom.index?, IndexReg.ar c ∈ k.offsets

theorem uses_sources_iff {ss : List Source} {c : Chan} :
    (∃ k ∈ ss.filterMap (fun x => x.atom.index?), IndexReg.ar c ∈ k.offsets) ↔
      ∃ s ∈ ss, s.UsesAddress c := by
  simp only [List.mem_filterMap, Source.UsesAddress, Option.mem_def]
  constructor
  · rintro ⟨k, ⟨s, hs, hk⟩, hc⟩
    exact ⟨s, hs, k, hk, hc⟩
  · rintro ⟨s, hs, k, hk, hc⟩
    exact ⟨k, ⟨s, hs, hk⟩, hc⟩

theorem usesAddress_lane {out : LaneOut} {x : Result} {c : Chan} :
    (Stmt.lane out x).UsesAddress c ↔ ∃ s ∈ x.value.operands, s.UsesAddress c := uses_sources_iff

theorem usesAddress_reduction {x : Result} {c : Chan} :
    (Stmt.reduction x).UsesAddress c ↔ ∃ s ∈ x.value.operands, s.UsesAddress c := uses_sources_iff

theorem usesAddress_address {d : Chan} {s : Source} {c : Chan} :
    (Stmt.address d s).UsesAddress c ↔ s.UsesAddress c := by
  refine (@uses_sources_iff [s] c).trans ?_
  simp

/-- The channel of the address register that a statement assigns. -/
def Stmt.loads? : Stmt → Option Chan
  | .address c _ => some c
  | _ => none

/-- No statement uses a channel of the address register that one before it assigns. -/
def AddressesSettled (ss : List Stmt) : Prop :=
  ss.Pairwise fun s t => ∀ c ∈ s.loads?, ¬ t.UsesAddress c

instance (ss : List Stmt) : Decidable (AddressesSettled ss) :=
  inferInstanceAs (Decidable (List.Pairwise _ ss))

theorem addressesSettled_append {ss ts : List Stmt} :
    AddressesSettled (ss ++ ts) ↔ AddressesSettled ss ∧ AddressesSettled ts ∧
      ∀ c, (∃ s ∈ ss, c ∈ s.loads?) → ¬ ∃ t ∈ ts, t.UsesAddress c := by
  unfold AddressesSettled
  rw [List.pairwise_append]
  refine and_congr_right fun _ => and_congr_right fun _ => ?_
  constructor
  · rintro h c ⟨s, hs, hc⟩ ⟨t, ht, hused⟩
    exact h s hs t ht c hc hused
  · intro h s hs t ht c hc hused
    exact h c ⟨s, hs, hc⟩ ⟨t, ht, hused⟩

theorem addressesSettled_of_loads?_eq_none {ss : List Stmt} (h : ∀ s ∈ ss, s.loads? = none) :
    AddressesSettled ss := by
  refine List.pairwise_of_forall_mem_list fun s hs t _ c hc => ?_
  rw [h s hs] at hc
  cases hc

end Hlsl

/-! ## Code -/

namespace Grammar

/-- The summands of an index. -/
def Tree.summands : Tree → List Tree
  | .binary .plus a b => a.summands ++ b.summands
  | t => [t]

/-- An index in the assignment adds a channel of the address register. -/
def UsesChannel (p : Tree × Tree) (c : Chan) : Prop :=
  ∃ x ∈ elementsOf p, memberOf (.name "AR") c ∈ x.2.summands

/-- No assignment of a code uses a channel of the address register that one before it assigns. -/
def CodeSettled (code : String) : Prop :=
  (codeAssignments code).Pairwise fun p q => ∀ c, p.1 = memberOf (.name "AR") c → ¬ UsesChannel q c

end Grammar

namespace Hlsl

theorem memberOf_inj {t : Tree} {c d : Chan} : memberOf t c = memberOf t d ↔ c = d := by
  cases c <;> cases d <;> simp [memberOf, Chan.letter]

theorem Index.summands_tree (k : Index) :
    k.tree.summands = .number (toString k.base) :: k.offsets.map IndexReg.tree := by
  have hreg : ∀ x : IndexReg, x.tree.summands = [x.tree] := by
    intro x
    cases x <;> rfl
  have hadd : ∀ (xs : List IndexReg) (t : Tree),
      (xs.foldl (fun t x => .binary .plus t x.tree) t : Tree).summands =
        t.summands ++ xs.map IndexReg.tree := by
    intro xs
    induction xs with
    | nil => intro t; simp
    | cons x xs ih =>
      intro t
      rw [List.foldl_cons, ih, Tree.summands, hreg, List.map_cons, List.append_assoc]
      rfl
  exact hadd k.offsets _

/-- An index adds a channel of the address register exactly if its text does. -/
theorem Index.ar_mem_summands {k : Index} {c : Chan} :
    memberOf (.name "AR") c ∈ k.tree.summands ↔ IndexReg.ar c ∈ k.offsets := by
  rw [summands_tree, List.mem_cons, List.mem_map]
  constructor
  · rintro (hnumber | ⟨x, hx, htree⟩)
    · cases hnumber
    · cases x with
      | ar d => rwa [memberOf_inj.mp htree] at hx
      | al => cases htree
  · exact fun h => .inr ⟨_, h, rfl⟩

theorem Atom.index?_eq (a : Atom) : a.index? = a.element?.map Prod.snd := by
  cases a <;> rfl

theorem Atom.exists_ar_summands {a : Atom} {c : Chan} :
    (∃ x ∈ a.tree.elements, memberOf (.name "AR") c ∈ x.2.summands) ↔
      ∃ k ∈ a.index?, IndexReg.ar c ∈ k.offsets := by
  rw [elements_tree, index?_eq]
  cases a.element? with
  | none => simp
  | some x => simp [elementTree, Index.ar_mem_summands]

/-- The sides of a statement of a group load and use what the statement does. -/
theorem exists_sides_of_groupStmt {cf : CfInstr} {g : AluGroup} {s : Stmt} (h : GroupStmt cf g s) :
    ∃ p, s.sides? = some p ∧ (∀ c, p.1 = memberOf (.name "AR") c ↔ c ∈ s.loads?) ∧
      ∀ c, UsesChannel p c ↔ s.UsesAddress c := by
  have hsources : ∀ c, s.elements = (s.sources.flatMap fun x => x.atom.tree.elements) →
      ((∃ x ∈ s.elements, memberOf (.name "AR") c ∈ x.2.summands) ↔
        ∃ x ∈ s.sources, x.UsesAddress c) := by
    intro c helements
    rw [helements]
    simp only [List.mem_flatMap, Source.UsesAddress, ← Atom.exists_ar_summands]
    constructor
    · rintro ⟨y, ⟨x, hx, hy⟩, hc⟩
      exact ⟨x, hx, y, hy, hc⟩
    · rintro ⟨x, hx, y, hy, hc⟩
      exact ⟨y, ⟨x, hx, hy⟩, hc⟩
  cases h with
  | @lane out x =>
    refine ⟨_, rfl, fun c => ?_, fun c => ?_⟩
    · cases out <;> simp [LaneOut.tree, memberOf, Stmt.loads?]
    · exact (hsources c (Stmt.elements_of_sources (by simp) (by simp))).trans uses_sources_iff.symm
  | reduction | latchVector | latchScalar =>
    refine ⟨_, rfl, fun c => by simp [memberOf, Stmt.loads?], fun c => ?_⟩
    exact (hsources c (Stmt.elements_of_sources (by simp) (by simp))).trans uses_sources_iff.symm
  | address =>
    refine ⟨_, rfl, fun c => ?_, fun c => ?_⟩
    · exact memberOf_inj.trans (by simp [Stmt.loads?])
    · exact (hsources c (Stmt.elements_of_sources (by simp) (by simp))).trans uses_sources_iff.symm
  | @regWrite w =>
    refine ⟨_, rfl, fun c => by simp [registerTree, memberOf, Stmt.loads?], fun c => ?_⟩
    have helements : elementsOf (registerTree w.index w.chan, w.value.tree) =
        [elementTree ("R", w.index)] := Stmt.elements_regWrite w
    simp [UsesChannel, helements, elementTree, Index.ar_mem_summands, Stmt.UsesAddress,
      Stmt.indices]

/-- The text of statements of a group is settled exactly if they are. -/
theorem codeSettled_linesText {cf : CfInstr} {g : AluGroup} {ls : List Line}
    (h : ∀ s ∈ ls.filterMap Line.stmt?, GroupStmt cf g s) :
    CodeSettled (Output.linesText ls) ↔ AddressesSettled (ls.filterMap Line.stmt?) := by
  rw [CodeSettled, codeAssignments_linesText fun s hs => isReadable_of_groupStmt (h s hs),
    List.pairwise_filterMap, AddressesSettled]
  refine List.Pairwise.iff_of_mem fun {s t} hs ht => ?_
  obtain ⟨p, hp, hloads, -⟩ := exists_sides_of_groupStmt (h s hs)
  obtain ⟨q, hq, -, huses⟩ := exists_sides_of_groupStmt (h t ht)
  simp only [hp, hq, Option.some.injEq, forall_eq', hloads, huses]

end Hlsl

/-! ## Instructions -/

namespace Isa

/-- The channel of the address register that a mode of relative addressing adds. -/
def IndexMode.arChan? : IndexMode → Option Chan
  | .arX => some .x
  | .arY => some .y
  | .arZ => some .z
  | .arW => some .w
  | .loop | .global | .globalArX => none

/-- Whether an operand has an index. -/
def Operand.isIndexed : Operand → Bool
  | .gpr _ | .kcache _ _ | .cfile _ => true
  | _ => false

/-- How many sources an operation reads. -/
def AluOp.arity (op : AluOp) : Nat :=
  match Meaning.laneFn? op with
  | some (_, n) => n
  | none =>
    match op with
    | .op2 .movaFloor | .op2 .max4 => 1
    | .op2 .dot4 | .op2 .dot4Ieee => 2
    | _ => 0

/-- The source is indexed relative to a channel of the address register. -/
def AluSource.IsRelativeTo (s : AluSource) (mode : Nat) (c : Chan) : Prop :=
  s.rel = true ∧ (IndexMode.ofNat? mode).bind IndexMode.arChan? = some c ∧
    (Operand.ofSel? s.sel).any Operand.isIndexed = true

namespace AluInstr

/-- A source that the instruction reads is indexed by a channel of the address register. -/
def ReadsThrough (i : AluInstr) (c : Chan) : Prop :=
  ∃ op, i.op = .ok op ∧ ∃ n < op.arity, (i.src n).IsRelativeTo i.indexMode c

/-- The register that the instruction writes is indexed by a channel of the address register. -/
def WritesThrough (i : AluInstr) (c : Chan) : Prop :=
  i.writes = true ∧ i.dstRel = true ∧
    (IndexMode.ofNat? i.indexMode).bind IndexMode.arChan? = some c ∧
    i.op ≠ .ok (.op2 .nop) ∧ i.op ≠ .ok (.op2 .movaFloor)

/-- The instruction loads a channel of the address register. -/
def LoadsAddress (i : AluInstr) (c : Chan) : Prop :=
  i.op = .ok (.op2 .movaFloor) ∧ i.dstChan = c

end AluInstr

end Isa

/-- No lane reads through a channel of the address register that an earlier lane loads, and none
writes through a channel that any lane loads. -/
structure AluGroup.AddressesSettled (g : AluGroup) : Prop where
  reads : Lane.all.Pairwise fun l l' => ∀ i ∈ g.lane l, ∀ i' ∈ g.lane l', ∀ c,
    i.LoadsAddress c → ¬ i'.ReadsThrough c
  writes : ∀ l l', ∀ i ∈ g.lane l, ∀ i' ∈ g.lane l', ∀ c, i.LoadsAddress c → ¬ i'.WritesThrough c

namespace Compile

/-! ## Operands and register writes -/

theorem indexReg_eq_ar {mode : Nat} {x : IndexReg} {c : Chan} (h : indexReg mode = .ok x) :
    x = .ar c ↔ (IndexMode.ofNat? mode).bind IndexMode.arChan? = some c := by
  unfold indexReg at h
  cases hmode : IndexMode.ofNat? mode with
  | none =>
    simp only [hmode] at h
    cases h
  | some m => cases m <;> simp only [hmode] at h <;> cases h <;> simp [IndexMode.arChan?]

theorem mem_offsets_of_relIndex {base mode : Nat} {rel : Bool} {k : Index} {c : Chan}
    (h : relIndex base rel mode = .ok k) :
    IndexReg.ar c ∈ k.offsets ↔
      rel = true ∧ (IndexMode.ofNat? mode).bind IndexMode.arChan? = some c := by
  unfold relIndex at h
  cases rel with
  | false =>
    cases h
    simp
  | true =>
    simp only [if_true, Checked.bind_eq_ok, Checked.pure_eq_ok] at h
    obtain ⟨x, hx, rfl⟩ := h
    rw [← indexReg_eq_ar hx]
    simp [eq_comm]

/-- The lock of a constant cache bank adds the loop index at most. -/
theorem ar_notMem_bankOffsets {bank : KcacheBank} {mode : KcacheMode} {xs : List IndexReg}
    {c : Chan} (h : bankOffsets bank mode = .ok xs) : IndexReg.ar c ∉ xs := by
  cases mode <;> cases h <;> simp

theorem uses_sourceAtom_iff {cf : CfInstr} {g : AluGroup} {mode : Nat} {s : AluSource} {a : Atom}
    {c : Chan} (h : sourceAtom cf g mode s = .ok a) :
    (∃ k ∈ a.index?, IndexReg.ar c ∈ k.offsets) ↔ s.IsRelativeTo mode c := by
  unfold sourceAtom at h
  unfold AluSource.IsRelativeTo
  cases hsel : Operand.ofSel? s.sel with
  | none =>
    simp only [hsel] at h
    cases h
  | some o =>
    simp only [hsel] at h
    cases o with
    | gpr n | cfile n =>
      simp only [Checked.bind_eq_ok, Checked.pure_eq_ok] at h
      obtain ⟨k, hk, rfl⟩ := h
      simp [Atom.index?, mem_offsets_of_relIndex hk, Operand.isIndexed]
    | kcache bank n =>
      simp only [kcacheAtom, Checked.bind_eq_ok, Checked.pure_eq_ok] at h
      obtain ⟨locked, hlocked, k, hk, rfl⟩ := h
      simp [Atom.index?, mem_offsets_of_relIndex hk, ar_notMem_bankOffsets hlocked,
        Operand.isIndexed]
    | zero | one | intOne | intMinusOne | half | literal | prevVector | prevScalar =>
      cases h
      simp [Atom.index?, Operand.isIndexed]

theorem SourceOf.usesAddress_iff {cf : CfInstr} {g : AluGroup} {i : AluInstr} {n : Nat} {s : Source}
    {c : Chan} (h : SourceOf cf g i n s) :
    s.UsesAddress c ↔ (i.src n).IsRelativeTo i.indexMode c :=
  uses_sourceAtom_iff h.atom

theorem SourcesOf.usesAddress_iff {cf : CfInstr} {g : AluGroup} {i : AluInstr} {n : Nat}
    {ss : List Source} {c : Chan} (h : SourcesOf cf g i n ss) :
    (∃ s ∈ ss, s.UsesAddress c) ↔ ∃ m < n, (i.src m).IsRelativeTo i.indexMode c := by
  induction h with
  | nil => simp
  | snoc _ hs ih =>
    simp only [List.mem_append, List.mem_singleton, or_and_right, exists_or, exists_eq_left, ih,
      hs.usesAddress_iff, Nat.lt_succ_iff_lt_or_eq]

theorem readsThrough_iff {i : AluInstr} {op : AluOp} {c : Chan} (hop : i.op = .ok op) :
    i.ReadsThrough c ↔ ∃ n < op.arity, (i.src n).IsRelativeTo i.indexMode c := by
  simp [AluInstr.ReadsThrough, hop]

theorem arity_of_valueOf {cf : CfInstr} {g : AluGroup} {i : AluInstr} {op : AluOp} {value : Arith}
    (h : ValueOf cf g i op value) : op.arity = value.operands.length := by
  simp only [AluOp.arity, Meaning.laneFn?_of_valueOf h]

/-- What stores a result is neither an empty operation nor a load of the address register. -/
theorem stores_of_valueOf {cf : CfInstr} {g : AluGroup} {i : AluInstr} {op : AluOp} {value : Arith}
    (h : ValueOf cf g i op value) : op ≠ .op2 .nop ∧ op ≠ .op2 .movaFloor := by
  have hfn := Meaning.laneFn?_of_valueOf h
  constructor <;> rintro rfl <;> cases hfn

theorem heldWrite_uses_iff {i : AluInstr} {out : LaneOut} {held : List RegWrite} {c : Chan}
    (h : HeldWrite i out held) :
    (∃ w ∈ held, IndexReg.ar c ∈ w.index.offsets) ↔ i.writes = true ∧ i.dstRel = true ∧
      (IndexMode.ofNat? i.indexMode).bind IndexMode.arChan? = some c := by
  cases h with
  | masked h => simp [h]
  | write h hindex => simp [h, mem_offsets_of_relIndex hindex]

/-! ## Footprints -/

/-- What a piece of a group does with the address register. -/
structure Footprint (p : Piece) (loads reads writes : Chan → Prop) : Prop where
  loads_iff : ∀ c, (∃ s ∈ p.stmts, c ∈ s.loads?) ↔ loads c
  reads_iff : ∀ c, (∃ s ∈ p.stmts, s.UsesAddress c) ↔ reads c
  writes_iff : ∀ c, (∃ w ∈ p.held, IndexReg.ar c ∈ w.index.offsets) ↔ writes c

theorem Footprint.append {p q : Piece} {loads reads writes loads' reads' writes' : Chan → Prop}
    (hp : Footprint p loads reads writes) (hq : Footprint q loads' reads' writes') :
    Footprint (p ++ q) (fun c => loads c ∨ loads' c) (fun c => reads c ∨ reads' c)
      fun c => writes c ∨ writes' c where
  loads_iff c := by
    simp only [Piece.stmts_append, List.mem_append, or_and_right, exists_or, hp.loads_iff,
      hq.loads_iff]
  reads_iff c := by
    simp only [Piece.stmts_append, List.mem_append, or_and_right, exists_or, hp.reads_iff,
      hq.reads_iff]
  writes_iff c := by
    simp only [Piece.held_append, List.mem_append, or_and_right, exists_or, hp.writes_iff,
      hq.writes_iff]

/-- The statements of a group from those of its lanes: the held back writes come last. -/
theorem Footprint.settled_close_iff {p : Piece} {loads reads writes : Chan → Prop}
    (h : Footprint p loads reads writes) :
    AddressesSettled p.close.stmts ↔
      AddressesSettled p.stmts ∧ ∀ c, loads c → ¬ writes c := by
  have hends : AddressesSettled (p.held.map Stmt.regWrite ++ [.latchVector, .latchScalar]) := by
    refine addressesSettled_of_loads?_eq_none fun s hs => ?_
    simp only [List.mem_append, List.mem_map, List.mem_cons, List.not_mem_nil, or_false] at hs
    rcases hs with ⟨w, -, rfl⟩ | rfl | rfl <;> rfl
  have huses : ∀ c, (∃ s ∈ p.held.map Stmt.regWrite ++ [.latchVector, .latchScalar],
      s.UsesAddress c) ↔ writes c := by
    intro c
    rw [← h.writes_iff]
    simp [Stmt.UsesAddress, Stmt.indices, Stmt.sources, or_and_right, exists_or]
  rw [Piece.stmts_close, List.append_assoc, addressesSettled_append, and_iff_right hends]
  simp only [h.loads_iff, huses]

/-- A lane does what its instruction does. -/
theorem LanePiece.footprint {cf : CfInstr} {g : AluGroup} {l : Lane} {i : AluInstr} {p : Piece}
    (h : LanePiece cf g l i p) :
    Footprint p i.LoadsAddress i.ReadsThrough i.WritesThrough := by
  cases h with
  | nop hop =>
    refine ⟨fun c => ?_, fun c => ?_, fun c => ?_⟩
    · simp [Piece.stmts, AluInstr.LoadsAddress, hop]
    · simp [Piece.stmts, AluInstr.ReadsThrough, hop, AluOp.arity, Meaning.laneFn?]
    · simp [AluInstr.WritesThrough, hop]
  | address hop hs =>
    refine ⟨fun c => ?_, fun c => ?_, fun c => ?_⟩
    · simp [Piece.stmts, Line.stmt?, AluInstr.LoadsAddress, hop, Stmt.loads?]
    · rw [readsThrough_iff hop]
      simp [Piece.stmts, Line.stmt?, AluOp.arity, Meaning.laneFn?, usesAddress_address,
        hs.usesAddress_iff]
    · simp [AluInstr.WritesThrough, hop]
  | store hop hvalue hheld =>
    obtain ⟨hnop, hmova⟩ := stores_of_valueOf hvalue
    refine ⟨fun c => ?_, fun c => ?_, fun c => ?_⟩
    · simp [Piece.stmts, Line.stmt?, Stmt.loads?, AluInstr.LoadsAddress, hop, hmova]
    · rw [readsThrough_iff hop, arity_of_valueOf hvalue,
        ← (sourcesOf_of_valueOf hvalue).usesAddress_iff]
      simp [Piece.stmts, Line.stmt?, usesAddress_lane]
    · rw [heldWrite_uses_iff hheld]
      simp [AluInstr.WritesThrough, hop, hnop, hmova]

theorem LanePiece.settled {cf : CfInstr} {g : AluGroup} {l : Lane} {i : AluInstr} {p : Piece}
    (h : LanePiece cf g l i p) : AddressesSettled p.stmts := by
  cases h with
  | nop => exact List.Pairwise.nil
  | address => exact List.pairwise_singleton _ _
  | store => exact List.pairwise_singleton _ _

/-- Some of the lanes holds an instruction with a property. -/
def SomeLane (g : AluGroup) (ls : List Lane) (P : AluInstr → Prop) : Prop :=
  ∃ l ∈ ls, ∃ i ∈ g.lane l, P i

theorem someLane_cons {g : AluGroup} {l : Lane} {ls : List Lane} {P : AluInstr → Prop} :
    SomeLane g (l :: ls) P ↔ (∃ i ∈ g.lane l, P i) ∨ SomeLane g ls P := by
  simp [SomeLane]

/-- What lanes do with the address register. -/
abbrev LanesFootprint (g : AluGroup) (ls : List Lane) (p : Piece) : Prop :=
  Footprint p (fun c => SomeLane g ls (·.LoadsAddress c))
    (fun c => SomeLane g ls (·.ReadsThrough c))
    fun c => SomeLane g ls (·.WritesThrough c)

theorem Footprint.append_lanes {g : AluGroup} {ls ls' : List Lane} {p q : Piece}
    (hp : LanesFootprint g ls p) (hq : LanesFootprint g ls' q) :
    LanesFootprint g (ls ++ ls') (p ++ q) := by
  simpa only [LanesFootprint, SomeLane, List.mem_append, or_and_right, exists_or] using hp.append hq

theorem LanesPiece.footprint {cf : CfInstr} {g : AluGroup} {ls : List Lane} {p : Piece}
    (h : LanesPiece cf g ls p) : LanesFootprint g ls p := by
  induction h with
  | nil =>
    exact ⟨by simp [Piece.stmts, SomeLane], by simp [Piece.stmts, SomeLane], by simp [SomeLane]⟩
  | skip hl _ ih => simpa [LanesFootprint, someLane_cons, hl] using ih
  | cons hl hp _ ih => simpa [LanesFootprint, someLane_cons, hl] using hp.footprint.append ih

/-- The statements of lanes are settled exactly if no lane reads through a channel that an earlier
one loads. -/
theorem LanesPiece.settled_iff {cf : CfInstr} {g : AluGroup} {ls : List Lane} {p : Piece}
    (h : LanesPiece cf g ls p) :
    AddressesSettled p.stmts ↔ ls.Pairwise fun l l' => ∀ i ∈ g.lane l, ∀ i' ∈ g.lane l', ∀ c,
      i.LoadsAddress c → ¬ i'.ReadsThrough c := by
  induction h with
  | nil => exact iff_of_true List.Pairwise.nil List.Pairwise.nil
  | skip hl _ ih => simpa [hl] using ih
  | cons hl hp hq ih =>
    rw [Piece.stmts_append, addressesSettled_append, and_iff_right hp.settled, ih, and_comm,
      List.pairwise_cons]
    refine and_congr_left fun _ => ?_
    simp only [hp.footprint.loads_iff, hq.footprint.reads_iff]
    simp only [hl, Option.mem_def, Option.some.injEq, SomeLane]
    constructor
    · rintro h l hl' _ rfl i' hi' c hload hread
      exact h c hload ⟨l, hl', i', hi', hread⟩
    · rintro h c hload ⟨l, hl', i', hi', hread⟩
      exact h l hl' _ rfl i' hi' c hload hread

/-! ## Reductions -/

theorem exists_mem_toList {α : Type} {q : Quad α} {P : α → Prop} :
    (∃ a ∈ q.toList, P a) ↔ ∃ c, P (q.get c) := by
  constructor
  · intro h
    simp only [Quad.toList, List.mem_cons, List.not_mem_nil, or_false] at h
    obtain ⟨a, rfl | rfl | rfl | rfl, ha⟩ := h
    · exact ⟨.x, ha⟩
    · exact ⟨.y, ha⟩
    · exact ⟨.z, ha⟩
    · exact ⟨.w, ha⟩
  · rintro ⟨c, hc⟩
    refine ⟨q.get c, ?_, hc⟩
    cases c <;> simp [Quad.get, Quad.toList]

theorem someLane_vector {g : AluGroup} {is : Quad AluInstr} {P : AluInstr → Prop}
    (h : g.vector = is.map some) : SomeLane g [.x, .y, .z, .w] P ↔ ∃ c, P (is.get c) := by
  rw [← exists_mem_toList]
  simp [SomeLane, AluGroup.lane, h, Quad.map, Quad.toList]

theorem exists_mem_flatten_toList {is : Quad AluInstr} {hs : Quad (List RegWrite)} {c : Chan}
    (h : ∀ d, HeldWrite (is.get d) (.vector d) (hs.get d)) :
    (∃ w ∈ hs.toList.flatten, IndexReg.ar c ∈ w.index.offsets) ↔
      ∃ d, (is.get d).writes = true ∧ (is.get d).dstRel = true ∧
        (IndexMode.ofNat? (is.get d).indexMode).bind IndexMode.arChan? = some c := by
  have hflat : (∃ w ∈ hs.toList.flatten, IndexReg.ar c ∈ w.index.offsets) ↔
      ∃ ws ∈ hs.toList, ∃ w ∈ ws, IndexReg.ar c ∈ w.index.offsets := by
    simp only [List.mem_flatten]
    constructor
    · rintro ⟨w, ⟨ws, hws, hw⟩, hc⟩
      exact ⟨ws, hws, w, hw, hc⟩
    · rintro ⟨ws, hws, w, hw, hc⟩
      exact ⟨w, ⟨ws, hws, hw⟩, hc⟩
  rw [hflat, exists_mem_toList]
  exact exists_congr fun d => heldWrite_uses_iff (h d)

/-- A reduction does what its four lanes do, and loads nothing. -/
theorem ReductionPiece.footprint {cf : CfInstr} {g : AluGroup} {p : Piece}
    (h : ReductionPiece cf g p) : LanesFootprint g [.x, .y, .z, .w] p := by
  cases h with
  | @dot op is as bs hs hdot hlanes hop has hbs hheld =>
    have hstores : op ≠ .nop ∧ op ≠ .movaFloor := by
      rcases hdot with rfl | rfl <;> decide
    have harity : (AluOp.op2 op).arity = 2 := by
      rcases hdot with rfl | rfl <;> rfl
    refine ⟨fun c => ?_, fun c => ?_, fun c => ?_⟩
    · rw [someLane_vector hlanes]
      simp [Piece.stmts, Line.stmt?, Stmt.loads?, AluInstr.LoadsAddress, hop, hstores]
    · rw [someLane_vector hlanes]
      have hreads : ∀ d, (is.get d).ReadsThrough c ↔
          (as.get d).UsesAddress c ∨ (bs.get d).UsesAddress c := by
        intro d
        rw [readsThrough_iff (hop d), harity,
          ← (SourcesOf.snoc (.snoc .nil (has d)) (hbs d)).usesAddress_iff]
        simp
      simp [Piece.stmts, Line.stmt?, usesAddress_reduction, Arith.operands, or_and_right, exists_or,
        exists_mem_toList, hreads]
    · rw [exists_mem_flatten_toList hheld, someLane_vector hlanes]
      simp [AluInstr.WritesThrough, hop, hstores]
  | @max4 is as hs hlanes hop has hheld =>
    refine ⟨fun c => ?_, fun c => ?_, fun c => ?_⟩
    · rw [someLane_vector hlanes]
      simp [Piece.stmts, Line.stmt?, Stmt.loads?, AluInstr.LoadsAddress, hop]
    · rw [someLane_vector hlanes]
      have hreads : ∀ d, (is.get d).ReadsThrough c ↔ (as.get d).UsesAddress c := by
        intro d
        rw [readsThrough_iff (hop d), (has d).usesAddress_iff]
        simp [AluOp.arity, Meaning.laneFn?]
      have hoperands : (Arith.max4 as.x as.y as.z as.w).operands = as.toList := rfl
      simp [Piece.stmts, Line.stmt?, usesAddress_reduction, hoperands, exists_mem_toList, hreads]
    · rw [exists_mem_flatten_toList hheld, someLane_vector hlanes]
      simp [AluInstr.WritesThrough, hop]

/-! ## Groups -/

/-- The writes of a group are settled exactly if none goes through a channel that a lane loads. -/
theorem writes_settled_iff {g : AluGroup} :
    (∀ c, SomeLane g Lane.all (·.LoadsAddress c) → ¬ SomeLane g Lane.all (·.WritesThrough c)) ↔
      ∀ l l', ∀ i ∈ g.lane l, ∀ i' ∈ g.lane l', ∀ c, i.LoadsAddress c → ¬ i'.WritesThrough c := by
  have hall : ∀ l : Lane, l ∈ Lane.all := fun l => by cases l <;> decide
  constructor
  · intro h l l' i hi i' hi' c hload hwrite
    exact h c ⟨l, hall l, i, hi, hload⟩ ⟨l', hall l', i', hi', hwrite⟩
  · rintro h c ⟨l, -, i, hi, hload⟩ ⟨l', -, i', hi', hwrite⟩
    exact h l l' i hi i' hi' c hload hwrite

/-- The lanes of a reduction load nothing. -/
theorem ReductionPiece.not_loads {cf : CfInstr} {g : AluGroup} {p : Piece}
    (h : ReductionPiece cf g p) (c : Chan) : ¬ SomeLane g [.x, .y, .z, .w] (·.LoadsAddress c) := by
  rw [← h.footprint.loads_iff]
  cases h <;> simp [Piece.stmts, Line.stmt?, Stmt.loads?]

/-- No lane comes after the T lane, and the lanes before it load nothing. -/
theorem ReductionPiece.settled {cf : CfInstr} {g : AluGroup} {p q : Piece}
    (hp : ReductionPiece cf g p) (hq : LanesPiece cf g [.t] q) :
    AddressesSettled (p ++ q).stmts := by
  have hloads : ∀ s ∈ p.stmts, s.loads? = none := by
    cases hp <;> simp [Piece.stmts, Line.stmt?, Stmt.loads?]
  have hlast := hq.settled_iff.mpr (List.pairwise_singleton _ _)
  rw [Piece.stmts_append, addressesSettled_append]
  refine ⟨addressesSettled_of_loads?_eq_none hloads, hlast, ?_⟩
  rintro c ⟨s, hs, hc⟩
  rw [hloads s hs] at hc
  cases hc

theorem ReductionPiece.reads_settled {cf : CfInstr} {g : AluGroup} {p : Piece}
    (h : ReductionPiece cf g p) :
    Lane.all.Pairwise fun l l' => ∀ i ∈ g.lane l, ∀ i' ∈ g.lane l', ∀ c,
      i.LoadsAddress c → ¬ i'.ReadsThrough c := by
  have hloads : ∀ l ∈ [Lane.x, .y, .z, .w], ∀ i ∈ g.lane l, ∀ c, ¬ i.LoadsAddress c :=
    fun l hl i hi c hload => h.not_loads c ⟨l, hl, i, hi, hload⟩
  have hsplit : Lane.all = [.x, .y, .z, .w] ++ [.t] := rfl
  rw [hsplit, List.pairwise_append]
  refine ⟨?_, ?_, ?_⟩
  · exact List.pairwise_of_forall_mem_list fun l hl _ _ i hi _ _ c hload =>
      absurd hload (hloads l hl i hi c)
  · exact List.pairwise_singleton _ _
  · exact fun l hl _ _ i hi _ _ c hload => absurd hload (hloads l hl i hi c)

theorem GroupPiece.settled_iff {cf : CfInstr} {g : AluGroup} {p : Piece} (h : GroupPiece cf g p) :
    AddressesSettled p.close.stmts ↔ g.AddressesSettled := by
  have hparts : g.AddressesSettled ↔ _ ∧ _ := ⟨fun h => ⟨h.reads, h.writes⟩, fun h => ⟨h.1, h.2⟩⟩
  rw [hparts, ← writes_settled_iff]
  cases h with
  | lanes hp => rw [hp.footprint.settled_close_iff, hp.settled_iff]
  | reduction hp hq =>
    -- only the T lane can load and no lane follows it, so the reads are settled on both sides
    have hfoot : LanesFootprint g Lane.all _ := hp.footprint.append_lanes hq.footprint
    rw [hfoot.settled_close_iff]
    exact and_congr_left fun _ => iff_of_true (hp.settled hq) hp.reads_settled

/-- The statements that a group adds are settled exactly if its instructions are, and so is the
text of the lines that it adds. -/
theorem walkGroup_addressesSettled_iff {c : Context} {cf : CfInstr} {g : AluGroup}
    {m m' : Machine Output} (h : walkGroup (handlers c) cf g m = .ok () m') :
    ∃ ls : List Line, m'.out.body.toList = m.out.body.toList ++ ls ∧
      m'.out.stmts = m.out.stmts ++ ls.filterMap Line.stmt? ∧
      (AddressesSettled (ls.filterMap Line.stmt?) ↔ g.AddressesSettled) ∧
      (CodeSettled (Output.linesText ls) ↔ g.AddressesSettled) := by
  obtain ⟨n, ls, p, hls, hp, rfl⟩ := walkGroup_eq_ok h
  have hstmts : ({ lines := ls } ++ p : Piece).close.stmts = p.close.stmts := by
    have hnote : Piece.stmts { lines := ls } = [] := hls
    simp [Piece.stmts_close, hnote]
  have hsettled : AddressesSettled ({ lines := ls } ++ p : Piece).close.stmts ↔
      g.AddressesSettled := by
    rw [hstmts]
    exact hp.settled_iff
  refine ⟨(({ lines := ls } : Piece) ++ p).close.lines, ?_, Output.stmts_add .., hsettled, ?_⟩
  · simp [Output.add, Output.released]
  · exact (codeSettled_linesText (groupShape_of_group hls hp).stmts).trans hsettled

/-- A machine that has done nothing yet. -/
def unstarted : Machine Output := ⟨{ program := ⟨#[]⟩, stage := .pixel }, {}⟩

/-- Lane X copies `R[AR.y]` and lane Y loads `AR.y`. -/
def useThenLoad : AluGroup :=
  { vector := ⟨some ⟨0x04000200, 0xC90⟩, some ⟨0x80000000, 0x20000B00⟩, none, none⟩ }

/-- A lane may read through a channel that a later one loads. -/
theorem walkGroup_addressesSettled_useThenLoad :
    ∃ m', walkGroup (handlers {}) ⟨0, 0⟩ useThenLoad unstarted = .ok () m' ∧
      ∃ ls : List Line, m'.out.body.toList = ls ∧ AddressesSettled (ls.filterMap Line.stmt?) ∧
        useThenLoad.AddressesSettled ∧ CodeSettled (Output.linesText ls) := by
  have hrun : walkGroup (handlers {}) ⟨0, 0⟩ useThenLoad unstarted = .ok () _ := rfl
  obtain ⟨ls, hls, -, hiff, hcode⟩ := walkGroup_addressesSettled_iff hrun
  have hsettled : AddressesSettled (ls.filterMap Line.stmt?) := by
    obtain rfl : _ = ls := hls
    decide
  exact ⟨_, hrun, ls, hls, hsettled, hiff.mp hsettled, hcode.mpr (hiff.mp hsettled)⟩

/-- Lane X loads `AR.x` and lane Y copies `R[AR.x]`. -/
def loadThenUse : AluGroup :=
  { vector := ⟨some ⟨0, 0xB00⟩, some ⟨0x80000200, 0x20000C90⟩, none, none⟩ }

/-- A lane that reads through a channel which an earlier lane loads meets the new value. -/
theorem walkGroup_loadThenUse :
    ∃ m', walkGroup (handlers {}) ⟨0, 0⟩ loadThenUse unstarted = .ok () m' ∧
      ¬ AddressesSettled m'.out.stmts :=
  ⟨_, rfl, by decide⟩

end Compile

end LatteHlsl
