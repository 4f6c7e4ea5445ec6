import LatteHlsl.Proofs.Effect

/-!
# How groups are taken apart

What a walk hands over of an ALU clause: its slots are read as groups, and the lanes of a group are
handed over one by one or, if they pass the checks of a reduction, X to W together.

* `AluGroup.Reads`: reading groups until the slots are used up, as a loop without a bound.
* `length_groups_le`: an ALU clause has 128 slots at most, and each group takes at least one.
* `checkReduction_eq_ok`: the lanes of a reduction.
* `AluGroup.Admits`, `Invocation.Admitted`: how a walk hands over instructions of a group.
-/

namespace LatteHlsl

open Isa Effect

/-! ## Reading groups -/

namespace AluGroup

theorem le_consumed_finish (start : Nat) (g : AluGroup) (consumed needed : Nat)
    (rest : List AluInstr) : consumed ≤ (finish start g consumed needed rest).consumed := by
  unfold finish
  split
  · exact Nat.le_refl _
  · split
    · exact Nat.le_add_right _ _
    · exact Nat.le_refl _

/-- A group that could be read uses up a slot. -/
theorem lt_consumed_readFrom {start consumed needed : Nat} {g g' : AluGroup} {slots : List AluInstr}
    (h : (readFrom start g consumed needed slots).outcome = .ok g') :
    consumed < (readFrom start g consumed needed slots).consumed := by
  induction slots generalizing g consumed needed with
  | nil => cases h
  | cons i rest ih =>
    unfold readFrom at h ⊢
    cases hop : i.op with
    | error fault =>
      simp only [hop] at h
      cases h
    | ok op =>
      simp only [hop] at h ⊢
      split
      · exact Nat.lt_succ_self consumed
      · rename_i hfree
        rw [if_neg hfree] at h
        split
        · exact le_consumed_finish start _ (consumed + 1) _ rest
        · rename_i hlast
          rw [if_neg hlast] at h
          exact Nat.lt_of_succ_lt (ih h)

/-- Reading groups one after the other until the slots are used up or one cannot be read. `start` is
the position of the slots in their clause. -/
inductive Reads : Nat → List AluInstr → Clause → Prop where
  | done {start : Nat} : Reads start [] {}
  | fault {start : Nat} {slots : List AluInstr} {fault : DecodeFault} (hne : slots ≠ [])
      (hread : (read start slots).outcome = .error fault) :
      Reads start slots { fault := some fault }
  | group {start : Nat} {slots : List AluInstr} {g : AluGroup} {rest : Clause} (hne : slots ≠ [])
      (hread : (read start slots).outcome = .ok g)
      (hrest : Reads (start + (read start slots).consumed)
        (slots.drop (read start slots).consumed) rest) :
      Reads start slots { rest with groups := g :: rest.groups }

/-- A bound of as many groups as there are slots is none. -/
theorem reads_readUpTo {fuel start : Nat} {slots : List AluInstr} (hfuel : slots.length ≤ fuel) :
    Reads start slots (readUpTo fuel start slots) := by
  induction fuel generalizing start slots with
  | zero =>
    obtain rfl := List.length_eq_zero_iff.mp (Nat.le_zero.mp hfuel)
    exact .done
  | succ fuel ih =>
    cases slots with
    | nil => exact .done
    | cons i rest =>
      unfold readUpTo
      dsimp only
      cases hread : (read start (i :: rest)).outcome with
      | error fault => exact .fault (List.cons_ne_nil _ _) hread
      | ok g =>
        have hconsumed : 0 < (read start (i :: rest)).consumed := lt_consumed_readFrom hread
        refine .group (List.cons_ne_nil _ _) hread (ih ?_)
        rw [List.length_drop]
        omega

theorem reads_readAll (slots : List AluInstr) : Reads 0 slots (readAll slots) :=
  reads_readUpTo (Nat.le_refl _)

theorem Reads.length_groups_le {start : Nat} {slots : List AluInstr} {clause : Clause}
    (h : Reads start slots clause) : clause.groups.length ≤ slots.length := by
  induction h with
  | done => exact Nat.le_refl _
  | fault => exact Nat.zero_le _
  | @group start slots g rest hne hread _ ih =>
    have hconsumed : 0 < (read start slots).consumed := lt_consumed_readFrom hread
    have hpos := List.length_pos_iff.mpr hne
    rw [List.length_drop] at ih
    simp only [List.length_cons]
    omega

end AluGroup

/-- The most slots that an ALU clause has. -/
def clauseCapacity : Nat := 128

theorem aluCount_le (cf : CfInstr) : cf.aluCount ≤ clauseCapacity := by
  have := BitField.value_lt Layout.CfAluWord1.count cf.word1 (by decide)
  exact this

theorem length_groups_le {p : Program} {cf : CfInstr} {slots : List AluInstr}
    (h : p.aluClause cf.aluAddr cf.aluCount = .ok slots) :
    (AluGroup.readAll slots).groups.length ≤ clauseCapacity := by
  simp only [Program.aluClause, Checked.bind_eq_ok, Checked.pure_eq_ok] at h
  obtain ⟨bytes, -, rfl⟩ := h
  refine Nat.le_trans (AluGroup.reads_readAll _).length_groups_le ?_
  rw [List.length_map, List.length_range]
  exact aluCount_le cf

/-! ## Reductions -/

theorem checkReductionLane_eq_ok {g : AluGroup} {first : AluInstr} {op : AluOp} {l : Lane}
    {u : Unit} (h : checkReductionLane g first op l = .ok u) :
    ∃ i, g.lane l = some i ∧ i.op = .ok op ∧ i.omod = first.omod ∧ i.clamp = first.clamp := by
  unfold checkReductionLane at h
  cases hl : g.lane l with
  | none =>
    rw [hl] at h
    cases h
  | some i =>
    rw [hl] at h
    cases hop : i.op with
    | error fault =>
      simp only [hop] at h
      cases h
    | ok laneOp =>
      simp only [hop, ne_eq, ite_not] at h
      split at h
      · rename_i heq
        split at h
        · rename_i homod
          split at h
          · rename_i hclamp
            exact ⟨i, rfl, by rw [hop, heq], homod, hclamp⟩
          · cases h
        · cases h
      · cases h

/-- A checked reduction has the lanes X to W, and they run the same operation. -/
theorem checkReduction_eq_ok {g : AluGroup} {first : AluInstr} {op : AluOp} {u : Unit}
    (hx : g.lane .x = some first) (hop : first.op = .ok op)
    (h : checkReduction g first op = .ok u) :
    ∃ is : Quad AluInstr, is.x = first ∧ g.vector = is.map some ∧
      ∀ c, (is.get c).op = .ok op := by
  simp only [checkReduction, Checked.bind_eq_ok] at h
  obtain ⟨_, hy, _, hz, hw⟩ := h
  obtain ⟨iy, hly, hopy, -, -⟩ := checkReductionLane_eq_ok hy
  obtain ⟨iz, hlz, hopz, -, -⟩ := checkReductionLane_eq_ok hz
  obtain ⟨iw, hlw, hopw, -, -⟩ := checkReductionLane_eq_ok hw
  refine ⟨⟨first, iy, iz, iw⟩, rfl, ?_, ?_⟩
  · simp only [AluGroup.lane] at hx hly hlz hlw
    simp only [Quad.map, ← hx, ← hly, ← hlz, ← hlw]
  · intro c
    cases c <;> assumption

theorem checkReductionLane_ne_unimplemented (g : AluGroup) (first : AluInstr) (op : AluOp)
    (l : Lane) (op' : Opcode) : checkReductionLane g first op l ≠ .error (.unimplemented op') := by
  unfold checkReductionLane
  split
  · exact nofun
  · split
    · exact nofun
    · split
      · exact nofun
      · split
        · exact nofun
        · split <;> exact nofun

theorem checkReduction_ne_unimplemented (g : AluGroup) (first : AluInstr) (op : AluOp)
    (op' : Opcode) : checkReduction g first op ≠ .error (.unimplemented op') := by
  have hlane := fun l => checkReductionLane_ne_unimplemented g first op l op'
  unfold checkReduction
  cases hy : checkReductionLane g first op .y with
  | error fault =>
    have hne := hlane .y
    rw [hy] at hne
    exact hne
  | ok _ =>
    cases hz : checkReductionLane g first op .z with
    | error fault =>
      have hne := hlane .z
      rw [hz] at hne
      exact hne
    | ok _ => exact hlane .w

/-! ## What is handed over -/

/-- The calls that a group admits for an instruction with the given operation: a reduction for the
lanes X to W together, which all run it, and any other operation for a single lane. -/
def AluGroup.Admits (g : AluGroup) (op : AluOp) : Target → Prop
  | .reduction =>
    op.traits.reduction = true ∧
      ∃ is : Quad AluInstr, g.vector = is.map some ∧ ∀ c, (is.get c).op = .ok op
  | .lane _ => op.traits.reduction = false

/-- The invocations of a walk: those for ALU instructions are admitted by their groups. -/
def Invocation.Admitted : Invocation → Prop
  | .alu op _ g target i => i.op = .ok op ∧ g.Admits op target
  | .cf _ _ | .exp _ _ | .cfAlu _ _ | .tex _ _ _ | .vtx _ _ _ => True

end LatteHlsl
