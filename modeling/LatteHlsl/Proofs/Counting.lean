import LatteHlsl.Proofs.Run
import LatteHlsl.Proofs.WalkClosure

/-!
# Walks count what they walk

What a walk over one control flow instruction does to the state of the walk, in every outcome and
whatever the handlers do with theirs. An ALU clause has 128 slots at most, and each of its groups
takes at least one, so an instruction counts 128 groups at most.

* `Handlers.OnlyFault`: handlers that halt by faults only where they are called.
* `walkClosed_counts`: what clauses count.
* `walkCf_ok`, `walkCf_error`: both outcomes of one control flow instruction.
-/

namespace LatteHlsl

open Isa Effect

/-! ## Clauses -/

/-- Handlers that halt by faults only, the ALU handlers at least where a group admits the call. -/
def Handlers.OnlyFault {σ : Type} (h : Handlers σ) : Prop :=
  h.Each fun v f => (∀ u ∈ v, u.Admitted) → ∀ w, OnlyFaults (f w)

section

variable {σ : Type} {h : Handlers σ} (hh : h.OnlyFault)
include hh

theorem counts_invoke {v : Invocation} (hv : v.Admitted) : Counts 0 (invoke h v) := by
  refine .bind_zero (.handler _ _) fun _ action _ hfind => ?_
  have hcall := hh.call v action (handler_eq_ok.mp hfind).1
  refine .bind_zero (.act (hcall fun u hu => ?_)) fun _ _ _ _ => .pure _
  obtain rfl := Option.mem_some_iff.mp hu
  exact hv

theorem walkClosed_counts : WalkClosed h h fun _ b x _ => Counts b x where
  mono hx hb := Counts.mono hx hb
  pure v := Counts.pure v
  fail _ := Counts.fail _
  bind hx hf := Counts.bind hx fun _ v _ _ => hf v
  read_bind _ hf := Counts.bind_zero .read fun _ v _ hread =>
    hf _ v (Machine.read_eq_ok.mp hread).1
  alu hop hadmits := counts_invoke hh ⟨hop, hadmits⟩
  invoke _ hv := counts_invoke hh hv
  beginGroup cf g := Counts.act (hh.beginGroup cf g fun _ hu => absurd hu (Option.not_mem_none _))
  endGroup cf g := Counts.act (hh.endGroup cf g fun _ hu => absurd hu (Option.not_mem_none _))
  countGroup := Counts.count

/-! ## Control flow -/

theorem counts_runHandler {v : Invocation} (hv : v.Admitted) :
    Counts clauseCapacity (runHandler h v) :=
  (walkClosed_counts hh).runHandler (counts_invoke hh hv)

/-- A control flow instruction that was walked: its groups are counted, and the walk knows whether
the program has ended. -/
theorem walkCf_ok {cf : CfInstr} {m m' : Machine σ} {u : Unit} (hrun : walkCf h cf m = .ok u m') :
    m'.walk.groupPc.toNat ≤ m.walk.groupPc.toNat + clauseCapacity ∧
      m'.walk =
        { m.walk with
          groupPc := m'.walk.groupPc
          callsFetch := m'.walk.callsFetch
          reachedEnd := m.walk.reachedEnd || cf.isTerminal } := by
  unfold walkCf at hrun
  cases htype : cf.type with
  | normal =>
    simp only [htype, walkCfNormal, bind_eq_ok, decode_eq_ok, Machine.examine_eq_ok,
      Machine.modifyWalk_eq_ok] at hrun
    obtain ⟨op, _, ⟨hop, rfl⟩, _, _, ⟨-, rfl⟩, _, m₁, hrun, rfl⟩ := hrun
    have hcounts := (counts_runHandler hh (v := .cf op cf) trivial).ok hrun
    have hend : cf.isTerminal = (decide (op = .ret) || cf.endOfProgram) := by
      simp [CfInstr.isTerminal, htype, hop, Except.toOption]
    refine ⟨hcounts.groups, ?_⟩
    rw [Walk.afterCf, hcounts.walk, hend, Bool.or_assoc]
  | exp =>
    simp only [htype, walkCfExport, bind_eq_ok, decode_eq_ok, Machine.modifyWalk_eq_ok] at hrun
    obtain ⟨op, _, ⟨-, rfl⟩, _, m₁, hrun, rfl⟩ := hrun
    have hcounts := (counts_runHandler hh (v := .exp op cf) trivial).ok hrun
    have hend : cf.isTerminal = cf.endOfProgram := by simp [CfInstr.isTerminal, htype]
    refine ⟨hcounts.groups, ?_⟩
    rw [Walk.afterExport, hcounts.walk, hend]
  | alu | aluExtended =>
    simp only [htype, walkCfAlu, bind_eq_ok, decode_eq_ok] at hrun
    obtain ⟨op, _, ⟨-, rfl⟩, hrun⟩ := hrun
    have hcounts := (counts_runHandler hh (v := .cfAlu op cf) trivial).ok hrun
    have hend : cf.isTerminal = false := by simp [CfInstr.isTerminal, htype]
    refine ⟨hcounts.groups, ?_⟩
    rw [hcounts.walk, hend, Bool.or_false]

/-- A control flow instruction that halted the walk: the end was not recorded. -/
theorem walkCf_error {cf : CfInstr} {m m' : Machine σ} {halt : Halt}
    (hrun : walkCf h cf m = .error halt m') :
    Machine.CountsTo clauseCapacity m m' ∧ Machine.CountHalt clauseCapacity m halt := by
  unfold walkCf at hrun
  cases htype : cf.type with
  | normal =>
    simp only [htype, walkCfNormal, bind_eq_error, decode_eq_ok, Machine.examine_eq_ok] at hrun
    rcases hrun with hrun | ⟨op, _, ⟨-, rfl⟩, hrun | ⟨_, _, ⟨-, rfl⟩, hrun | ⟨_, _, _, hrun⟩⟩⟩
    · exact ((Counts.decode _).mono (Nat.zero_le _)).error hrun
    · exact (Counts.examine.mono (Nat.zero_le _)).error hrun
    · exact (counts_runHandler hh (v := .cf op cf) trivial).error hrun
    · exact absurd hrun modify_ne_error
  | exp =>
    simp only [htype, walkCfExport, bind_eq_error, decode_eq_ok] at hrun
    rcases hrun with hrun | ⟨op, _, ⟨-, rfl⟩, hrun | ⟨_, _, _, hrun⟩⟩
    · exact ((Counts.decode _).mono (Nat.zero_le _)).error hrun
    · exact (counts_runHandler hh (v := .exp op cf) trivial).error hrun
    · exact absurd hrun modify_ne_error
  | alu | aluExtended =>
    simp only [htype, walkCfAlu, bind_eq_error, decode_eq_ok] at hrun
    rcases hrun with hrun | ⟨op, _, ⟨-, rfl⟩, hrun⟩
    · exact ((Counts.decode _).mono (Nat.zero_le _)).error hrun
    · exact (counts_runHandler hh (v := .cfAlu op cf) trivial).error hrun

end

end LatteHlsl
