import LatteHlsl.Proofs.Lockstep
import LatteHlsl.Proofs.Safety
import LatteHlsl.Proofs.Steady

/-!
# Compiling again

A compilation that is called again goes on where it stands. One that succeeded has nothing left to
do. One that failed stands at the instruction that failed, which is walked again, from a state that
is no longer the one it first failed in: lines, accesses and export slots were added, and groups
were counted. It fails again for the same reason, until the counter of groups comes to its end.

* `Visits.again`, `walkToEnd_again`: walks that failed.
* `walkToEnd_completed`: walks that succeeded.
* `steady_handlers`: what the handlers of the compiler come to does not depend on their output.
* `Job.nthCall`, `calls_settle`: consecutive calls of the compiler.
-/

namespace LatteHlsl

open Isa Hlsl Effect

/-! ## What a walk keeps -/

/-- The walk has gone on, and what it was started with is as it was. -/
structure Walk.Onward (w w' : Walk) : Prop where
  program : w'.program = w.program
  stage : w'.stage = w.stage
  isFunction : w'.isFunction = w.isFunction
  status : w'.status = w.status

theorem Walk.Onward.trans {w w' w'' : Walk} (h : w.Onward w') (h' : w'.Onward w'') :
    w.Onward w'' :=
  ⟨h'.program.trans h.program, h'.stage.trans h.stage, h'.isFunction.trans h.isFunction,
    h'.status.trans h.status⟩

/-- Whether a walk may start is settled by what it was started with. -/
theorem checkStart_congr {w w' : Walk} (hprogram : w'.program = w.program)
    (hstage : w'.stage = w.stage) (hfunction : w'.isFunction = w.isFunction) :
    checkStart w' = checkStart w := by
  unfold checkStart
  rw [hprogram, hstage, hfunction]

theorem Machine.At.withStatus {σ : Type} {w : Walk} {n : Nat} {m : Machine σ} (hm : m.At w n)
    (status : Status) : (m.withStatus status).At { w with status := status } n := by
  refine ⟨?_, hm.groups⟩
  dsimp only [Machine.withStatus]
  rw [hm.walk]

section

variable {σ : Type} {h : Handlers σ}

/-! ## The loop of a walk -/

theorem walkToEnd_of_ok {m m' : Machine σ} {u : Unit} (hrun : walkProgram h m = .ok u m') :
    walkToEnd h m = .ok () (m'.withStatus .completed) := by
  unfold walkToEnd
  rw [hrun]
  rfl

theorem walkToEnd_of_error {m m' : Machine σ} {halt : Halt}
    (hrun : walkProgram h m = .error halt m') :
    walkToEnd h m = .error halt (m'.withStatus .failed) := by
  unfold walkToEnd
  rw [hrun]
  rfl

/-- What the loop comes to, the walk comes to, with the failure recorded. -/
theorem tallies_walkToEnd {w : Walk} {g : Nat} {halt : Halt}
    (hg : Tallies w g (.error halt) (walkLoop h)) (hstatus : w.status = .walking)
    (hstart : checkStart w = .ok ()) :
    Tallies { w with status := .failed } g (.error halt) (walkToEnd h) := by
  have hat : ∀ {n} {m : Machine σ}, m.At { w with status := .failed } n →
      (m.withStatus .walking).At w n := by
    intro n m hm
    have hm₁ := hm.withStatus .walking
    rw [← hstatus] at hm₁
    rw [← hstatus]
    exact hm₁
  have hwalk : ∀ {n} {m m' : Machine σ} {halt' : Halt}, m.At { w with status := .failed } n →
      walkLoop h (m.withStatus .walking) = .error halt' m' →
      walkToEnd h m = .error halt' (m'.withStatus .failed) := by
    intro n m m' halt' hm hloop
    have hstart' : checkStart m.walk = .ok () := by
      rw [hm.walk]
      exact hstart
    exact walkToEnd_of_error ((walkProgram_of_start hstart').trans hloop)
  refine ⟨fun hm hlt => ?_, fun hm hpast => ?_⟩
  · obtain ⟨m', hm', hloop⟩ := hg.within (hat hm) hlt
    exact ⟨_, hm'.withStatus .failed, hwalk hm hloop⟩
  · obtain ⟨m', hm', hloop⟩ := hg.past (hat hm) hpast
    exact ⟨_, hm'.withStatus .failed, hwalk hm hloop⟩

/-- Where a loop ends well, there is nothing left to do. -/
theorem Visits.ended_of_ok {xs : List (Nat × CfInstr)} {m m' : Machine σ}
    (hv : Visits h xs m (.ok () m')) :
    m'.walk.reachedEnd = true ∨ m'.walk.program.hasCf m'.walk.cfPc.toNat = false := by
  generalize hr : EStateM.Result.ok () m' = r at hv
  induction hv with
  | ended hend =>
    obtain ⟨-, rfl⟩ := EStateM.Result.ok.inj hr
    exact hend
  | unreadable | halted => cases hr
  | step _ _ _ _ _ ih => exact ih hr

/-! ## Walking again -/

variable (hh : h.OnlyFault)
include hh

theorem visit_onward (cf : CfInstr) (m : Machine σ) :
    m.walk.Onward (stateOf (visit h cf m)).walk := by
  cases hvisit : visit h cf m with
  | ok u m' =>
    have hwalk := (visit_ok hh hvisit).2.2
    constructor <;> rw [stateOf, hwalk]
  | error halt m' =>
    rcases bind_eq_error.mp hvisit with hrun | ⟨_, m₁, hrun, hcount⟩
    · have hwalk := (walkCf_error hh hrun).1.walk
      constructor <;> rw [stateOf, hwalk]
    · obtain ⟨-, -, rfl⟩ := Machine.count_eq_error hcount
      have hwalk := (walkCf_ok hh hrun).2
      constructor <;> rw [stateOf, hwalk]

theorem Visits.onward {xs : List (Nat × CfInstr)} {m : Machine σ}
    {r : EStateM.Result Halt (Machine σ) Unit} (hv : Visits h xs m r) :
    m.walk.Onward (stateOf r).walk := by
  induction hv with
  | ended | unreadable => exact ⟨rfl, rfl, rfl, rfl⟩
  | @halted m m' cf halt _ _ _ hvisit =>
    have honward := visit_onward hh cf m
    rw [hvisit] at honward
    exact honward
  | @step m m' cf xs r _ _ _ hvisit _ ih =>
    have honward := visit_onward hh cf m
    rw [hvisit] at honward
    exact honward.trans ih

theorem Visits.walkLoop_eq {xs : List (Nat × CfInstr)} {m : Machine σ}
    {r : EStateM.Result Halt (Machine σ) Unit} (hv : Visits h xs m r) : walkLoop h m = r :=
  hv.walkSteps_eq hh (Nat.le_refl _)

/-- A loop that failed stands at the instruction that failed. It fails there again, whatever was put
out and counted in between. -/
theorem Visits.again (hs : h.Steady) {xs : List (Nat × CfInstr)} {m m' : Machine σ} {halt : Halt}
    (hv : Visits h xs m (.error halt m')) (hhalt : halt.IsFault) :
    ∃ g ≤ clauseCapacity, Tallies m'.walk g (.error halt) (walkLoop h) := by
  generalize hr : EStateM.Result.error halt m' = r at hv
  induction hv with
  | ended => cases hr
  | step _ _ _ _ _ ih => exact ih hr
  | @unreadable m fault hgoes hcf hat =>
    obtain ⟨rfl, rfl⟩ := EStateM.Result.error.inj hr
    refine ⟨0, Nat.zero_le _, .of_zero fun {n m₂} hm => ⟨m₂, hm, ?_⟩⟩
    have hwalk := hm.walk
    refine Visits.walkLoop_eq hh (.unreadable ?_ ?_ ?_)
    · rw [hwalk]
      exact hgoes
    · rw [hwalk]
      exact hcf
    · rw [hwalk]
      exact hat
  | @halted m m₁ cf halt₁ hgoes hcf hat hvisit =>
    obtain ⟨rfl, rfl⟩ := EStateM.Result.error.inj hr
    have hself := Machine.At.self m
    obtain ⟨g, hg⟩ := failsAlike_visit hs cf _ m halt m' hself hvisit hhalt
    obtain ⟨-, -, hm'⟩ := hg.room hself hvisit hhalt
    have hbound := (visit_error hh hvisit).2.1
    rw [hm'.groups] at hbound
    refine ⟨g, by omega, (Tallies.congr hg fun {n m₂} hm => ?_).of_at hm'⟩
    -- the loop visits the instruction first and does not come past it
    obtain ⟨halt₂, m₃, hvisit₂⟩ := hg.exists_error hm
    have hwalk := hm.walk
    rw [hvisit₂]
    refine Visits.walkLoop_eq hh (.halted ?_ ?_ ?_ hvisit₂)
    · rw [hwalk]
      exact hgoes
    · rw [hwalk]
      exact hcf
    · rw [hwalk]
      exact hat

/-- A walk that failed fails again. -/
theorem walkToEnd_again (hs : h.Steady) {m m' : Machine σ} {halt : Halt}
    (hrun : walkToEnd h m = .error halt m') (hhalt : halt.IsFault) :
    m'.walk.status = .failed ∧
      ∃ g ≤ clauseCapacity, Tallies m'.walk g (.error halt) (walkToEnd h) := by
  obtain ⟨xs, hw⟩ := exists_walksThrough hh m
  cases hwalk : walkProgram h m with
  | ok u m₀ => cases hrun.symm.trans (walkToEnd_of_ok hwalk)
  | error halt₀ m₀ =>
    obtain ⟨rfl, rfl⟩ := EStateM.Result.error.inj (hrun.symm.trans (walkToEnd_of_error hwalk))
    refine ⟨rfl, ?_⟩
    rw [hwalk] at hw
    cases hw with
    | @refused _ fault hstart =>
      refine ⟨0, Nat.zero_le _, .of_zero fun {n m₂} hm => ?_⟩
      have hstart₂ : checkStart m₂.walk = .error fault := by
        rw [hm.walk, ← hstart]
        rfl
      exact ⟨_, hm.withStatus .failed, walkToEnd_of_error (walkProgram_of_refused hstart₂)⟩
    | walked hstart hv =>
      obtain ⟨g, hbound, hg⟩ := hv.again hh hs hhalt
      have honward := hv.onward hh
      refine ⟨g, hbound, tallies_walkToEnd hg honward.status ?_⟩
      rw [← hstart]
      exact checkStart_congr honward.program honward.stage honward.isFunction

/-- A walk that succeeded has nothing left to do. -/
theorem walkToEnd_completed {m m' : Machine σ} (hrun : walkToEnd h m = .ok () m') :
    m'.walk.status = .completed ∧ walkToEnd h m' = .ok () m' := by
  obtain ⟨xs, hw⟩ := exists_walksThrough hh m
  cases hwalk : walkProgram h m with
  | error halt m₀ => cases hrun.symm.trans (walkToEnd_of_error hwalk)
  | ok u m₀ =>
    obtain ⟨-, rfl⟩ := EStateM.Result.ok.inj (hrun.symm.trans (walkToEnd_of_ok hwalk))
    refine ⟨rfl, ?_⟩
    rw [hwalk] at hw
    cases hw with
    | walked hstart hv =>
      have honward := hv.onward hh
      have hstart₀ : checkStart (m₀.withStatus .completed).walk = .ok () := by
        rw [← hstart]
        exact checkStart_congr honward.program honward.stage honward.isFunction
      have hloop : walkLoop h (m₀.withStatus .walking) = .ok () (m₀.withStatus .walking) :=
        Visits.walkLoop_eq hh (.ended hv.ended_of_ok)
      have hend := walkToEnd_of_ok ((walkProgram_of_start hstart₀).trans hloop)
      exact hend

end

/-! ## The handlers of the compiler -/

namespace Compile

/-- Actions that always succeed. -/
theorem lockstep_of_ok {x y : Emit Unit} (hx : ∀ o, ∃ o', x o = .ok () o')
    (hy : ∀ o, ∃ o', y o = .ok () o') : Lockstep (fun _ => False) (fun _ _ => True) x y := by
  intro o t _
  obtain ⟨o', ho'⟩ := hx o
  obtain ⟨t', ht'⟩ := hy t
  rw [ho', ht']
  exact .ok trivial

/-- All outputs are related: what a handler is put together from comes to the same from any two.
-/
theorem emitClosed_any (c : Context) :
    EmitClosed c c fun _ => Lockstep (fun _ => False) fun _ _ => True where
  context := rfl
  pure := .pure
  fail := .fail
  bind := .bind
  emit _ := .modify fun _ _ h => h
  note _ _ := lockstep_of_ok (exists_note c _) (exists_note c _)
  record _ := .modify fun _ _ h => h
  defer _ := .modify fun _ _ h => h
  addInput _ := .modify fun _ _ h => h
  store kind target move := by
    -- the slot is not the same on the two sides, but there is one on each
    intro o o' _
    rw [bind_of_eq_ok (exportSlot_eq_ok.mpr ⟨rfl, rfl⟩), emitMove_eq_ok (u := ()).mpr rfl,
      bind_of_eq_ok (exportSlot_eq_ok.mpr ⟨rfl, rfl⟩), emitMove_eq_ok (u := ()).mpr rfl]
    exact .ok trivial

/-- A handler that comes to the same whatever its output and the number of groups. -/
theorem actSteady_of_lockstep {f : Walk → Emit Unit}
    (hf : ∀ (w : Walk) n, Lockstep (fun _ => False) (fun _ _ => True) (f w)
      (f { w with groupPc := n })) : ActSteady f := by
  intro w
  cases hrun : f w {} with
  | ok u o =>
    refine ⟨.ok (), fun n s => ?_⟩
    have hmatch := hf w n (s := {}) (t := s) trivial
    rw [hrun] at hmatch
    generalize f _ s = r at hmatch ⊢
    cases hmatch with
    | ok => exact ⟨_, rfl⟩
  | error halt o =>
    refine ⟨.error halt, fun n s => ?_⟩
    have hmatch := hf w n (s := {}) (t := s) trivial
    rw [hrun] at hmatch
    generalize f _ s = r at hmatch ⊢
    cases hmatch with
    | error => exact ⟨_, rfl⟩
    | exempt hfalse => exact hfalse.elim

theorem actSteady_of_ok {f : Walk → Emit Unit} (hf : ∀ w o, ∃ o', f w o = .ok () o') :
    ActSteady f :=
  actSteady_of_lockstep fun w _ => lockstep_of_ok (hf w) (hf _)

/-- What a handler of the compiler comes to is settled by its instruction. -/
theorem steady_handlers (c : Context) : (handlers c).Steady where
  call _ _ hfind := actSteady_of_lockstep fun _ _ =>
    (emitClosed_any c).call (.inr Lockstep.throw) hfind rfl rfl
  beginGroup cf g := actSteady_of_ok (exists_beginGroup c cf g)
  endGroup cf g := actSteady_of_ok (exists_endGroup c cf g)

/-! ## Jobs that are called again -/

/-- Of consecutive calls of the compiler, the one that `n` calls come before. -/
def Job.nthCall (j : Job) : Nat → Option Halt × Job
  | 0 => j.call .compile
  | n + 1 => (j.nthCall n).2.call .compile

/-- A call that has failed by a fault: it stands where `w` does, with `k` groups counted, and there
is no shader, neither of it nor with it. -/
structure Fails (w : Walk) (k : Nat) (fault : CompileFault) (r : Option Halt × Job) : Prop where
  halt : r.1 = some (.fault fault)
  stands : r.2.machine.At w k
  status : r.2.walk.status = .failed
  finish : r.2.finish = .error .incomplete
  finishWith : ∀ fetch?, r.2.finishWith fetch? = .error .incomplete
  finishWith_self : ∀ j : Job, j.finishWith (some r.2) = .error .incomplete

theorem isComplete_iff (j : Job) : j.isComplete = true ↔ j.walk.status = .completed := by
  unfold Job.isComplete
  exact decide_eq_true_iff

/-- Jobs that are complete can be finished, and no others. -/
theorem exists_finishWith_iff (j : Job) (fetch? : Option Job) :
    (∃ shader, j.finishWith fetch? = .ok shader) ↔
      j.walk.status = .completed ∧ ∀ f ∈ fetch?, f.walk.status = .completed := by
  have hcond : (j.isComplete && fetch?.all Job.isComplete) = true ↔
      j.walk.status = .completed ∧ ∀ f ∈ fetch?, f.walk.status = .completed := by
    rw [Bool.and_eq_true, isComplete_iff, Option.all_eq_true]
    simp only [isComplete_iff, Option.mem_def]
  rw [← hcond]
  unfold Job.finishWith
  constructor
  · rintro ⟨shader, hshader⟩
    split at hshader
    · assumption
    · cases hshader
  · intro htrue
    rw [if_pos htrue]
    exact ⟨_, rfl⟩

theorem finishWith_eq_incomplete {j : Job} {fetch? : Option Job}
    (h : ¬ (j.walk.status = .completed ∧ ∀ f ∈ fetch?, f.walk.status = .completed)) :
    j.finishWith fetch? = .error .incomplete := by
  cases hfinish : j.finishWith fetch? with
  | ok shader => exact absurd ((exists_finishWith_iff j fetch?).mp ⟨shader, hfinish⟩) h
  | error fault =>
    unfold Job.finishWith at hfinish
    split at hfinish
    · cases hfinish
    · exact hfinish.symm

theorem fails_of_failed {w : Walk} {k : Nat} {fault : CompileFault} {j : Job}
    (hat : j.machine.At w k) (hw : w.status = .failed) :
    Fails w k fault (some (.fault fault), j) := by
  have hstatus : j.walk.status = .failed := by
    unfold Job.walk
    rw [hat.walk]
    exact hw
  have hne : j.walk.status ≠ .completed := by
    rw [hstatus]
    decide
  exact
    { halt := rfl
      stands := hat
      status := hstatus
      finish := finishWith_eq_incomplete fun h => hne h.1
      finishWith := fun _ => finishWith_eq_incomplete fun h => hne h.1
      finishWith_self := fun _ => finishWith_eq_incomplete fun h => hne (h.2 j rfl) }

theorem call_of_eq_error {j : Job} {halt : Halt} {m : Machine Output}
    (h : walkToEnd (handlers j.context) j.machine = .error halt m) :
    j.call .compile = (some halt, { j with machine := m }) := by
  rw [call_compile_eq, h]
  rfl

theorem call_of_eq_ok {j : Job} {m : Machine Output}
    (h : walkToEnd (handlers j.context) j.machine = .ok () m) :
    j.call .compile = (none, { j with machine := m }) := by
  rw [call_compile_eq, h]
  rfl

/-- After a call that succeeded, calls change nothing. -/
theorem nthCall_of_none {j : Job} (h : (j.call .compile).1 = none) (n : Nat) :
    j.nthCall n = (none, (j.call .compile).2) ∧
      (j.call .compile).2.walk.status = .completed := by
  cases hrun : walkToEnd (handlers j.context) j.machine with
  | error halt m =>
    rw [call_of_eq_error hrun] at h
    cases h
  | ok u m =>
    obtain ⟨hstatus, hagain⟩ := walkToEnd_completed (onlyFault_handlers j.context) hrun
    rw [call_of_eq_ok hrun]
    refine ⟨?_, hstatus⟩
    induction n with
    | zero => exact call_of_eq_ok hrun
    | succ n ih =>
      rw [Job.nthCall, ih]
      exact call_of_eq_ok hagain

/-- Each call counts `groups` groups more, until the counter comes to its end. -/
theorem nthCall_of_tallies {j : Job} {fault : CompileFault} {m : Machine Output} {groups : Nat}
    (hrun : walkToEnd (handlers j.context) j.machine = .error (.fault fault) m)
    (hg : Tallies m.walk groups (.error (.fault fault)) (walkToEnd (handlers j.context)))
    (n : Nat) :
    ∃ m', m'.At m.walk (min (m.walk.groupPc.toNat + n * groups) (2 ^ 32 - 1)) ∧
      j.nthCall n =
        (some (if m.walk.groupPc.toNat + n * groups < 2 ^ 32 then .fault fault
          else .counterOverflow .group), { j with machine := m' }) := by
  have hb := m.walk.groupPc.isLt
  generalize hbase : m.walk.groupPc.toNat = b at hb ⊢
  induction n with
  | zero =>
    rw [Nat.zero_mul, Nat.add_zero, if_pos hb, Nat.min_eq_left (by omega), ← hbase]
    exact ⟨m, .self m, call_of_eq_error hrun⟩
  | succ n ih =>
    obtain ⟨m₁, hm₁, hcall⟩ := ih
    rw [Job.nthCall, hcall, Nat.succ_mul, ← Nat.add_assoc]
    by_cases hlt : b + n * groups + groups < 2 ^ 32
    · rw [Nat.min_eq_left (by omega)] at hm₁
      obtain ⟨m₂, hm₂, hagain⟩ := hg.within hm₁ hlt
      rw [if_pos hlt, Nat.min_eq_left (by omega)]
      exact ⟨m₂, hm₂, call_of_eq_error hagain⟩
    · -- once the counter is at its end, a group was counted, so each call counts one
      have hpast : 2 ^ 32 ≤ min (b + n * groups) (2 ^ 32 - 1) + groups := by
        rcases Nat.eq_zero_or_pos groups with rfl | hpos
        · omega
        · omega
      obtain ⟨m₂, hm₂, hagain⟩ := hg.past hm₁ hpast
      rw [if_neg hlt, Nat.min_eq_right (by omega)]
      exact ⟨m₂, hm₂, call_of_eq_error hagain⟩

/-- After a call that failed, each call counts the same number of groups and fails by the same
fault, until the counter of groups comes to its end. -/
theorem nthCall_of_fault {j : Job} {fault : CompileFault}
    (h : (j.call .compile).1 = some (.fault fault)) :
    ∃ groups ≤ clauseCapacity, ∀ n,
      ((j.call .compile).2.walk.groupPc.toNat + n * groups < 2 ^ 32 →
        Fails (j.call .compile).2.walk ((j.call .compile).2.walk.groupPc.toNat + n * groups) fault
          (j.nthCall n)) ∧
      (2 ^ 32 ≤ (j.call .compile).2.walk.groupPc.toNat + n * groups →
        (j.nthCall n).1 = some (.counterOverflow .group)) := by
  cases hrun : walkToEnd (handlers j.context) j.machine with
  | ok u m =>
    rw [call_of_eq_ok hrun] at h
    cases h
  | error halt m =>
    rw [call_of_eq_error hrun] at h ⊢
    obtain rfl : halt = .fault fault := Option.some.inj h
    obtain ⟨hstatus, g, hg, htally⟩ :=
      walkToEnd_again (onlyFault_handlers j.context) (steady_handlers j.context) hrun ⟨fault, rfl⟩
    refine ⟨g, hg, fun n => ?_⟩
    obtain ⟨m', hm', hcall⟩ := nthCall_of_tallies hrun htally n
    dsimp only [Job.walk]
    rw [hcall]
    constructor
    · intro hlt
      rw [Nat.min_eq_left (by omega)] at hm'
      rw [if_pos hlt]
      exact fails_of_failed hm' hstatus
    · intro hpast
      rw [if_neg (by omega)]

/-- The first call settles the later ones. If it succeeds, the others have nothing to do. If it
fails by a fault, the others fail by the same fault where it stands, but each of them counts the
groups before the fault again: calls for which the counter has no numbers left overflow. -/
structure Settles (j : Job) : Prop where
  completed : (j.call .compile).1 = none → ∀ n,
    j.nthCall n = (none, (j.call .compile).2) ∧ (j.call .compile).2.walk.status = .completed
  failed : ∀ fault, (j.call .compile).1 = some (.fault fault) → ∃ groups ≤ clauseCapacity, ∀ n,
    ((j.call .compile).2.walk.groupPc.toNat + n * groups < 2 ^ 32 →
      Fails (j.call .compile).2.walk ((j.call .compile).2.walk.groupPc.toNat + n * groups) fault
        (j.nthCall n)) ∧
    (2 ^ 32 ≤ (j.call .compile).2.walk.groupPc.toNat + n * groups →
      (j.nthCall n).1 = some (.counterOverflow .group))

/-- The first call settles the later ones, and it overflows for very large programs only. A shader
is there exactly when the jobs that it is made of are complete. -/
theorem calls_settle (c : Context) (p : Program) (stage : Stage) (isFunction : Bool) :
    Settles (Job.start c p stage isFunction) ∧
      (((Job.start c p stage isFunction).call .compile).1 = none ∨
        (∃ fault, ((Job.start c p stage isFunction).call .compile).1 = some (.fault fault)) ∨
        ((Job.start c p stage isFunction).call .compile).1 = some (.counterOverflow .group) ∧
          2 ^ 28 ≤ p.size ∨
        ((Job.start c p stage isFunction).call .compile).1 = some (.counterOverflow .cf) ∧
          2 ^ 35 ≤ p.size) ∧
      ∀ (j : Job) (fetch? : Option Job),
        ((∃ shader, j.finish = .ok shader) ↔ j.walk.status = .completed) ∧
        ((∃ shader, j.finishWith fetch? = .ok shader) ↔
          j.walk.status = .completed ∧ ∀ f ∈ fetch?, f.walk.status = .completed) := by
  refine ⟨⟨nthCall_of_none, fun _ => nthCall_of_fault⟩, halt_call_start c p stage isFunction, ?_⟩
  intro j fetch?
  refine ⟨?_, exists_finishWith_iff j fetch?⟩
  unfold Job.finish
  rw [exists_finishWith_iff]
  refine ⟨fun h => h.1, fun h => ⟨h, fun f hf => ?_⟩⟩
  cases hf

/-- A clause with a group that does nothing and a group that cannot be compiled. -/
def relapse : Program :=
  ⟨(Word.listToBytes [2, 0x20040000, 0, 0x00200000, 0x80000000, 0x00000D00, 0x80000000,
    0x00001600]).toArray⟩

/-- The first call fails by a fault and counts one group. The one that 2³² - 1 calls come before
does not fail by that fault any more. -/
theorem nthCall_relapse :
    ((Job.start {} relapse .pixel false).nthCall 0).1 =
        some (.fault (.unimplemented (.op2 .kille))) ∧
      ((Job.start {} relapse .pixel false).nthCall (2 ^ 32 - 1)).1 =
        some (.counterOverflow .group) := by
  have hfirst : ((Job.start {} relapse .pixel false).call .compile).1 =
      some (.fault (.unimplemented (.op2 .kille))) := by decide +kernel
  have hone : ((Job.start {} relapse .pixel false).call .compile).2.walk.groupPc.toNat = 1 := by
    decide +kernel
  have htwo : ((Job.start {} relapse .pixel false).nthCall 1).2.walk.groupPc.toNat = 2 := by
    decide +kernel
  obtain ⟨groups, hbound, hcalls⟩ := nthCall_of_fault hfirst
  rw [hone] at hcalls
  have hsecond := ((hcalls 1).1 (by rw [clauseCapacity] at hbound; omega)).stands.groups
  have hgroups : groups = 1 := by
    have : 2 = 1 + 1 * groups := htwo.symm.trans hsecond
    omega
  subst hgroups
  exact ⟨hfirst, (hcalls (2 ^ 32 - 1)).2 (by decide)⟩

end Compile

end LatteHlsl
