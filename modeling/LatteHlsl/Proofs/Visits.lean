import LatteHlsl.Proofs.Faults

/-!
# The order of a walk

A walk visits the control flow instructions of a program from the first one on, without a gap, until
one of them ends the program or no slot is left. Clauses lie anywhere in the program and may overlap
each other and the instructions that own them, so it is the number of instructions that bounds the
work, not the number of bytes.

* `Visits`: the loop of a walk, with no bound on its steps.
* `WalksThrough`: a whole walk.
* `Visits.slots`, `Visits.cfAt`, `Visits.counters`: what every walk does, whatever it comes to.
* `Visits.stops`, `Visits.flow`: where a walk that succeeds has stopped.
* `walk_in_order`: all of it for the compiler.
-/

namespace LatteHlsl

open Isa Effect

/-! ## Control flow slots -/

namespace Program

theorem size_le_of_hasCf {p : Program} {pc : Word} (h : p.hasCf pc.toNat = false) :
    p.size ≤ 8 * pc.toNat := by
  have hlimit : pc.toNat * CfInstr.byteSize < positionLimit := by
    have := pc.isLt
    show pc.toNat * 8 < 2 ^ 64
    omega
  simp only [hasCf, hlimit, decide_true, Bool.true_and, decide_eq_false_iff_not, Nat.not_lt] at h
  rw [Nat.mul_comm]
  exact h

theorem le_size_of_cfAt {p : Program} {i : Nat} {cf : CfInstr} (h : p.cfAt i = .ok cf) :
    8 * (i + 1) ≤ p.size := by
  simp only [cfAt, scale, slice_eq, Checked.bind_eq_ok] at h
  obtain ⟨offset, hoffset, bytes, hbytes, -⟩ := h
  split at hoffset
  · cases hoffset
    split at hbytes
    · rename_i hin
      have : i * 8 + 8 ≤ p.size := hin.2
      omega
    · cases hbytes
  · cases hoffset

theorem lt_cfSlots_of_hasCf {p : Program} {i : Nat} (h : p.hasCf i = true) : i < p.cfSlots := by
  simp only [hasCf, Bool.and_eq_true, decide_eq_true_eq] at h
  have hlt : i * 8 < p.size := h.2
  show i < (p.size + 8 - 1) / 8
  omega

end Program

/-! ## The loop -/

section

variable {σ : Type}

/-- A machine with another status. -/
def Machine.withStatus (m : Machine σ) (status : Status) : Machine σ :=
  { m with walk := { m.walk with status := status } }

/-- The loop of a walk, with as many steps as there are slots left. -/
def walkLoop (h : Handlers σ) : Effect (Machine σ) Unit := fun m =>
  walkSteps h (m.walk.program.cfSlots - m.walk.cfPc.toNat) m

/-- Walk one control flow instruction and go on to the next. -/
def visit (h : Handlers σ) (cf : CfInstr) : Effect (Machine σ) Unit := do
  walkCf h cf
  Machine.count .cf

/-- The loop of a walk, with no bound on its steps: an instruction is read where the counter stands
and visited, until the program has ended or no slot is left there. The list holds the visited
instructions with their slots. -/
inductive Visits (h : Handlers σ) :
    List (Nat × CfInstr) → Machine σ → EStateM.Result Halt (Machine σ) Unit → Prop where
  | ended {m : Machine σ}
      (hend : m.walk.reachedEnd = true ∨ m.walk.program.hasCf m.walk.cfPc.toNat = false) :
      Visits h [] m (.ok () m)
  | unreadable {m : Machine σ} {fault : DecodeFault} (hgoes : m.walk.reachedEnd = false)
      (hcf : m.walk.program.hasCf m.walk.cfPc.toNat = true)
      (hat : m.walk.program.cfAt m.walk.cfPc.toNat = .error fault) :
      Visits h [] m (.error (.fault (.decode fault)) m)
  | halted {m m' : Machine σ} {cf : CfInstr} {halt : Halt} (hgoes : m.walk.reachedEnd = false)
      (hcf : m.walk.program.hasCf m.walk.cfPc.toNat = true)
      (hat : m.walk.program.cfAt m.walk.cfPc.toNat = .ok cf)
      (hvisit : visit h cf m = .error halt m') :
      Visits h [(m.walk.cfPc.toNat, cf)] m (.error halt m')
  | step {m m' : Machine σ} {cf : CfInstr} {xs : List (Nat × CfInstr)}
      {r : EStateM.Result Halt (Machine σ) Unit} (hgoes : m.walk.reachedEnd = false)
      (hcf : m.walk.program.hasCf m.walk.cfPc.toNat = true)
      (hat : m.walk.program.cfAt m.walk.cfPc.toNat = .ok cf)
      (hvisit : visit h cf m = .ok () m') (hrest : Visits h xs m' r) :
      Visits h ((m.walk.cfPc.toNat, cf) :: xs) m r

/-- A whole walk: it is refused, or its loop is run. -/
inductive WalksThrough (h : Handlers σ) :
    List (Nat × CfInstr) → Machine σ → EStateM.Result Halt (Machine σ) Unit → Prop where
  | refused {m : Machine σ} {fault : CompileFault} (hstart : checkStart m.walk = .error fault) :
      WalksThrough h [] m (.error (.fault fault) m)
  | walked {m : Machine σ} {xs : List (Nat × CfInstr)} {r : EStateM.Result Halt (Machine σ) Unit}
      (hstart : checkStart m.walk = .ok ())
      (hvisits : Visits h xs { m with walk := { m.walk with status := .walking } } r) :
      WalksThrough h xs m r

/-! ## One step -/

/-- A counter is at its end, in a walk that would count up to `cfs` control flow instructions and
`groups` groups. -/
def Halt.Exhausts (halt : Halt) (cfs groups : Nat) : Prop :=
  halt = .counterOverflow .cf ∧ 2 ^ 32 ≤ cfs ∨ halt = .counterOverflow .group ∧ 2 ^ 32 ≤ groups

theorem Halt.Exhausts.mono {halt : Halt} {cfs cfs' groups groups' : Nat}
    (h : halt.Exhausts cfs groups) (hcfs : cfs ≤ cfs') (hgroups : groups ≤ groups') :
    halt.Exhausts cfs' groups' :=
  h.imp (fun h => ⟨h.1, Nat.le_trans h.2 hcfs⟩) fun h => ⟨h.1, Nat.le_trans h.2 hgroups⟩

variable {h : Handlers σ} (hh : h.OnlyFault)
include hh

/-- A visit moves the counter on by one. -/
theorem visit_ok {cf : CfInstr} {m m' : Machine σ} {u : Unit} (hvisit : visit h cf m = .ok u m') :
    m'.walk.cfPc.toNat = m.walk.cfPc.toNat + 1 ∧
      m'.walk.groupPc.toNat ≤ m.walk.groupPc.toNat + clauseCapacity ∧
      m'.walk =
        { m.walk with
          cfPc := m'.walk.cfPc
          groupPc := m'.walk.groupPc
          callsFetch := m'.walk.callsFetch
          reachedEnd := m.walk.reachedEnd || cf.isTerminal } := by
  obtain ⟨_, m₁, hrun, hcount⟩ := bind_eq_ok.mp hvisit
  obtain ⟨hgroups, hwalk⟩ := walkCf_ok hh hrun
  obtain ⟨n, hn, rfl⟩ := Machine.count_eq_ok hcount
  rw [hwalk] at hn
  refine ⟨hn, hgroups, ?_⟩
  dsimp only [Walk.withCounted]
  rw [hwalk]

/-- A visit that halts leaves the counter where it was. A halt that is no fault means that a counter
is at its end. -/
theorem visit_error {cf : CfInstr} {m m' : Machine σ} {halt : Halt}
    (hvisit : visit h cf m = .error halt m') :
    m'.walk.cfPc = m.walk.cfPc ∧
      m'.walk.groupPc.toNat ≤ m.walk.groupPc.toNat + clauseCapacity ∧
        (halt.IsFault ∨
          halt.Exhausts (m.walk.cfPc.toNat + 1) (m.walk.groupPc.toNat + clauseCapacity)) := by
  rcases bind_eq_error.mp hvisit with hrun | ⟨_, m₁, hrun, hcount⟩
  · obtain ⟨hcounts, hhalt⟩ := walkCf_error hh hrun
    have hwalk := hcounts.walk
    refine ⟨by rw [hwalk], hcounts.groups, ?_⟩
    rcases hhalt with hfault | ⟨hover, hle⟩
    · exact .inl hfault
    · exact .inr (.inr ⟨hover, hle⟩)
  · obtain ⟨hgroups, hwalk⟩ := walkCf_ok hh hrun
    obtain ⟨rfl, hn, rfl⟩ := Machine.count_eq_error hcount
    rw [hwalk] at hn
    exact ⟨by rw [hwalk], hgroups, .inr (.inl ⟨rfl, Nat.le_of_eq hn.symm⟩)⟩

omit hh in
theorem walkSteps_succ (n : Nat) (m : Machine σ) :
    walkSteps h (n + 1) m =
      (if m.walk.reachedEnd || !m.walk.program.hasCf m.walk.cfPc.toNat then pure ()
       else do
        let cf ← decode (m.walk.program.cfAt m.walk.cfPc.toNat)
        visit h cf
        walkSteps h n : Effect (Machine σ) Unit) m := by
  simp only [visit, bind_assoc]
  rfl

/-- As many steps as there are slots left are enough for the loop. -/
theorem exists_visits {n : Nat} :
    ∀ {m : Machine σ}, m.walk.program.cfSlots - m.walk.cfPc.toNat ≤ n →
      ∃ xs, Visits h xs m (walkSteps h n m) := by
  induction n with
  | zero =>
    intro m hn
    refine ⟨[], .ended (.inr ?_)⟩
    rw [← Bool.not_eq_true]
    intro hcf
    have := Program.lt_cfSlots_of_hasCf hcf
    omega
  | succ n ih =>
    intro m hn
    rw [walkSteps_succ]
    split
    · rename_i hend
      exact ⟨[], .ended (by simpa using hend)⟩
    · rename_i hgoes
      rw [Bool.or_eq_true, not_or, Bool.not_eq_true, Bool.not_eq_true', Bool.not_eq_false] at hgoes
      obtain ⟨hgoes, hcf⟩ := hgoes
      cases hat : m.walk.program.cfAt m.walk.cfPc.toNat with
      | error fault => exact ⟨[], .unreadable hgoes hcf hat⟩
      | ok cf =>
        rw [bind_of_eq_ok (decode_eq_ok.mpr ⟨rfl, rfl⟩)]
        cases hvisit : visit h cf m with
        | error halt m' =>
          rw [bind_of_eq_error hvisit]
          exact ⟨_, .halted hgoes hcf hat hvisit⟩
        | ok u m' =>
          rw [bind_of_eq_ok hvisit]
          obtain ⟨hpc, -, hwalk⟩ := visit_ok hh hvisit
          obtain ⟨xs, hxs⟩ := ih (m := m') (by rw [hwalk] at hpc ⊢; dsimp only at *; omega)
          exact ⟨_, .step hgoes hcf hat hvisit hxs⟩

omit hh in
theorem walkProgram_of_start {m : Machine σ} (hstart : checkStart m.walk = .ok ()) :
    walkProgram h m = walkLoop h (m.withStatus .walking) := by
  unfold walkProgram
  rw [bind_of_eq_ok (Machine.examine_eq_ok.mpr ⟨hstart, rfl⟩),
    bind_of_eq_ok (Machine.modifyWalk_eq_ok (u := ()).mpr rfl)]
  rfl

omit hh in
theorem walkProgram_of_refused {m : Machine σ} {fault : CompileFault}
    (hstart : checkStart m.walk = .error fault) : walkProgram h m = .error (.fault fault) m :=
  bind_of_eq_error (check_eq_error.mpr ⟨fault, hstart, rfl, rfl⟩)

theorem exists_walksThrough (m : Machine σ) : ∃ xs, WalksThrough h xs m (walkProgram h m) := by
  cases hstart : checkStart m.walk with
  | error fault =>
    rw [walkProgram_of_refused hstart]
    exact ⟨[], .refused hstart⟩
  | ok u =>
    rw [walkProgram_of_start hstart]
    obtain ⟨xs, hxs⟩ := exists_visits hh (m := m.withStatus .walking) (Nat.le_refl _)
    exact ⟨xs, .walked hstart hxs⟩

/-! ## What a walk has visited -/

namespace Visits

variable {xs : List (Nat × CfInstr)} {m : Machine σ} {r : EStateM.Result Halt (Machine σ) Unit}

/-- The visited slots follow each other. -/
theorem slots (hv : Visits h xs m r) :
    xs.map Prod.fst = List.range' m.walk.cfPc.toNat xs.length := by
  induction hv with
  | ended | unreadable | halted => rfl
  | step _ _ _ hvisit _ ih =>
    obtain ⟨hpc, -, -⟩ := visit_ok hh hvisit
    rw [List.map_cons, ih, hpc]
    rfl

/-- The visited instructions are those in the slots. -/
theorem cfAt (hv : Visits h xs m r) : ∀ x ∈ xs, m.walk.program.cfAt x.1 = .ok x.2 := by
  induction hv with
  | ended | unreadable => exact List.forall_mem_nil _
  | halted _ _ hat _ => exact List.forall_mem_singleton.mpr hat
  | step _ _ hat hvisit _ ih =>
    obtain ⟨-, -, hwalk⟩ := visit_ok hh hvisit
    rw [hwalk] at ih
    exact List.forall_mem_cons.mpr ⟨hat, ih⟩

/-- The program has room for the visited instructions. -/
theorem length_le (hv : Visits h xs m r) (hpc : 8 * m.walk.cfPc.toNat ≤ m.walk.program.size) :
    8 * (m.walk.cfPc.toNat + xs.length) ≤ m.walk.program.size := by
  induction hv with
  | ended | unreadable => exact hpc
  | halted _ _ hat _ => exact Program.le_size_of_cfAt hat
  | @step m m' _ _ _ _ _ hat hvisit _ ih =>
    have hroom := Program.le_size_of_cfAt hat
    obtain ⟨hnext, -, hwalk⟩ := visit_ok hh hvisit
    have hkept : m'.walk.program = m.walk.program := by rw [hwalk]
    rw [hkept, hnext] at ih
    have := ih hroom
    rw [List.length_cons]
    omega

/-- In every outcome the counter stands after the last visited instruction, or at it if that one
halted the walk, and at most `clauseCapacity` groups were counted for each. -/
theorem counters (hv : Visits h xs m r) :
    (stateOf r).walk.cfPc.toNat ≤ m.walk.cfPc.toNat + xs.length ∧
      m.walk.cfPc.toNat + xs.length ≤ (stateOf r).walk.cfPc.toNat + 1 ∧
        (stateOf r).walk.groupPc.toNat ≤
          m.walk.groupPc.toNat + clauseCapacity * xs.length := by
  induction hv with
  | ended | unreadable => exact ⟨Nat.le_refl _, Nat.le_succ _, Nat.le_refl _⟩
  | halted _ _ _ hvisit =>
    obtain ⟨hpc, hgroups, -⟩ := visit_error hh hvisit
    simp only [stateOf, hpc, List.length_singleton, Nat.mul_one]
    omega
  | step _ _ _ hvisit _ ih =>
    obtain ⟨hpc, hgroups, -⟩ := visit_ok hh hvisit
    rw [List.length_cons, Nat.mul_succ]
    omega

/-- A walk halts by a fault, or because one of the counters is at its end. -/
theorem halts {halt : Halt} {m' : Machine σ} (hv : Visits h xs m (.error halt m')) :
    halt.IsFault ∨ halt.Exhausts (m.walk.cfPc.toNat + xs.length)
      (m.walk.groupPc.toNat + clauseCapacity * xs.length) := by
  generalize hr : EStateM.Result.error halt m' = r at hv
  induction hv with
  | ended => cases hr
  | unreadable =>
    cases hr
    exact .inl ⟨_, rfl⟩
  | halted _ _ _ hvisit =>
    cases hr
    obtain ⟨-, -, hhalt⟩ := visit_error hh hvisit
    exact hhalt
  | step _ _ _ hvisit _ ih =>
    obtain ⟨hpc, hgroups, -⟩ := visit_ok hh hvisit
    refine (ih hr).imp_right fun hend => hend.mono ?_ ?_
    · rw [List.length_cons]
      omega
    · rw [List.length_cons, Nat.mul_succ]
      omega

/-- A walk that succeeds stops after the first instruction that ends the program, or where no slot
is left. -/
theorem stops {m' : Machine σ} {u : Unit} (hv : Visits h xs m (.ok u m'))
    (hgoes : m.walk.reachedEnd = false) :
    m'.walk.program = m.walk.program ∧ m'.walk.cfPc.toNat = m.walk.cfPc.toNat + xs.length ∧
      (m'.walk.reachedEnd = true ∧
          (∃ ys x, xs = ys ++ [x] ∧ x.2.isTerminal = true ∧ ∀ y ∈ ys, y.2.isTerminal = false) ∨
        m'.walk.reachedEnd = false ∧ m.walk.program.hasCf m'.walk.cfPc.toNat = false ∧
          ∀ y ∈ xs, y.2.isTerminal = false) := by
  generalize hr : EStateM.Result.ok u m' = r at hv
  induction hv with
  | unreadable | halted => cases hr
  | ended hend =>
    cases hr
    exact ⟨rfl, rfl, .inr ⟨hgoes, by simpa [hgoes] using hend, List.forall_mem_nil _⟩⟩
  | @step m m₁ cf xs r _ _ _ hvisit hrest ih =>
    obtain ⟨hpc, -, hwalk⟩ := visit_ok hh hvisit
    cases hterm : cf.isTerminal with
    | true =>
      -- the loop finds the end reached
      have hend : m₁.walk.reachedEnd = true := by rw [hwalk, hgoes, hterm, Bool.false_or]
      cases hrest with
      | ended =>
        cases hr
        exact ⟨by rw [hwalk], hpc, .inl ⟨hend, [], _, rfl, hterm, List.forall_mem_nil _⟩⟩
      | unreadable hgoes' | halted hgoes' | step hgoes' =>
        exact absurd (hend.symm.trans hgoes') (by decide)
    | false =>
      have hgoes₁ : m₁.walk.reachedEnd = false := by rw [hwalk, hgoes, hterm, Bool.false_or]
      obtain ⟨hprogram, hpc', hstop⟩ := ih hgoes₁ hr
      have hkept : m₁.walk.program = m.walk.program := by rw [hwalk]
      rw [hkept] at hprogram hstop
      refine ⟨hprogram, by rw [List.length_cons]; omega, ?_⟩
      rcases hstop with ⟨hend, ys, x, rfl, hx, hys⟩ | ⟨hend, hnone, hall⟩
      · exact .inl ⟨hend, _ :: ys, x, rfl, hx, List.forall_mem_cons.mpr ⟨hterm, hys⟩⟩
      · exact .inr ⟨hend, hnone, List.forall_mem_cons.mpr ⟨hterm, hall⟩⟩

/-- A walk that succeeds has visited the instructions that are reached. -/
theorem flow {m' : Machine σ} {u : Unit} (hv : Visits h xs m (.ok u m'))
    (hgoes : m.walk.reachedEnd = false) {n : Nat} (hn : xs.length ≤ n) :
    xs.map Prod.snd = m.walk.program.flowFrom n m.walk.cfPc.toNat := by
  generalize hr : EStateM.Result.ok u m' = r at hv
  induction hv generalizing n with
  | unreadable | halted => cases hr
  | ended hend =>
    have hnone := hend.resolve_left (by rw [hgoes]; decide)
    cases n with
    | zero => rfl
    | succ n => simp [Program.flowFrom, hnone]
  | @step m m₁ cf xs r _ hcf hat hvisit hrest ih =>
    obtain ⟨hpc, -, hwalk⟩ := visit_ok hh hvisit
    cases n with
    | zero => exact absurd hn (Nat.not_succ_le_zero _)
    | succ n =>
      rw [Program.flowFrom, if_pos hcf, hat, List.map_cons]
      cases hterm : cf.isTerminal with
      | true =>
        have hend : m₁.walk.reachedEnd = true := by rw [hwalk, hgoes, hterm, Bool.false_or]
        cases hrest with
        | ended => simp [hterm]
        | unreadable hgoes' | halted hgoes' | step hgoes' =>
          exact absurd (hend.symm.trans hgoes') (by decide)
      | false =>
        have hgoes₁ : m₁.walk.reachedEnd = false := by rw [hwalk, hgoes, hterm, Bool.false_or]
        have hrest := ih hgoes₁ (Nat.le_of_succ_le_succ hn) hr
        rw [hpc, show m₁.walk.program = m.walk.program by rw [hwalk]] at hrest
        simp [hterm, hrest]

/-- In a walk that succeeds every visit does, at the stage of the walk. -/
theorem visited {m' : Machine σ} {u : Unit} (hv : Visits h xs m (.ok u m')) :
    ∀ x ∈ xs, ∃ m₁ m₂, m₁.walk.stage = m.walk.stage ∧ visit h x.2 m₁ = .ok () m₂ := by
  generalize hr : EStateM.Result.ok u m' = r at hv
  induction hv with
  | unreadable | halted => cases hr
  | ended => exact List.forall_mem_nil _
  | step _ _ _ hvisit _ ih =>
    obtain ⟨-, -, hwalk⟩ := visit_ok hh hvisit
    have hrest := ih hr
    rw [hwalk] at hrest
    exact List.forall_mem_cons.mpr ⟨⟨_, _, rfl, hvisit⟩, hrest⟩

end Visits

/-! ## Whole walks -/

/-- No slot before `n` holds an instruction that ends the program. -/
def Program.GoesOnTo (p : Program) (n : Nat) : Prop :=
  ∀ i < n, ∀ cf, p.cfAt i = .ok cf → cf.isTerminal = false

/-- A walk that has not begun. -/
structure Walk.Fresh (w : Walk) : Prop where
  cfPc : w.cfPc.toNat = 0
  groupPc : w.groupPc.toNat = 0
  reachedEnd : w.reachedEnd = false

namespace WalksThrough

variable {xs : List (Nat × CfInstr)} {m : Machine σ} {r : EStateM.Result Halt (Machine σ) Unit}

/-- The visited slots are the first ones. -/
theorem slots (hw : WalksThrough h xs m r) (hm : m.walk.Fresh) :
    xs.map Prod.fst = List.range xs.length := by
  cases hw with
  | refused => rfl
  | walked _ hv => rw [hv.slots hh, hm.cfPc, List.range_eq_range']

/-- The visited instructions are those in the slots. -/
theorem cfAt (hw : WalksThrough h xs m r) : ∀ x ∈ xs, m.walk.program.cfAt x.1 = .ok x.2 := by
  cases hw with
  | refused => exact List.forall_mem_nil _
  | walked _ hv => exact hv.cfAt hh

/-- All instructions in the visited slots are visited. -/
theorem mem_of_cfAt (hw : WalksThrough h xs m r) (hm : m.walk.Fresh) {i : Nat} {cf : CfInstr}
    (hi : i < xs.length) (hcf : m.walk.program.cfAt i = .ok cf) : (i, cf) ∈ xs := by
  have hi' : i ∈ xs.map Prod.fst := by
    rw [slots hh hw hm]
    exact List.mem_range.mpr hi
  obtain ⟨⟨i', cf'⟩, hx, rfl⟩ := List.mem_map.mp hi'
  rw [Except.ok.inj (hcf.symm.trans (cfAt hh hw _ hx))]
  exact hx

theorem length_le (hw : WalksThrough h xs m r) (hm : m.walk.Fresh) :
    8 * xs.length ≤ m.walk.program.size := by
  cases hw with
  | refused => exact Nat.zero_le _
  | walked _ hv =>
    have hlen := hv.length_le hh
    rw [hm.cfPc, Nat.zero_add] at hlen
    exact hlen (Nat.zero_le _)

theorem counters (hw : WalksThrough h xs m r) (hm : m.walk.Fresh) :
    (stateOf r).walk.cfPc.toNat ≤ xs.length ∧ xs.length ≤ (stateOf r).walk.cfPc.toNat + 1 ∧
      (stateOf r).walk.groupPc.toNat ≤ clauseCapacity * xs.length := by
  cases hw with
  | refused => simp [stateOf, hm.cfPc, hm.groupPc]
  | walked _ hv =>
    have hcounters := hv.counters hh
    rw [hm.cfPc, hm.groupPc, Nat.zero_add, Nat.zero_add] at hcounters
    exact hcounters

/-- A walk halts by a fault, unless its program has 2²⁸ bytes or more. Then there may be too many
groups to count, and from 2³⁵ bytes on too many control flow instructions. -/
theorem halts {halt : Halt} {m' : Machine σ} (hw : WalksThrough h xs m (.error halt m'))
    (hm : m.walk.Fresh) :
    halt.IsFault ∨ halt = .counterOverflow .group ∧ 2 ^ 28 ≤ m.walk.program.size ∨
      halt = .counterOverflow .cf ∧ 2 ^ 35 ≤ m.walk.program.size := by
  have hlen := length_le hh hw hm
  cases hw with
  | refused => exact .inl ⟨_, rfl⟩
  | walked _ hv =>
    refine (hv.halts hh).imp_right fun hend => ?_
    rw [hm.cfPc, hm.groupPc, Nat.zero_add, Nat.zero_add, clauseCapacity] at hend
    rcases hend with ⟨hover, hcfs⟩ | ⟨hover, hgroups⟩
    · exact .inr ⟨hover, by omega⟩
    · exact .inl ⟨hover, by omega⟩

/-- A walk that succeeds stops after the first instruction that ends the program. If there is none,
it stops at the end of the program, which then holds whole instructions only. -/
theorem stops {m' : Machine σ} {u : Unit} (hw : WalksThrough h xs m (.ok u m'))
    (hm : m.walk.Fresh) :
    m'.walk.cfPc.toNat = xs.length ∧
      (m'.walk.reachedEnd = true ∧
          (∃ last cf, m'.walk.cfPc.toNat = last + 1 ∧ m.walk.program.cfAt last = .ok cf ∧
            cf.isTerminal = true ∧ m.walk.program.GoesOnTo last) ∨
        m'.walk.reachedEnd = false ∧ m.walk.program.size = 8 * m'.walk.cfPc.toNat ∧
          ∀ n, m.walk.program.GoesOnTo n) := by
  have hslots := slots hh hw hm
  have hlen := length_le hh hw hm
  cases id hw with
  | walked _ hv =>
    obtain ⟨-, hpc, hstop⟩ := hv.stops hh hm.reachedEnd
    rw [hm.cfPc, Nat.zero_add] at hpc
    refine ⟨hpc, ?_⟩
    rcases hstop with ⟨hend, ys, ⟨last, cf⟩, rfl, hterm, hys⟩ | ⟨hend, hnone, hall⟩
    · have hlast : last = ys.length := by
        have hget := congrArg List.getLast? hslots
        simpa [List.range_succ] using hget
      have hat := cfAt hh hw (last, cf) (by simp)
      have hcount : (ys ++ [(last, cf)]).length = last + 1 := by simp [hlast]
      refine .inl ⟨hend, last, cf, hpc.trans hcount, hat, hterm, ?_⟩
      intro i hi cf' hcf'
      have hx := mem_of_cfAt hh hw hm (by omega) hcf'
      rcases List.mem_append.mp hx with hx | hx
      · exact hys (i, cf') hx
      · rw [List.mem_singleton, Prod.mk.injEq] at hx
        omega
    · have hsize : m.walk.program.size ≤ 8 * xs.length := by
        rw [← hpc]
        exact Program.size_le_of_hasCf hnone
      rw [hpc]
      refine .inr ⟨hend, Nat.le_antisymm hsize hlen, ?_⟩
      intro n i _ cf hcf
      have hroom := Program.le_size_of_cfAt hcf
      exact hall (i, cf) (mem_of_cfAt hh hw hm (by omega) hcf)

/-- A walk that succeeds has visited the instructions that are reached. -/
theorem flow {m' : Machine σ} {u : Unit} (hw : WalksThrough h xs m (.ok u m')) (hm : m.walk.Fresh) :
    xs.map Prod.snd = m.walk.program.flow := by
  have hlen := length_le hh hw hm
  cases hw with
  | walked _ hv =>
    have hslots : xs.length ≤ m.walk.program.cfSlots := by
      show xs.length ≤ (m.walk.program.size + 8 - 1) / 8
      omega
    rw [hv.flow hh hm.reachedEnd hslots, hm.cfPc]
    rfl

theorem visited {m' : Machine σ} {u : Unit} (hw : WalksThrough h xs m (.ok u m')) :
    ∀ x ∈ xs, ∃ m₁ m₂, m₁.walk.stage = m.walk.stage ∧ visit h x.2 m₁ = .ok () m₂ := by
  cases hw with
  | walked _ hv => exact hv.visited hh

end WalksThrough

end

/-! ## Compilation -/

namespace Compile

theorem fresh_start (c : Context) (p : Program) (stage : Stage) (isFunction : Bool) :
    (Job.start c p stage isFunction).machine.walk.Fresh := ⟨rfl, rfl, rfl⟩

/-- A compilation halts as its walk does. -/
theorem halt_call_compile (j : Job) :
    (j.call .compile).1 = haltOf (walkProgram (handlers j.context) j.machine) := by
  unfold Job.call
  simp only [Call.action, walkToEnd]
  cases walkProgram (handlers j.context) j.machine <;> rfl

/-- A compilation leaves the state of its walk behind, with the outcome recorded. -/
theorem walk_call_compile (j : Job) :
    ∃ status, (j.call .compile).2.walk =
      { (stateOf (walkProgram (handlers j.context) j.machine)).walk with status := status } := by
  unfold Job.call
  simp only [Call.action, walkToEnd]
  cases walkProgram (handlers j.context) j.machine <;> exact ⟨_, rfl⟩

/-- A compilation walks the instructions of its program in order, from the first one to the one where
it stops, and both of its counters hold. -/
theorem walk_in_order (c : Context) (p : Program) (stage : Stage) (isFunction : Bool)
    (hsize : p.size < 2 ^ 27) :
    ∃ xs : List (Nat × CfInstr),
      WalksThrough (handlers c) xs (Job.start c p stage isFunction).machine
          (walkProgram (handlers c) (Job.start c p stage isFunction).machine) ∧
        xs.map Prod.fst = List.range xs.length ∧ (∀ x ∈ xs, p.cfAt x.1 = .ok x.2) ∧
        (∀ x ∈ xs, ∀ slots, p.aluClause x.2.aluAddr x.2.aluCount = .ok slots →
          AluGroup.Reads 0 slots (AluGroup.readAll slots)) ∧
        ∀ halt? j, (Job.start c p stage isFunction).call .compile = (halt?, j) →
          (halt? = none →
            j.walk.cfPc.toNat = xs.length ∧
              (j.walk.reachedEnd = true ∧
                  (∃ last cf, j.walk.cfPc.toNat = last + 1 ∧ p.cfAt last = .ok cf ∧
                    cf.isTerminal = true ∧ p.GoesOnTo last) ∨
                j.walk.reachedEnd = false ∧ p.size = 8 * j.walk.cfPc.toNat ∧
                  ∀ n, p.GoesOnTo n)) ∧
            j.walk.cfPc.toNat ≤ p.size / 8 ∧
            j.walk.groupPc.toNat ≤ 128 * (j.walk.cfPc.toNat + 1) ∧
            128 * (j.walk.cfPc.toNat + 1) < 2 ^ 32 ∧
            ∀ counter, halt? ≠ some (.counterOverflow counter) := by
  have hh := onlyFault_handlers c
  have hm := fresh_start c p stage isFunction
  obtain ⟨xs, hw⟩ := exists_walksThrough hh (Job.start c p stage isFunction).machine
  refine ⟨xs, hw, hw.slots hh hm, hw.cfAt hh, fun _ _ slots _ => AluGroup.reads_readAll slots, ?_⟩
  intro halt? j hcall
  have hhalt := halt_call_compile (Job.start c p stage isFunction)
  obtain ⟨status, hwalk⟩ := walk_call_compile (Job.start c p stage isFunction)
  rw [hcall] at hhalt hwalk
  dsimp only [Job.start] at hhalt hwalk hw hm
  generalize walkProgram (handlers c) _ = r at hhalt hwalk hw
  have hlen : 8 * xs.length ≤ p.size := hw.length_le hh hm
  obtain ⟨hpc, hpc', hgroups⟩ := hw.counters hh hm
  rw [clauseCapacity] at hgroups
  rw [hwalk]
  dsimp only
  refine ⟨?_, by omega, by omega, by omega, ?_⟩
  · intro hnone
    cases r with
    | ok u m => exact hw.stops hh hm
    | error halt m => exact absurd (hhalt.symm.trans hnone) (Option.some_ne_none halt)
  · intro counter hover
    cases r with
    | ok u m => exact Option.some_ne_none _ (hover.symm.trans hhalt)
    | error halt m =>
      obtain rfl : Halt.counterOverflow counter = halt := Option.some.inj (hover.symm.trans hhalt)
      rcases hw.halts hh hm with ⟨fault, hfault⟩ | ⟨-, hlarge⟩ | ⟨-, hlarge⟩
      · cases hfault
      · have : 2 ^ 28 ≤ p.size := hlarge
        omega
      · have : 2 ^ 35 ≤ p.size := hlarge
        omega

/-- Three instructions. The second one starts a clause of nine slots, a number that has a bit where
the others keep the mark that ends the program; the third one ends it. The slots of the clause
follow. -/
def nineSlots : Program :=
  ⟨(Word.listToBytes
    ([0, 0, 3, 0x20200000, 0, 0x200000] ++ (List.replicate 9 [0x80000000, 0x1A00]).flatten)).toArray⟩

/-- All three instructions are visited, and the slots after them are not. -/
theorem walk_in_order_nineSlots :
    nineSlots.size < 2 ^ 27 ∧
      ∃ xs, WalksThrough (handlers {}) xs (Job.start {} nineSlots .pixel false).machine
          (walkProgram (handlers {}) (Job.start {} nineSlots .pixel false).machine) ∧
        xs.map Prod.fst = [0, 1, 2] ∧
        ∃ j, (Job.start {} nineSlots .pixel false).call .compile = (none, j) ∧
          j.walk.cfPc = 3 ∧ j.walk.groupPc = 9 ∧ j.walk.reachedEnd = true ∧
          3 ≤ nineSlots.size / 8 := by
  have hsize : nineSlots.size < 2 ^ 27 := by decide +kernel
  refine ⟨hsize, ?_⟩
  have hrun : ((Job.start {} nineSlots .pixel false).call .compile).1.isNone = true ∧
      ((Job.start {} nineSlots .pixel false).call .compile).2.walk.cfPc = 3 ∧
      ((Job.start {} nineSlots .pixel false).call .compile).2.walk.groupPc = 9 ∧
      ((Job.start {} nineSlots .pixel false).call .compile).2.walk.reachedEnd = true := by
    decide +kernel
  obtain ⟨xs, hw, hslots, -, -, hcall⟩ := walk_in_order {} nineSlots .pixel false hsize
  generalize (Job.start {} nineSlots .pixel false).call .compile = r at hrun hcall ⊢
  obtain ⟨halt?, j⟩ := r
  obtain ⟨hnone, hpc, hgroups, hend⟩ := hrun
  obtain rfl := Option.isNone_iff_eq_none.mp hnone
  obtain ⟨hstop, hroom, -⟩ := hcall none j rfl
  have hlen := (hstop rfl).1
  dsimp only at hpc
  rw [hpc] at hlen hroom
  have hlen : xs.length = 3 := hlen.symm
  rw [hlen] at hslots
  exact ⟨xs, hw, hslots, j, rfl, hpc, hgroups, hend, hroom⟩

end Compile

end LatteHlsl
