import LatteHlsl.Proofs.Visits

/-!
# Walks in lockstep

Two walks, over two programs or with two sets of handlers, are compared action by action. From
related states they come to the same value or the same halt, again in related states. Some halts can
be exempted: from there on nothing is said of the other walk.

* `Effect.Matches`, `Effect.Lockstep`: outcomes that match, and actions that come to such outcomes.
* `Program.ReadsLike`, `Handlers.Lockstep`: what two walks have to share.
* `flowClosed_lockstep`: one control flow instruction in lockstep.
* `WalksThrough.lockstep`: whole walks, which visit the same instructions.
* `matches_walkProgram`: what whole walks come to.
* `Compile.EmitClosed.handlersMatch`: handlers of the compiler in lockstep.
-/

namespace LatteHlsl

open Isa

/-! ## Actions -/

namespace Effect

variable {σ τ α β : Type}

/-- Two outcomes match: the same value or the same halt, in related states. An outcome that is an
exempt halt matches any other. -/
inductive Matches (exempt : Halt → Prop) (R : σ → τ → Prop) :
    EStateM.Result Halt σ α → EStateM.Result Halt τ α → Prop where
  | ok {a : α} {s : σ} {t : τ} (h : R s t) : Matches exempt R (.ok a s) (.ok a t)
  | error {halt : Halt} {s : σ} {t : τ} (h : R s t) :
      Matches exempt R (.error halt s) (.error halt t)
  | exempt {halt : Halt} {s : σ} {r : EStateM.Result Halt τ α} (h : exempt halt) :
      Matches exempt R (.error halt s) r

/-- From related states, two actions come to outcomes that match. -/
def Lockstep (exempt : Halt → Prop) (R : σ → τ → Prop) (x : Effect σ α) (y : Effect τ α) : Prop :=
  ∀ ⦃s t⦄, R s t → Matches exempt R (x s) (y t)

/-- Outcomes that match halt alike, unless by an exempt halt. -/
theorem Matches.halts_alike {exempt : Halt → Prop} {R : σ → τ → Prop}
    {r : EStateM.Result Halt σ α} {r' : EStateM.Result Halt τ α} (h : Matches exempt R r r')
    (hnot : ∀ halt, haltOf r = some halt → ¬ exempt halt) :
    haltOf r' = haltOf r ∧ R (stateOf r) (stateOf r') := by
  cases h with
  | ok h => exact ⟨rfl, h⟩
  | error h => exact ⟨rfl, h⟩
  | exempt h => exact absurd h (hnot _ rfl)

/-- Two reads that are to match: they give the same, or the first one fails by an exempt halt. -/
def ReadMatches (exempt : Halt → Prop) (r r' : Except DecodeFault α) : Prop :=
  r' = r ∨ ∃ fault, r = .error fault ∧ exempt (.fault (.decode fault))

theorem ReadMatches.bind {exempt : Halt → Prop} {r r' : Except DecodeFault α}
    {f g : α → Except DecodeFault β} (h : ReadMatches exempt r r')
    (hf : ∀ a, ReadMatches exempt (f a) (g a)) : ReadMatches exempt (r >>= f) (r' >>= g) := by
  rcases h with rfl | ⟨fault, rfl, hexempt⟩
  · cases r' with
    | ok a => exact hf a
    | error fault => exact .inl rfl
  · exact .inr ⟨fault, rfl, hexempt⟩

theorem ReadMatches.eq_ok {exempt : Halt → Prop} {r r' : Except DecodeFault α} {a : α}
    (h : ReadMatches exempt r r') (hr : r = .ok a) : r' = .ok a := by
  rcases h with hsame | ⟨fault, hfault, -⟩
  · exact hsame.trans hr
  · cases hr.symm.trans hfault

namespace Lockstep

variable {exempt : Halt → Prop} {R : σ → τ → Prop}

protected theorem pure (a : α) : Lockstep exempt R (pure a) (pure a) := fun _ _ h => .ok h

protected theorem throw (halt : Halt) :
    Lockstep exempt R (throw halt : Effect σ α) (throw halt : Effect τ α) := fun _ _ h => .error h

protected theorem fail (fault : CompileFault) :
    Lockstep exempt R (fail fault : Effect σ α) (fail fault : Effect τ α) := .throw _

protected theorem check (r : Except CompileFault α) : Lockstep exempt R (check r) (check r) := by
  cases r with
  | ok a => exact .pure a
  | error fault => exact .fail fault

protected theorem decode {r r' : Except DecodeFault α} (h : ReadMatches exempt r r') :
    Lockstep exempt R (decode r) (decode r') := by
  rcases h with rfl | ⟨fault, rfl, hexempt⟩
  · cases r' with
    | ok a => exact .pure a
    | error fault => exact .fail _
  · exact fun _ _ _ => .exempt hexempt

protected theorem next (counter : Counter) (n : Word) :
    Lockstep exempt R (next counter n) (next counter n) := by
  unfold next
  split
  · exact .throw _
  · exact .pure _

protected theorem modify {f : σ → σ} {g : τ → τ} (h : ∀ s t, R s t → R (f s) (g t)) :
    Lockstep exempt R (modify f : Effect σ PUnit) (modify g : Effect τ PUnit) :=
  fun s t hst => .ok (h s t hst)

protected theorem set {s : σ} {t : τ} (h : R s t) :
    Lockstep exempt R (set s : Effect σ PUnit) (set t : Effect τ PUnit) := fun _ _ _ => .ok h

protected theorem bind {x : Effect σ α} {y : Effect τ α} {f : α → Effect σ β} {g : α → Effect τ β}
    (hx : Lockstep exempt R x y) (hf : ∀ a, Lockstep exempt R (f a) (g a)) :
    Lockstep exempt R (x >>= f) (y >>= g) := by
  intro s t hst
  have hxy := hx hst
  show Matches exempt R (EStateM.bind x f s) (EStateM.bind y g t)
  unfold EStateM.bind
  generalize x s = r at hxy
  generalize y t = r' at hxy
  cases hxy with
  | ok h => exact hf _ h
  | error h => exact .error h
  | exempt h => exact .exempt h

/-- Both actions may look at their states first. -/
theorem get_bind {f : σ → Effect σ β} {g : τ → Effect τ β}
    (h : ∀ s t, R s t → Lockstep exempt R (f s) (g t)) :
    Lockstep exempt R (get >>= f) (get >>= g) := fun s t hst => h s t hst hst

protected theorem forM {f : α → Effect σ Unit} {g : α → Effect τ Unit} (as : List α)
    (h : ∀ a, Lockstep exempt R (f a) (g a)) : Lockstep exempt R (as.forM f) (as.forM g) := by
  induction as with
  | nil => exact .pure ()
  | cons a as ih => exact .bind (h a) fun _ => ih

protected theorem mapM {f : α → Effect σ β} {g : α → Effect τ β} (as : List α)
    (h : ∀ a, Lockstep exempt R (f a) (g a)) : Lockstep exempt R (as.mapM f) (as.mapM g) := by
  induction as with
  | nil =>
    rw [List.mapM_nil, List.mapM_nil]
    exact .pure []
  | cons a as ih =>
    rw [List.mapM_cons, List.mapM_cons]
    exact .bind (h a) fun b => .bind ih fun bs => .pure (b :: bs)

end Lockstep

end Effect

/-! ## Machines -/

/-- Walks that differ in their programs only, which are related. -/
structure Walk.Like (P : Program → Program → Prop) (w w' : Walk) : Prop where
  program : P w.program w'.program
  rest : w' = { w with program := w'.program }

namespace Walk.Like

variable {P : Program → Program → Prop} {w w' : Walk}

theorem cfPc (h : w.Like P w') : w'.cfPc = w.cfPc := by rw [h.rest]

theorem reachedEnd (h : w.Like P w') : w'.reachedEnd = w.reachedEnd := by rw [h.rest]

theorem eq (h : w.Like Eq w') : w' = w := by
  rw [h.rest, ← h.program]

end Walk.Like

/-- Machines whose walks differ in their programs only. -/
structure Machine.Like {σ τ : Type} (P : Program → Program → Prop) (R : σ → τ → Prop)
    (m : Machine σ) (m' : Machine τ) : Prop where
  walk : m.walk.Like P m'.walk
  out : R m.out m'.out

/-- A program that can be read like another one, unless that one faults by an exempt halt. -/
structure Program.ReadsLike (exempt : Halt → Prop) (p p' : Program) : Prop where
  empty : p.size = 0 → p'.size = 0 ∨ exempt (.fault (.decode .emptyProgram))
  nonempty : p.size ≠ 0 → p'.size ≠ 0
  hasCf : ∀ i, p.hasCf i = true → p'.hasCf i = true
  cfAt : ∀ i, Effect.ReadMatches exempt (p.cfAt i) (p'.cfAt i)
  clause : ∀ {α : Type} {reading : Program → Except DecodeFault α}, ClauseRead reading →
    Effect.ReadMatches exempt (reading p) (reading p')

theorem Program.ReadsLike.refl {exempt : Halt → Prop} (p : Program) : p.ReadsLike exempt p :=
  ⟨.inl, id, fun _ h => h, fun _ => .inl rfl, fun _ => .inl rfl⟩

namespace Program.ReadsLike

variable {exempt : Halt → Prop} {P : Program → Program → Prop} {w w' : Walk}

theorem checkStart_ok (h : w.program.ReadsLike exempt w'.program) (hw : w.Like P w')
    (hstart : checkStart w = .ok ()) : checkStart w' = .ok () := by
  rw [hw.rest]
  unfold checkStart at hstart ⊢
  split at hstart
  · cases hstart
  · rename_i hsize
    rw [if_neg (h.nonempty hsize)]
    exact hstart

theorem checkStart_error {fault : CompileFault} (h : w.program.ReadsLike exempt w'.program)
    (hw : w.Like P w') (hstart : checkStart w = .error fault) :
    checkStart w' = .error fault ∨ exempt (.fault fault) := by
  rw [hw.rest]
  unfold checkStart at hstart ⊢
  split at hstart
  · rename_i hsize
    cases hstart
    exact (h.empty hsize).imp_left fun hsize' => if_pos hsize'
  · rename_i hsize
    rw [if_neg (h.nonempty hsize)]
    exact .inl hstart

end Program.ReadsLike

section

variable {σ τ : Type}

/-- A program may have slots that the other one has not. Then a walk stops where the other one does
only if that one was ended by an instruction. -/
def StopsAlike (P : Program → Program → Prop) (r : EStateM.Result Halt (Machine σ) Unit) : Prop :=
  (∀ p p', P p p' → p'.hasCf = p.hasCf) ∨ ∀ u m, r = .ok u m → m.walk.reachedEnd = true

/-- Handler actions in lockstep, for walks that differ in their programs only. -/
def ActLockstep (exempt : Halt → Prop) (P : Program → Program → Prop) (R : σ → τ → Prop)
    (f : Walk → Effect σ Unit) (g : Walk → Effect τ Unit) : Prop :=
  ∀ w w', w.Like P w' → Effect.Lockstep exempt R (f w) (g w')

/-- Handlers in lockstep for what they are called for: they lead to the same clause. -/
structure Action.Lockstep (exempt : Halt → Prop) (P : Program → Program → Prop)
    (R : σ → τ → Prop) (a : Action σ) (b : Action τ) : Prop where
  run : ActLockstep exempt P R a.run b.run
  clause : b.clause = a.clause

/-- Two tables hold related handlers for an operation. Only where the lack of a handler is an exempt
halt may the first table have none while the second has one. -/
def HandlersMatch {α β : Type} (exempt : Halt → Prop) (S : α → β → Prop) (op : Opcode)
    (a : Option α) (b : Option β) : Prop :=
  Option.Rel S a b ∨ a = none ∧ exempt (.fault (.unimplemented op))

/-- Handlers in lockstep. -/
structure Handlers.Lockstep (exempt : Halt → Prop) (P : Program → Program → Prop) (R : σ → τ → Prop)
    (h : Handlers σ) (h' : Handlers τ) : Prop where
  call : ∀ v : Invocation,
    HandlersMatch exempt (Action.Lockstep exempt P R) v.opcode (h.find v) (h'.find v)
  beginGroup : ∀ cf g,
    ActLockstep exempt P R (fun w => h.beginGroup w cf g) fun w => h'.beginGroup w cf g
  endGroup : ∀ cf g,
    ActLockstep exempt P R (fun w => h.endGroup w cf g) fun w => h'.endGroup w cf g

open Effect

variable {exempt : Halt → Prop} {P : Program → Program → Prop} {R : σ → τ → Prop}

theorem lockstep_act {f : Walk → Effect σ Unit} {g : Walk → Effect τ Unit}
    (h : ActLockstep exempt P R f g) :
    Lockstep exempt (Machine.Like P R) (Machine.act f) (Machine.act g) := by
  intro m m' hm
  have hfg := h m.walk m'.walk hm.walk hm.out
  unfold Machine.act
  generalize f m.walk m.out = r at hfg
  generalize g m'.walk m'.out = r' at hfg
  cases hfg with
  | ok h => exact .ok ⟨hm.walk, h⟩
  | error h => exact .error ⟨hm.walk, h⟩
  | exempt h => exact .exempt h

/-- A change of the walk that leaves its program alone. -/
theorem lockstep_modifyWalk {f : Walk → Walk}
    (h : ∀ (w : Walk) (p : Program), f { w with program := p } = { f w with program := p })
    (hkeeps : ∀ w, (f w).program = w.program) :
    Lockstep exempt (Machine.Like P R) (Machine.modifyWalk f) (Machine.modifyWalk f) := by
  refine .modify fun m m' hm => ⟨⟨?_, ?_⟩, hm.out⟩
  · rw [hkeeps, hkeeps]
    exact hm.walk.program
  · rw [hkeeps]
    exact (congrArg f hm.walk.rest).trans (h _ _)

theorem lockstep_count (counter : Counter) :
    Lockstep exempt (Machine.Like P R) (Machine.count counter) (Machine.count counter) := by
  refine .get_bind fun m m' hm => ?_
  rw [hm.walk.rest]
  cases counter <;>
    exact .bind (.next _ _) fun n => lockstep_modifyWalk (fun _ _ => rfl) fun _ => rfl

/-- Looking a handler up and going on with it. -/
theorem lockstep_handler {α β γ : Type} {S : α → β → Prop} {op : Opcode} {a : Option α}
    {b : Option β} {f : α → Effect (Machine σ) γ} {g : β → Effect (Machine τ) γ}
    (hab : HandlersMatch exempt S op a b)
    (hfg : ∀ x y, S x y → Lockstep exempt (Machine.Like P R) (f x) (g y)) :
    Lockstep exempt (Machine.Like P R) (handler op a >>= f) (handler op b >>= g) := by
  rcases hab with hrel | ⟨rfl, hexempt⟩
  · cases hrel with
    | some h => exact hfg _ _ h
    | none => exact Lockstep.fail (.unimplemented op)
  · exact fun _ _ _ => .exempt hexempt

/-! ## Instructions -/

variable {h : Handlers σ} {h' : Handlers τ} (hh : h.Lockstep exempt P R h')
include hh

theorem lockstep_invoke (v : Invocation) :
    Lockstep exempt (Machine.Like P R) (invoke h v) (invoke h' v) := by
  refine lockstep_handler (hh.call v) fun a b hab => .bind (lockstep_act hab.run) fun _ => ?_
  rw [hab.clause]
  exact .pure _

variable (hp : ∀ p p', P p p' → p.ReadsLike exempt p')
include hp

omit hh in
/-- Reading a clause and going on with it. -/
theorem lockstep_read_bind {α β : Type} {reading : Program → Except DecodeFault α}
    {f : α → Effect (Machine σ) β} {g : α → Effect (Machine τ) β} (hread : ClauseRead reading)
    (hf : ∀ p v, reading p = .ok v → Lockstep exempt (Machine.Like P R) (f v) (g v)) :
    Lockstep exempt (Machine.Like P R) (Machine.read reading >>= f)
      (Machine.read reading >>= g) := by
  intro m m' hm
  show Matches exempt (Machine.Like P R) ((decode (reading m.walk.program) >>= f) m)
    ((decode (reading m'.walk.program) >>= g) m')
  rcases (hp _ _ hm.walk.program).clause hread with hsame | ⟨fault, hfault, hexempt⟩
  · rw [hsame]
    cases hr : reading m.walk.program with
    | ok v => exact hf _ v hr hm
    | error fault => exact .error hm
  · rw [hfault]
    exact .exempt hexempt

/-- Walks with handlers in lockstep are in lockstep. -/
theorem flowClosed_lockstep :
    FlowClosed h h' fun _ => Lockstep exempt (Machine.Like P R) where
  mono hx _ := hx
  pure := .pure
  fail _ := .fail _
  bind := .bind
  alu _ _ := lockstep_invoke hh _
  beginGroup cf g := lockstep_act (hh.beginGroup cf g)
  endGroup cf g := lockstep_act (hh.endGroup cf g)
  countGroup := lockstep_count .group
  read_bind hread hf := lockstep_read_bind hp hread hf
  invoke v _ := lockstep_invoke hh v
  examine op := by
    refine .get_bind fun m m' hm => ?_
    have hplace : checkPlacement m'.walk op = checkPlacement m.walk op := by
      rw [hm.walk.rest]
      rfl
    dsimp only
    rw [hplace]
    exact .check _
  afterCf op cf := lockstep_modifyWalk (fun _ _ => rfl) fun _ => rfl
  afterExport cf := lockstep_modifyWalk (fun _ _ => rfl) fun _ => rfl
  countCf := lockstep_count .cf

theorem lockstep_visit (cf : CfInstr) :
    Lockstep exempt (Machine.Like P R) (visit h cf) (visit h' cf) :=
  .bind ((flowClosed_lockstep hh hp).walkCf cf) fun _ => lockstep_count .cf

/-! ## Whole walks -/

/-- A loop that does not come to an exempt halt is followed visit by visit. -/
theorem Visits.lockstep {xs : List (Nat × CfInstr)} {m : Machine σ} {m' : Machine τ}
    {r : EStateM.Result Halt (Machine σ) Unit} (hv : Visits h xs m r) (hm : m.Like P R m')
    (hnot : ∀ halt s, r = .error halt s → ¬ exempt halt)
    (hstop : StopsAlike P r) :
    ∃ r', Visits h' xs m' r' ∧ Matches exempt (Machine.Like P R) r r' := by
  induction hv generalizing m' with
  | @ended m hend =>
    refine ⟨.ok () m', .ended ?_, .ok hm⟩
    rw [hm.walk.reachedEnd, hm.walk.cfPc]
    rcases hstop with hsame | hreached
    · rw [hsame _ _ hm.walk.program]
      exact hend
    · exact .inl (hreached () m rfl)
  | @unreadable m fault hgoes hcf hat =>
    have hreads := hp _ _ hm.walk.program
    refine ⟨.error (.fault (.decode fault)) m', ?_, .error hm⟩
    rw [← hm.walk.reachedEnd] at hgoes
    rw [← hm.walk.cfPc] at hcf hat
    refine .unreadable hgoes (hreads.hasCf _ hcf) ?_
    rcases hreads.cfAt m'.walk.cfPc.toNat with hsame | ⟨fault', hfault, hexempt⟩
    · exact hsame.trans hat
    · cases hat.symm.trans hfault
      exact absurd hexempt (hnot _ _ rfl)
  | @halted m m₁ cf halt hgoes hcf hat hvisit =>
    have hreads := hp _ _ hm.walk.program
    have hat' := ReadMatches.eq_ok (hreads.cfAt m.walk.cfPc.toNat) hat
    have hvisit' := lockstep_visit hh hp cf hm
    rw [hvisit] at hvisit'
    generalize hr' : visit h' cf m' = r' at hvisit'
    rw [← hm.walk.reachedEnd] at hgoes
    rw [← hm.walk.cfPc] at hcf hat' ⊢
    cases hvisit' with
    | error hlike => exact ⟨_, .halted hgoes (hreads.hasCf _ hcf) hat' hr', .error hlike⟩
    | exempt hexempt => exact absurd hexempt (hnot _ _ rfl)
  | @step m m₁ cf xs r hgoes hcf hat hvisit hrest ih =>
    have hreads := hp _ _ hm.walk.program
    have hat' := ReadMatches.eq_ok (hreads.cfAt m.walk.cfPc.toNat) hat
    have hvisit' := lockstep_visit hh hp cf hm
    rw [hvisit] at hvisit'
    generalize hr' : visit h' cf m' = r' at hvisit'
    rw [← hm.walk.reachedEnd] at hgoes
    rw [← hm.walk.cfPc] at hcf hat' ⊢
    cases hvisit' with
    | ok hlike =>
      obtain ⟨r', hrest', hmatch⟩ := ih hlike hnot hstop
      exact ⟨r', .step hgoes (hreads.hasCf _ hcf) hat' hr' hrest', hmatch⟩

theorem WalksThrough.lockstep {xs : List (Nat × CfInstr)} {m : Machine σ} {m' : Machine τ}
    {r : EStateM.Result Halt (Machine σ) Unit} (hw : WalksThrough h xs m r) (hm : m.Like P R m')
    (hnot : ∀ halt s, r = .error halt s → ¬ exempt halt)
    (hstop : StopsAlike P r) :
    ∃ r', WalksThrough h' xs m' r' ∧ Matches exempt (Machine.Like P R) r r' := by
  cases hw with
  | @refused _ fault hstart =>
    refine ⟨.error (.fault fault) m', .refused ?_, .error hm⟩
    exact ((hp _ _ hm.walk.program).checkStart_error hm.walk hstart).resolve_right (hnot _ _ rfl)
  | walked hstart hv =>
    have hm₁ : Machine.Like P R { m with walk := { m.walk with status := .walking } }
        { m' with walk := { m'.walk with status := .walking } } :=
      ⟨⟨hm.walk.program, by rw [hm.walk.rest]⟩, hm.out⟩
    obtain ⟨r', hv', hmatch⟩ := hv.lockstep hh hp hm₁ hnot hstop
    exact ⟨r', .walked ((hp _ _ hm.walk.program).checkStart_ok hm.walk hstart) hv', hmatch⟩

end

/-! ## The outcome of a walk -/

section

open Effect

variable {σ : Type} {h : Handlers σ}

theorem walkSteps_of_goes {n : Nat} {m : Machine σ} (hgoes : m.walk.reachedEnd = false)
    (hcf : m.walk.program.hasCf m.walk.cfPc.toNat = true) :
    walkSteps h (n + 1) m =
      (do
        let cf ← decode (m.walk.program.cfAt m.walk.cfPc.toNat)
        visit h cf
        walkSteps h n : Effect (Machine σ) Unit) m := by
  rw [walkSteps_succ, hgoes, hcf]
  rfl

variable (hh : h.OnlyFault)
include hh

/-- The loop of a walk has one outcome, whatever number of steps it is given beyond those that are
enough. -/
theorem Visits.walkSteps_eq {xs : List (Nat × CfInstr)} {m : Machine σ}
    {r : EStateM.Result Halt (Machine σ) Unit} (hv : Visits h xs m r) {n : Nat}
    (hn : m.walk.program.cfSlots - m.walk.cfPc.toNat ≤ n) : walkSteps h n m = r := by
  induction hv generalizing n with
  | ended hend =>
    cases n with
    | zero => rfl
    | succ n =>
      rw [walkSteps_succ, if_pos (by simpa using hend)]
      rfl
  | unreadable hgoes hcf hat =>
    have hslot := Program.lt_cfSlots_of_hasCf hcf
    obtain ⟨n, rfl⟩ := Nat.exists_eq_add_one.mpr (show 0 < n by omega)
    rw [walkSteps_of_goes hgoes hcf, hat]
    rfl
  | halted hgoes hcf hat hvisit =>
    have hslot := Program.lt_cfSlots_of_hasCf hcf
    obtain ⟨n, rfl⟩ := Nat.exists_eq_add_one.mpr (show 0 < n by omega)
    rw [walkSteps_of_goes hgoes hcf, bind_of_eq_ok (decode_eq_ok.mpr ⟨hat, rfl⟩),
      bind_of_eq_error hvisit]
  | @step m m₁ _ _ _ hgoes hcf hat hvisit _ ih =>
    have hslot := Program.lt_cfSlots_of_hasCf hcf
    obtain ⟨hpc, -, hwalk⟩ := visit_ok hh hvisit
    have hkept : m₁.walk.program = m.walk.program := by rw [hwalk]
    obtain ⟨n, rfl⟩ := Nat.exists_eq_add_one.mpr (show 0 < n by omega)
    rw [walkSteps_of_goes hgoes hcf, bind_of_eq_ok (decode_eq_ok.mpr ⟨hat, rfl⟩),
      bind_of_eq_ok hvisit]
    exact ih (by rw [hkept]; omega)

theorem WalksThrough.walkProgram_eq {xs : List (Nat × CfInstr)} {m : Machine σ}
    {r : EStateM.Result Halt (Machine σ) Unit} (hw : WalksThrough h xs m r) :
    walkProgram h m = r := by
  cases hw with
  | refused hstart => exact walkProgram_of_refused hstart
  | walked hstart hv =>
    rw [walkProgram_of_start hstart]
    exact hv.walkSteps_eq hh (Nat.le_refl _)

end

/-- Walks of programs with handlers in lockstep. -/
theorem matches_walkProgram {σ τ : Type} {exempt : Halt → Prop} {P : Program → Program → Prop}
    {R : σ → τ → Prop} {h : Handlers σ} {h' : Handlers τ} (hh : h.Lockstep exempt P R h')
    (hp : ∀ p p', P p p' → p.ReadsLike exempt p') (hfaults : h.OnlyFault) (hfaults' : h'.OnlyFault)
    {m : Machine σ} {m' : Machine τ} (hm : m.Like P R m') (hstop : StopsAlike P (walkProgram h m)) :
    Effect.Matches exempt (Machine.Like P R) (walkProgram h m) (walkProgram h' m') := by
  obtain ⟨xs, hw⟩ := exists_walksThrough hfaults m
  by_cases hexempt : ∃ halt s, walkProgram h m = .error halt s ∧ exempt halt
  · obtain ⟨halt, s, herror, hexempt⟩ := hexempt
    rw [herror]
    exact .exempt hexempt
  · obtain ⟨r', hw', hmatch⟩ := hw.lockstep hh hp hm
      (fun halt s herror hhalt => hexempt ⟨halt, s, herror, hhalt⟩) hstop
    rw [hw'.walkProgram_eq hfaults']
    exact hmatch

/-- The same with the outcome recorded. -/
theorem matches_walkToEnd {σ τ : Type} {exempt : Halt → Prop} {P : Program → Program → Prop}
    {R : σ → τ → Prop} {h : Handlers σ} {h' : Handlers τ} {m : Machine σ} {m' : Machine τ}
    (hmatch : Effect.Matches exempt (Machine.Like P R) (walkProgram h m) (walkProgram h' m')) :
    Effect.Matches exempt (Machine.Like P R) (walkToEnd h m) (walkToEnd h' m') := by
  unfold walkToEnd
  generalize walkProgram h m = r at hmatch
  generalize walkProgram h' m' = r' at hmatch
  cases hmatch with
  | ok hm => exact .ok ⟨⟨hm.walk.program, by rw [hm.walk.rest]⟩, hm.out⟩
  | error hm => exact .error ⟨⟨hm.walk.program, by rw [hm.walk.rest]⟩, hm.out⟩
  | exempt h => exact .exempt h

/-! ## Compilations -/

namespace Compile

/-- The handlers of two compilations are in lockstep if what they are put together from is. -/
theorem EmitClosed.handlersMatch {c c' : Context} {exempt : Halt → Prop}
    {P : Program → Program → Prop} {R : Output → Output → Prop}
    (hQ : EmitClosed c c' fun _ => Effect.Lockstep exempt R) (v : Invocation) :
    HandlersMatch exempt (Action.Lockstep exempt P R) v.opcode ((handlers c).find v)
      ((handlers c').find v) := by
  have hfind := hQ.find (v := v) (.inr Effect.Lockstep.throw)
  generalize (handlers c).find v = a at hfind ⊢
  generalize (handlers c').find v = b at hfind ⊢
  cases hfind with
  | none => exact .inl .none
  | some h =>
    refine .inl (.some ⟨fun w w' hw => h.2 w w' hw.cfPc ?_, h.1⟩)
    rw [hw.rest]

/-- A compilation is the walk with its outcome. -/
theorem call_compile_eq (j : Job) :
    j.call .compile =
      (Effect.haltOf (walkToEnd (handlers j.context) j.machine),
        { j with machine := Effect.stateOf (walkToEnd (handlers j.context) j.machine) }) := by
  unfold Job.call
  simp only [Call.action]
  cases walkToEnd (handlers j.context) j.machine <;> rfl

end Compile

end LatteHlsl
