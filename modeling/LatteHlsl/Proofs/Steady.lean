import LatteHlsl.Proofs.Visits

/-!
# Walks that are steady

What a walk over one control flow instruction comes to depends on the instruction and on where the
walk stands, and not on what the handlers have put out or how many groups were counted before. Only
the counter of groups can get in the way: it has an end.

* `Machine.At`: where a machine stands, and how many groups it has counted.
* `Tallies`: an action that counts a fixed number of groups and then comes to a fixed result.
* `Steady`, `FailsAlike`: actions that do so, always or at least when they fail.
* `Handlers.Steady`: handlers whose results do not depend on their state.
* `failsAlike_visit`: one control flow instruction, walked by such handlers.
-/

namespace LatteHlsl

open Isa

/-- The machine stands where `w` does, with `n` groups counted. -/
structure Machine.At {σ : Type} (w : Walk) (n : Nat) (m : Machine σ) : Prop where
  walk : m.walk = { w with groupPc := m.walk.groupPc }
  groups : m.walk.groupPc.toNat = n

namespace Machine.At

variable {σ : Type} {w : Walk} {n k : Nat} {m m' : Machine σ}

theorem self (m : Machine σ) : m.At m.walk m.walk.groupPc.toNat := ⟨rfl, rfl⟩

theorem lt (h : m.At w n) : n < 2 ^ 32 := by
  rw [← h.groups]
  exact m.walk.groupPc.isLt

/-- Machines that stand where another one does. -/
theorem of_at (h : m.At w n) (h' : m'.At w k) : m'.At m.walk k := by
  refine ⟨?_, h'.groups⟩
  rw [h.walk]
  exact h'.walk

theorem trans (h : m.At w n) (h' : m'.At m.walk k) : m'.At w k := by
  refine ⟨?_, h'.groups⟩
  have hwalk := h'.walk
  rw [h.walk] at hwalk
  exact hwalk

theorem program (h : m.At w n) : m.walk.program = w.program := by rw [h.walk]

theorem withOut (h : m.At w n) (out : σ) : ({ m with out := out } : Machine σ).At w n :=
  ⟨h.walk, h.groups⟩

end Machine.At

namespace Effect

variable {σ α β : Type}

/-- A value or a halt, with the state that it leaves behind. -/
def leaving (s : σ) : Except Halt α → EStateM.Result Halt σ α
  | .ok a => .ok a s
  | .error halt => .error halt s

/-! ## Counting and coming to a result -/

/-- From every machine that stands where `w` does, an action counts `g` groups and comes to `r`. If
the counter cannot hold them, it stops with the counter at its end. -/
structure Tallies (w : Walk) (g : Nat) (r : Except Halt α) (x : Effect (Machine σ) α) : Prop where
  within : ∀ {n m}, m.At w n → n + g < 2 ^ 32 → ∃ m', m'.At w (n + g) ∧ x m = leaving m' r
  past : ∀ {n m}, m.At w n → 2 ^ 32 ≤ n + g →
    ∃ m', m'.At w (2 ^ 32 - 1) ∧ x m = .error (.counterOverflow .group) m'

/-- An action counts a fixed number of groups and comes to a fixed result. -/
def Steady (w : Walk) (x : Effect (Machine σ) α) : Prop := ∃ g r, Tallies w g r x

/-- An action that fails by a fault from one of the machines that stand where `w` does fails from
all of them in the same way. -/
def FailsAlike (w : Walk) (x : Effect (Machine σ) α) : Prop :=
  ∀ n m halt m', m.At w n → x m = .error halt m' → halt.IsFault → ∃ g, Tallies w g (.error halt) x

namespace Tallies

variable {w : Walk} {g g' : Nat} {x : Effect (Machine σ) α} {f : α → Effect (Machine σ) β}

/-- An action that counts nothing. -/
theorem of_zero {r : Except Halt α}
    (h : ∀ {n m}, m.At w n → ∃ m', m'.At w n ∧ x m = leaving m' r) : Tallies w 0 r x := by
  refine ⟨fun hm _ => h hm, fun {n m} hm hpast => ?_⟩
  have hlt := hm.lt
  omega

theorem congr {r : Except Halt α} {y : Effect (Machine σ) α} (h : Tallies w g r y)
    (heq : ∀ {n m}, m.At w n → x m = y m) : Tallies w g r x := by
  refine ⟨fun hm hlt => ?_, fun hm hpast => ?_⟩
  · rw [heq hm]
    exact h.within hm hlt
  · rw [heq hm]
    exact h.past hm hpast

theorem of_at {r : Except Halt α} {n : Nat} {m : Machine σ} (h : Tallies w g r x)
    (hm : m.At w n) : Tallies m.walk g r x := by
  refine ⟨fun hm₁ hlt => ?_, fun hm₁ hpast => ?_⟩
  · obtain ⟨m', hm', hx⟩ := h.within (hm.trans hm₁) hlt
    exact ⟨m', hm.of_at hm', hx⟩
  · obtain ⟨m', hm', hx⟩ := h.past (hm.trans hm₁) hpast
    exact ⟨m', hm.of_at hm', hx⟩

theorem bind_error {halt : Halt} (h : Tallies w g (.error halt) x) :
    Tallies w g (.error halt) (x >>= f) := by
  refine ⟨fun hm hlt => ?_, fun hm hpast => ?_⟩
  · obtain ⟨m', hm', hx⟩ := h.within hm hlt
    exact ⟨m', hm', bind_of_eq_error hx⟩
  · obtain ⟨m', hm', hx⟩ := h.past hm hpast
    exact ⟨m', hm', bind_of_eq_error hx⟩

/-- The groups of actions in sequence add up. -/
theorem bind {a : α} {r : Except Halt β} (hx : Tallies w g (.ok a) x)
    (hf : Tallies w g' r (f a)) : Tallies w (g + g') r (x >>= f) := by
  constructor
  · intro n m hm hlt
    obtain ⟨m₁, hm₁, hrun⟩ := hx.within hm (by omega)
    obtain ⟨m₂, hm₂, hrest⟩ := hf.within hm₁ (by omega)
    rw [Nat.add_assoc] at hm₂
    exact ⟨m₂, hm₂, by rw [bind_of_eq_ok hrun, hrest]⟩
  · intro n m hm hpast
    by_cases hfirst : n + g < 2 ^ 32
    · obtain ⟨m₁, hm₁, hrun⟩ := hx.within hm hfirst
      obtain ⟨m₂, hm₂, hrest⟩ := hf.past hm₁ (by omega)
      exact ⟨m₂, hm₂, by rw [bind_of_eq_ok hrun, hrest]⟩
    · obtain ⟨m₁, hm₁, hrun⟩ := hx.past hm (by omega)
      exact ⟨m₁, hm₁, bind_of_eq_error hrun⟩

theorem exists_error {halt : Halt} {n : Nat} {m : Machine σ} (h : Tallies w g (.error halt) x)
    (hm : m.At w n) : ∃ halt' m', x m = .error halt' m' := by
  by_cases hlt : n + g < 2 ^ 32
  · obtain ⟨m', -, hx⟩ := h.within hm hlt
    exact ⟨halt, m', hx⟩
  · obtain ⟨m', -, hx⟩ := h.past hm (by omega)
    exact ⟨.counterOverflow .group, m', hx⟩

/-- One run that fails by a fault shows the halt and the number of groups. -/
theorem room {halt halt' : Halt} {n : Nat} {m m' : Machine σ} (h : Tallies w g (.error halt) x)
    (hm : m.At w n) (hrun : x m = .error halt' m') (hhalt : halt'.IsFault) :
    n + g < 2 ^ 32 ∧ halt' = halt ∧ m'.At w (n + g) := by
  by_cases hlt : n + g < 2 ^ 32
  · obtain ⟨m₁, hm₁, hx⟩ := h.within hm hlt
    obtain ⟨rfl, rfl⟩ := EStateM.Result.error.inj (hrun.symm.trans hx)
    exact ⟨hlt, rfl, hm₁⟩
  · obtain ⟨m₁, -, hx⟩ := h.past hm (by omega)
    obtain ⟨fault, rfl⟩ := hhalt
    cases hrun.symm.trans hx

end Tallies

namespace Steady

variable {w : Walk}

protected theorem pure (a : α) : Steady w (pure a : Effect (Machine σ) α) :=
  ⟨0, .ok a, .of_zero fun {_ m} hm => ⟨m, hm, rfl⟩⟩

protected theorem fail (fault : CompileFault) : Steady w (fail fault : Effect (Machine σ) α) :=
  ⟨0, .error (.fault fault), .of_zero fun {_ m} hm => ⟨m, hm, rfl⟩⟩

protected theorem bind {x : Effect (Machine σ) α} {f : α → Effect (Machine σ) β} (hx : Steady w x)
    (hf : ∀ a, Steady w (f a)) : Steady w (x >>= f) := by
  obtain ⟨g, r, hx⟩ := hx
  cases r with
  | error halt => exact ⟨g, .error halt, hx.bind_error⟩
  | ok a =>
    obtain ⟨g', r', hf⟩ := hf a
    exact ⟨g + g', r', hx.bind hf⟩

/-- An action that looks at the machine, but only to see where it stands. -/
theorem congr {x y : Effect (Machine σ) α} (heq : ∀ {n m}, m.At w n → x m = y m)
    (hy : Steady w y) : Steady w x := by
  obtain ⟨g, r, hy⟩ := hy
  exact ⟨g, r, hy.congr heq⟩

protected theorem check (r : Except CompileFault α) :
    Steady w (check r : Effect (Machine σ) α) := by
  cases r with
  | ok a => exact .pure a
  | error fault => exact .fail fault

protected theorem decode (r : Except DecodeFault α) :
    Steady w (decode r : Effect (Machine σ) α) := by
  cases r with
  | ok a => exact .pure a
  | error fault => exact .fail _

/-- A check that does not look at the number of groups. -/
protected theorem examine {test : Walk → Except CompileFault α}
    (htest : ∀ n, test { w with groupPc := n } = test w) :
    Steady w (Machine.examine test : Effect (Machine σ) α) := by
  refine .congr (y := check (test w)) (fun {n m} hm => ?_) (.check _)
  show check (test m.walk) m = check (test w) m
  rw [hm.walk, htest]

theorem read_bind {reading : Program → Except DecodeFault α} {f : α → Effect (Machine σ) β}
    (hf : ∀ v, reading w.program = .ok v → Steady w (f v)) :
    Steady w (Machine.read reading >>= f) := by
  refine .congr (y := decode (reading w.program) >>= f) (fun {n m} hm => ?_) ?_
  · show (decode (reading m.walk.program) >>= f) m = _
    rw [hm.program]
  · cases hread : reading w.program with
    | ok v => exact hf v hread
    | error fault => exact .fail _

protected theorem countGroup : Steady w (Machine.count .group : Effect (Machine σ) Unit) := by
  refine ⟨1, .ok (), ?_, ?_⟩
  · intro n m hm hlt
    have hgroups := hm.groups
    cases hrun : Machine.count .group m with
    | ok u m' =>
      obtain ⟨k, hk, rfl⟩ := Machine.count_eq_ok hrun
      refine ⟨_, ⟨?_, hk.trans (congrArg (· + 1) hgroups)⟩, rfl⟩
      dsimp only [Walk.withCounted]
      rw [hm.walk]
    | error halt m' =>
      obtain ⟨-, hend, -⟩ := Machine.count_eq_error hrun
      rw [Walk.counted_group] at hend
      omega
  · intro n m hm hpast
    have hgroups := hm.groups
    have hbound := hm.lt
    cases hrun : Machine.count .group m with
    | ok u m' =>
      obtain ⟨k, hk, -⟩ := Machine.count_eq_ok hrun
      rw [Walk.counted_group] at hk
      have := k.isLt
      omega
    | error halt m' =>
      obtain ⟨rfl, -, rfl⟩ := Machine.count_eq_error hrun
      refine ⟨_, ⟨hm.walk, ?_⟩, rfl⟩
      omega

theorem failsAlike {x : Effect (Machine σ) α} (hx : Steady w x) : FailsAlike w x := by
  intro n m halt m' hm hrun hhalt
  obtain ⟨g, r, hx⟩ := hx
  by_cases hlt : n + g < 2 ^ 32
  · obtain ⟨m₁, -, hfix⟩ := hx.within hm hlt
    rw [hrun] at hfix
    cases r with
    | ok a => cases hfix
    | error halt' =>
      obtain ⟨rfl, -⟩ := EStateM.Result.error.inj hfix
      exact ⟨g, hx⟩
  · obtain ⟨m₁, -, hover⟩ := hx.past hm (by omega)
    obtain ⟨fault, rfl⟩ := hhalt
    cases hrun.symm.trans hover

end Steady

namespace FailsAlike

variable {w : Walk}

protected theorem modifyWalk (f : Walk → Walk) :
    FailsAlike w (Machine.modifyWalk f : Effect (Machine σ) Unit) :=
  fun _ _ _ _ _ hrun => absurd hrun modify_ne_error

protected theorem bind {x : Effect (Machine σ) α} {f : α → Effect (Machine σ) β} (hx : Steady w x)
    (hf : ∀ a, FailsAlike w (f a)) : FailsAlike w (x >>= f) := by
  intro n m halt m' hm hrun hhalt
  rcases bind_eq_error.mp hrun with hfirst | ⟨a, m₁, hfirst, hrest⟩
  · obtain ⟨g, hg⟩ := hx.failsAlike n m halt m' hm hfirst hhalt
    exact ⟨g, hg.bind_error⟩
  · obtain ⟨g, r, hg⟩ := hx
    by_cases hlt : n + g < 2 ^ 32
    · obtain ⟨m₂, hm₂, hfix⟩ := hg.within hm hlt
      rw [hfirst] at hfix
      cases r with
      | error halt' => cases hfix
      | ok b =>
        obtain ⟨rfl, rfl⟩ := EStateM.Result.ok.inj hfix
        obtain ⟨g', hg'⟩ := hf a _ m₁ halt m' hm₂ hrest hhalt
        exact ⟨g + g', hg.bind hg'⟩
    · obtain ⟨m₂, -, hover⟩ := hg.past hm (by omega)
      cases hfirst.symm.trans hover

end FailsAlike

end Effect

/-! ## Handlers -/

open Effect

section

variable {σ : Type}

/-- What a handler comes to depends neither on its state nor on the number of groups. -/
def ActSteady (f : Walk → Effect σ Unit) : Prop :=
  ∀ w : Walk, ∃ r, ∀ n s, ∃ s', f { w with groupPc := n } s = leaving s' r

/-- Handlers whose results do not depend on their state. -/
def Handlers.Steady (h : Handlers σ) : Prop := h.Each fun _ => ActSteady

theorem steady_act {w : Walk} {f : Walk → Effect σ Unit} (hf : ActSteady f) :
    Steady w (Machine.act f) := by
  obtain ⟨r, hr⟩ := hf w
  refine ⟨0, r, .of_zero fun {n m} hm => ?_⟩
  obtain ⟨out, hout⟩ := hr m.walk.groupPc m.out
  rw [← hm.walk] at hout
  refine ⟨{ m with out := out }, hm.withOut out, ?_⟩
  unfold Machine.act
  rw [hout]
  cases r <;> rfl

variable {h : Handlers σ} (hh : h.Steady) {w : Walk}
include hh

theorem steady_invoke (v : Invocation) : Steady w (invoke h v) := by
  unfold invoke
  cases hfind : h.find v with
  | none => exact .fail _
  | some action =>
    show Steady w (Machine.act action.run >>= fun _ => pure action.clause)
    exact .bind (steady_act (hh.call v action hfind)) fun _ => .pure _

/-- Clauses that are walked by such handlers. -/
theorem walkClosed_steady : WalkClosed h h fun _ _ x _ => Steady w x where
  mono hx _ := hx
  pure v := Steady.pure v
  fail _ := Steady.fail _
  bind hx hf := Steady.bind hx hf
  alu _ _ := steady_invoke hh _
  beginGroup cf g := steady_act (hh.beginGroup cf g)
  endGroup cf g := steady_act (hh.endGroup cf g)
  countGroup := Steady.countGroup
  read_bind _ hf := Steady.read_bind fun v => hf _ v
  invoke v _ := steady_invoke hh v

/-! ## Control flow -/

theorem steady_runHandler (v : Invocation) : Steady w (runHandler h v) :=
  (walkClosed_steady hh).runHandler (steady_invoke hh v)

theorem failsAlike_walkCf (cf : CfInstr) : FailsAlike w (walkCf h cf) := by
  unfold walkCf
  split
  · refine .bind (.decode _) fun op => .bind (.examine fun _ => rfl) fun _ => ?_
    exact .bind (steady_runHandler hh _) fun _ => .modifyWalk _
  · exact .bind (.decode _) fun op => .bind (steady_runHandler hh _) fun _ => .modifyWalk _
  all_goals
    exact (Steady.bind (.decode _) fun op => steady_runHandler hh _).failsAlike

/-- A control flow instruction that fails does so from every machine that stands at it. -/
theorem failsAlike_visit (cf : CfInstr) : FailsAlike w (visit h cf) := by
  intro n m halt m' hm hrun hhalt
  rcases bind_eq_error.mp hrun with hwalk | ⟨_, m₁, -, hcount⟩
  · obtain ⟨g, hg⟩ := failsAlike_walkCf hh cf n m halt m' hm hwalk hhalt
    exact ⟨g, hg.bind_error⟩
  · obtain ⟨fault, rfl⟩ := hhalt
    cases (Machine.count_eq_error hcount).1

end

end LatteHlsl
