import Mathlib.Algebra.Group.Nat.Defs
import LatteHlsl.Walk.Program

/-!
# Actions that succeed

When an action ends without a fault, and with which state. One lemma a combinator, each an `iff`, so
that a successful run of a composed action is taken apart by rewriting.

* `bind_eq_ok`, `forM_cons_eq_ok`, `mapM_cons_eq_ok`: sequences of actions.
* `check_eq_ok`, `decode_eq_ok`, `handler_eq_ok`: checks leave the state alone.
* `act_eq_ok`, `count_eq_ok`: what an action may change of a machine.
* `invoke_eq_ok`, `walkInstr_eq_ok`: handlers that were called.
* `Checked.bind_eq_ok`: sequences of checks without a state.
-/

namespace LatteHlsl

open Isa

/-! ## Results without a state -/

namespace Checked

variable {ε ε' α β : Type}

theorem bind_eq_ok {x : Except ε α} {f : α → Except ε β} {b : β} :
    (x >>= f) = .ok b ↔ ∃ a, x = .ok a ∧ f a = .ok b := by
  cases x with
  | error e => exact ⟨fun h => (nomatch h), fun ⟨_, h, _⟩ => (nomatch h)⟩
  | ok a =>
    constructor
    · intro h
      exact ⟨a, rfl, h⟩
    · rintro ⟨a', heq, h⟩
      cases heq
      exact h

@[simp] theorem pure_eq_ok {a b : α} : (pure a : Except ε α) = .ok b ↔ a = b := by
  show Except.ok a = .ok b ↔ _
  simp

theorem map_eq_ok {x : Except ε α} {f : α → β} {b : β} :
    (f <$> x) = .ok b ↔ ∃ a, x = .ok a ∧ f a = b := by
  show x.map f = .ok b ↔ _
  cases x <;> simp [Except.map]

@[simp] theorem mapError_eq_ok {x : Except ε α} {f : ε → ε'} {a : α} :
    x.mapError f = .ok a ↔ x = .ok a := by
  cases x with
  | error e => exact ⟨fun h => (nomatch h), fun h => (nomatch h)⟩
  | ok b =>
    show Except.ok b = .ok a ↔ _
    simp

/-- A result that passes a test is there. -/
theorem exists_ok_of_any {x : Except ε α} {p : α → Bool} (h : x.toOption.any p = true) :
    ∃ a, x = .ok a ∧ p a = true := by
  cases x with
  | error e => cases h
  | ok a => exact ⟨a, rfl, h⟩

end Checked

namespace Effect

variable {σ α β : Type}

/-! ## Sequences -/

theorem bind_eq_ok {x : Effect σ α} {f : α → Effect σ β} {s s' : σ} {b : β} :
    (x >>= f) s = .ok b s' ↔ ∃ a t, x s = .ok a t ∧ f a t = .ok b s' := by
  show EStateM.bind x f s = .ok b s' ↔ _
  unfold EStateM.bind
  cases h : x s with
  | ok a t =>
    constructor
    · intro hf
      exact ⟨a, t, rfl, hf⟩
    · rintro ⟨a', t', heq, hf⟩
      cases heq
      exact hf
  | error e t => simp

@[simp] theorem pure_eq_ok {a b : α} {s s' : σ} :
    (pure a : Effect σ α) s = .ok b s' ↔ b = a ∧ s = s' := by
  show EStateM.Result.ok a s = .ok b s' ↔ _
  simp [eq_comm (a := a)]

@[simp] theorem get_eq_ok {a s s' : σ} :
    (get : Effect σ σ) s = .ok a s' ↔ s = a ∧ s = s' := by
  show EStateM.Result.ok s s = .ok a s' ↔ _
  simp

@[simp] theorem set_eq_ok {t s s' : σ} {u : PUnit} :
    (set t : Effect σ PUnit) s = .ok u s' ↔ s' = t := by
  show EStateM.Result.ok PUnit.unit t = .ok u s' ↔ _
  simp [eq_comm]

@[simp] theorem modify_eq_ok {f : σ → σ} {s s' : σ} {u : PUnit} :
    (modify f : Effect σ PUnit) s = .ok u s' ↔ s' = f s := by
  show EStateM.Result.ok PUnit.unit (f s) = .ok u s' ↔ _
  simp [eq_comm]

@[simp] theorem throw_ne_ok {halt : Halt} {a : α} {s s' : σ} :
    (throw halt : Effect σ α) s ≠ .ok a s' := by
  show EStateM.Result.error halt s ≠ .ok a s'
  simp

@[simp] theorem fail_ne_ok {fault : CompileFault} {a : α} {s s' : σ} :
    (fail fault : Effect σ α) s ≠ .ok a s' := throw_ne_ok

@[simp] theorem forM_nil_eq_ok {f : α → Effect σ Unit} {s s' : σ} {u : Unit} :
    ([] : List α).forM f s = .ok u s' ↔ s = s' := by
  show (pure () : Effect σ Unit) s = .ok u s' ↔ _
  simp

theorem forM_cons_eq_ok {f : α → Effect σ Unit} {a : α} {as : List α} {s s' : σ} {u : Unit} :
    (a :: as).forM f s = .ok u s' ↔ ∃ t, f a s = .ok () t ∧ as.forM f t = .ok () s' := by
  show (f a >>= fun _ => as.forM f) s = .ok u s' ↔ _
  rw [bind_eq_ok]
  constructor
  · rintro ⟨_, t, ha, has⟩
    exact ⟨t, ha, has⟩
  · rintro ⟨t, ha, has⟩
    exact ⟨(), t, ha, has⟩

/-- Each action of a list that succeeds has succeeded. -/
theorem exists_eq_ok_of_forM {f : α → Effect σ Unit} {as : List α} {s s' : σ} {u : Unit}
    (h : as.forM f s = .ok u s') : ∀ a ∈ as, ∃ t t', f a t = .ok () t' := by
  induction as generalizing s u with
  | nil => exact fun _ ha => (nomatch ha)
  | cons a as ih =>
    obtain ⟨t, ha, has⟩ := forM_cons_eq_ok.mp h
    exact List.forall_mem_cons.mpr ⟨⟨s, t, ha⟩, ih has⟩

theorem mapM_nil_eq_ok {f : α → Effect σ β} {s s' : σ} {bs : List β} :
    ([] : List α).mapM f s = .ok bs s' ↔ bs = [] ∧ s = s' := by
  rw [List.mapM_nil, pure_eq_ok]

theorem mapM_cons_eq_ok {f : α → Effect σ β} {a : α} {as : List α} {s s' : σ} {bs : List β} :
    (a :: as).mapM f s = .ok bs s' ↔
      ∃ b t bs', f a s = .ok b t ∧ as.mapM f t = .ok bs' s' ∧ bs = b :: bs' := by
  rw [List.mapM_cons, bind_eq_ok]
  constructor
  · rintro ⟨b, t, ha, hrest⟩
    obtain ⟨bs', t', has, hpure⟩ := bind_eq_ok.mp hrest
    obtain ⟨rfl, rfl⟩ := pure_eq_ok.mp hpure
    exact ⟨b, t, bs', ha, has, rfl⟩
  · rintro ⟨b, t, bs', ha, has, rfl⟩
    exact ⟨b, t, ha, bind_eq_ok.mpr ⟨bs', s', has, pure_eq_ok.mpr ⟨rfl, rfl⟩⟩⟩

/-! ## Checks -/

@[simp] theorem check_eq_ok {r : Except CompileFault α} {a : α} {s s' : σ} :
    (check r : Effect σ α) s = .ok a s' ↔ r = .ok a ∧ s = s' := by
  cases r with
  | ok b => simp [check, eq_comm (a := b)]
  | error fault => simp [check]

@[simp] theorem decode_eq_ok {r : Except DecodeFault α} {a : α} {s s' : σ} :
    (decode r : Effect σ α) s = .ok a s' ↔ r = .ok a ∧ s = s' := by
  cases r with
  | ok b => simp [decode, eq_comm (a := b)]
  | error fault => simp [decode]

@[simp] theorem handler_eq_ok {op : Opcode} {r : Option α} {a : α} {s s' : σ} :
    (handler op r : Effect σ α) s = .ok a s' ↔ r = some a ∧ s = s' := by
  cases r with
  | some b => simp [handler, eq_comm (a := b)]
  | none => simp [handler]

/-- A counter that could be raised was not at its end, so its number went up by one. -/
theorem next_eq_ok {counter : Counter} {n k : Word} {s s' : σ}
    (h : (next counter n : Effect σ Word) s = .ok k s') :
    k.toNat = n.toNat + 1 ∧ s = s' := by
  unfold next at h
  split at h
  · exact absurd h throw_ne_ok
  · rename_i hn
    obtain ⟨rfl, rfl⟩ := pure_eq_ok.mp h
    refine ⟨?_, rfl⟩
    have hne : n.toNat ≠ 2 ^ 32 - 1 := by
      intro heq
      exact hn (BitVec.eq_of_toNat_eq (by rw [heq, BitVec.toNat_allOnes]))
    have hlt := n.isLt
    rw [BitVec.toNat_add, show (1 : Word).toNat = 1 from rfl]
    omega

end Effect

/-! ## Machines -/

namespace Machine

variable {σ : Type}

open Effect

theorem act_eq_ok {f : Walk → Effect σ Unit} {m m' : Machine σ} {u : Unit} :
    act f m = .ok u m' ↔ ∃ out, f m.walk m.out = .ok () out ∧ m' = { m with out := out } := by
  unfold act
  cases h : f m.walk m.out with
  | ok _ out => simp [eq_comm]
  | error halt out => simp

@[simp] theorem modifyWalk_eq_ok {f : Walk → Walk} {m m' : Machine σ} {u : Unit} :
    modifyWalk f m = .ok u m' ↔ m' = { m with walk := f m.walk } := by
  unfold modifyWalk
  exact modify_eq_ok

@[simp] theorem examine_eq_ok {α : Type} {test : Walk → Except CompileFault α} {a : α}
    {m m' : Machine σ} : examine test m = .ok a m' ↔ test m.walk = .ok a ∧ m = m' :=
  check_eq_ok

@[simp] theorem read_eq_ok {α : Type} {reading : Program → Except DecodeFault α} {a : α}
    {m m' : Machine σ} : read reading m = .ok a m' ↔ reading m.walk.program = .ok a ∧ m = m' :=
  decode_eq_ok

theorem count_eq_ok {counter : Counter} {m m' : Machine σ} {u : Unit}
    (h : count counter m = .ok u m') :
    ∃ n : Word, n.toNat = (m.walk.counted counter).toNat + 1 ∧
      m' = { m with walk := m.walk.withCounted n counter } := by
  simp only [count, bind_eq_ok, get_eq_ok, modifyWalk_eq_ok] at h
  obtain ⟨_, _, ⟨rfl, rfl⟩, n, _, hnext, rfl⟩ := h
  obtain ⟨hn, rfl⟩ := next_eq_ok hnext
  exact ⟨n, hn, rfl⟩

end Machine

/-! ## Handlers -/

section

variable {σ : Type} {h : Handlers σ} {m m' : Machine σ}

theorem invoke_eq_ok {v : Invocation} {clause : Option ClauseKind} :
    invoke h v m = .ok clause m' ↔
      ∃ action out, h.find v = some action ∧ action.run m.walk m.out = .ok () out ∧
        m' = { m with out := out } ∧ clause = action.clause := by
  simp only [invoke, Effect.bind_eq_ok, Effect.handler_eq_ok, Machine.act_eq_ok, Effect.pure_eq_ok]
  constructor
  · rintro ⟨action, _, ⟨hfind, rfl⟩, _, _, ⟨out, hrun, rfl⟩, rfl, rfl⟩
    exact ⟨action, out, hfind, hrun, rfl, rfl⟩
  · rintro ⟨action, out, hfind, hrun, rfl, rfl⟩
    exact ⟨action, m, ⟨hfind, rfl⟩, (), _, ⟨out, hrun, rfl⟩, rfl, rfl⟩

theorem walkInstr_eq_ok {r : Except DecodeFault Invocation} {u : Unit} :
    walkInstr h r m = .ok u m' ↔
      ∃ v action out, r = .ok v ∧ h.find v = some action ∧ action.run m.walk m.out = .ok () out ∧
        m' = { m with out := out } := by
  simp only [walkInstr, Effect.bind_eq_ok, Effect.decode_eq_ok, invoke_eq_ok, Effect.pure_eq_ok]
  constructor
  · rintro ⟨v, _, ⟨hv, rfl⟩, _, _, ⟨action, out, hfind, hrun, rfl, -⟩, -, rfl⟩
    exact ⟨v, action, out, hv, hfind, hrun, rfl⟩
  · rintro ⟨v, action, out, hv, hfind, hrun, rfl⟩
    exact ⟨v, m, ⟨hv, rfl⟩, _, _, ⟨action, out, hfind, hrun, rfl, rfl⟩, trivial, rfl⟩

end

end LatteHlsl
