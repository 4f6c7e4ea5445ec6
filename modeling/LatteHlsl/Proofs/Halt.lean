import LatteHlsl.Proofs.Effect

/-!
# Actions that halt

When an action halts, why, and with which state. The lemmas are those of actions that succeed, seen
from the other side. Two properties of actions cover both outcomes.

* `bind_eq_error`, `check_eq_error`, `next_eq_error`, …: where a composed action halts.
* `OnlyFaults`: an action halts by faults of the program it compiles only.
* `Counts`: an action changes nothing of a walk but the number of groups, and that by a bound.
-/

namespace LatteHlsl

open Isa

/-- The halt is a fault of the program that is compiled. -/
def Halt.IsFault (halt : Halt) : Prop := ∃ fault, halt = .fault fault

namespace Effect

variable {σ α β : Type}

/-! ## Running a sequence -/

theorem bind_of_eq_ok {x : Effect σ α} {f : α → Effect σ β} {s t : σ} {a : α} (h : x s = .ok a t) :
    (x >>= f) s = f a t := by
  show EStateM.bind x f s = f a t
  rw [EStateM.bind, h]

theorem bind_of_eq_error {x : Effect σ α} {f : α → Effect σ β} {s t : σ} {halt : Halt}
    (h : x s = .error halt t) : (x >>= f) s = .error halt t := by
  show EStateM.bind x f s = .error halt t
  rw [EStateM.bind, h]

/-- Sequences agree if they begin alike and go on alike from there. -/
theorem bind_congr {x : Effect σ α} {f g : α → Effect σ β} {s : σ}
    (h : ∀ a t, x s = .ok a t → f a t = g a t) : (x >>= f) s = (x >>= g) s := by
  cases hx : x s with
  | ok a t => rw [bind_of_eq_ok hx, bind_of_eq_ok hx, h a t hx]
  | error halt t => rw [bind_of_eq_error hx, bind_of_eq_error hx]

theorem bind_congr_left {x y : Effect σ α} {f : α → Effect σ β} {s : σ} (h : x s = y s) :
    (x >>= f) s = (y >>= f) s := by
  show EStateM.bind x f s = EStateM.bind y f s
  rw [EStateM.bind, EStateM.bind, h]

/-- The state that an action leaves behind. -/
def stateOf : EStateM.Result Halt σ α → σ
  | .ok _ s | .error _ s => s

/-- Why an action has halted, if it has. -/
def haltOf : EStateM.Result Halt σ α → Option Halt
  | .ok _ _ => none
  | .error halt _ => some halt

/-! ## Where an action halts -/

theorem bind_eq_error {x : Effect σ α} {f : α → Effect σ β} {s s' : σ} {halt : Halt} :
    (x >>= f) s = .error halt s' ↔
      x s = .error halt s' ∨ ∃ a t, x s = .ok a t ∧ f a t = .error halt s' := by
  show EStateM.bind x f s = .error halt s' ↔ _
  unfold EStateM.bind
  cases h : x s with
  | ok a t =>
    constructor
    · intro hf
      exact .inr ⟨a, t, rfl, hf⟩
    · rintro (heq | ⟨a', t', heq, hf⟩)
      · cases heq
      · cases heq
        exact hf
  | error halt' t => simp

@[simp] theorem pure_ne_error {a : α} {s s' : σ} {halt : Halt} :
    (pure a : Effect σ α) s ≠ .error halt s' := by
  show EStateM.Result.ok a s ≠ .error halt s'
  simp

@[simp] theorem get_ne_error {s s' : σ} {halt : Halt} : (get : Effect σ σ) s ≠ .error halt s' := by
  show EStateM.Result.ok s s ≠ .error halt s'
  simp

@[simp] theorem modify_ne_error {f : σ → σ} {s s' : σ} {halt : Halt} :
    (modify f : Effect σ PUnit) s ≠ .error halt s' := by
  show EStateM.Result.ok PUnit.unit (f s) ≠ .error halt s'
  simp

@[simp] theorem throw_eq_error {thrown halt : Halt} {s s' : σ} :
    (throw thrown : Effect σ α) s = .error halt s' ↔ halt = thrown ∧ s = s' := by
  show EStateM.Result.error thrown s = .error halt s' ↔ _
  simp [eq_comm (a := thrown)]

@[simp] theorem fail_eq_error {fault : CompileFault} {halt : Halt} {s s' : σ} :
    (fail fault : Effect σ α) s = .error halt s' ↔ halt = .fault fault ∧ s = s' := throw_eq_error

theorem check_eq_error {r : Except CompileFault α} {halt : Halt} {s s' : σ} :
    (check r : Effect σ α) s = .error halt s' ↔
      ∃ fault, r = .error fault ∧ halt = .fault fault ∧ s = s' := by
  cases r with
  | ok a => simp [check]
  | error fault => simp [check]

theorem decode_eq_error {r : Except DecodeFault α} {halt : Halt} {s s' : σ} :
    (decode r : Effect σ α) s = .error halt s' ↔
      ∃ fault, r = .error fault ∧ halt = .fault (.decode fault) ∧ s = s' := by
  cases r with
  | ok a => simp [decode]
  | error fault => simp [decode]

theorem handler_eq_error {op : Opcode} {r : Option α} {halt : Halt} {s s' : σ} :
    (handler op r : Effect σ α) s = .error halt s' ↔
      r = none ∧ halt = .fault (.unimplemented op) ∧ s = s' := by
  cases r with
  | some a => simp [handler]
  | none => simp [handler]

/-- A counter that cannot be raised is at its end. -/
theorem next_eq_error {counter : Counter} {n : Word} {halt : Halt} {s s' : σ}
    (h : (next counter n : Effect σ Word) s = .error halt s') :
    halt = .counterOverflow counter ∧ n.toNat + 1 = 2 ^ 32 ∧ s = s' := by
  unfold next at h
  split at h
  · rename_i hn
    obtain ⟨rfl, rfl⟩ := throw_eq_error.mp h
    have hmax : n.toNat = 2 ^ 32 - 1 := by rw [hn, BitVec.toNat_allOnes]
    exact ⟨rfl, by omega, rfl⟩
  · exact absurd h pure_ne_error

/-! ## Actions that halt by faults only -/

/-- An action halts by faults only, if it does. -/
def OnlyFaults (x : Effect σ α) : Prop :=
  ∀ s halt s', x s = .error halt s' → halt.IsFault

namespace OnlyFaults

/-- An action that always succeeds. -/
theorem of_ok {x : Effect σ α} {a : α} (h : ∀ s, ∃ t, x s = .ok a t) : OnlyFaults x := by
  intro s halt s' herror
  obtain ⟨t, hok⟩ := h s
  cases hok.symm.trans herror

protected theorem pure (a : α) : OnlyFaults (pure a : Effect σ α) :=
  fun _ _ _ h => absurd h pure_ne_error

protected theorem modify (f : σ → σ) : OnlyFaults (modify f : Effect σ PUnit) :=
  fun _ _ _ h => absurd h modify_ne_error

protected theorem fail (fault : CompileFault) : OnlyFaults (fail fault : Effect σ α) :=
  fun _ _ _ h => ⟨fault, (fail_eq_error.mp h).1⟩

/-- The second action may rely on what the first one can come to. -/
protected theorem bind {x : Effect σ α} {f : α → Effect σ β} (hx : OnlyFaults x)
    (hf : ∀ s a t, x s = .ok a t → OnlyFaults (f a)) : OnlyFaults (x >>= f) := by
  intro s halt s' h
  rcases bind_eq_error.mp h with h | ⟨a, t, ha, h⟩
  · exact hx s halt s' h
  · exact hf s a t ha t halt s' h

end OnlyFaults

end Effect

/-! ## Actions that count groups -/

namespace Machine

variable {σ : Type}

open Effect

theorem act_eq_error {f : Walk → Effect σ Unit} {m m' : Machine σ} {halt : Halt} :
    act f m = .error halt m' ↔
      ∃ out, f m.walk m.out = .error halt out ∧ m' = { m with out := out } := by
  unfold act
  cases h : f m.walk m.out with
  | ok _ out => simp
  | error halt' out => simp [eq_comm, and_assoc]

theorem count_eq_error {counter : Counter} {m m' : Machine σ} {halt : Halt}
    (h : count counter m = .error halt m') :
    halt = .counterOverflow counter ∧ (m.walk.counted counter).toNat + 1 = 2 ^ 32 ∧ m' = m := by
  simp only [count, bind_eq_error, get_ne_error, get_eq_ok, false_or] at h
  obtain ⟨_, _, ⟨rfl, rfl⟩, hnext | ⟨n, _, hnext, hmod⟩⟩ := h
  · obtain ⟨rfl, hn, rfl⟩ := next_eq_error hnext
    exact ⟨rfl, hn, rfl⟩
  · exact absurd hmod modify_ne_error

/-- Of the walk, at most the number of groups has changed, and it has grown by `b` at most. -/
structure CountsTo (b : Nat) (m m' : Machine σ) : Prop where
  groups : m'.walk.groupPc.toNat ≤ m.walk.groupPc.toNat + b
  walk : m'.walk = { m.walk with groupPc := m'.walk.groupPc }

theorem CountsTo.refl (m : Machine σ) : CountsTo 0 m m := ⟨Nat.le_refl _, rfl⟩

theorem CountsTo.trans {b b' : Nat} {m m' m'' : Machine σ} (h : CountsTo b m m')
    (h' : CountsTo b' m' m'') : CountsTo (b + b') m m'' := by
  refine ⟨?_, ?_⟩
  · have := h.groups
    have := h'.groups
    omega
  · rw [h'.walk, h.walk]

theorem CountsTo.mono {b b' : Nat} {m m' : Machine σ} (h : CountsTo b m m') (hb : b ≤ b') :
    CountsTo b' m m' :=
  ⟨Nat.le_trans h.groups (Nat.add_le_add_left hb _), h.walk⟩

/-- A halt of an action that counts `b` groups at most: a fault, or the counter is at its end. -/
def CountHalt (b : Nat) (m : Machine σ) (halt : Halt) : Prop :=
  halt.IsFault ∨ halt = .counterOverflow .group ∧ 2 ^ 32 ≤ m.walk.groupPc.toNat + b

end Machine

namespace Effect

variable {σ α β : Type}

open Machine

/-- In every outcome, an action has counted `b` groups at most and left the rest of the walk alone.
It halts by faults, or because the groups can no longer be counted. -/
structure Counts (b : Nat) (x : Effect (Machine σ) α) : Prop where
  ok : ∀ {m a m'}, x m = .ok a m' → CountsTo b m m'
  error : ∀ {m halt m'}, x m = .error halt m' → CountsTo b m m' ∧ CountHalt b m halt

namespace Counts

theorem mono {b b' : Nat} {x : Effect (Machine σ) α} (h : Counts b x) (hb : b ≤ b') :
    Counts b' x := by
  refine ⟨fun hx => (h.ok hx).mono hb, fun hx => ⟨(h.error hx).1.mono hb, ?_⟩⟩
  rcases (h.error hx).2 with hfault | ⟨hover, hle⟩
  · exact .inl hfault
  · exact .inr ⟨hover, by omega⟩

/-- An action that leaves the machine alone. -/
theorem of_eq {x : Effect (Machine σ) α} (hok : ∀ {m a m'}, x m = .ok a m' → m = m')
    (herror : ∀ {m halt m'}, x m = .error halt m' → m = m' ∧ halt.IsFault) : Counts 0 x := by
  refine ⟨fun h => ?_, fun h => ?_⟩
  · obtain rfl := hok h
    exact .refl _
  · obtain ⟨rfl, hfault⟩ := herror h
    exact ⟨.refl _, .inl hfault⟩

protected theorem pure (a : α) : Counts 0 (pure a : Effect (Machine σ) α) :=
  of_eq (fun h => (pure_eq_ok.mp h).2) fun h => absurd h pure_ne_error

protected theorem fail (fault : CompileFault) :
    Counts 0 (fail fault : Effect (Machine σ) α) := by
  refine of_eq (fun h => absurd h fail_ne_ok) fun h => ?_
  obtain ⟨rfl, rfl⟩ := fail_eq_error.mp h
  exact ⟨rfl, fault, rfl⟩

protected theorem examine {test : Walk → Except CompileFault α} :
    Counts 0 (examine test : Effect (Machine σ) α) := by
  refine of_eq (fun h => (examine_eq_ok.mp h).2) fun h => ?_
  obtain ⟨fault, -, rfl, rfl⟩ := check_eq_error.mp h
  exact ⟨rfl, fault, rfl⟩

protected theorem read {reading : Program → Except DecodeFault α} :
    Counts 0 (read reading : Effect (Machine σ) α) := by
  refine of_eq (fun h => (read_eq_ok.mp h).2) fun h => ?_
  obtain ⟨fault, -, rfl, rfl⟩ := decode_eq_error.mp h
  exact ⟨rfl, .decode fault, rfl⟩

protected theorem decode (r : Except DecodeFault α) :
    Counts 0 (decode r : Effect (Machine σ) α) := by
  refine of_eq (fun h => (decode_eq_ok.mp h).2) fun h => ?_
  obtain ⟨fault, -, rfl, rfl⟩ := decode_eq_error.mp h
  exact ⟨rfl, .decode fault, rfl⟩

protected theorem handler (op : Opcode) (r : Option α) :
    Counts 0 (handler op r : Effect (Machine σ) α) := by
  refine of_eq (fun h => (handler_eq_ok.mp h).2) fun h => ?_
  obtain ⟨-, rfl, rfl⟩ := handler_eq_error.mp h
  exact ⟨rfl, .unimplemented op, rfl⟩

/-- Handlers do not write the state of the walk, so they count nothing. -/
protected theorem act {f : Walk → Effect σ Unit} (hf : ∀ w, OnlyFaults (f w)) :
    Counts 0 (act f) := by
  refine ⟨fun {m a m'} h => ?_, fun {m halt m'} h => ?_⟩
  · obtain ⟨out, -, rfl⟩ := act_eq_ok.mp h
    exact ⟨Nat.le_refl _, rfl⟩
  · obtain ⟨out, hout, rfl⟩ := act_eq_error.mp h
    exact ⟨⟨Nat.le_refl _, rfl⟩, .inl (hf m.walk m.out halt out hout)⟩

protected theorem count : Counts 1 (count .group : Effect (Machine σ) Unit) := by
  refine ⟨fun {m a m'} h => ?_, fun {m halt m'} h => ?_⟩
  · obtain ⟨n, hn, rfl⟩ := count_eq_ok h
    exact ⟨Nat.le_of_eq hn, rfl⟩
  · obtain ⟨rfl, hn, rfl⟩ := count_eq_error h
    exact ⟨(CountsTo.refl m').mono (by omega), .inr ⟨rfl, Nat.le_of_eq hn.symm⟩⟩

/-- The bounds of actions in sequence add up. The second action may rely on what the first one can
come to. -/
protected theorem bind {b b' : Nat} {x : Effect (Machine σ) α} {f : α → Effect (Machine σ) β}
    (hx : Counts b x) (hf : ∀ m a t, x m = .ok a t → Counts b' (f a)) :
    Counts (b + b') (x >>= f) := by
  refine ⟨fun {m c m'} h => ?_, fun {m halt m'} h => ?_⟩
  · obtain ⟨a, t, ha, hc⟩ := bind_eq_ok.mp h
    exact (hx.ok ha).trans ((hf m a t ha).ok hc)
  · rcases bind_eq_error.mp h with h | ⟨a, t, ha, h⟩
    · exact (hx.mono (Nat.le_add_right b b')).error h
    · obtain ⟨hto, hhalt⟩ := (hf m a t ha).error h
      refine ⟨(hx.ok ha).trans hto, ?_⟩
      rcases hhalt with hfault | ⟨hover, hle⟩
      · exact .inl hfault
      · have := (hx.ok ha).groups
        exact .inr ⟨hover, by omega⟩

/-- Checks before an action do not count. -/
theorem bind_zero {b : Nat} {x : Effect (Machine σ) α} {f : α → Effect (Machine σ) β}
    (hx : Counts 0 x) (hf : ∀ m a t, x m = .ok a t → Counts b (f a)) : Counts b (x >>= f) :=
  (hx.bind hf).mono (by omega)

end Counts

end Effect

end LatteHlsl
