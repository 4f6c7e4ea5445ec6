import LatteHlsl.Compile.Descriptor
import LatteHlsl.Proofs.Lockstep

/-!
# Bytes after the end of a program

A walk that was ended by an instruction has read all that it needs. Bytes that follow change nothing
of it. The same holds for a walk that halts, unless it halts for want of bytes.

* `Program.readsLike_extend`: a longer program is read like the program it begins with.
* `lockstep_handlers`: the handlers of the compiler do not look at the program.
* `compile_ignores_trailing_bytes`: compilations of both programs.
-/

namespace LatteHlsl

open Isa Effect

/-- A program with more bytes after it. -/
def Program.extend (p : Program) (tail : Array UInt8) : Program := ⟨p.bytes ++ tail⟩

/-- The program has too few bytes for what is read of it. -/
def Halt.PastEnd (halt : Halt) : Prop :=
  halt = .fault (.decode .emptyProgram) ∨
    ∃ offset len size, halt = .fault (.decode (.outOfBounds offset len size))

/-! ## Reads -/

namespace Program

variable (p : Program) (tail : Array UInt8)

@[simp] theorem size_extend : (p.extend tail).size = p.size + tail.size := Array.size_append

theorem slice_extend (offset len : Nat) :
    ReadMatches Halt.PastEnd (p.slice offset len) ((p.extend tail).slice offset len) := by
  rw [slice_eq, slice_eq]
  split
  · rename_i hin
    have hin' : offset + len ≤ (p.extend tail).size := by
      rw [size_extend]
      omega
    rw [if_pos ⟨hin.1, hin'⟩]
    refine .inl (congrArg Except.ok ?_)
    have hafter : offset + len - p.bytes.size = 0 := Nat.sub_eq_zero_of_le hin.2
    rw [extend, Array.extract_append, hafter, Array.extract_zero, Array.append_empty]
  · exact .inr ⟨_, rfl, .inr ⟨_, _, _, rfl⟩⟩

theorem scale_extend (n unit : Nat) :
    ReadMatches Halt.PastEnd (p.scale n unit) ((p.extend tail).scale n unit) := by
  unfold scale
  split
  · exact .inl rfl
  · exact .inr ⟨_, rfl, .inr ⟨_, _, _, rfl⟩⟩

theorem clauseBytes_extend (addr count unit : Nat) :
    ReadMatches Halt.PastEnd (p.clauseBytes addr count unit)
      ((p.extend tail).clauseBytes addr count unit) :=
  (scale_extend p tail addr clauseUnit).bind fun offset =>
    (scale_extend p tail count unit).bind fun len => slice_extend p tail offset len

theorem readsLike_extend : p.ReadsLike Halt.PastEnd (p.extend tail) where
  empty _ := .inr (.inl rfl)
  nonempty hsize := by
    rw [size_extend]
    omega
  hasCf i hcf := by
    simp only [hasCf, size_extend, Bool.and_eq_true, decide_eq_true_eq] at hcf ⊢
    omega
  cfAt i :=
    (scale_extend p tail i _).bind fun offset =>
      (slice_extend p tail offset _).bind fun _ => .inl rfl
  clause hread := by
    cases hread <;> exact (clauseBytes_extend p tail _ _ _).bind fun _ => .inl rfl

end Program

/-! ## Handlers that do not look at the program -/

section

variable {σ α : Type} {exempt : Halt → Prop} {P : Program → Program → Prop}

theorem Effect.Lockstep.refl (x : Effect σ α) : Lockstep exempt Eq x x := by
  intro s t hst
  subst hst
  cases x s with
  | ok a s => exact .ok rfl
  | error halt s => exact .error rfl

theorem actLockstep_of_blind {f : Walk → Effect σ Unit}
    (h : ∀ (w : Walk) (p : Program), f { w with program := p } = f w) :
    ActLockstep exempt P Eq f f := by
  intro w w' hw
  rw [hw.rest, h w w'.program]
  exact .refl (f w)

theorem Machine.Like.eq_of_extend {p p' : Program} {m m' : Machine σ}
    (h : m.Like (fun q q' => q = p ∧ q' = p') Eq m') :
    m' = { m with walk := { m.walk with program := p' } } := by
  obtain ⟨⟨⟨-, hprogram⟩, hwalk⟩, hout⟩ := h
  rw [hprogram] at hwalk
  cases m'
  dsimp only at hwalk hout
  rw [hwalk, hout]

end

namespace Compile

theorem emitClosed_refl (c : Context) (exempt : Halt → Prop) :
    EmitClosed c c fun _ => Lockstep exempt Eq where
  context := rfl
  pure := .pure
  fail := .fail
  bind := .bind
  emit _ := .refl _
  note _ _ := .refl _
  record _ := .refl _
  defer _ := .refl _
  addInput _ := .refl _
  store _ _ _ := .refl _

/-- The handlers of the compiler do not look at the program. -/
theorem lockstep_handlers (c : Context) (exempt : Halt → Prop) (P : Program → Program → Prop) :
    (handlers c).Lockstep exempt P Eq (handlers c) where
  call := (emitClosed_refl c exempt).handlersMatch
  beginGroup _ _ := actLockstep_of_blind fun _ _ => rfl
  endGroup _ _ := actLockstep_of_blind fun _ _ => rfl

/-! ## Compilations -/

/-- The job, as if it had been started with another program. -/
def Job.onProgram (j : Job) (p : Program) : Job :=
  { j with machine := { j.machine with walk := { j.machine.walk with program := p } } }

theorem shader_onProgram (j : Job) (p : Program) :
    (j.onProgram p).shader none = j.shader none := rfl

theorem isComplete_of_call {j j' : Job} (h : j.call .compile = (none, j')) :
    j'.isComplete = true := by
  rw [call_compile_eq, Prod.mk.injEq] at h
  obtain ⟨hnone, rfl⟩ := h
  unfold walkToEnd at hnone ⊢
  cases hwalk : walkProgram (handlers j.context) j.machine with
  | ok u m => rfl
  | error halt m =>
    rw [hwalk] at hnone
    cases hnone

theorem compileAlone_of_call {j j' : Job} (h : j.call .compile = (none, j')) :
    j.compileAlone = .ok (j'.shader none) := by
  unfold Job.compileAlone Job.compile
  rw [h]
  show (j'.finishWith none).mapError Halt.fault = .ok (j'.shader none)
  rw [Job.finishWith, isComplete_of_call h]
  rfl

theorem compileAlone_of_halt {j j' : Job} {halt : Halt} (h : j.call .compile = (some halt, j')) :
    j.compileAlone = .error halt := by
  unfold Job.compileAlone Job.compile
  rw [h]
  rfl

/-- A compilation that was ended by an instruction, or halted for another reason than too few bytes,
comes to the same with more bytes. -/
theorem call_compile_extend (tail : Array UInt8) {c : Context} {p : Program} {stage : Stage}
    {isFunction : Bool} {halt? : Option Halt} {j : Job}
    (hcall : (Job.start c p stage isFunction).call .compile = (halt?, j))
    (hend : halt? = none → j.walk.reachedEnd = true)
    (hhalt : ∀ halt, halt? = some halt → ¬ halt.PastEnd) :
    (Job.start c (p.extend tail) stage isFunction).call .compile =
      (halt?, j.onProgram (p.extend tail)) := by
  let P : Program → Program → Prop := fun q q' => q = p ∧ q' = p.extend tail
  have hreads : ∀ q q', P q q' → q.ReadsLike Halt.PastEnd q' := by
    rintro q q' ⟨rfl, rfl⟩
    exact q.readsLike_extend tail
  have hstart : Machine.Like P Eq (Job.start c p stage isFunction).machine
      (Job.start c (p.extend tail) stage isFunction).machine := ⟨⟨⟨rfl, rfl⟩, rfl⟩, rfl⟩
  have hstops : StopsAlike P
      (walkProgram (handlers c) (Job.start c p stage isFunction).machine) := by
    refine .inr fun u m hwalk => ?_
    have hnone := halt_call_compile (Job.start c p stage isFunction)
    obtain ⟨status, hstate⟩ := walk_call_compile (Job.start c p stage isFunction)
    dsimp only [Job.start] at hnone hstate hwalk hcall
    rw [hwalk, hcall] at hnone hstate
    rw [hstate] at hend
    exact hend hnone
  have hmatch := matches_walkToEnd <|
    matches_walkProgram (lockstep_handlers c Halt.PastEnd P) hreads (onlyFault_handlers c)
      (onlyFault_handlers c) hstart hstops
  rw [call_compile_eq, Prod.mk.injEq] at hcall ⊢
  obtain ⟨rfl, rfl⟩ := hcall
  obtain ⟨hsame, hlike⟩ := hmatch.halts_alike hhalt
  exact ⟨hsame, congrArg (Job.mk c) hlike.eq_of_extend⟩

/-- Once an instruction has ended the program, whatever bytes follow it lead to the same job, up to
the program it was started with, and to the same shader. A compilation that halts does so with more
bytes too, for the same reason, unless it lacked bytes. -/
theorem compile_ignores_trailing_bytes (p : Program) (tail : Array UInt8) (stage : Stage)
    (isFunction : Bool) (r : StageResources) (o : Options) :
    (∀ j, (Job.start (o.context r) p stage isFunction).call .compile = (none, j) →
      j.walk.reachedEnd = true →
        (Job.start (o.context r) (p.extend tail) stage isFunction).call .compile =
            (none, j.onProgram (p.extend tail)) ∧
          compileProgram p stage isFunction r o = .ok (j.shader none) ∧
          compileProgram (p.extend tail) stage isFunction r o = .ok (j.shader none)) ∧
      ∀ halt j, (Job.start (o.context r) p stage isFunction).call .compile = (some halt, j) →
        ¬ halt.PastEnd →
          (Job.start (o.context r) (p.extend tail) stage isFunction).call .compile =
              (some halt, j.onProgram (p.extend tail)) ∧
            compileProgram p stage isFunction r o = .error halt ∧
            compileProgram (p.extend tail) stage isFunction r o = .error halt := by
  constructor
  · intro j hcall hend
    have hcall' := call_compile_extend tail hcall (fun _ => hend) (by simp)
    refine ⟨hcall', compileAlone_of_call hcall, ?_⟩
    rw [← shader_onProgram j (p.extend tail)]
    exact compileAlone_of_call hcall'
  · intro halt j hcall hhalt
    have hcall' := call_compile_extend tail hcall (by simp) (by simpa using hhalt)
    exact ⟨hcall', compileAlone_of_halt hcall, compileAlone_of_halt hcall'⟩

/-- One instruction, the start of a loop, which the compiler does not know. -/
def loopStart : Program := ⟨#[0, 0, 0, 0, 0, 0, 0, 2]⟩

/-- The bytes of an export after a program that has ended, and after one that cannot be compiled. -/
theorem compile_ignores_trailing_bytes_nineSlots :
    (∃ j, (Job.start (Options.context {} {}) nineSlots .pixel false).call .compile = (none, j) ∧
      j.walk.reachedEnd = true ∧
        compileProgram (nineSlots.extend #[0, 0, 0, 0, 0, 0, 0, 0xC0]) .pixel false {} {} =
          .ok (j.shader none)) ∧
      ∃ halt, compileProgram loopStart .pixel false {} {} = .error halt ∧ ¬ halt.PastEnd ∧
        compileProgram (loopStart.extend #[0, 0, 0, 0, 0, 0, 0, 0xC0]) .pixel false {} {} =
          .error halt := by
  constructor
  · have hrun :
        ((Job.start (Options.context {} {}) nineSlots .pixel false).call .compile).1.isNone = true ∧
          ((Job.start (Options.context {} {}) nineSlots .pixel false).call
            .compile).2.walk.reachedEnd = true := by
      decide +kernel
    generalize hcall : (Job.start (Options.context {} {}) nineSlots .pixel false).call .compile = r
      at hrun ⊢
    obtain ⟨halt?, j⟩ := r
    obtain ⟨hnone, hend⟩ := hrun
    obtain rfl := Option.isNone_iff_eq_none.mp hnone
    exact ⟨j, rfl, hend,
      ((compile_ignores_trailing_bytes nineSlots _ .pixel false {} {}).1 j hcall hend).2.2⟩
  · have hrun : ((Job.start (Options.context {} {}) loopStart .pixel false).call .compile).1 =
        some (.fault (.unimplemented (.cf .loopStart))) := by
      decide +kernel
    generalize hcall : (Job.start (Options.context {} {}) loopStart .pixel false).call .compile = r
      at hrun
    obtain ⟨halt?, j⟩ := r
    obtain rfl : halt? = _ := hrun
    have hhalt : ¬ (Halt.fault (.unimplemented (.cf .loopStart))).PastEnd := by
      simp [Halt.PastEnd]
    obtain ⟨-, hhere, hlonger⟩ :=
      (compile_ignores_trailing_bytes loopStart #[0, 0, 0, 0, 0, 0, 0, 0xC0] .pixel false {} {}).2
        _ j hcall hhalt
    exact ⟨_, hhere, hhalt, hlonger⟩

end Compile

end LatteHlsl
