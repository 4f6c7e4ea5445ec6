import Mathlib.Order.Defs.Unbundled
import LatteHlsl.Proofs.WalkClosure

/-!
# Walks that add

Whatever a walk comes to, it leaves the program, the stage and the kind of program alone, its flags
are only ever raised, and if its handlers add to their output, so does the walk. What it means to
add is a parameter.

* `Effect.Grows`: actions that lead up in an order.
* `Machine.Grown`: what a walk may have changed of a machine.
* `runClosed_grows`: walks by handlers that lead up in an order do so.
* `grows_walkToEnd`: whole walks.
-/

namespace LatteHlsl

open Isa

namespace Effect

variable {σ α β : Type} {R : σ → σ → Prop}

/-- Whether it succeeds or not, an action leads up in the order. -/
def Grows (R : σ → σ → Prop) (x : Effect σ α) : Prop := ∀ s, R s (stateOf (x s))

namespace Grows

section

variable [Std.Refl R]

protected theorem pure (a : α) : Grows R (pure a : Effect σ α) := fun s => refl_of R s

protected theorem fail (fault : CompileFault) : Grows R (fail fault : Effect σ α) :=
  fun s => refl_of R s

protected theorem throw (halt : Halt) : Grows R (throw halt : Effect σ α) := fun s => refl_of R s

protected theorem get : Grows R (get : Effect σ σ) := fun s => refl_of R s

protected theorem check (r : Except CompileFault α) : Grows R (check r : Effect σ α) := by
  cases r with
  | ok a => exact .pure a
  | error fault => exact .fail fault

protected theorem decode (r : Except DecodeFault α) : Grows R (decode r : Effect σ α) := by
  cases r with
  | ok a => exact .pure a
  | error fault => exact .fail _

protected theorem next (counter : Counter) (n : Word) :
    Grows R (next counter n : Effect σ Word) := by
  unfold next
  split
  · exact fun s => refl_of R s
  · exact .pure _

end

protected theorem modify {f : σ → σ} (hf : ∀ s, R s (f s)) : Grows R (modify f : Effect σ PUnit) :=
  hf

variable [IsPreorder σ R]

protected theorem bind {x : Effect σ α} {f : α → Effect σ β} (hx : Grows R x)
    (hf : ∀ a, Grows R (f a)) : Grows R (x >>= f) := by
  intro s
  have hfirst := hx s
  cases hrun : x s with
  | ok a t =>
    rw [hrun] at hfirst
    rw [bind_of_eq_ok hrun]
    exact trans_of R hfirst (hf a t)
  | error halt t =>
    rw [hrun] at hfirst
    rw [bind_of_eq_error hrun]
    exact hfirst

protected theorem forM {f : α → Effect σ Unit} (as : List α) (hf : ∀ a, Grows R (f a)) :
    Grows R (as.forM f) := by
  induction as with
  | nil => exact .pure ()
  | cons a as ih => exact .bind (hf a) fun _ => ih

protected theorem mapM {f : α → Effect σ β} (as : List α) (hf : ∀ a, Grows R (f a)) :
    Grows R (as.mapM f) := by
  induction as with
  | nil =>
    rw [List.mapM_nil]
    exact .pure []
  | cons a as ih =>
    rw [List.mapM_cons]
    exact .bind (hf a) fun _ => .bind ih fun _ => .pure _

/-- Looking a handler up and going on with it. -/
theorem handler_bind {op : Opcode} {r : Option α} {f : α → Effect σ β}
    (hf : ∀ handle, r = some handle → Grows R (f handle)) : Grows R (handler op r >>= f) := by
  cases r with
  | none => exact .fail _
  | some handle => exact hf handle rfl

end Grows

end Effect

/-! ## Machines -/

/-- What a walk may have changed of a machine. -/
structure Machine.Grown {σ : Type} (R : σ → σ → Prop) (m m' : Machine σ) : Prop where
  program : m'.walk.program = m.walk.program
  stage : m'.walk.stage = m.walk.stage
  isFunction : m'.walk.isFunction = m.walk.isFunction
  callsFetch : m.walk.callsFetch = true → m'.walk.callsFetch = true
  reachedEnd : m.walk.reachedEnd = true → m'.walk.reachedEnd = true
  out : R m.out m'.out

instance {σ : Type} {R : σ → σ → Prop} [IsPreorder σ R] :
    IsPreorder (Machine σ) (Machine.Grown R) where
  refl m := ⟨rfl, rfl, rfl, id, id, refl_of R m.out⟩
  trans _ _ _ h h' :=
    ⟨h'.program.trans h.program, h'.stage.trans h.stage, h'.isFunction.trans h.isFunction,
      h'.callsFetch ∘ h.callsFetch, h'.reachedEnd ∘ h.reachedEnd, trans_of R h.out h'.out⟩

open Effect

section

variable {σ : Type} {R : σ → σ → Prop}

theorem grows_act {f : Walk → Effect σ Unit} (hf : ∀ w, Grows R (f w)) :
    Grows (Machine.Grown R) (Machine.act f) := by
  intro m
  have hout := hf m.walk m.out
  unfold Machine.act
  cases hrun : f m.walk m.out with
  | ok u out | error halt out =>
    rw [hrun] at hout
    exact ⟨rfl, rfl, rfl, id, id, hout⟩

theorem grows_modifyWalk {f : Walk → Walk}
    (hf : ∀ m : Machine σ, m.Grown R { m with walk := f m.walk }) :
    Grows (Machine.Grown R) (Machine.modifyWalk f) :=
  .modify hf

variable [IsPreorder σ R]

theorem grows_count (counter : Counter) :
    Grows (Machine.Grown R) (Machine.count counter : Effect (Machine σ) Unit) := by
  refine .bind .get fun _ => .bind (.next _ _) fun _ => grows_modifyWalk fun m => ?_
  cases counter <;> exact ⟨rfl, rfl, rfl, id, id, refl_of R m.out⟩

theorem grows_afterCf (op : CfOp) (cf : CfInstr) :
    Grows (Machine.Grown R) (Machine.modifyWalk fun w => w.afterCf op cf) := by
  refine grows_modifyWalk fun m =>
    ⟨rfl, rfl, rfl, fun hcalls => ?_, fun hend => ?_, refl_of R m.out⟩
  · simp [Walk.afterCf, hcalls]
  · simp [Walk.afterCf, hend]

theorem grows_afterExport (cf : CfInstr) :
    Grows (Machine.Grown R) (Machine.modifyWalk fun w => w.afterExport cf) := by
  refine grows_modifyWalk fun m => ⟨rfl, rfl, rfl, id, fun hend => ?_, refl_of R m.out⟩
  simp [Walk.afterExport, hend]

theorem grows_begin : Grows (Machine.Grown R)
    (Machine.modifyWalk fun w => { w with status := .walking }) :=
  grows_modifyWalk fun m => ⟨rfl, rfl, rfl, id, id, refl_of R m.out⟩

/-! ## Walks -/

variable {h : Handlers σ} (hh : h.Each fun _ f => ∀ w, Grows R (f w))
include hh

theorem grows_invoke (v : Invocation) : Grows (Machine.Grown R) (invoke h v) :=
  .handler_bind fun action hfind => .bind (grows_act (hh.call v action hfind)) fun _ => .pure _

/-- Walks by handlers that lead up in an order do so. -/
theorem runClosed_grows : RunClosed h h fun _ x _ => Grows (Machine.Grown R) x where
  mono hx _ := hx
  pure := .pure
  fail _ := .fail _
  bind := .bind
  read_bind {α β b f g reading} _ hf := by
    intro m
    show Machine.Grown R m (stateOf ((decode (reading m.walk.program) >>= f) m))
    cases hread : reading m.walk.program with
    | ok v => exact hf _ v hread m
    | error fault => exact refl_of _ m
  alu _ _ := grows_invoke hh _
  invoke v _ := grows_invoke hh v
  beginGroup cf g := grows_act (hh.beginGroup cf g)
  endGroup cf g := grows_act (hh.endGroup cf g)
  countGroup := grows_count .group
  examine _ := .bind .get fun _ => .check _
  afterCf := grows_afterCf
  afterExport := grows_afterExport
  countCf := grows_count .cf
  get_bind := .bind .get
  start := grows_begin

theorem grows_walkToEnd : Grows (Machine.Grown R) (walkToEnd h) := by
  intro m
  have hwalk := (runClosed_grows hh).walkProgram m
  unfold walkToEnd
  cases hrun : walkProgram h m with
  | ok u m' | error halt m' =>
    rw [hrun] at hwalk
    exact ⟨hwalk.program, hwalk.stage, hwalk.isFunction, hwalk.callsFetch, hwalk.reachedEnd,
      hwalk.out⟩

end

end LatteHlsl
