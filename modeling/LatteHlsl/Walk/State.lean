import LatteHlsl.Microcode.Group
import LatteHlsl.Microcode.Program

/-!
# The state of a walk

A walk goes through the control flow instructions of a program in order. `Walk` is its own state,
`Machine` adds the state of whoever is driven by it. Actions that fail keep what they did so far.
-/

namespace LatteHlsl

open Isa

/-- How far a walk has come. -/
inductive Status where
  | notStarted | walking | completed | failed
deriving DecidableEq, Repr

/-- The state of a walk. -/
structure Walk where
  program : Program
  stage : Stage
  /-- Whether the program is compiled as a function that other code calls. -/
  isFunction : Bool := false
  /-- Number of the current control flow instruction. -/
  cfPc : Word := 0
  /-- Number of ALU groups walked. -/
  groupPc : Word := 0
  /-- Whether an instruction ended the program. -/
  reachedEnd : Bool := false
  /-- Whether the program called a fetch program. -/
  callsFetch : Bool := false
  status : Status := .notStarted
deriving DecidableEq

/-- The number that a counter is at. -/
def Walk.counted (w : Walk) : Counter → Word
  | .cf => w.cfPc
  | .group => w.groupPc

/-- The walk with a counter at `n`. -/
def Walk.withCounted (w : Walk) (n : Word) : Counter → Walk
  | .cf => { w with cfPc := n }
  | .group => { w with groupPc := n }

@[simp] theorem Walk.counted_cf (w : Walk) : w.counted .cf = w.cfPc := rfl

@[simp] theorem Walk.counted_group (w : Walk) : w.counted .group = w.groupPc := rfl

@[simp] theorem Walk.withCounted_cf (w : Walk) (n : Word) :
    w.withCounted n .cf = { w with cfPc := n } := rfl

@[simp] theorem Walk.withCounted_group (w : Walk) (n : Word) :
    w.withCounted n .group = { w with groupPc := n } := rfl

/-- A walk, and the state of its handlers. -/
structure Machine (σ : Type) where
  walk : Walk
  out : σ

/-- An action that may halt; the state it leaves behind is kept in both outcomes. -/
abbrev Effect (σ α : Type) := EStateM Halt σ α

namespace Effect

variable {σ α : Type}

/-- Halt with a compilation fault. -/
def fail (fault : CompileFault) : Effect σ α := throw (.fault fault)

/-- The value of a decoding step, or its fault. -/
def decode (r : Except DecodeFault α) : Effect σ α :=
  match r with
  | .ok a => pure a
  | .error fault => fail (.decode fault)

/-- The value of a compilation step, or its fault. -/
def check (r : Except CompileFault α) : Effect σ α :=
  match r with
  | .ok a => pure a
  | .error fault => fail fault

/-- The number after `n`. Counters have 32 bits and do not start over. -/
def next (counter : Counter) (n : Word) : Effect σ Word :=
  if n = BitVec.allOnes 32 then throw (.counterOverflow counter) else pure (n + 1)

end Effect

namespace Machine

variable {σ : Type}

/-- Let a handler act on its own state; it may look at the walk but not change it. -/
def act (f : Walk → Effect σ Unit) : Effect (Machine σ) Unit := fun m =>
  match f m.walk m.out with
  | .ok () out => .ok () { m with out := out }
  | .error halt out => .error halt { m with out := out }

/-- Change the state of the walk. -/
def modifyWalk (f : Walk → Walk) : Effect (Machine σ) Unit :=
  modify fun m => { m with walk := f m.walk }

/-- Raise a counter by one. -/
def count (counter : Counter) : Effect (Machine σ) Unit := do
  let m ← get
  let n ← Effect.next counter (m.walk.counted counter)
  modifyWalk fun w => w.withCounted n counter

/-- The value of a check of the walk, or its fault. -/
def examine {α : Type} (test : Walk → Except CompileFault α) : Effect (Machine σ) α := do
  let m ← get
  Effect.check (test m.walk)

/-- What is read from the program, or the fault of the read. -/
def read {α : Type} (reading : Program → Except DecodeFault α) : Effect (Machine σ) α := do
  let m ← get
  Effect.decode (reading m.walk.program)

end Machine

end LatteHlsl
