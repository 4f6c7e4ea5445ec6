import Mathlib.Data.List.Infix
import LatteHlsl.Proofs.EmitClosure
import LatteHlsl.Proofs.ExportSlots
import LatteHlsl.Proofs.Growth
import LatteHlsl.Proofs.Usage

/-!
# Sessions only add

The parts of a walk can be called one by one, in any order, with any arguments, and again after one
of them has halted. Whatever a call comes to, it adds a piece to the output of its job. So nothing
that was written, recorded or raised by an earlier call is taken back by a later one, and what the
job was started with stays as it is.

* `Output.Grown`: an output with a piece added, held back writes left out of account.
* `Adds`, `adds_handlers`: the handlers of the compiler add pieces, also where they halt.
* `Usage.Records.le`: a usage that records more is larger in every part. A size is held below its
  capacity by a minimum, and only sizes within their capacity are never made smaller by it.
* `Job.Extends`, `calls_extend`: whole sessions.
-/

namespace LatteHlsl

open Isa Hlsl Effect

/-! ## What a piece keeps -/

/-- Every part of the usage `v` is at least what it is in `u`. -/
structure Usage.Le (u v : Usage) : Prop where
  textures : ∀ s : Slot, u.textures[s] = true → v.textures[s] = true
  samplers : ∀ s : Slot, u.samplers[s] = true → v.samplers[s] = true
  uniformBlocks : ∀ b : Slot, u.uniformBlocks[b] ≤ v.uniformBlocks[b]
  cfile : u.cfile ≤ v.cfile

/-- No array of constants is used beyond its capacity. -/
structure Usage.Fits (u : Usage) : Prop where
  uniformBlocks : ∀ b : Slot, u.uniformBlocks[b] ≤ uniformBlockCapacity
  cfile : u.cfile ≤ cfileCapacity

/-- A number within a capacity is below another one if all bounds of that one are bounds of it. -/
theorem le_of_bounds {capacity x y : Nat} (hx : x ≤ capacity)
    (h : ∀ n, n < capacity → y ≤ n → x ≤ n) : x ≤ y := by
  by_cases hy : y < capacity
  · exact h y hy (Nat.le_refl y)
  · omega

/-- A usage that records more accesses is larger. -/
theorem Usage.Records.le {u v : Usage} {P Q : Access → Prop} (hu : u.Records P) (hv : v.Records Q)
    (h : ∀ a, P a → Q a) : u.Le v where
  textures s hs := (hv.textures s).mpr (h _ ((hu.textures s).mp hs))
  samplers s hs := (hv.samplers s).mpr (h _ ((hu.samplers s).mp hs))
  uniformBlocks b := by
    apply le_of_bounds (hu.block_le b)
    intro n hn hle
    rw [hu.block_le_iff b n hn]
    intro a ha
    exact (hv.block_le_iff b n hn).mp hle a (h a ha)
  cfile := by
    apply le_of_bounds hu.cfile_le
    intro n hn hle
    rw [hu.cfile_le_iff n hn]
    intro a ha
    exact (hv.cfile_le_iff n hn).mp hle a (h a ha)

theorem Usage.Records.fits {u : Usage} {P : Access → Prop} (hu : u.Records P) : u.Fits :=
  ⟨hu.block_le, hu.cfile_le⟩

/-- Entries of an export map stay where they are. -/
theorem ExportMap.entries_prefix_assignAll (m : ExportMap) (ts : List (ExportKind × Word)) :
    m.entries <+: (m.assignAll ts).entries := by
  induction ts generalizing m with
  | nil => exact List.prefix_refl _
  | cons t ts ih =>
    have hfirst : m.entries <+: (m.assign t.1 t.2).2.entries := by
      by_cases hmem : t ∈ m.targets
      · obtain ⟨slot, hslot⟩ := exists_slot? hmem
        rw [assign_of_slot? hslot]
      · rw [assign_of_not_mem hmem]
        exact List.prefix_append _ _
    rw [assignAll_cons]
    exact hfirst.trans (ih _)

namespace Compile

/-- The second output is the first one with a piece added. Writes that are held back belong to a
group that is not yet written, and a group that fails drops them. -/
def Output.Grown (o o' : Output) : Prop := ∃ p : Piece, o'.released = o.released.add p

instance : IsPreorder Output Output.Grown where
  refl o := ⟨{}, (Output.add_empty _).symm⟩
  trans o o' o'' := by
    rintro ⟨p, hp⟩ ⟨q, hq⟩
    refine ⟨p ++ q, ?_⟩
    rw [hq, hp, Output.add_add]

namespace Output.Grown

variable {o o' : Output}

theorem body (h : o.Grown o') : o.body.toList <+: o'.body.toList := by
  obtain ⟨p, hp⟩ := h
  have hbody : o'.body = o.body ++ p.lines.toArray := congrArg Output.body hp
  rw [hbody, Array.toList_append]
  exact List.prefix_append _ _

theorem inputs (h : o.Grown o') : o.inputs <+: o'.inputs := by
  obtain ⟨p, hp⟩ := h
  have hinputs : o'.inputs = o.inputs ++ p.inputs := congrArg Output.inputs hp
  rw [hinputs]
  exact List.prefix_append _ _

theorem exports (h : o.Grown o') : o.exports.entries <+: o'.exports.entries := by
  obtain ⟨p, hp⟩ := h
  have hexports : o'.exports = o.exports.assignAll p.targets := congrArg Output.exports hp
  rw [hexports]
  exact o.exports.entries_prefix_assignAll p.targets

/-- What the usage records is recorded still. -/
theorem records {P : Access → Prop} (h : o.Grown o') (hP : o.usage.Records P) :
    ∃ Q, (∀ a, P a → Q a) ∧ o'.usage.Records Q := by
  obtain ⟨p, hp⟩ := h
  have husage : o'.usage = p.accesses.foldl Usage.record o.usage := congrArg Output.usage hp
  refine ⟨fun a => P a ∨ a ∈ p.accesses, fun a ha => .inl ha, ?_⟩
  rw [husage]
  exact hP.foldl p.accesses

end Output.Grown

/-! ## Actions that add -/

/-- Whatever an action comes to, it has added a piece. -/
abbrev Adds {α : Type} (x : Emit α) : Prop := Grows Output.Grown x

theorem adds_emitLine (l : Line) : Adds (emitLine l) :=
  .modify fun o => ⟨{ lines := [l] }, by simp [Output.released, Output.add]⟩

theorem adds_emit (s : Stmt) : Adds (emit s) := adds_emitLine (.stmt s)

theorem adds_note (c : Context) (l : Line) : Adds (note c l) := by
  unfold note
  split
  · exact adds_emitLine l
  · exact .pure ()

theorem adds_exportSlot (kind : ExportKind) (target : Word) : Adds (exportSlot kind target) :=
  fun o => ⟨{ targets := [(kind, target)] }, by
    simp [exportSlot, stateOf, Output.released, Output.add]⟩

theorem adds_emitMove (m : Move) : Adds (emitMove m) := by
  unfold emitMove
  split
  · exact adds_emit _
  · exact .pure ()

theorem emitClosed_adds (c : Context) : EmitClosed c c fun _ x _ => Adds x where
  context := rfl
  pure a := .pure a
  fail fault := .fail fault
  bind hx hf := .bind hx hf
  emit := adds_emit
  note _ _ := adds_note c _
  record a := .modify fun o => ⟨{ accesses := [a] }, by simp [Output.released, Output.add]⟩
  defer w := .modify fun o => ⟨{}, by simp [Output.released]⟩
  addInput i := .modify fun o => ⟨{ inputs := [i] }, by simp [Output.released, Output.add]⟩
  store kind target _ := .bind (adds_exportSlot kind target) fun _ => adds_emitMove _

theorem adds_beginGroup (c : Context) (w : Walk) (cf : CfInstr) (g : AluGroup) :
    Adds (beginGroup c w cf g) :=
  .bind (.modify fun o => ⟨{}, by simp [Output.released]⟩) fun _ => adds_note c _

/-- The writes that a group has held back are put out, and no longer held. -/
theorem adds_endGroup (w : Walk) (cf : CfInstr) (g : AluGroup) : Adds (endGroup w cf g) := by
  intro o
  have hwrites : Adds (o.deferred.forM (fun write => emit (.regWrite write)) >>= fun _ =>
      emit .latchVector >>= fun _ => emit .latchScalar) :=
    .bind (.forM _ fun write => adds_emit _) fun _ => .bind (adds_emit _) fun _ => adds_emit _
  exact hwrites o.released

/-- Every handler of the compiler adds to its output, whatever it is called with. -/
theorem adds_handlers (c : Context) : (handlers c).Each fun _ f => ∀ w, Adds (f w) where
  call _ _ hfind _ := (emitClosed_adds c).call (.inr Grows.throw) hfind rfl rfl
  beginGroup cf g w := adds_beginGroup c w cf g
  endGroup cf g w := adds_endGroup w cf g

/-! ## Sessions -/

/-- Every part of a walk that can be called adds to the machine. -/
theorem grows_action (c : Context) (call : Call) :
    Grows (Machine.Grown Output.Grown) (call.action c) := by
  have hh := adds_handlers c
  have hQ := runClosed_grows hh
  cases call with
  | compile => exact grows_walkToEnd hh
  | walk => exact hQ.walkProgram
  | cf i => exact hQ.walkCf i
  | cfNormal i => exact hQ.walkCfNormal i
  | cfExport i => exact hQ.walkCfExport i
  | cfAlu i => exact hQ.walkCfAlu i
  | clause owner kind => exact hQ.walkClause owner kind
  | group owner g => exact hQ.walkGroup owner g
  | beginGroup owner g => exact hQ.beginGroup owner g
  | endGroup owner g => exact hQ.endGroup owner g
  | alu owner g target i => exact hQ.walkInstr fun v _ => grows_invoke hh v
  | invoke v => exact hQ.runHandler (grows_invoke hh v)

/-- A list of lines that starts with another one reads as that one and the lines after it. -/
theorem linesText_of_prefix {ls ls' : List Line} (h : ls <+: ls') :
    Output.linesText ls' = Output.linesText ls ++ Output.linesText (ls'.drop ls.length) := by
  obtain ⟨rest, rfl⟩ := h
  rw [List.drop_left]
  simp only [Output.linesText, TextLine.atDepth, TextLine.renderAll, List.map_append,
    String.join_append]

namespace Job

/-- The job after a list of calls, whatever each of them came to. -/
def afterCalls (j : Job) (calls : List Call) : Job := calls.foldl (fun j call => (j.call call).2) j

/-- A later state of a job: nothing was taken back. -/
structure Extends (j j' : Job) : Prop where
  /-- The shapes of the textures, the semantics and the step rates among the rest. -/
  context : j'.context = j.context
  program : j'.walk.program = j.walk.program
  stage : j'.walk.stage = j.walk.stage
  isFunction : j'.walk.isFunction = j.walk.isFunction
  body : j.output.body.toList <+: j'.output.body.toList
  text : Output.linesText j'.output.body.toList =
    Output.linesText j.output.body.toList ++ j'.textSince j
  inputs : j.output.inputs <+: j'.output.inputs
  exports : j.output.exports.entries <+: j'.output.exports.entries
  usage : j.output.usage.Le j'.output.usage
  callsFetch : j.walk.callsFetch = true → j'.walk.callsFetch = true
  reachedEnd : j.walk.reachedEnd = true → j'.walk.reachedEnd = true

/-- The context of a job stays, and its machine grows. -/
structure Grown (j j' : Job) : Prop where
  context : j'.context = j.context
  machine : j.machine.Grown Output.Grown j'.machine

instance : IsPreorder Job Grown where
  refl j := ⟨rfl, refl_of (Machine.Grown Output.Grown) j.machine⟩
  trans _ _ _ h h' :=
    ⟨h'.context.trans h.context, trans_of (Machine.Grown Output.Grown) h.machine h'.machine⟩

theorem call_snd (j : Job) (call : Call) :
    (j.call call).2 = { j with machine := stateOf (call.action j.context j.machine) } := by
  unfold Job.call
  cases call.action j.context j.machine <;> rfl

/-- One call. -/
theorem grown_call (j : Job) (call : Call) : j.Grown (j.call call).2 := by
  rw [call_snd]
  exact ⟨rfl, grows_action j.context call j.machine⟩

/-- A list of calls. -/
theorem grown_afterCalls (j : Job) (calls : List Call) : j.Grown (j.afterCalls calls) := by
  induction calls generalizing j with
  | nil => exact refl_of Grown j
  | cons call calls ih => exact trans_of Grown (j.grown_call call) (ih _)

/-- A usage that was recorded access by access has something to show for each of its parts. -/
theorem Grown.extends {j j' : Job} {P : Access → Prop} (h : j.Grown j')
    (hP : j.output.usage.Records P) : j.Extends j' := by
  have hout : j.output.Grown j'.output := h.machine.out
  obtain ⟨Q, hPQ, hQ⟩ := hout.records hP
  exact
    { context := h.context
      program := h.machine.program
      stage := h.machine.stage
      isFunction := h.machine.isFunction
      body := hout.body
      text := linesText_of_prefix hout.body
      inputs := hout.inputs
      exports := hout.exports
      usage := hP.le hQ hPQ
      callsFetch := h.machine.callsFetch
      reachedEnd := h.machine.reachedEnd }

/-- From a fresh job on, the usage is what was recorded. -/
theorem records_afterCalls (c : Context) (p : Program) (stage : Stage) (isFunction : Bool)
    (calls : List Call) :
    ∃ P, ((start c p stage isFunction).afterCalls calls).output.usage.Records P := by
  have hgrown := grown_afterCalls (start c p stage isFunction) calls
  have hout : Output.Grown {} ((start c p stage isFunction).afterCalls calls).output :=
    hgrown.machine.out
  obtain ⟨Q, -, hQ⟩ := hout.records Usage.Records.empty
  exact ⟨Q, hQ⟩

end Job

/-- In a session that starts with a fresh job, each call leaves all that was there before it,
whether it succeeds or halts, and so do any number of further calls. Throughout, the sizes of
constant arrays are within their capacities. -/
theorem calls_extend (c : Context) (p : Program) (stage : Stage) (isFunction : Bool)
    (calls : List Call) :
    let j := (Job.start c p stage isFunction).afterCalls calls
    (∀ call, j.Extends (j.call call).2) ∧ (∀ more, j.Extends (j.afterCalls more)) ∧
      j.output.usage.Fits := by
  intro j
  obtain ⟨P, hP⟩ := Job.records_afterCalls c p stage isFunction calls
  refine ⟨fun call => ?_, fun more => ?_, hP.fits⟩
  · exact (j.grown_call call).extends hP
  · exact (j.grown_afterCalls more).extends hP

end Compile

end LatteHlsl
