import LatteHlsl.Proofs.ExportSlots
import LatteHlsl.Proofs.Registers
import LatteHlsl.Proofs.Visits

/-!
# Outputs of a run

An export asks for the slots of its targets and assigns the members that have these slots. A target
whose channels are all masked gets a slot too, but nothing is assigned.

* `CfInstr.exportTargets`, `CfInstr.storedTargets`: the targets of an export, and those it stores to.
* `Runs.exports_eq`, `Runs.outputs_eq`: the export map and the assigned members after a run.
* `legalTarget_of_visit`: exports that are compiled are legal at their stage.
* `outputs_of_compile`: all of it for a compilation.
-/

namespace LatteHlsl

open Isa Hlsl Effect

/-! ## Exports of a program -/

namespace Isa.CfInstr

/-- What an export writes; nothing for other instructions. -/
def exportKind? (cf : CfInstr) : Option ExportKind :=
  if cf.type = .exp then ExportKind.ofNat? cf.exportType else none

/-- The targets of an export, one for each element of its burst. -/
def exportTargets (cf : CfInstr) : List (ExportKind × Word) :=
  match cf.exportKind? with
  | some kind => (List.range cf.burstCount).map fun n => (kind, .ofNat 32 (cf.arrayBase + n))
  | none => []

/-- Whether every channel of an export is masked, so that it stores nothing. -/
def exportsNothing (cf : CfInstr) : Bool := Chan.all.all fun c => (cf.exportSels.get c).isMasked

/-- The targets that an export stores to. -/
def storedTargets (cf : CfInstr) : List (ExportKind × Word) :=
  if cf.exportsNothing then [] else cf.exportTargets

end Isa.CfInstr

namespace Task

/-- The target of an export. -/
def target? : Task → Option (ExportKind × Word)
  | .output cf kind n => some (kind, .ofNat 32 (cf.arrayBase + n))
  | .call | .ret | .group _ _ | .sample _ | .fetch _ => none

/-- The target that an export stores to. -/
def stored? : Task → Option (ExportKind × Word)
  | .output cf kind n =>
    if cf.exportsNothing then none else some (kind, .ofNat 32 (cf.arrayBase + n))
  | .call | .ret | .group _ _ | .sample _ | .fetch _ => none

theorem stored?_output (cf : CfInstr) (kind : ExportKind) (n : Nat) :
    (Task.output cf kind n).stored? =
      if cf.exportsNothing then none else some (kind, .ofNat 32 (cf.arrayBase + n)) := rfl

theorem target?_of_stored? {t : Task} {x : ExportKind × Word} (h : t.stored? = some x) :
    t.target? = some x := by
  cases t with
  | output cf kind n =>
    rw [stored?_output] at h
    split at h
    · exact absurd h.symm (Option.some_ne_none x)
    · exact h
  | call | ret | group | sample | fetch => cases h

end Task

namespace Program

/-- Only exports have output tasks, one for each element of the burst. -/
theorem filterMap_cfTasks {β : Type} {f : Task → Option β}
    (hf : ∀ t, t.target? = none → f t = none) (p : Program) (cf : CfInstr) :
    (p.cfTasks cf).filterMap f =
      match cf.exportKind? with
      | some kind => (List.range cf.burstCount).filterMap fun n => f (.output cf kind n)
      | none => [] := by
  have hnone : ∀ ts : List Task, (∀ t ∈ ts, t.target? = none) → ts.filterMap f = [] :=
    fun ts hts => List.filterMap_eq_nil_iff.mpr fun t ht => hf t (hts t ht)
  unfold cfTasks CfInstr.exportKind?
  cases cf.type with
  | normal =>
    refine hnone _ ?_
    dsimp only
    split <;> simp [Task.target?]
  | exp =>
    simp only [if_true]
    cases ExportKind.ofNat? cf.exportType with
    | none => rfl
    | some kind => exact List.filterMap_map
  | alu | aluExtended =>
    refine hnone _ ?_
    dsimp only
    split <;> simp [Task.target?]

theorem filterMap_target?_cfTasks (p : Program) (cf : CfInstr) :
    (p.cfTasks cf).filterMap Task.target? = cf.exportTargets := by
  rw [filterMap_cfTasks fun _ ht => ht]
  unfold CfInstr.exportTargets
  split
  · exact congrFun List.filterMap_eq_map _
  · rfl

theorem filterMap_stored?_cfTasks (p : Program) (cf : CfInstr) :
    (p.cfTasks cf).filterMap Task.stored? = cf.storedTargets := by
  have hnone : ∀ t : Task, t.target? = none → t.stored? = none := by
    intro t ht
    cases hstored : t.stored? with
    | none => rfl
    | some x =>
      rw [Task.target?_of_stored? hstored] at ht
      cases ht
  rw [filterMap_cfTasks hnone]
  unfold CfInstr.storedTargets CfInstr.exportTargets
  cases hmask : cf.exportsNothing with
  | true => split <;> simp [Task.stored?, hmask]
  | false =>
    split
    · simp [Task.stored?, hmask]
    · rfl

theorem filterMap_target?_tasks (p : Program) :
    p.tasks.filterMap Task.target? = p.flow.flatMap CfInstr.exportTargets := by
  simp only [tasks, List.filterMap_flatMap, filterMap_target?_cfTasks]

theorem filterMap_stored?_tasks (p : Program) :
    p.tasks.filterMap Task.stored? = p.flow.flatMap CfInstr.storedTargets := by
  simp only [tasks, List.filterMap_flatMap, filterMap_stored?_cfTasks]

end Program

theorem mem_exportTargets_of_stored {cfs : List CfInstr} {t : ExportKind × Word}
    (h : t ∈ cfs.flatMap CfInstr.storedTargets) : t ∈ cfs.flatMap CfInstr.exportTargets := by
  obtain ⟨cf, hcf, ht⟩ := List.mem_flatMap.mp h
  refine List.mem_flatMap.mpr ⟨cf, hcf, ?_⟩
  unfold CfInstr.storedTargets at ht
  split at ht
  · cases ht
  · exact ht

/-- Targets are small numbers. -/
theorem lt_of_mem_exportTargets {cfs : List CfInstr} {t : ExportKind × Word}
    (h : t ∈ cfs.flatMap CfInstr.exportTargets) : t.2.toNat < 2 ^ 14 := by
  obtain ⟨cf, -, ht⟩ := List.mem_flatMap.mp h
  unfold CfInstr.exportTargets at ht
  split at ht
  · obtain ⟨n, hn, rfl⟩ := List.mem_map.mp ht
    have hbase : cf.arrayBase < 2 ^ 13 :=
      BitField.value_lt Layout.CfExportWord0.arrayBase cf.word0 (by decide)
    have hburst : cf.burstCount ≤ 16 :=
      BitField.value_lt Layout.CfExportWord1.burstCount cf.word1 (by decide)
    have hn := List.mem_range.mp hn
    exact Nat.lt_of_le_of_lt (Nat.mod_le _ _) (by omega)
  · cases ht

/-! ## Assigned members -/

namespace Hlsl

/-- The output member that a variable is. -/
def Place.output? : Place → Option (ExportKind × Nat)
  | .output kind slot => some (kind, slot)
  | .tmp | .gpr _ | .attr _ | .param _ => none

/-- The output member that a statement assigns. -/
def Stmt.output? : Stmt → Option (ExportKind × Nat)
  | .assign a => a.target.output?
  | .lane _ _ | .reduction _ | .address _ _ | .regWrite _ | .latchVector | .latchScalar | .sample _
  | .fetchCall | .ret => none

/-- The output members that a source assigns, in order. -/
def Listing.outputs (m : Listing) : List (ExportKind × Nat) := m.stmts.filterMap Stmt.output?

end Hlsl

namespace Compile

/-- A move assigns its target, unless all its channels are masked. -/
theorem outputs_moveLines (m : Move) :
    ((moveLines m).filterMap Line.stmt?).filterMap Stmt.output? =
      if m.stores = [] then [] else m.target.output?.toList := by
  unfold moveLines
  rw [assignment?_eq]
  split
  · rfl
  · cases hout : m.target.output? <;> simp [Line.stmt?, Stmt.output?, hout]

theorem outputs_moveLines_eq_nil {m : Move} (h : m.target.output? = none) :
    ((moveLines m).filterMap Line.stmt?).filterMap Stmt.output? = [] := by
  rw [outputs_moveLines, h]
  simp

theorem exportsNothing_iff {cf : CfInstr} {m : Move} (h : m.sels = cf.exportSels) :
    cf.exportsNothing = true ↔ m.stores = [] := by
  have hstores : ¬ m.stores = [] ↔ m.Stores := stores_ne_nil_iff
  rw [← not_iff_not, hstores, Move.Stores, h]
  simp [CfInstr.exportsNothing, mem_chanAll]

theorem output?_of_groupStmt {cf : CfInstr} {g : AluGroup} {s : Stmt} (h : GroupStmt cf g s) :
    s.output? = none := by
  cases h <;> rfl

/-! ## Tasks -/

theorem targets_of_lanesPiece {cf : CfInstr} {g : AluGroup} {ls : List Lane} {p : Piece}
    (h : LanesPiece cf g ls p) : p.targets = [] := by
  induction h with
  | nil => rfl
  | skip _ _ ih => exact ih
  | cons _ hp _ ih =>
    rw [Piece.targets_append, ih]
    cases hp <;> rfl

theorem targets_of_groupPiece {cf : CfInstr} {g : AluGroup} {p : Piece} (h : GroupPiece cf g p) :
    p.targets = [] := by
  cases h with
  | lanes hp => exact targets_of_lanesPiece hp
  | reduction hp hq =>
    rw [Piece.targets_append, targets_of_lanesPiece hq]
    cases hp <;> rfl

/-- Only exports ask for targets. -/
theorem Task.Adds.targets_eq {c : Context} {o : Output} {t : Task} {p : Piece}
    (h : Task.Adds c o t p) : p.targets = t.target?.toList := by
  cases h with
  | call | ret | sample | unused | fetch | output => rfl
  | group hls hp =>
    show [] ++ _ = []
    rw [targets_of_groupPiece hp]
    rfl

/-- Only exports assign output members, those of the targets they store to. -/
theorem Task.Adds.outputs_eq {c : Context} {o : Output} {t : Task} {p : Piece}
    (h : Task.Adds c o t p) :
    p.stmts.filterMap Stmt.output? =
      (t.stored?.map fun x => (x.1, (o.exports.assign x.1 x.2).1.toNat)).toList := by
  cases h with
  | call | ret | unused => rfl
  | group hls hp =>
    exact List.filterMap_eq_nil_iff.mpr fun s hs =>
      output?_of_groupStmt ((groupShape_of_group hls hp).stmts s hs)
  | sample hs =>
    simp only [Piece.stmts, List.filterMap_append]
    rw [outputs_moveLines_eq_nil rfl, outputs_moveLines_eq_nil rfl]
    rfl
  | fetch hi => exact outputs_moveLines_eq_nil rfl
  | @output cf kind n =>
    refine (outputs_moveLines _).trans ?_
    rw [if_congr (exportsNothing_iff rfl).symm rfl rfl, Task.stored?_output]
    split <;> rfl

/-! ## Runs -/

theorem Output.exports_add (o : Output) (p : Piece) :
    (o.add p).exports = o.exports.assignAll p.targets := rfl

/-- A run asks for the targets of its exports. -/
theorem Runs.exports_eq {c : Context} {ts : List Task} {o o' : Output} (h : Runs c ts o o') :
    o'.exports = o.exports.assignAll (ts.filterMap Task.target?) := by
  induction h with
  | nil => rfl
  | note _ _ ih => exact ih
  | @cons t _ _ _ _ hp _ ih =>
    rw [ih, Output.exports_add, hp.targets_eq]
    cases ht : t.target? with
    | none => rw [List.filterMap_cons_none ht]; rfl
    | some x => rw [List.filterMap_cons_some ht]; rfl

/-- A run assigns the members of the targets it stores to. Slots are those of the map after the run,
in which each target has kept the slot it had when it was stored to. -/
theorem Runs.outputs_eq {c : Context} {ts : List Task} {o o' : Output} (h : Runs c ts o o') :
    (o'.stmts.filterMap Stmt.output?).map (fun x => (x.1, some x.2)) =
      (o.stmts.filterMap Stmt.output?).map (fun x => (x.1, some x.2)) ++
        (ts.filterMap Task.stored?).map fun t =>
          (t.1, (o'.exports.slot? t.1 t.2).map BitVec.toNat) := by
  induction h with
  | nil => simp
  | note hls _ ih =>
    have hstmts : Piece.stmts { lines := _ } = [] := hls
    rw [ih, Output.stmts_add, hstmts, List.append_nil]
  | @cons t _ o o' p hp hrest ih =>
    rw [ih, Output.stmts_add, List.filterMap_append, List.map_append, hp.outputs_eq,
      List.append_assoc]
    congr 1
    cases ht : t.stored? with
    | none => rw [List.filterMap_cons_none ht]; rfl
    | some x =>
      have hadd : (o.add p).exports = (o.exports.assign x.1 x.2).2 := by
        rw [Output.exports_add, hp.targets_eq, Task.target?_of_stored? ht]
        rfl
      have hslot : o'.exports.slot? x.1 x.2 = some (o.exports.assign x.1 x.2).1 := by
        rw [hrest.exports_eq]
        refine ExportMap.slot?_assignAll ?_ _
        rw [hadd]
        exact ExportMap.slot?_assign_self _ _ _
      rw [List.filterMap_cons_some ht, List.map_cons, hslot]
      rfl

/-! ## Legal exports -/

/-- A target that programs of a stage may export to. -/
def LegalTarget (stage : Stage) (t : ExportKind × Word) : Prop :=
  mayExport t.1 stage = true ∧ (t.1 = .pixel → t.2.toNat < renderTargetCount)

theorem legalTarget_of_compileExport {stage : Stage} {cf : CfInstr} {kind : ExportKind}
    {o o' : Output} {u : Unit} (hkind : ExportKind.ofNat? cf.exportType = some kind)
    (h : compileExport stage cf o = .ok u o') :
    ∀ n < cf.burstCount, LegalTarget stage (kind, .ofNat 32 (cf.arrayBase + n)) := by
  unfold compileExport at h
  simp only [hkind] at h
  split at h
  · rename_i hmay
    intro n hn
    obtain ⟨t, t', helem⟩ := exists_eq_ok_of_forM h n (List.mem_range.mpr hn)
    refine ⟨hmay, fun hpixel => ?_⟩
    unfold compileExportElement at helem
    split at helem
    · exact absurd helem fail_ne_ok
    · rename_i hroom
      refine Nat.lt_of_le_of_lt (Nat.mod_le _ _) (Nat.lt_of_not_le fun hle => hroom ?_)
      exact ⟨hpixel, hle⟩
  · exact absurd h fail_ne_ok

/-- The exports that a walk visits are legal at its stage. -/
theorem legalTarget_of_visit {c : Context} {cf : CfInstr} {m m' : Machine Output} {u : Unit}
    (h : visit (handlers c) cf m = .ok u m') :
    ∀ t ∈ cf.exportTargets, LegalTarget m.walk.stage t := by
  intro t ht
  unfold CfInstr.exportTargets CfInstr.exportKind? at ht
  split at ht
  · rename_i kind hkind
    split at hkind
    · rename_i htype
      obtain ⟨n, hn, rfl⟩ := List.mem_map.mp ht
      obtain ⟨_, m₁, hrun, -⟩ := bind_eq_ok.mp h
      unfold walkCf at hrun
      simp only [htype, walkCfExport, bind_eq_ok, decode_eq_ok] at hrun
      obtain ⟨op, _, ⟨-, rfl⟩, _, m₂, hrun, -⟩ := hrun
      obtain ⟨action, out, hfind, hact, -, -⟩ := runHandler_eq_ok hrun
      obtain ⟨handle, hhandle, rfl⟩ := Option.map_eq_some_iff.mp hfind
      simp only [CfHandler.action, (exportHandler_eq_some hhandle).2] at hact
      obtain ⟨_, o₁, -, hexport⟩ := bind_eq_ok.mp hact
      exact legalTarget_of_compileExport hkind hexport n (List.mem_range.mp hn)
    · cases hkind
  · cases ht

/-! ## Jobs -/

/-- A compilation that succeeds is its walk, with the outcome recorded. -/
theorem walk_of_compile {j j' : Job} (h : j.compile = .ok j') :
    ∃ m, walkProgram (handlers j.context) j.machine = .ok () m ∧
      j' = { j with machine := { m with walk := { m.walk with status := .completed } } } := by
  unfold Job.compile Job.call at h
  simp only [Call.action, walkToEnd] at h
  cases hwalk : walkProgram (handlers j.context) j.machine with
  | ok u m =>
    rw [hwalk] at h
    exact ⟨m, rfl, (Except.ok.inj h).symm⟩
  | error halt m =>
    rw [hwalk] at h
    cases h

/-- What a compilation that succeeds has exported. -/
theorem outputs_of_compile {c : Context} {p : Program} {stage : Stage} {isFunction : Bool} {j : Job}
    (h : (Job.start c p stage isFunction).compile = .ok j) :
    ∃ xs, WalksThrough (handlers c) xs (Job.start c p stage isFunction).machine
        (walkProgram (handlers c) (Job.start c p stage isFunction).machine) ∧
      j.output.exports =
        ExportMap.assignAll {} ((xs.map Prod.snd).flatMap CfInstr.exportTargets) ∧
      (j.output.stmts.filterMap Stmt.output?).map (fun x => (x.1, some x.2)) =
        ((xs.map Prod.snd).flatMap CfInstr.storedTargets).map
          (fun t => (t.1, (j.output.exports.slot? t.1 t.2).map BitVec.toNat)) ∧
      ∀ t ∈ (xs.map Prod.snd).flatMap CfInstr.exportTargets, LegalTarget stage t := by
  have hh := onlyFault_handlers c
  obtain ⟨xs, hw⟩ := exists_walksThrough hh (Job.start c p stage isFunction).machine
  obtain ⟨m, hwalk, -⟩ := walk_of_compile h
  obtain ⟨-, -, -, -, -, hruns⟩ := runs_of_compile h
  refine ⟨xs, hw, ?_⟩
  have hw' : WalksThrough (handlers c) xs _ (.ok () m) := hwalk ▸ hw
  have hflow : xs.map Prod.snd = p.flow := hw'.flow hh (fresh_start c p stage isFunction)
  refine ⟨?_, ?_, ?_⟩
  · rw [hflow, ← p.filterMap_target?_tasks]
    exact hruns.exports_eq
  · rw [hflow, ← p.filterMap_stored?_tasks]
    exact hruns.outputs_eq
  · intro t ht
    obtain ⟨cf, hcf, ht⟩ := List.mem_flatMap.mp ht
    obtain ⟨x, hx, rfl⟩ := List.mem_map.mp hcf
    obtain ⟨m₁, m₂, hstage, hvisit⟩ := hw'.visited hh x hx
    have hlegal := legalTarget_of_visit hvisit t ht
    rw [hstage] at hlegal
    exact hlegal

/-- Fetch programs assign no output. -/
theorem outputs_fetch {c : Context} {p : Program} {isFunction : Bool} {j : Job}
    (h : (Job.start c p .fetch isFunction).compile = .ok j) :
    j.output.stmts.filterMap Stmt.output? = [] := by
  obtain ⟨xs, -, -, houtputs, hlegal⟩ := outputs_of_compile h
  have hstored : (xs.map Prod.snd).flatMap CfInstr.storedTargets = [] := by
    refine List.eq_nil_iff_forall_not_mem.mpr fun t ht => ?_
    obtain ⟨hmay, -⟩ := hlegal t (mem_exportTargets_of_stored ht)
    revert hmay
    cases t.1 <;> decide
  rw [hstored] at houtputs
  exact List.map_eq_nil_iff.mp houtputs

end Compile

end LatteHlsl
