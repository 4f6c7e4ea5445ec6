import LatteHlsl.Compile.Session
import LatteHlsl.Proofs.Group

/-!
# Runs of the compiler

A program asks the compiler for a list of tasks: the control flow instructions up to the one that
ends the program, each with its clause. A compilation that succeeds has carried out these tasks and
no others, in their order.

* `Program.tasks`: the tasks of a program, read off its bytes.
* `Task.Adds`: the piece that a task adds to an output.
* `Runs`: tasks carried out one after the other.
* `walkSteps_eq_ok`, `runs_of_compile`: what a successful walk has run.
-/

namespace LatteHlsl

open Isa Hlsl Effect Compile

/-! ## Tasks -/

/-- One thing that a program asks the compiler for. -/
inductive Task where
  /-- Call the fetch program. -/
  | call
  | ret
  | group (cf : CfInstr) (g : AluGroup)
  | sample (i : TexInstr)
  /-- Fetch a vertex attribute. -/
  | fetch (i : VtxInstr)
  /-- Element `n` of an export. -/
  | output (cf : CfInstr) (kind : ExportKind) (n : Nat)
deriving DecidableEq

/-- Whether no instruction after this one is reached. -/
def Isa.CfInstr.isTerminal (cf : CfInstr) : Bool :=
  match cf.type with
  | .normal => decide (cf.cfOp.toOption = some .ret) || cf.endOfProgram
  | .exp => cf.endOfProgram
  | .alu | .aluExtended => false

namespace Program

/-- The tasks of one control flow instruction. -/
def cfTasks (p : Program) (cf : CfInstr) : List Task :=
  match cf.type with
  | .normal =>
    match cf.cfOp with
    | .ok .callFs => [.call]
    | .ok .ret => [.ret]
    | .ok .tex => ((p.texClause cf.addr cf.count).toOption.getD []).map .sample
    | .ok .vtx | .ok .vtxTc => ((p.vtxClause cf.addr cf.count).toOption.getD []).map .fetch
    | _ => []
  | .exp =>
    match ExportKind.ofNat? cf.exportType with
    | some kind => (List.range cf.burstCount).map (.output cf kind)
    | none => []
  | .alu | .aluExtended =>
    match p.aluClause cf.aluAddr cf.aluCount with
    | .ok slots => (AluGroup.readAll slots).groups.map (.group cf)
    | .error _ => []

/-- The control flow instructions from slot `pc` on up to a terminal one, `n` at most. -/
def flowFrom (p : Program) : (n pc : Nat) → List CfInstr
  | 0, _ => []
  | n + 1, pc =>
    if p.hasCf pc then
      match p.cfAt pc with
      | .ok cf => cf :: if cf.isTerminal then [] else p.flowFrom n (pc + 1)
      | .error _ => []
    else []

/-- The control flow instructions that are reached. -/
def flow (p : Program) : List CfInstr := p.flowFrom p.cfSlots 0

/-- The tasks of a program. -/
def tasks (p : Program) : List Task := p.flow.flatMap p.cfTasks

end Program

/-! ## Carrying out tasks -/

namespace Compile

/-- What a task adds to the output `o`. Only the slot of an export depends on `o`. -/
inductive Task.Adds (c : Context) (o : Output) : Task → Piece → Prop where
  | call : Adds c o .call { lines := [.stmt .fetchCall] }
  | ret : Adds c o .ret { lines := [.stmt .ret] }
  | group {cf : CfInstr} {g : AluGroup} {ls : List Line} {p : Piece}
      (hls : ls.filterMap Line.stmt? = []) (hp : GroupPiece cf g p) :
      Adds c o (.group cf g) ({ lines := ls } ++ p).close
  | sample {i : TexInstr} {s : Sample} (hs : sampleOf c.texDims i = .ok s) :
      Adds c o (.sample i)
        { lines := moveLines ⟨.tmp, loopRelative i.srcGpr i.srcRel, i.srcSels⟩ ++
            [.stmt (.sample s)] ++ moveLines ⟨loopRelative i.dstGpr i.dstRel, .tmp, i.dstSels⟩
          accesses := [.texture s.texture, .sampler s.sampler] }
  | unused {i : VtxInstr} (hi : attributeOf c i = .ok none) : Adds c o (.fetch i) {}
  | fetch {i : VtxInstr} {input : VertexInput} {gpr : Nat}
      (hi : attributeOf c i = .ok (some (input, gpr))) :
      Adds c o (.fetch i)
        { lines := moveLines ⟨.gpr ⟨gpr, []⟩, .attr input.location, i.dstSels⟩, inputs := [input] }
  | output {cf : CfInstr} {kind : ExportKind} {n : Nat} :
      Adds c o (.output cf kind n)
        { lines := moveLines
            ⟨.output kind (o.exports.assign kind (.ofNat 32 (cf.arrayBase + n))).1.toNat,
              loopRelative (cf.exportGpr + n) cf.exportRel, cf.exportSels⟩
          targets := [(kind, .ofNat 32 (cf.arrayBase + n))] }

theorem Task.Adds.held_eq_nil {c : Context} {o : Output} {t : Task} {p : Piece}
    (h : Task.Adds c o t p) : p.held = [] := by
  cases h <;> rfl

/-- Tasks carried out one after the other, with comments between them. -/
inductive Runs (c : Context) : List Task → Output → Output → Prop where
  | nil {o : Output} : Runs c [] o o
  | note {ts : List Task} {o o' : Output} {ls : List Line} (hls : ls.filterMap Line.stmt? = [])
      (h : Runs c ts (o.add { lines := ls }) o') : Runs c ts o o'
  | cons {t : Task} {ts : List Task} {o o' : Output} {p : Piece} (hp : Task.Adds c o t p)
      (h : Runs c ts (o.add p) o') : Runs c (t :: ts) o o'

theorem Runs.append {c : Context} {ts ts' : List Task} {o o' o'' : Output} (h : Runs c ts o o')
    (h' : Runs c ts' o' o'') : Runs c (ts ++ ts') o o'' := by
  induction h with
  | nil => exact h'
  | note hls _ ih => exact .note hls (ih h')
  | cons hp _ ih => exact .cons hp (ih h')

theorem Runs.single {c : Context} {t : Task} {o : Output} {p : Piece} (hp : Task.Adds c o t p) :
    Runs c [t] o (o.add p) := .cons hp .nil

/-- What holds at the start and after every comment and every task holds at the end. -/
theorem Runs.invariant {c : Context} {ts : List Task} {o o' : Output} {P : Output → Prop}
    (h : Runs c ts o o') (hstart : P o)
    (hnote : ∀ o ls, ls.filterMap Line.stmt? = [] → P o → P (o.add { lines := ls }))
    (htask : ∀ o t p, Task.Adds c o t p → P o → P (o.add p)) : P o' := by
  induction h with
  | nil => exact hstart
  | note hls _ ih => exact ih (hnote _ _ hls hstart)
  | cons hp _ ih => exact ih (htask _ _ _ hp hstart)

/-- A statement that a run adds is one of some task. -/
theorem Runs.exists_adds {c : Context} {ts : List Task} {o o' : Output} {s : Stmt}
    (h : Runs c ts o o') (hs : s ∈ o'.stmts) :
    s ∈ o.stmts ∨ ∃ t ∈ ts, ∃ o₁ p, Task.Adds c o₁ t p ∧ s ∈ p.stmts := by
  induction h with
  | nil => exact .inl hs
  | note hls _ ih =>
    have hstmts : Piece.stmts { lines := _ } = [] := hls
    simpa only [Output.stmts_add, hstmts, List.append_nil] using ih hs
  | cons hp _ ih =>
    rcases ih hs with hold | ⟨t, ht, hadds⟩
    · rw [Output.stmts_add] at hold
      rcases List.mem_append.mp hold with hold | hnew
      · exact .inl hold
      · exact .inr ⟨_, List.mem_cons_self, _, _, hp, hnew⟩
    · exact .inr ⟨t, List.mem_cons_of_mem _ ht, hadds⟩

/-- All statements of a run have a property exactly if the statements of each task have it. -/
theorem Runs.forall_stmts_iff {c : Context} {ts : List Task} {o o' : Output} {P : Stmt → Prop}
    {Q : Task → Prop} (h : Runs c ts o o')
    (htask : ∀ o t p, Task.Adds c o t p → ((∀ s ∈ p.stmts, P s) ↔ Q t)) :
    (∀ s ∈ o'.stmts, P s) ↔ (∀ s ∈ o.stmts, P s) ∧ ∀ t ∈ ts, Q t := by
  induction h with
  | nil => simp
  | note hls _ ih =>
    have hstmts : Piece.stmts { lines := _ } = [] := hls
    rw [ih, Output.stmts_add, hstmts, List.append_nil]
  | cons hp _ ih =>
    rw [ih, Output.stmts_add, List.forall_mem_append, htask _ _ _ hp, List.forall_mem_cons,
      and_assoc]

/-! ## Walks carry out tasks -/

/-- Lists of actions carry out lists of tasks, if each action carries out its own. -/
theorem forM_of_step {σ α : Type} {f : α → Effect σ Unit} {task : α → Task}
    {R : List Task → σ → σ → Prop} (hnil : ∀ s, R [] s s)
    (happend : ∀ ts ts' s s' s'', R ts s s' → R ts' s' s'' → R (ts ++ ts') s s'')
    (hstep : ∀ a s s', f a s = .ok () s' → R [task a] s s') {as : List α} {u : Unit} :
    ∀ {s s' : σ}, as.forM f s = .ok u s' → R (as.map task) s s' := by
  induction as with
  | nil =>
    intro s s' h
    obtain rfl := forM_nil_eq_ok.mp h
    exact hnil s
  | cons a as ih =>
    intro s s' h
    obtain ⟨t, hhead, htail⟩ := forM_cons_eq_ok.mp h
    exact happend [task a] (as.map task) s t s' (hstep a s t hhead) (ih htail)

theorem released_add {o : Output} {p : Piece} (hp : p.held = []) :
    (o.add p).released = o.released.add p := by
  simp [Output.released, Output.add, hp]

/-- Writes that are held back do not outlast a task, so they are left out of account. -/
def Carried (c : Context) (ts : List Task) (o o' : Output) : Prop :=
  Runs c ts o.released o'.released

theorem Carried.of_adds {c : Context} {t : Task} {o : Output} {p : Piece}
    (hp : Task.Adds c o.released t p) : Carried c [t] o (o.add p) := by
  unfold Carried
  rw [released_add hp.held_eq_nil]
  exact .single hp

theorem Carried.of_note {c : Context} {o : Output} {ls : List Line}
    (hls : ls.filterMap Line.stmt? = []) : Carried c [] o (o.add { lines := ls }) := by
  unfold Carried
  rw [released_add rfl]
  exact .note hls .nil

/-- Tasks carried out by a machine, whose walk goes on counting groups only. -/
structure Performs (c : Context) (ts : List Task) (m m' : Machine Output) : Prop where
  carried : Carried c ts m.out m'.out
  walk : ∃ n, m'.walk = { m.walk with groupPc := n }

theorem Performs.nil {c : Context} (m : Machine Output) : Performs c [] m m :=
  ⟨.nil, m.walk.groupPc, rfl⟩

theorem Performs.append {c : Context} {ts ts' : List Task} {m m' m'' : Machine Output}
    (h : Performs c ts m m') (h' : Performs c ts' m' m'') : Performs c (ts ++ ts') m m'' := by
  obtain ⟨n, hn⟩ := h.walk
  obtain ⟨n', hn'⟩ := h'.walk
  exact ⟨Runs.append h.carried h'.carried, n', by rw [hn', hn]⟩

theorem performs_walkGroup {c : Context} {cf : CfInstr} {g : AluGroup} {m m' : Machine Output}
    (h : walkGroup (handlers c) cf g m = .ok () m') : Performs c [.group cf g] m m' := by
  obtain ⟨n, ls, p, hls, hp, rfl⟩ := walkGroup_eq_ok h
  refine ⟨?_, n, rfl⟩
  exact Carried.of_adds (o := m.out.released) (.group hls hp)

/-- What a sample adds when it compiles. -/
theorem compileSample_eq_ok {c : Context} (w : Walk) (cf : CfInstr) {i : TexInstr} {o o' : Output}
    {u : Unit} (h : compileSample c w cf i o = .ok u o') :
    ∃ p, (∀ o, Task.Adds c o (.sample i) p) ∧ o' = o.add p := by
  simp only [compileSample, bind_eq_ok, check_eq_ok, emitMove_eq_ok, emit_eq_ok, record_eq_ok] at h
  obtain ⟨s, _, ⟨hs, rfl⟩, _, _, rfl, _, _, rfl, _, _, rfl, _, _, rfl, rfl⟩ := h
  simp only [Output.add_add, Piece.mk_append_mk, List.append_nil, List.nil_append]
  exact ⟨_, fun _ => .sample hs, rfl⟩

/-- What a semantic fetch adds when it compiles. -/
theorem compileAttribute_eq_ok {c : Context} (w : Walk) (cf : CfInstr) {i : VtxInstr}
    {o o' : Output} {u : Unit} (h : compileAttribute c w cf i o = .ok u o') :
    ∃ p, (∀ o, Task.Adds c o (.fetch i) p) ∧ o' = o.add p := by
  simp only [compileAttribute, bind_eq_ok, check_eq_ok] at h
  obtain ⟨r, _, ⟨hr, rfl⟩, h⟩ := h
  cases r with
  | none =>
    obtain ⟨-, rfl⟩ := pure_eq_ok.mp h
    exact ⟨{}, fun _ => .unused hr, by simp⟩
  | some attr =>
    simp only [bind_eq_ok, addInput_eq_ok, emitMove_eq_ok] at h
    obtain ⟨_, _, rfl, rfl⟩ := h
    simp only [Output.add_add, Piece.mk_append_mk, List.append_nil, List.nil_append]
    exact ⟨_, fun _ => .fetch hr, rfl⟩

theorem carried_compileExport {c : Context} {stage : Stage} {cf : CfInstr} {o o' : Output}
    {u : Unit} (h : compileExport stage cf o = .ok u o') :
    ∃ kind, ExportKind.ofNat? cf.exportType = some kind ∧
      Carried c ((List.range cf.burstCount).map (.output cf kind)) o o' := by
  unfold compileExport at h
  cases hkind : ExportKind.ofNat? cf.exportType with
  | none =>
    simp only [hkind] at h
    exact absurd h fail_ne_ok
  | some kind =>
    simp only [hkind] at h
    refine ⟨kind, rfl, ?_⟩
    split at h
    · refine forM_of_step (R := Carried c) (fun _ => .nil) (fun _ _ _ _ _ => Runs.append) ?_ h
      intro n o o' helem
      unfold compileExportElement at helem
      split at helem
      · exact absurd helem fail_ne_ok
      · simp only [bind_eq_ok, exportSlot_eq_ok, emitMove_eq_ok] at helem
        obtain ⟨_, _, ⟨rfl, rfl⟩, rfl⟩ := helem
        simp only [Output.add_add, Piece.mk_append_mk, List.append_nil, List.nil_append]
        exact .of_adds .output
    · exact absurd h fail_ne_ok

/-! ## Control flow -/

/-- A list of instructions, each of which performs one task. -/
theorem performs_forM {c : Context} {α : Type} {f : α → Effect (Machine Output) Unit}
    {task : α → Task} {as : List α} {m m' : Machine Output} {u : Unit} (h : as.forM f m = .ok u m')
    (hf : ∀ a m m', f a m = .ok () m' → Performs c [task a] m m') :
    Performs c (as.map task) m m' :=
  forM_of_step (R := Performs c) .nil (fun _ _ _ _ _ => .append) hf h

theorem performs_walkAluClause {c : Context} {cf : CfInstr} {m m' : Machine Output} {u : Unit}
    (h : walkAluClause (handlers c) cf m = .ok u m') :
    ∃ slots, m.walk.program.aluClause cf.aluAddr cf.aluCount = .ok slots ∧
      Performs c ((AluGroup.readAll slots).groups.map (.group cf)) m m' := by
  simp only [walkAluClause, bind_eq_ok, Machine.read_eq_ok] at h
  obtain ⟨slots, _, ⟨hslots, rfl⟩, _, m₁, hgroups, hfault⟩ := h
  refine ⟨slots, hslots, ?_⟩
  cases hcase : (AluGroup.readAll slots).fault with
  | none =>
    simp only [hcase, pure_eq_ok] at hfault
    obtain ⟨-, rfl⟩ := hfault
    exact performs_forM hgroups fun _ _ _ hrun => performs_walkGroup hrun
  | some fault =>
    simp only [hcase] at hfault
    exact absurd hfault fail_ne_ok

/-- A fetch clause whose handlers carry out one task for each fetch. -/
theorem performs_walkFetches {c : Context} {ι : Type} {task : ι → Task}
    {reading : Program → Nat → Nat → Except DecodeFault (List ι)}
    {invocation : ι → Except DecodeFault Invocation} {cf : CfInstr} {m m' : Machine Output} {u : Unit}
    (hcall : ∀ i v action w o o', invocation i = .ok v → (handlers c).find v = some action →
      action.run w o = .ok () o' → ∃ p, (∀ o, Task.Adds c o (task i) p) ∧ o' = o.add p)
    (h : walkFetches (handlers c) reading invocation cf m = .ok u m') :
    Performs c (((reading m.walk.program cf.addr cf.count).toOption.getD []).map task) m m' := by
  simp only [walkFetches, bind_eq_ok, Machine.read_eq_ok] at h
  obtain ⟨fetches, _, ⟨hfetches, rfl⟩, hrun⟩ := h
  rw [hfetches]
  refine performs_forM hrun fun i m m' hfetch => ?_
  obtain ⟨v, action, out, hv, hfind, hact, rfl⟩ := walkInstr_eq_ok.mp hfetch
  obtain ⟨p, hp, rfl⟩ := hcall i v action _ _ _ hv hfind hact
  exact ⟨.of_adds (hp _), m.walk.groupPc, rfl⟩

theorem performs_walkTexClause {c : Context} {cf : CfInstr} {m m' : Machine Output} {u : Unit}
    (h : walkTexClause (handlers c) cf m = .ok u m') :
    Performs c (((m.walk.program.texClause cf.addr cf.count).toOption.getD []).map .sample)
      m m' := by
  refine performs_walkFetches (fun i v action w o o' hv hfind hrun => ?_) h
  obtain ⟨op, -, rfl⟩ := Checked.map_eq_ok.mp hv
  simp only [Handlers.find, handlers] at hfind
  split at hfind
  · cases hfind
    exact compileSample_eq_ok w cf hrun
  · cases hfind

theorem performs_walkVtxClause {c : Context} {cf : CfInstr} {m m' : Machine Output} {u : Unit}
    (h : walkVtxClause (handlers c) cf m = .ok u m') :
    Performs c (((m.walk.program.vtxClause cf.addr cf.count).toOption.getD []).map .fetch)
      m m' := by
  refine performs_walkFetches (fun i v action w o o' hv hfind hrun => ?_) h
  obtain ⟨op, -, rfl⟩ := Checked.map_eq_ok.mp hv
  simp only [Handlers.find, handlers] at hfind
  split at hfind
  · cases hfind
    exact compileAttribute_eq_ok w cf hrun
  · cases hfind

theorem ownNote_eq_ok {c : Context} {w : Walk} {op : Except DecodeFault Opcode} {o o' : Output}
    {u : Unit} (h : ownNote c w op o = .ok u o') :
    ∃ ls : List Line, ls.filterMap Line.stmt? = [] ∧ o' = o.add { lines := ls } := by
  simp only [ownNote, bind_eq_ok, decode_eq_ok] at h
  obtain ⟨_, _, ⟨-, rfl⟩, hnote⟩ := h
  exact note_eq_ok rfl hnote

/-- A handler that was called, and the clause after it. -/
theorem runHandler_eq_ok {σ : Type} {hs : Handlers σ} {v : Invocation} {m m' : Machine σ} {u : Unit}
    (h : runHandler hs v m = .ok u m') :
    ∃ action out, hs.find v = some action ∧ action.run m.walk m.out = .ok () out ∧
      (action.clause = none → m' = { m with out := out }) ∧
        ∀ kind, action.clause = some kind →
          walkClause hs v.owner kind { m with out := out } = .ok u m' := by
  obtain ⟨clause, m₁, hinvoke, hrest⟩ := bind_eq_ok.mp h
  obtain ⟨action, out, hfind, hrun, rfl, rfl⟩ := invoke_eq_ok.mp hinvoke
  refine ⟨action, out, hfind, hrun, fun hnone => ?_, fun kind hkind => ?_⟩
  · rw [hnone] at hrest
    exact (pure_eq_ok.mp hrest).2.symm
  · rw [hkind] at hrest
    exact hrest

/-- A handler that only leaves a comment. -/
theorem Performs.of_note {c : Context} {m : Machine Output} {out : Output}
    (h : ∃ ls : List Line, ls.filterMap Line.stmt? = [] ∧ out = m.out.add { lines := ls }) :
    Performs c [] m { m with out := out } := by
  obtain ⟨ls, hls, rfl⟩ := h
  exact ⟨.of_note hls, m.walk.groupPc, rfl⟩

/-- A handler that names its instruction and writes one statement. -/
theorem Performs.of_stmt {c : Context} {op : Opcode} {s : Stmt} {cf : CfInstr} {t : Task}
    {m : Machine Output} {out : Output} (ht : ∀ o, Task.Adds c o t { lines := [.stmt s] })
    (h : ((stmtHandler c op s).action cf).run m.walk m.out = .ok () out) :
    Performs c [t] m { m with out := out } := by
  simp only [CfHandler.action, stmtHandler, bind_eq_ok, emit_eq_ok] at h
  obtain ⟨_, o₁, hnote, rfl⟩ := h
  obtain ⟨ls, hls, rfl⟩ := note_eq_ok rfl hnote
  exact ⟨Runs.append (Carried.of_note hls) (Carried.of_adds (ht _)), m.walk.groupPc, rfl⟩

/-- Plain instructions: each of the operations that have a handler performs its tasks. -/
theorem performs_runCf {c : Context} {cf : CfInstr} {op : CfOp} {m m' : Machine Output} {u : Unit}
    (htype : cf.type = .normal) (hop : cf.cfOp = .ok op)
    (h : runHandler (handlers c) (.cf op cf) m = .ok u m') :
    Performs c (m.walk.program.cfTasks cf) m m' := by
  obtain ⟨action, out, hfind, hrun, hnone, hsome⟩ := runHandler_eq_ok h
  obtain ⟨handle, hhandle, rfl⟩ := Option.map_eq_some_iff.mp hfind
  simp only [handlers, cfHandler] at hhandle
  split at hhandle
  case h_1 =>
    cases hhandle
    obtain rfl := hnone rfl
    simpa [Program.cfTasks, htype, hop] using Performs.of_note (c := c) (note_eq_ok rfl hrun)
  case h_2 =>
    cases hhandle
    have hnote := Performs.of_note (c := c) (note_eq_ok rfl hrun)
    have hclause := performs_walkTexClause (hsome _ rfl)
    simpa [Program.cfTasks, htype, hop, Invocation.owner] using hnote.append hclause
  case h_3 | h_4 =>
    cases hhandle
    have hnote := Performs.of_note (c := c) (ownNote_eq_ok hrun)
    have hclause := performs_walkVtxClause (hsome _ rfl)
    simpa [Program.cfTasks, htype, hop, Invocation.owner] using hnote.append hclause
  case h_5 =>
    cases hhandle
    obtain rfl := hnone rfl
    simpa [Program.cfTasks, htype, hop] using Performs.of_stmt (fun _ => .call) hrun
  case h_6 =>
    cases hhandle
    obtain rfl := hnone rfl
    simpa [Program.cfTasks, htype, hop] using Performs.of_stmt (fun _ => .ret) hrun
  case h_7 => cases hhandle

theorem exportHandler_eq_some {c : Context} {op : ExportOp} {handle : CfHandler Output}
    (h : exportHandler c op = some handle) :
    handle.clause = none ∧ handle.run = fun walk cf =>
      ownNote c walk (cf.exportOp.map .exp) >>= fun _ => compileExport walk.stage cf := by
  unfold exportHandler at h
  split at h <;> cases h <;> exact ⟨rfl, rfl⟩

theorem performs_runExport {c : Context} {cf : CfInstr} {op : ExportOp} {m m' : Machine Output}
    {u : Unit} (htype : cf.type = .exp) (h : runHandler (handlers c) (.exp op cf) m = .ok u m') :
    Performs c (m.walk.program.cfTasks cf) m m' := by
  obtain ⟨action, out, hfind, hrun, hnone, -⟩ := runHandler_eq_ok h
  obtain ⟨handle, hhandle, rfl⟩ := Option.map_eq_some_iff.mp hfind
  obtain ⟨hclause, hact⟩ := exportHandler_eq_some hhandle
  obtain rfl := hnone hclause
  simp only [CfHandler.action, hact] at hrun
  obtain ⟨_, o₁, hnote, hcompile⟩ := bind_eq_ok.mp hrun
  obtain ⟨ls, hls, rfl⟩ := ownNote_eq_ok hnote
  obtain ⟨kind, hkind, hcarried⟩ := carried_compileExport (c := c) hcompile
  have htasks : m.walk.program.cfTasks cf = (List.range cf.burstCount).map (.output cf kind) := by
    simp [Program.cfTasks, htype, hkind]
  rw [htasks]
  exact ⟨Runs.append (Carried.of_note hls) hcarried, m.walk.groupPc, rfl⟩

theorem performs_runCfAlu {c : Context} {cf : CfInstr} {op : CfAluOp} {m m' : Machine Output}
    {u : Unit} (htype : cf.type = .alu ∨ cf.type = .aluExtended)
    (h : runHandler (handlers c) (.cfAlu op cf) m = .ok u m') :
    Performs c (m.walk.program.cfTasks cf) m m' := by
  obtain ⟨action, out, hfind, hrun, -, hsome⟩ := runHandler_eq_ok h
  obtain ⟨handle, hhandle, rfl⟩ := Option.map_eq_some_iff.mp hfind
  simp only [handlers, cfAluHandler] at hhandle
  split at hhandle
  · cases hhandle
    have hnote := Performs.of_note (c := c) (note_eq_ok rfl hrun)
    obtain ⟨slots, hslots, hclause⟩ := performs_walkAluClause (hsome _ rfl)
    rw [show (Invocation.cfAlu .alu cf).owner = cf from rfl] at hslots hclause
    have htasks : m.walk.program.cfTasks cf = (AluGroup.readAll slots).groups.map (.group cf) := by
      rcases htype with htype | htype <;> simp [Program.cfTasks, htype, hslots]
    rw [htasks]
    exact hnote.append hclause
  · cases hhandle

/-- Only the call of the fetch program calls it. -/
theorem call_mem_cfTasks {p : Program} {cf : CfInstr} :
    Task.call ∈ p.cfTasks cf ↔ cf.type = .normal ∧ cf.cfOp = .ok .callFs := by
  unfold Program.cfTasks
  cases htype : cf.type with
  | normal =>
    simp only [true_and]
    split <;> simp_all
  | exp =>
    simp only [reduceCtorEq, false_and, iff_false]
    split <;> simp
  | alu | aluExtended =>
    simp only [reduceCtorEq, false_and, iff_false]
    split <;> simp

/-- One control flow instruction: its tasks are carried out, and the walk knows whether the fetch
program was called and whether the program has ended. -/
theorem walkCf_eq_ok {c : Context} {cf : CfInstr} {m m' : Machine Output} {u : Unit}
    (h : walkCf (handlers c) cf m = .ok u m') :
    Carried c (m.walk.program.cfTasks cf) m.out m'.out ∧
      ∃ n, m'.walk =
        { m.walk with
          groupPc := n
          callsFetch := m.walk.callsFetch || decide (Task.call ∈ m.walk.program.cfTasks cf)
          reachedEnd := m.walk.reachedEnd || cf.isTerminal } := by
  unfold walkCf at h
  cases htype : cf.type with
  | normal =>
    simp only [htype, walkCfNormal, bind_eq_ok, decode_eq_ok, Machine.examine_eq_ok,
      Machine.modifyWalk_eq_ok] at h
    obtain ⟨op, _, ⟨hop, rfl⟩, _, _, ⟨-, rfl⟩, _, m₁, hrun, rfl⟩ := h
    obtain ⟨hcarried, n, hwalk⟩ := performs_runCf htype hop hrun
    have hcall : decide (Task.call ∈ m.walk.program.cfTasks cf) = decide (op = .callFs) := by
      rw [decide_eq_decide, call_mem_cfTasks, htype, hop, Except.ok.injEq]
      simp
    have hend : cf.isTerminal = (decide (op = .ret) || cf.endOfProgram) := by
      simp [CfInstr.isTerminal, htype, hop, Except.toOption]
    refine ⟨hcarried, n, ?_⟩
    simp only [Walk.afterCf, hwalk, hcall, hend, Bool.or_assoc]
  | exp =>
    simp only [htype, walkCfExport, bind_eq_ok, decode_eq_ok, Machine.modifyWalk_eq_ok] at h
    obtain ⟨op, _, ⟨-, rfl⟩, _, m₁, hrun, rfl⟩ := h
    obtain ⟨hcarried, n, hwalk⟩ := performs_runExport htype hrun
    have hcall : decide (Task.call ∈ m.walk.program.cfTasks cf) = false := by
      simp [call_mem_cfTasks, htype]
    refine ⟨hcarried, n, ?_⟩
    simp only [Walk.afterExport, hwalk, hcall, Bool.or_false, CfInstr.isTerminal, htype]
  | alu | aluExtended =>
    simp only [htype, walkCfAlu, bind_eq_ok, decode_eq_ok] at h
    obtain ⟨op, _, ⟨-, rfl⟩, hrun⟩ := h
    obtain ⟨hcarried, n, hwalk⟩ := performs_runCfAlu (by simp [htype]) hrun
    have hcall : decide (Task.call ∈ m.walk.program.cfTasks cf) = false := by
      simp [call_mem_cfTasks, htype]
    refine ⟨hcarried, n, ?_⟩
    simp only [hwalk, hcall, Bool.or_false, CfInstr.isTerminal, htype]

/-- A walk that has reached its end stays there. -/
theorem walkSteps_of_ended {σ : Type} {h : Handlers σ} {m : Machine σ}
    (hend : m.walk.reachedEnd = true) (n : Nat) : walkSteps h n m = .ok () m := by
  cases n with
  | zero => rfl
  | succ n =>
    unfold walkSteps
    refine bind_eq_ok.mpr ⟨m, m, get_eq_ok.mpr ⟨rfl, rfl⟩, ?_⟩
    rw [hend, Bool.true_or, if_pos rfl]
    rfl

/-- Step after step, a walk carries out the tasks of the instructions it reaches. -/
theorem walkSteps_eq_ok {c : Context} {n : Nat} {u : Unit} :
    ∀ {m m' : Machine Output}, m.walk.reachedEnd = false → walkSteps (handlers c) n m = .ok u m' →
      ∀ ts, ts = (m.walk.program.flowFrom n m.walk.cfPc.toNat).flatMap m.walk.program.cfTasks →
        Carried c ts m.out m'.out ∧
          ∃ pc groups ended, m'.walk =
            { m.walk with
              cfPc := pc
              groupPc := groups
              reachedEnd := ended
              callsFetch := m.walk.callsFetch || decide (Task.call ∈ ts) } := by
  induction n with
  | zero =>
    intro m m' _ h ts hts
    obtain ⟨-, rfl⟩ := pure_eq_ok.mp h
    subst hts
    exact ⟨.nil, m.walk.cfPc, m.walk.groupPc, m.walk.reachedEnd, by simp [Program.flowFrom]⟩
  | succ n ih =>
    intro m m' hend h ts hts
    simp only [walkSteps, bind_eq_ok, get_eq_ok] at h
    obtain ⟨_, _, ⟨rfl, rfl⟩, h⟩ := h
    rw [hend, Bool.false_or] at h
    unfold Program.flowFrom at hts
    cases hcf : m.walk.program.hasCf m.walk.cfPc.toNat with
    | false =>
      simp only [hcf, Bool.not_false, if_true, pure_eq_ok] at h
      obtain ⟨-, rfl⟩ := h
      simp only [hcf, Bool.false_eq_true, if_false, List.flatMap_nil] at hts
      subst hts
      exact ⟨.nil, m.walk.cfPc, m.walk.groupPc, m.walk.reachedEnd, by simp⟩
    | true =>
      simp only [hcf, Bool.not_true, Bool.false_eq_true, if_false, bind_eq_ok, decode_eq_ok] at h
      obtain ⟨cf, _, ⟨hat, rfl⟩, _, m₁, hstep, _, m₂, hcount, hrest⟩ := h
      obtain ⟨hcarried, groups, hwalk⟩ := walkCf_eq_ok hstep
      obtain ⟨pc, hpc, rfl⟩ := Machine.count_eq_ok hcount
      simp only [hcf, if_true, hat, List.flatMap_cons] at hts
      cases hterm : cf.isTerminal with
      | true =>
        -- the next step finds the end reached
        rw [walkSteps_of_ended (by simp [hwalk, hterm])] at hrest
        cases hrest
        simp only [hterm, if_true, List.flatMap_nil, List.append_nil] at hts
        subst hts
        exact ⟨hcarried, pc, groups, true, by simp [hwalk, hterm]⟩
      | false =>
        simp only [hterm, Bool.false_eq_true, if_false] at hts
        obtain ⟨hcarried', pc', groups', ended, hwalk'⟩ :=
          ih (by simp [hwalk, hend, hterm]) hrest _ rfl
        simp only [Walk.counted_cf, Walk.withCounted_cf, hwalk] at hpc hcarried' hwalk'
        rw [hpc] at hcarried' hwalk'
        subst hts
        refine ⟨Runs.append hcarried hcarried', pc', groups', ended, ?_⟩
        rw [hwalk']
        simp only [List.mem_append, Bool.decide_or, Bool.or_assoc]

/-- A compilation that succeeds has carried out the tasks of its program. -/
theorem runs_of_compile {c : Context} {p : Program} {stage : Stage} {isFunction : Bool} {j : Job}
    (h : (Job.start c p stage isFunction).compile = .ok j) :
    j.context = c ∧ j.walk.stage = stage ∧ j.walk.isFunction = isFunction ∧ j.isComplete = true ∧
      j.walk.callsFetch = decide (Task.call ∈ p.tasks) ∧ Runs c p.tasks {} j.output.released := by
  unfold Job.compile at h
  simp only [Job.call, Call.action, walkToEnd] at h
  cases hwalk : walkProgram (handlers c) (Job.start c p stage isFunction).machine with
  | error halt m =>
    simp only [Job.start] at h hwalk
    rw [hwalk] at h
    cases h
  | ok u m =>
    simp only [Job.start] at h hwalk
    rw [hwalk] at h
    obtain rfl := Except.ok.inj h
    simp only [walkProgram, bind_eq_ok, get_eq_ok, Machine.examine_eq_ok,
      Machine.modifyWalk_eq_ok] at hwalk
    obtain ⟨_, _, ⟨-, rfl⟩, _, _, rfl, _, _, ⟨rfl, rfl⟩, hsteps⟩ := hwalk
    obtain ⟨hcarried, pc, groups, ended, hm⟩ := walkSteps_eq_ok rfl hsteps _ rfl
    simp only [Job.walk, Job.isComplete, Job.output, hm]
    refine ⟨trivial, trivial, trivial, by simp, ?_, hcarried⟩
    rw [Bool.false_or]
    rfl

end Compile

end LatteHlsl
