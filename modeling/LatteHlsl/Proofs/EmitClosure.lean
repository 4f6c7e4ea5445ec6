import LatteHlsl.Proofs.Run

/-!
# Relations between emitters

The handlers of the compiler are put together from few actions: they put out statements, record
accesses and attributes, hold writes back and store exports. A relation between actions of two
compilations that holds of these and is kept by sequences holds of the handlers. The two may differ
in whether they write comments. Properties of single actions are the case of a relation that looks
at one side only.

* `EmitClosed`: relations that hold of what handlers are put together from.
* `EmitClosed.source`, `EmitClosed.storeLane`, …: the parts of the handlers.
* `EmitClosed.find`: all handlers.
-/

namespace LatteHlsl.Compile

open Isa Hlsl Effect

/-- A relation between actions of two compilations that holds of everything a handler is put
together from. -/
structure EmitClosed (c c' : Context) (Q : (α : Type) → Emit α → Emit α → Prop) : Prop where
  context : c' = { c with comments := c'.comments }
  protected pure : ∀ {α} (a : α), Q α (pure a) (pure a)
  protected fail : ∀ {α} (fault : CompileFault), Q α (fail fault) (fail fault)
  protected bind : ∀ {α β x y f g}, Q α x y → (∀ a, Q β (f a) (g a)) → Q β (x >>= f) (y >>= g)
  emit : ∀ s, Q Unit (emit s) (emit s)
  note : ∀ pc op, Q Unit (note c (.controlNote pc op)) (note c' (.controlNote pc op))
  record : ∀ a, Q Unit (record a) (record a)
  defer : ∀ w, Q Unit (defer w) (defer w)
  addInput : ∀ i, Q Unit (addInput i) (addInput i)
  /-- An export may have different slots in the two. -/
  store : ∀ kind target (move : Word → Move),
    Q Unit (exportSlot kind target >>= fun slot => emitMove (move slot))
      (exportSlot kind target >>= fun slot => emitMove (move slot))

namespace EmitClosed

variable {c c' : Context} {Q : (α : Type) → Emit α → Emit α → Prop} (hQ : EmitClosed c c' Q)
include hQ

protected theorem check {α : Type} (r : Except CompileFault α) : Q α (check r) (check r) := by
  cases r with
  | ok a => exact hQ.pure a
  | error fault => exact hQ.fail fault

protected theorem decode {α : Type} (r : Except DecodeFault α) : Q α (decode r) (decode r) := by
  cases r with
  | ok a => exact hQ.pure a
  | error fault => exact hQ.fail _

protected theorem forM {α : Type} {f g : α → Emit Unit} (as : List α)
    (hf : ∀ a, Q Unit (f a) (g a)) : Q Unit (as.forM f) (as.forM g) := by
  induction as with
  | nil => exact hQ.pure ()
  | cons a as ih => exact hQ.bind (hf a) fun _ => ih

/-- What follows a list of actions may rely on having a value from each of them. -/
theorem mapM_bind {α β γ : Type} {f g : α → Emit β} {k l : List β → Emit γ} {as : List α}
    (hf : ∀ a, Q β (f a) (g a)) (hk : ∀ bs, bs.length = as.length → Q γ (k bs) (l bs)) :
    Q γ (as.mapM f >>= k) (as.mapM g >>= l) := by
  induction as generalizing k l with
  | nil => exact hk [] rfl
  | cons a as ih =>
    simp only [List.mapM_cons, bind_assoc, pure_bind]
    exact hQ.bind (hf a) fun b => ih fun bs hbs => hk (b :: bs) (congrArg (· + 1) hbs)

theorem emitMove (m : Move) : Q Unit (emitMove m) (emitMove m) := by
  unfold Compile.emitMove
  split
  · exact hQ.emit _
  · exact hQ.pure ()

/-! ## Lanes -/

theorem source (cf : CfInstr) (g : AluGroup) (i : AluInstr) (n : Nat) :
    Q Source (source cf g i n) (source cf g i n) := by
  refine hQ.bind (hQ.check _) fun atom => hQ.bind ?_ fun _ =>
    hQ.bind (hQ.decode _) fun _ => hQ.pure _
  unfold recordAtom
  split
  · exact hQ.record _
  · exact hQ.pure ()

theorem deferWrite (i : AluInstr) (out : LaneOut) :
    Q Unit (deferWrite i out) (deferWrite i out) := by
  unfold Compile.deferWrite
  split
  · exact hQ.bind (hQ.check _) fun _ => hQ.defer _
  · exact hQ.pure ()

theorem storeLane (l : Lane) (i : AluInstr) (value : Arith) :
    Q Unit (storeLane l i value) (storeLane l i value) :=
  hQ.bind (hQ.decode _) fun _ => hQ.bind (hQ.emit _) fun _ => hQ.deferWrite i _

theorem shapeValue (cf : CfInstr) (g : AluGroup) (i : AluInstr) (shape : Shape) :
    Q Arith (shape.value cf g i) (shape.value cf g i) := by
  cases shape with
  | unary f => exact hQ.bind (hQ.source cf g i 0) fun _ => hQ.pure _
  | binary f =>
    exact hQ.bind (hQ.source cf g i 0) fun _ => hQ.bind (hQ.source cf g i 1) fun _ => hQ.pure _

variable (w w' : Walk) (cf : CfInstr) (g : AluGroup) (target : Target) (i : AluInstr)

theorem compileOp2 : Q Unit (compileOp2 w cf g target i) (compileOp2 w' cf g target i) := by
  refine hQ.bind (hQ.decode _) fun op => ?_
  split
  · exact hQ.fail _
  · split
    · exact hQ.fail _
    · exact hQ.bind (hQ.shapeValue cf g i _) fun value => hQ.storeLane _ i value

theorem compileOp3 : Q Unit (compileOp3 w cf g target i) (compileOp3 w' cf g target i) := by
  refine hQ.bind (hQ.decode _) fun op => ?_
  refine hQ.bind (hQ.source cf g i 0) fun _ => ?_
  refine hQ.bind (hQ.source cf g i 1) fun _ => ?_
  refine hQ.bind (hQ.source cf g i 2) fun _ => ?_
  split
  · exact hQ.fail _
  · exact hQ.storeLane _ i _

theorem compileAddress :
    Q Unit (compileAddress w cf g target i) (compileAddress w' cf g target i) :=
  hQ.bind (hQ.source cf g i 0) fun _ => hQ.emit _

/-! ## Reductions -/

theorem reductionOperands (op : AluOp) :
    Q (Source × Option Source) (reductionOperands cf g op i) (reductionOperands cf g op i) := by
  refine hQ.bind (hQ.source cf g i 0) fun a => ?_
  split
  · exact hQ.pure _
  · exact hQ.bind (hQ.source cf g i 1) fun _ => hQ.pure _

/-- The operands of four lanes are enough for any reduction. -/
theorem reductionValue (op : AluOp) {operands : List (Source × Option Source)}
    (h : operands.length = 4 ∨ ∀ halt, Q Arith (throw halt) (throw halt)) :
    Q Arith (reductionValue op operands) (reductionValue op operands) := by
  unfold Compile.reductionValue
  dsimp only
  split
  · exact hQ.pure _
  · exact hQ.pure _
  · split
    · exact hQ.pure _
    · rename_i hshort
      rcases h with hlength | hthrow
      · rcases operands with _ | ⟨a, _ | ⟨b, _ | ⟨c, _ | ⟨d, rest⟩⟩⟩⟩
        iterate 4 cases hlength
        exact absurd rfl (hshort a.1 b.1 c.1 d.1 (rest.map Prod.fst))
      · exact hthrow _
  · exact hQ.fail _

/-- Reductions can only be missing operands if a lane is free. -/
theorem compileReduction
    (h : (∃ is : Quad AluInstr, g.vector = is.map some) ∨
      ∀ halt, Q Arith (throw halt) (throw halt)) :
    Q Unit (compileReduction w cf g target i) (compileReduction w' cf g target i) := by
  refine hQ.bind (hQ.decode _) fun op => ?_
  split
  · exact hQ.fail _
  · refine hQ.mapM_bind (fun lane => hQ.reductionOperands cf g lane.2 op) fun operands hlength => ?_
    refine hQ.bind (hQ.reductionValue op (h.imp_left ?_)) fun value => ?_
    · rintro ⟨is, hlanes⟩
      rw [hlength, vectorLanes_of_full hlanes]
      rfl
    · exact hQ.bind (hQ.emit _) fun _ => hQ.forM _ fun lane => hQ.deferWrite lane.2 _

/-! ## Fetches and exports -/

theorem compileSample (i : TexInstr) :
    Q Unit (compileSample c w cf i) (compileSample c' w' cf i) := by
  rw [hQ.context]
  refine hQ.bind (hQ.check _) fun s => ?_
  refine hQ.bind (hQ.emitMove _) fun _ => hQ.bind (hQ.emit _) fun _ => ?_
  refine hQ.bind (hQ.emitMove _) fun _ => ?_
  exact hQ.bind (hQ.record _) fun _ => hQ.record _

theorem compileAttribute (i : VtxInstr) :
    Q Unit (compileAttribute c w cf i) (compileAttribute c' w' cf i) := by
  rw [hQ.context]
  refine hQ.bind (hQ.check (attributeOf c i)) fun r => ?_
  split
  · exact hQ.pure ()
  · exact hQ.bind (hQ.addInput _) fun _ => hQ.emitMove _

theorem compileExport (stage : Stage) :
    Q Unit (compileExport stage cf) (compileExport stage cf) := by
  unfold Compile.compileExport
  split
  · exact hQ.fail _
  · split
    · refine hQ.forM _ fun n => ?_
      unfold compileExportElement
      dsimp only
      split
      · exact hQ.fail _
      · exact hQ.store _ _ _
    · exact hQ.fail _

/-! ## Handlers -/

variable {w w' cf g target i}

theorem controlNote (hpc : w'.cfPc = w.cfPc) (op : Opcode) :
    Q Unit (controlNote c w op) (controlNote c' w' op) := by
  unfold Compile.controlNote
  rw [hpc]
  exact hQ.note _ op

theorem ownNote (hpc : w'.cfPc = w.cfPc) (op : Except DecodeFault Opcode) :
    Q Unit (ownNote c w op) (ownNote c' w' op) :=
  hQ.bind (hQ.decode _) fun op => hQ.controlNote hpc op

theorem alu {op : AluOp} {handle : AluHandler Output} (hhandle : (handlers c).alu op = some handle)
    (h : g.Admits op target ∨ ∀ halt, Q Arith (throw halt) (throw halt)) :
    Q Unit (handle w cf g target i) (handle w' cf g target i) := by
  cases op with
  | op2 op =>
    rcases op2Handler_eq_some hhandle with ⟨-, rfl⟩ | ⟨-, rfl⟩ | ⟨hred, rfl⟩ | ⟨-, rfl⟩
    · exact hQ.pure ()
    · exact hQ.compileAddress w w' cf g target i
    · refine hQ.compileReduction w w' cf g target i (h.imp_left fun hadmits => ?_)
      cases target with
      | lane l => exact absurd (hred.symm.trans hadmits) (by decide)
      | reduction =>
        obtain ⟨-, is, hlanes, -⟩ := hadmits
        exact ⟨is, hlanes⟩
    · exact hQ.compileOp2 w w' cf g target i
  | op3 op =>
    simp only [handlers, Handlers.alu, op3Handler] at hhandle
    split at hhandle <;> cases hhandle
    exact hQ.compileOp3 w w' cf g target i

end EmitClosed

/-- Two compilations have a handler for the same calls, and the handlers are related in walks that
agree on what handlers look at. -/
theorem EmitClosed.find {c c' : Context} {Q : (α : Type) → Emit α → Emit α → Prop}
    (hQ : EmitClosed c c' Q) {v : Invocation}
    (hv : v.Admitted ∨ ∀ halt, Q Arith (throw halt) (throw halt)) :
    Option.Rel
      (fun a b => b.clause = a.clause ∧ ∀ w w' : Walk, w'.cfPc = w.cfPc → w'.stage = w.stage →
        Q Unit (a.run w) (b.run w'))
      ((handlers c).find v) ((handlers c').find v) := by
  cases v with
  | cf op i =>
    cases op with
    | nop | tex => exact .some ⟨rfl, fun w w' hpc _ => hQ.controlNote hpc _⟩
    | vtx | vtxTc => exact .some ⟨rfl, fun w w' hpc _ => hQ.ownNote hpc _⟩
    | callFs | ret =>
      exact .some ⟨rfl, fun w w' hpc _ => hQ.bind (hQ.controlNote hpc _) fun _ => hQ.emit _⟩
    | _ => exact .none
  | exp op i =>
    cases op with
    | exp | expDone =>
      refine .some ⟨rfl, fun w w' hpc hstage => hQ.bind (hQ.ownNote hpc _) fun _ => ?_⟩
      rw [hstage]
      exact hQ.compileExport i w.stage
    | _ => exact .none
  | cfAlu op i =>
    cases op with
    | alu => exact .some ⟨rfl, fun w w' hpc _ => hQ.controlNote hpc _⟩
    | _ => exact .none
  | alu op owner g target i =>
    show Option.Rel _ (((handlers c).alu op).map _) (((handlers c).alu op).map _)
    cases hhandle : (handlers c).alu op with
    | none => exact .none
    | some handle => exact .some ⟨rfl, fun w w' _ _ => hQ.alu hhandle (hv.imp_left And.right)⟩
  | tex op owner i =>
    cases op with
    | sample => exact .some ⟨rfl, fun w w' _ _ => hQ.compileSample w w' owner i⟩
    | _ => exact .none
  | vtx op owner i =>
    cases op with
    | semantic => exact .some ⟨rfl, fun w w' _ _ => hQ.compileAttribute w w' owner i⟩
    | _ => exact .none

/-- The handlers of one compilation. -/
theorem EmitClosed.call {c : Context} {Q : (α : Type) → Emit α → Emit α → Prop}
    (hQ : EmitClosed c c Q) {v : Invocation} {action : Action Output}
    (hv : v.Admitted ∨ ∀ halt, Q Arith (throw halt) (throw halt))
    (hfind : (handlers c).find v = some action) {w w' : Walk} (hpc : w'.cfPc = w.cfPc)
    (hstage : w'.stage = w.stage) : Q Unit (action.run w) (action.run w') := by
  have hrel := hQ.find hv
  rw [hfind] at hrel
  cases hrel with
  | some h => exact h.2 w w' hpc hstage

end LatteHlsl.Compile
