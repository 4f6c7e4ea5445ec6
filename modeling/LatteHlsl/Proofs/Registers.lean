import LatteHlsl.Proofs.CodeReading

/-!
# Bounds of the register file

Which constant register numbers appear in a compiled source. Most of them come from fields of seven
bits and lie inside the register file. An export counts on from such a field, and an attribute fetch
takes its register from a table of bytes, and neither of them is checked.

* `Stmt.regs`, `Listing.regs`: the constant register numbers in a source.
* `codeRegs`, `Listing.mem_codeRegs`: those in a code.
* `forall_regs_moveLines`: those of a move, from its selectors.
* `Task.RegsFit`: what a task must respect.
* `Request.regs_lt_iff`: all registers exist exactly if every task respects it.
-/

namespace LatteHlsl

open Isa Hlsl Compile Grammar

/-! ## Registers in a source -/

namespace Hlsl

/-- The register of an atom, if its number is constant. -/
def Atom.reg? : Atom → Option Nat
  | .gpr k _ => k.const?
  | _ => none

/-- The register that a variable is, if its number is constant. -/
def Place.reg? : Place → Option Nat
  | .gpr k => k.const?
  | _ => none

/-- The constant register numbers in an assignment. -/
def Assignment.regs (a : Assignment) : List Nat :=
  a.target.reg?.toList ++ if a.value.readsSource then a.source.reg?.toList else []

/-- The constant register numbers in a statement. -/
def Stmt.regs : Stmt → List Nat
  | .regWrite w => w.index.const?.toList
  | .assign a => a.regs
  | s => s.sources.filterMap fun x => x.atom.reg?

/-- The constant register numbers in a source. -/
def Listing.regs (m : Listing) : List Nat := m.stmts.flatMap Stmt.regs

/-- The constant register numbers in a code. -/
def codeRegs (code : String) : List Nat := (codeIndices code "R").filterMap Tree.constant?

/-- The number of a register that is an element in an expression. -/
def regOf? (x : Tree × Tree) : Option Nat := (indexIn? "R" x).bind Tree.constant?

theorem regOf?_elementTree (x : String × Index) :
    regOf? (elementTree x) = if x.1 = "R" then x.2.const? else none := by
  rw [regOf?, indexIn?_elementTree]
  split
  · exact x.2.constant?_tree
  · rfl

theorem Atom.filterMap_regOf? (a : Atom) : a.tree.elements.filterMap regOf? = a.reg?.toList := by
  have hblock : ∀ b : Slot, s!"CB{b.val}" ≠ "R" := by decide
  rw [a.elements_tree]
  cases a with
  | gpr k c => cases hk : k.const? <;> simp [element?, regOf?_elementTree, reg?, hk]
  | uniform b k c =>
    have hnone : regOf? (elementTree (s!"CB{b.val}", k)) = none := by
      rw [regOf?_elementTree, if_neg (hblock b)]
    exact List.filterMap_cons_none hnone
  | cfile k c => simp [element?, regOf?_elementTree, reg?]
  | _ => rfl

theorem Place.filterMap_regOf? (p : Place) : p.tree.elements.filterMap regOf? = p.reg?.toList := by
  rw [p.elements_tree]
  cases p with
  | gpr k => cases hk : k.const? <;> simp [element?, regOf?_elementTree, reg?, hk]
  | _ => rfl

/-- The registers of a statement are those that stand in its two sides. -/
theorem Stmt.mem_filterMap_regOf? {s : Stmt} {n : Nat} :
    n ∈ s.elements.filterMap regOf? ↔ n ∈ s.regs := by
  have hplace : ∀ p : Place, (∃ x ∈ p.tree.elements, regOf? x = some n) ↔ n ∈ p.reg?.toList := by
    intro p
    rw [← p.filterMap_regOf?, List.mem_filterMap]
  have hsources : s.elements = (s.sources.flatMap fun x => x.atom.tree.elements) →
      (n ∈ s.elements.filterMap regOf? ↔ n ∈ s.sources.filterMap fun x => x.atom.reg?) := by
    intro helements
    rw [helements, List.filterMap_flatMap, List.filterMap_eq_flatMap_toList]
    simp only [Atom.filterMap_regOf?]
  cases s with
  | assign a =>
    simp only [List.mem_filterMap, mem_elements_assign, or_and_right, exists_or, and_assoc,
      exists_and_left, hplace]
    cases hreads : a.value.readsSource <;> simp [regs, Assignment.regs, hreads]
  | regWrite w =>
    rw [elements_regWrite]
    cases hk : w.index.const? <;> simp [regOf?_elementTree, regs, hk]
  | lane | reduction | address | latchVector | latchScalar | sample | fetchCall | ret =>
    exact hsources (elements_of_sources (by simp) (by simp))

/-- The registers of a source are those that stand in its text. -/
theorem Listing.mem_codeRegs {m : Listing} (h : m.IsReadable) {n : Nat} :
    n ∈ codeRegs m.text ↔ n ∈ m.regs := by
  have hclear : (elementsOf clearing).filterMap regOf? = [] := by decide
  have hcode : codeRegs m.text =
      (codeAssignments m.text).flatMap fun p => (elementsOf p).filterMap regOf? := by
    rw [codeRegs, codeIndices, List.filterMap_flatMap]
    simp only [List.filterMap_filterMap]
    rfl
  have hstmt : ∀ s : Stmt, (s.sides?.elim [] fun p => (elementsOf p).filterMap regOf?) =
      s.elements.filterMap regOf? := by
    intro s
    unfold Stmt.elements
    cases s.sides? <;> rfl
  rw [hcode, flatMap_codeAssignments h hclear, regs]
  simp only [hstmt, List.mem_flatMap, Stmt.mem_filterMap_regOf?]

namespace Move

/-- Some component of the target is assigned. -/
def Stores (m : Move) : Prop := ∃ c, (m.sels.get c).isMasked = false

/-- Some component of the source is read. -/
def Reads (m : Move) : Prop := ∃ c d, m.sels.get c = .ofChan d

end Move

end Hlsl

/-! ## Moves -/

namespace Compile

theorem mem_chanAll (c : Chan) : c ∈ Chan.all := by
  cases c <;> decide

/-- What a selector picks from a channel of the source. -/
theorem exists_chan_ofSel?_iff {sel : Sel} :
    (∃ v, Component.ofSel? sel = some v ∧ v.chan?.isSome = true) ↔ ∃ d, sel = .ofChan d := by
  constructor
  · rintro ⟨v, hv, hchan⟩
    cases sel <;> cases hv
    · exact ⟨.x, rfl⟩
    · exact ⟨.y, rfl⟩
    · exact ⟨.z, rfl⟩
    · exact ⟨.w, rfl⟩
    · cases hchan
    · cases hchan
  · rintro ⟨d, rfl⟩
    cases d <;> exact ⟨_, rfl, rfl⟩

theorem isSome_ofSel? (sel : Sel) : (Component.ofSel? sel).isSome = !sel.isMasked := by
  cases sel <;> rfl

/-- The right side of an assignment names its source exactly if a component is read from it. -/
theorem readsSource_value {cs : List Component} (hcs : cs ≠ []) :
    (Move.value cs).readsSource = cs.any fun c => c.chan?.isSome := by
  unfold Move.value
  split
  · simp [Value.readsSource]
  · rename_i hne
    dsimp only
    split
    · rename_i hall
      have hmem : Chan.x ∈ cs.filterMap Component.chan? := by
        rw [hall]
        exact mem_chanAll .x
      obtain ⟨c, hc, hchan⟩ := List.mem_filterMap.mp hmem
      refine (List.any_eq_true.mpr ⟨c, hc, ?_⟩).symm
      rw [hchan]
      rfl
    · split
      · rename_i hall
        obtain ⟨c, hc⟩ := List.exists_mem_of_ne_nil cs hcs
        exact (List.any_eq_true.mpr ⟨c, hc, List.all_eq_true.mp hall c hc⟩).symm
      · rfl

theorem mem_stores {m : Move} {c : Chan} {v : Component} :
    (c, v) ∈ m.stores ↔ Component.ofSel? (m.sels.get c) = some v := by
  simp [Move.stores, mem_chanAll]

theorem stores_ne_nil_iff {m : Move} : m.stores ≠ [] ↔ m.Stores := by
  constructor
  · intro h
    obtain ⟨⟨c, v⟩, hcv⟩ := List.exists_mem_of_ne_nil _ h
    have hsome := isSome_ofSel? (m.sels.get c)
    rw [mem_stores.mp hcv] at hsome
    exact ⟨c, by simpa using hsome.symm⟩
  · rintro ⟨c, hc⟩ hnil
    have hsome := isSome_ofSel? (m.sels.get c)
    rw [hc] at hsome
    obtain ⟨v, hv⟩ := Option.isSome_iff_exists.mp hsome
    have hmem := mem_stores.mpr hv
    rw [hnil] at hmem
    cases hmem

theorem readsSource_iff {m : Move} (hstores : m.stores ≠ []) :
    (Move.value (m.stores.map Prod.snd)).readsSource = true ↔ m.Reads := by
  rw [readsSource_value (by simpa using hstores), List.any_eq_true]
  constructor
  · rintro ⟨v, hv, hchan⟩
    obtain ⟨⟨c, v⟩, hcv, rfl⟩ := List.mem_map.mp hv
    exact ⟨c, exists_chan_ofSel?_iff.mp ⟨v, mem_stores.mp hcv, hchan⟩⟩
  · rintro ⟨c, hd⟩
    obtain ⟨v, hv, hchan⟩ := exists_chan_ofSel?_iff.mpr hd
    exact ⟨v, List.mem_map.mpr ⟨(c, v), mem_stores.mpr hv, rfl⟩, hchan⟩

theorem stores_of_reads {m : Move} (h : m.Reads) : m.Stores := by
  obtain ⟨c, d, hd⟩ := h
  exact ⟨c, by rw [hd]; cases d <;> rfl⟩

/-- The registers of a move: its target if something is stored, its source if something is read. -/
theorem forall_regs_moveLines {m : Move} {P : Nat → Prop} :
    (∀ s ∈ (moveLines m).filterMap Line.stmt?, ∀ n ∈ s.regs, P n) ↔
      (m.Stores → ∀ n, m.target.reg? = some n → P n) ∧
        (m.Reads → ∀ n, m.source.reg? = some n → P n) := by
  by_cases hstores : m.stores = []
  · have hnot : ¬ m.Stores := fun h => stores_ne_nil_iff.mpr h hstores
    have hlines : (moveLines m).filterMap Line.stmt? = [] := by
      simp [moveLines, assignment?_eq, hstores]
    rw [hlines]
    exact iff_of_true (by simp) ⟨fun h => absurd h hnot, fun h => absurd (stores_of_reads h) hnot⟩
  · have hlines : (moveLines m).filterMap Line.stmt? =
        [.assign ⟨m.target, m.stores.map Prod.fst, m.source,
          Move.value (m.stores.map Prod.snd)⟩] := by
      simp [moveLines, assignment?_eq, hstores, Line.stmt?]
    rw [hlines, List.forall_mem_singleton, Stmt.regs, Assignment.regs, List.forall_mem_append]
    simp only [stores_ne_nil_iff.mp hstores, true_implies]
    refine and_congr (by simp) ?_
    rw [← readsSource_iff hstores]
    split <;> rename_i hreads <;> simp [hreads]

/-! ## Tasks -/

/-- The registers of a task exist: those that an export counts up to, unless the loop index is added
or only constants are exported, and the one that the table gives for an attribute, unless nothing is
stored there. -/
def Task.RegsFit (semantics : Semantics) : Task → Prop
  | .output cf _ n =>
    cf.exportRel = false → (∃ c d, cf.exportSels.get c = .ofChan d) → cf.exportGpr + n < gprCount
  | .fetch i =>
    ∀ gpr, semanticGpr semantics i.semanticId = .ok gpr → gpr ≠ Semantics.unused →
      (∃ c, (i.dstSels.get c).isMasked = false) → gpr.toNat < gprCount
  | .call | .ret | .group _ _ | .sample _ => True

theorem reg?_loopRelative {gpr n : Nat} {rel : Bool} :
    (loopRelative gpr rel).reg? = some n ↔ rel = false ∧ gpr = n := by
  cases rel <;> simp [loopRelative, Place.reg?, Index.const?, Index.isStatic]

theorem regs_lt_of_groupStmt {cf : CfInstr} {g : AluGroup} {s : Stmt} (h : GroupStmt cf g s) :
    ∀ n ∈ s.regs, n < gprCount := by
  have hoperand : ∀ x, OperandOf cf g x → ∀ n, x.atom.reg? = some n → n < gprCount := by
    rintro x ⟨i, m, hx⟩ n hn
    have hrange := atomInRange_of_sourceAtom hx.atom
    unfold Atom.reg? at hn
    split at hn
    · rename_i k chan hatom
      rw [hatom] at hrange
      rw [← Index.base_of_const? hn]
      exact hrange
    · cases hn
  cases h with
  | lane hall | reduction hall =>
    intro n hn
    obtain ⟨x, hx, hxn⟩ := List.mem_filterMap.mp hn
    exact hoperand x (hall x hx) n hxn
  | address hop =>
    intro n hn
    obtain ⟨x, hx, hxn⟩ := List.mem_filterMap.mp hn
    obtain rfl := List.mem_singleton.mp hx
    exact hoperand x hop n hxn
  | regWrite hdest =>
    obtain ⟨i, hi⟩ := hdest
    intro n hn
    rw [← Index.base_of_const? (Option.mem_toList.mp hn), base_of_relIndex hi]
    exact BitField.value_lt _ _ (by decide)
  | latchVector | latchScalar => simp [Stmt.regs, Stmt.sources]

/-- A fetch that compiles has an entry in the table, and loads its attribute into it unless it is
marked as unused. -/
theorem semanticGpr_of_attributeOf {c : Context} {i : VtxInstr} {r : Option (VertexInput × Nat)}
    (h : attributeOf c i = .ok r) :
    ∃ gpr, semanticGpr c.semantics i.semanticId = .ok gpr ∧
      (r = none ∧ gpr = Semantics.unused ∨
        gpr ≠ Semantics.unused ∧ ∃ input, r = some (input, gpr.toNat)) := by
  simp only [attributeOf, Checked.bind_eq_ok] at h
  obtain ⟨buffer, -, step, -, layout, -, gpr, hgpr, h⟩ := h
  refine ⟨gpr, hgpr, ?_⟩
  split at h
  · rename_i hunused
    exact .inl ⟨(Checked.pure_eq_ok.mp h).symm, hunused⟩
  · rename_i hused
    exact .inr ⟨hused, _, (Checked.pure_eq_ok.mp h).symm⟩

/-- The registers of a sample come from fields of seven bits. -/
theorem regs_lt_of_sample {c : Context} {o : Output} {i : TexInstr} {p : Piece}
    (h : Task.Adds c o (.sample i) p) : ∀ s ∈ p.stmts, ∀ n ∈ s.regs, n < gprCount := by
  have hsrc : i.srcGpr < gprCount := BitField.value_lt _ _ (by decide)
  have hdst : i.dstGpr < gprCount := BitField.value_lt _ _ (by decide)
  cases h
  simp only [Piece.stmts, List.filterMap_append, List.forall_mem_append, forall_regs_moveLines,
    reg?_loopRelative]
  refine ⟨⟨⟨?_, ?_⟩, ?_⟩, ?_, ?_⟩
  · intro _ n hn
    cases hn
  · rintro _ n ⟨-, rfl⟩
    exact hsrc
  · simp [Line.stmt?, Stmt.regs, Stmt.sources]
  · rintro _ n ⟨-, rfl⟩
    exact hdst
  · intro _ n hn
    cases hn

/-- A fetch names the register that the table gives for its attribute. -/
theorem forall_regs_fetch_iff {c : Context} {o : Output} {i : VtxInstr} {p : Piece}
    (h : Task.Adds c o (.fetch i) p) :
    (∀ s ∈ p.stmts, ∀ n ∈ s.regs, n < gprCount) ↔ Task.RegsFit c.semantics (.fetch i) := by
  cases h with
  | unused hi =>
    obtain ⟨gpr, hgpr, ⟨-, hunused⟩ | ⟨-, input, hsome⟩⟩ := semanticGpr_of_attributeOf hi
    · refine iff_of_true (by simp [Piece.stmts]) ?_
      intro gpr' hgpr' hused
      obtain rfl := Except.ok.inj (hgpr.symm.trans hgpr')
      exact absurd hunused hused
    · cases hsome
  | fetch hi =>
    obtain ⟨gpr, hgpr, ⟨hnone, -⟩ | ⟨hused, input, hsome⟩⟩ := semanticGpr_of_attributeOf hi
    · cases hnone
    · cases hsome
      rw [Piece.stmts, forall_regs_moveLines]
      constructor
      · rintro ⟨htarget, -⟩ gpr' hgpr' - hstores
        obtain rfl := Except.ok.inj (hgpr.symm.trans hgpr')
        exact htarget hstores _ rfl
      · intro hfit
        refine ⟨fun hstores n hn => ?_, fun _ n hn => (by cases hn)⟩
        cases hn
        exact hfit gpr hgpr hused hstores

/-- An export names the register that it has counted up to. -/
theorem forall_regs_output_iff {c : Context} {o : Output} {cf : CfInstr} {kind : ExportKind}
    {k : Nat} {p : Piece} (h : Task.Adds c o (.output cf kind k) p) :
    (∀ s ∈ p.stmts, ∀ n ∈ s.regs, n < gprCount) ↔
      Task.RegsFit c.semantics (.output cf kind k) := by
  cases h
  rw [Piece.stmts, forall_regs_moveLines]
  simp only [reg?_loopRelative]
  constructor
  · rintro ⟨-, hsource⟩ hrel hreads
    exact hsource hreads _ ⟨hrel, rfl⟩
  · intro hfit
    refine ⟨fun _ n hn => (by cases hn), ?_⟩
    rintro hreads m ⟨hrel, rfl⟩
    exact hfit hrel hreads

/-- The registers that a task adds to the source exist exactly if the task respects the file. -/
theorem Task.Adds.forall_regs_iff {c : Context} {o : Output} {t : Task} {p : Piece}
    (h : Task.Adds c o t p) :
    (∀ s ∈ p.stmts, ∀ n ∈ s.regs, n < gprCount) ↔ Task.RegsFit c.semantics t := by
  cases t with
  | call | ret =>
    cases h
    simp [Piece.stmts, Line.stmt?, Stmt.regs, Stmt.sources, Task.RegsFit]
  | group cf g =>
    exact iff_of_true (fun s hs => regs_lt_of_groupStmt (h.groupStmt hs)) trivial
  | sample i => exact iff_of_true (regs_lt_of_sample h) trivial
  | fetch i => exact forall_regs_fetch_iff h
  | output cf kind n => exact forall_regs_output_iff h

/-! ## Shaders -/

namespace Request

variable {r : Request} {o : Options} {shader : Shader}

/-- The registers that are filled before a pixel program runs exist. -/
theorem regs_lt_of_mem_preloads {a : Assignment} (h : a ∈ r.preloads o) :
    ∀ n ∈ a.regs, n < gprCount := by
  unfold preloads at h
  split at h
  · cases h
  · unfold pixelPreloads at h
    split at h
    · obtain ⟨k, hk, rfl⟩ := List.mem_map.mp h
      have hlt := List.mem_range.mp hk
      intro n hn
      have hnk : n = k := by
        simpa [Assignment.regs, Place.reg?, Index.const?, Index.isStatic] using hn
      rw [hnk]
      exact Nat.lt_of_lt_of_le hlt (Nat.min_le_right _ _)
    · cases h

/-- The registers of a source exist exactly if every task keeps to the file. -/
theorem forall_source_regs_iff (h : r.compile o = .ok shader) :
    (∀ n ∈ shader.source.regs, n < gprCount) ↔
      ∀ t ∈ r.tasks, Task.RegsFit (r.context o).semantics t := by
  obtain ⟨main, fetch, hmain, hfetch, hshader⟩ := r.runs_of_compile h
  have hempty : ∀ s ∈ ({} : Output).stmts, ∀ n ∈ s.regs, n < gprCount := by
    simp [Output.stmts]
  have htask : ∀ o₁ t p, Task.Adds (r.context o) o₁ t p →
      ((∀ s ∈ p.stmts, ∀ n ∈ s.regs, n < gprCount) ↔ Task.RegsFit (r.context o).semantics t) :=
    fun _ _ _ hp => hp.forall_regs_iff
  have hpreloads : ∀ s ∈ (r.preloads o).map Stmt.assign, ∀ n ∈ s.regs, n < gprCount := by
    intro s hs
    obtain ⟨a, ha, rfl⟩ := List.mem_map.mp hs
    exact regs_lt_of_mem_preloads ha
  have hregs : (∀ n ∈ shader.source.regs, n < gprCount) ↔
      ∀ s ∈ shader.source.stmts, ∀ n ∈ s.regs, n < gprCount := by
    simp only [Listing.regs, List.mem_flatMap]
    constructor
    · intro hall s hs n hn
      exact hall n ⟨s, hs, hn⟩
    · rintro hall n ⟨s, hs, hn⟩
      exact hall s hs n hn
  rw [hregs, hshader.stmts, List.forall_mem_append, List.forall_mem_append,
    hmain.forall_stmts_iff htask, hfetch.forall_stmts_iff htask, tasks, List.forall_mem_append]
  constructor
  · rintro ⟨⟨⟨-, hfetchFit⟩, -⟩, -, hmainFit⟩
    exact ⟨hfetchFit, hmainFit⟩
  · rintro ⟨hfetchFit, hmainFit⟩
    exact ⟨⟨⟨hempty, hfetchFit⟩, hpreloads⟩, hempty, hmainFit⟩

/-- The constant register numbers in a compiled source, and those that stand in its code, all lie
inside the register file exactly if every export and every attribute fetch of its programs keeps to
the file. -/
theorem regs_lt_iff (h : r.compile o = .ok shader) :
    ((∀ n ∈ shader.source.regs, n < gprCount) ↔
      ∀ t ∈ r.tasks, Task.RegsFit (r.context o).semantics t) ∧
    ((∀ n ∈ codeRegs shader.code, n < gprCount) ↔
      ∀ t ∈ r.tasks, Task.RegsFit (r.context o).semantics t) := by
  have hsource := forall_source_regs_iff h
  refine ⟨hsource, ?_⟩
  rw [← hsource]
  simp only [Shader.code, Listing.mem_codeRegs (isReadable_of_compile h)]

/-- A vertex program that exports two positions from consecutive registers. -/
def positionsFrom (gpr : Nat) : Request :=
  .vertex
    { program :=
        ⟨(Word.listToBytes [BitVec.ofNat 32 (0x203C + gpr * 2 ^ 15), 0x14220688]).toArray⟩ }

/-- The last two registers can be exported. -/
theorem regs_lt_iff_positionsFrom :
    ∃ shader, (positionsFrom 126).compile {} = .ok shader ∧ shader.source.regs = [126, 127] ∧
      (∀ t ∈ (positionsFrom 126).tasks, Task.RegsFit Semantics.none t) ∧
      ∀ n ∈ codeRegs shader.code, n < gprCount := by
  have hrun : ((positionsFrom 126).compile {}).toOption.any (fun shader =>
      decide (shader.source.regs = [126, 127])) = true := by
    decide +kernel
  obtain ⟨shader, h, htest⟩ := Checked.exists_ok_of_any hrun
  have hregs := of_decide_eq_true htest
  have hfit := (regs_lt_iff h).1.mp (by rw [hregs]; decide)
  exact ⟨shader, h, hregs, hfit, (regs_lt_iff h).2.mpr hfit⟩

/-- A vertex program that fetches one attribute, loaded into the register given for it. -/
def attributeInto (gpr : UInt8) : Request :=
  .vertex
    { program := ⟨(Word.listToBytes
        [2, 0x1000000, 0, 0x200000, 0xA001, 0x8CD1000, 0, 0]).toArray⟩
      semantics := Semantics.none.set 0 gpr }

/-- An export that starts at the last register counts past it, and a table entry past the last
register is taken as it is. -/
theorem regs_positionsFrom_attributeInto :
    (∃ shader, (positionsFrom 127).compile { comments := false } = .ok shader ∧
      shader.source.regs = [127, 128]) ∧
    ∃ shader, (attributeInto 200).compile { comments := false } = .ok shader ∧
      shader.source.regs = [200] := by
  have hexport : ((positionsFrom 127).compile { comments := false }).toOption.any (fun shader =>
      decide (shader.source.regs = [127, 128])) = true := by
    decide +kernel
  have hfetch : ((attributeInto 200).compile { comments := false }).toOption.any (fun shader =>
      decide (shader.source.regs = [200])) = true := by
    decide +kernel
  obtain ⟨shader, h, htest⟩ := Checked.exists_ok_of_any hexport
  obtain ⟨shader', h', htest'⟩ := Checked.exists_ok_of_any hfetch
  exact ⟨⟨shader, h, of_decide_eq_true htest⟩, shader', h', of_decide_eq_true htest'⟩

end Request

end Compile

end LatteHlsl
