import LatteHlsl.Microcode.Encode
import LatteHlsl.Proofs.FieldWrites

/-!
# Encoded control flow instructions

An edit writes fields of the two words of an instruction. The edits of one view write fields of that
view only, so that each accessor of the view reads the last edit of its field back.

* `CfEdit.writes0`, `CfEdit.writes1`, `CfInstr.edit_eq`: an edit as field writes.
* `CfEdit.Plain`, `CfEdit.Clause`, `CfEdit.Export`: the edits of each view.
* `CfInstr.PlainHolds`, `CfInstr.ClauseHolds`, `CfInstr.ExportHolds`: what the accessors of a view
  return after a list of edits.
* `CfInstr.plainHolds`, `CfInstr.clauseHolds`, `CfInstr.exportHolds`: they do.
-/

namespace LatteHlsl.Isa

open BitField Layout

/-! ## Codes -/

theorem Sel.ofBits_index_mod (s : Sel) : Sel.ofBits (s.index % 2 ^ 3) = s := by
  cases s <;> rfl

/-- Four fields that hold selectors. -/
theorem sels_of_built {ε : Type} {fs : List BitField} {init : List (BitField × Nat)}
    {writes : ε → List (BitField × Nat)} {es : List ε} {w : Word} (h : Built fs init writes es w)
    (fields : Quad BitField) {sets : ε → Option (Quad Sel)} {b : Quad Sel}
    (hfields : ∀ c, fields.get c ∈ fs ∧ (fields.get c).width = 3)
    (hinit : ∀ c, lastSet init 0 (fields.get c).written = (b.get c).index)
    (hsets : ∀ e ∈ es, ∀ c,
      lastSet? (writes e) (fields.get c).written = (sets e).map fun s => (s.get c).index) :
    fields.map (fun f => Sel.ofBits (f.value w)) = lastSet es b sets := by
  have hget : ∀ c, Sel.ofBits ((fields.get c).value w) = (lastSet es b sets).get c := by
    intro c
    rw [h.value (hfields c).1 (fun s : Quad Sel => (s.get c).index) (hinit c)
      (fun e he => hsets e he c), (hfields c).2, Sel.ofBits_index_mod]
  have hx := hget .x
  have hy := hget .y
  have hz := hget .z
  have hw := hget .w
  simp only [Quad.get] at hx hy hz hw
  rw [Quad.map, hx, hy, hz, hw]

theorem KcacheMode.ofBits_index_mod (m : KcacheMode) : KcacheMode.ofBits (m.index % 2 ^ 2) = m := by
  cases m <;> rfl

theorem CfOp.ofId?_id_mod (op : CfOp) : CfOp.ofId? (op.id % 2 ^ 7) = some op := by
  cases op <;> rfl

theorem CfAluOp.ofId?_id_mod (op : CfAluOp) : CfAluOp.ofId? (op.id % 2 ^ 4) = some op := by
  cases op <;> rfl

theorem ExportOp.ofId?_id_mod (op : ExportOp) : ExportOp.ofId? (op.id % 2 ^ 7) = some op := by
  cases op <;> rfl

/-! ## Edits as writes -/

namespace CfEdit

/-- The fields that take the selectors of an export. -/
def selWrites (s : Quad Sel) : List (BitField × Nat) :=
  [(CfExportWord1.selX, s.x.index), (CfExportWord1.selY, s.y.index),
   (CfExportWord1.selZ, s.z.index), (CfExportWord1.selW, s.w.index)]

/-- What an edit writes into the first word. -/
def writes0 : CfEdit → List (BitField × Nat)
  | .exportType n => [(CfExportWord0.type, n)]
  | .addr n => [(CfWord0.addr, n)]
  | .aluAddr n => [(CfAluWord0.addr, n)]
  | .kcache .first block mode _ =>
    [(CfAluWord0.kcacheBank0, block), (CfAluWord0.kcacheMode0, mode.index)]
  | .kcache .second block _ _ => [(CfAluWord0.kcacheBank1, block)]
  | .endOfProgram | .count _ | .aluCount _ | .sels _ | .burst _ => []

/-- The low three bits of a count. -/
def countLow (n : Nat) : Nat := if 8 < n then n - 9 else n - 1

/-- The fourth bit of a count. -/
def countHigh (n : Nat) : Nat := if 8 < n then 1 else 0

/-- What an edit writes into the second word. -/
def writes1 : CfEdit → List (BitField × Nat)
  | .endOfProgram => [(CfWord1.endOfProgram, 1)]
  | .count n => [(CfWord1.count, countLow n), (CfWord1.count3, countHigh n)]
  | .aluCount n => [(CfAluWord1.count, n - 1)]
  | .kcache .first _ _ start => [(CfAluWord1.kcacheAddr0, start)]
  | .kcache .second _ mode start =>
    [(CfAluWord1.kcacheMode1, mode.index), (CfAluWord1.kcacheAddr1, start)]
  | .sels s => selWrites s
  | .burst n => [(CfExportWord1.burstCount, n - 1)]
  | .exportType _ | .addr _ | .aluAddr _ => []

/-- The edits of plain instructions. -/
inductive Plain : CfEdit → Prop where
  | addr (n : Nat) : Plain (.addr n)
  | count (n : Nat) : Plain (.count n)
  | endOfProgram : Plain .endOfProgram

/-- The edits of instructions that start an ALU clause. -/
inductive Clause : CfEdit → Prop where
  | aluAddr (n : Nat) : Clause (.aluAddr n)
  | aluCount (n : Nat) : Clause (.aluCount n)
  | kcacheFirst (block : Nat) (mode : KcacheMode) (start : Nat) :
      Clause (.kcache .first block mode start)
  | kcacheSecond (block : Nat) (mode : KcacheMode) (start : Nat) :
      Clause (.kcache .second block mode start)

/-- The edits of exports. -/
inductive Export : CfEdit → Prop where
  | exportType (n : Nat) : Export (.exportType n)
  | sels (s : Quad Sel) : Export (.sels s)
  | burst (n : Nat) : Export (.burst n)
  | endOfProgram : Export .endOfProgram

end CfEdit

namespace CfInstr

theorem edit_eq (i : CfInstr) (e : CfEdit) :
    i.edit e = ⟨putAll i.word0 e.writes0, putAll i.word1 e.writes1⟩ := by
  cases e with
  | kcache bank block mode addr => cases bank <;> rfl
  | _ => rfl

theorem word0_foldl (i : CfInstr) (es : List CfEdit) :
    (es.foldl edit i).word0 = putAll i.word0 (es.flatMap CfEdit.writes0) :=
  putAll_foldl (fun _ => True) (fun _ _ h => h) (fun e _ i _ => by rw [edit_eq]) i trivial

theorem word1_foldl (i : CfInstr) (es : List CfEdit) :
    (es.foldl edit i).word1 = putAll i.word1 (es.flatMap CfEdit.writes1) :=
  putAll_foldl (fun _ => True) (fun _ _ h => h) (fun e _ i _ => by rw [edit_eq]) i trivial

variable {es : List CfEdit}

/-! ## Plain instructions -/

/-- What the plain view of an instruction holds after edits. -/
structure PlainHolds (op : CfOp) (es : List CfEdit) (i : CfInstr) : Prop where
  type : i.type = .normal
  cfOp : i.cfOp = .ok op
  addr : i.addr = (lastSet es 0 fun | .addr n => some n | _ => none) % 2 ^ 32
  /-- Counts from one to fifteen fit. -/
  count : ∀ n, (lastSet es 1 fun | .count n => some n | _ => none) = n → 1 ≤ n → n ≤ 15 →
    i.count = n
  popCount : i.popCount = 0
  endOfProgram : i.endOfProgram = lastSet es false fun | .endOfProgram => some true | _ => none
  barrier : i.barrier = false

theorem built_plain0 (op : CfOp) (hes : ∀ e ∈ es, e.Plain) :
    Built CfWord0.layout.fields [] CfEdit.writes0 es (es.foldl edit (ofOp op)).word0 where
  eq_putAll := word0_foldl _ es
  sound := by decide
  init_mem := by simp
  writes_mem e he := by cases hes e he <;> simp [CfEdit.writes0, CfWord0.layout]

theorem built_plain1 (op : CfOp) (hes : ∀ e ∈ es, e.Plain) :
    Built CfWord1.layout.fields [(CfWord1.cfInst, op.id)] CfEdit.writes1 es
      (es.foldl edit (ofOp op)).word1 where
  eq_putAll := word1_foldl _ es
  sound := by decide
  init_mem := by simp [CfWord1.layout]
  writes_mem e he := by cases hes e he <;> simp [CfEdit.writes1, CfWord1.layout]

/-- The type of a control flow instruction is held in the top of its operation. -/
theorem type_eq (i : CfInstr) : i.type = .ofBits (CfWord1.cfInst.value i.word1 / 2 ^ 5) := by
  rw [type, value_high (f := CfWord1.cfInst) (by decide) (by decide) rfl rfl]

theorem count_eq {n : Nat} (hpos : 1 ≤ n) (hle : n ≤ 15) :
    (CfEdit.countLow n % 2 ^ 3 + 1) ||| ((CfEdit.countHigh n % 2 ^ 1) <<< 3) = n := by
  have hall : ∀ n ≤ 15, 1 ≤ n →
      (CfEdit.countLow n % 2 ^ 3 + 1) ||| ((CfEdit.countHigh n % 2 ^ 1) <<< 3) = n := by
    decide
  exact hall n hle hpos

theorem plainHolds (op : CfOp) (hes : ∀ e ∈ es, e.Plain) :
    PlainHolds op es (es.foldl edit (ofOp op)) := by
  have h0 := built_plain0 op hes
  have h1 := built_plain1 op hes
  have hop : CfWord1.cfInst.value (es.foldl edit (ofOp op)).word1 = op.id % 2 ^ 7 :=
    h1.value_of_unset (by decide) fun e he => by cases hes e he <;> rfl
  constructor
  case type =>
    rw [type_eq, hop]
    cases op <;> rfl
  case cfOp =>
    rw [CfInstr.cfOp, hop, CfOp.ofId?_id_mod]
  case addr => exact h0.value (by decide) (·) rfl fun e he => by cases hes e he <;> rfl
  case count =>
    intro n hn hpos hle
    have hlow : CfWord1.count.value (es.foldl edit (ofOp op)).word1 =
        CfEdit.countLow n % 2 ^ 3 := by
      rw [← hn]
      exact h1.value (by decide) CfEdit.countLow rfl fun e he => by cases hes e he <;> rfl
    have hhigh : CfWord1.count3.value (es.foldl edit (ofOp op)).word1 =
        CfEdit.countHigh n % 2 ^ 1 := by
      rw [← hn]
      exact h1.value (by decide) CfEdit.countHigh rfl fun e he => by cases hes e he <;> rfl
    rw [CfInstr.count, hlow, hhigh, count_eq hpos hle]
  case popCount => exact h1.value_of_unset (by decide) fun e he => by cases hes e he <;> rfl
  case endOfProgram => exact h1.test (by decide) rfl fun e he => by cases hes e he <;> rfl
  case barrier => exact h1.test_of_unset (by decide) rfl fun e he => by cases hes e he <;> rfl

/-! ## Instructions that start an ALU clause -/

/-- What the clause view of an instruction holds after edits. -/
structure ClauseHolds (op : CfAluOp) (es : List CfEdit) (i : CfInstr) : Prop where
  type : i.type = if op.id < 12 then .alu else .aluExtended
  aluOp : i.aluOp = .ok op
  aluAddr : i.aluAddr = (lastSet es 0 fun | .aluAddr n => some n | _ => none) % 2 ^ 22
  /-- Counts from one to a hundred and twenty-eight fit. -/
  aluCount : ∀ n, (lastSet es 1 fun | .aluCount n => some n | _ => none) = n → 1 ≤ n → n ≤ 128 →
    i.aluCount = n
  kcacheBlock : ∀ bank, i.kcacheBlock bank =
    (lastSet es 0 fun | .kcache b block _ _ => if b = bank then some block else none | _ => none) %
      2 ^ 4
  kcacheMode : ∀ bank, i.kcacheMode bank =
    lastSet es .nop fun | .kcache b _ mode _ => if b = bank then some mode else none | _ => none
  kcacheAddr : ∀ bank, i.kcacheAddr bank =
    (lastSet es 0 fun | .kcache b _ _ start => if b = bank then some start else none | _ => none) %
      2 ^ 8
  barrier : i.barrier = false

theorem built_clause0 (op : CfAluOp) (hes : ∀ e ∈ es, e.Clause) :
    Built CfAluWord0.layout.fields [] CfEdit.writes0 es (es.foldl edit (ofAluOp op)).word0 where
  eq_putAll := word0_foldl _ es
  sound := by decide
  init_mem := by simp
  writes_mem e he := by cases hes e he <;> simp [CfEdit.writes0, CfAluWord0.layout]

theorem built_clause1 (op : CfAluOp) (hes : ∀ e ∈ es, e.Clause) :
    Built CfAluWord1.layout.fields [(CfAluWord1.cfInst, op.id)] CfEdit.writes1 es
      (es.foldl edit (ofAluOp op)).word1 where
  eq_putAll := word1_foldl _ es
  sound := by decide
  init_mem := by simp [CfAluWord1.layout]
  writes_mem e he := by cases hes e he <;> simp [CfEdit.writes1, CfAluWord1.layout]

theorem clauseHolds (op : CfAluOp) (hes : ∀ e ∈ es, e.Clause) :
    ClauseHolds op es (es.foldl edit (ofAluOp op)) := by
  have h0 := built_clause0 op hes
  have h1 := built_clause1 op hes
  have hop : CfAluWord1.cfInst.value (es.foldl edit (ofAluOp op)).word1 = op.id % 2 ^ 4 :=
    h1.value_of_unset (by decide) fun e he => by cases hes e he <;> rfl
  constructor
  case type =>
    rw [CfInstr.type, value_high (f := CfAluWord1.cfInst) (k := 2) (by decide) (by decide) rfl rfl,
      hop]
    cases op <;> rfl
  case aluOp => rw [CfInstr.aluOp, hop, CfAluOp.ofId?_id_mod]
  case aluAddr => exact h0.value (by decide) (·) rfl fun e he => by cases hes e he <;> rfl
  case aluCount =>
    intro n hn hpos hle
    have hcount : CfAluWord1.count.value (es.foldl edit (ofAluOp op)).word1 = (n - 1) % 2 ^ 7 := by
      rw [← hn]
      exact h1.value (by decide) (· - 1) rfl fun e he => by cases hes e he <;> rfl
    rw [CfInstr.aluCount, hcount]
    omega
  case kcacheBlock =>
    intro bank
    cases bank <;>
      exact h0.value (by decide) (·) rfl fun e he => by cases hes e he <;> rfl
  case kcacheMode =>
    intro bank
    cases bank with
    | first =>
      exact h0.decode (by decide) KcacheMode.ofBits KcacheMode.ofBits_index_mod rfl
        fun e he => by cases hes e he <;> rfl
    | second =>
      exact h1.decode (by decide) KcacheMode.ofBits KcacheMode.ofBits_index_mod rfl
        fun e he => by cases hes e he <;> rfl
  case kcacheAddr =>
    intro bank
    cases bank <;>
      exact h1.value (by decide) (·) rfl fun e he => by cases hes e he <;> rfl
  case barrier => exact h1.test_of_unset (by decide) rfl fun e he => by cases hes e he <;> rfl

/-! ## Exports -/

/-- What the export view of an instruction holds after edits. -/
structure ExportHolds (op : ExportOp) (kind : ExportKind) (arrayBase gpr : Nat) (es : List CfEdit)
    (i : CfInstr) : Prop where
  type : i.type = .exp
  exportOp : i.exportOp = .ok op
  arrayBase : i.arrayBase = arrayBase % 2 ^ 13
  exportType : i.exportType =
    (lastSet es kind.index fun | .exportType n => some n | _ => none) % 2 ^ 2
  exportGpr : i.exportGpr = gpr % 2 ^ 7
  exportRel : i.exportRel = false
  indexGpr : i.indexGpr = 0
  elemSize : i.elemSize = 0
  exportSels : i.exportSels = lastSet es Sel.identity fun | .sels s => some s | _ => none
  /-- Bursts of one to sixteen registers fit. -/
  burstCount : ∀ n, (lastSet es 1 fun | .burst n => some n | _ => none) = n → 1 ≤ n → n ≤ 16 →
    i.burstCount = n
  endOfProgram : i.endOfProgram = lastSet es false fun | .endOfProgram => some true | _ => none
  barrier : i.barrier = false

section Export

variable (op : ExportOp) (kind : ExportKind) (arrayBase gpr : Nat)

theorem built_export0 (hes : ∀ e ∈ es, e.Export) :
    Built CfExportWord0.layout.fields
      [(CfExportWord0.arrayBase, arrayBase), (CfExportWord0.type, kind.index),
       (CfExportWord0.rwGpr, gpr)]
      CfEdit.writes0 es (es.foldl edit (ofExport op kind arrayBase gpr)).word0 where
  eq_putAll := word0_foldl _ es
  sound := by decide
  init_mem := by simp [CfExportWord0.layout]
  writes_mem e he := by cases hes e he <;> simp [CfEdit.writes0, CfExportWord0.layout]

theorem built_export1 (hes : ∀ e ∈ es, e.Export) :
    Built CfExportWord1.layout.fields
      ((CfExportWord1.cfInst, op.id) :: CfEdit.selWrites Sel.identity)
      CfEdit.writes1 es (es.foldl edit (ofExport op kind arrayBase gpr)).word1 where
  eq_putAll := word1_foldl _ es
  sound := by decide
  init_mem := by simp [CfEdit.selWrites, CfExportWord1.layout]
  writes_mem e he := by
    cases hes e he with
    | endOfProgram =>
      show ∀ p ∈ [(CfExportWord1.endOfProgram, 1)], p.1 ∈ CfExportWord1.layout.fields
      simp [CfExportWord1.layout]
    | _ => simp [CfEdit.writes1, CfEdit.selWrites, CfExportWord1.layout]

theorem exportHolds (hes : ∀ e ∈ es, e.Export) :
    ExportHolds op kind arrayBase gpr es (es.foldl edit (ofExport op kind arrayBase gpr)) := by
  have h0 := built_export0 op kind arrayBase gpr hes
  have h1 := built_export1 op kind arrayBase gpr hes
  have hop : CfExportWord1.cfInst.value (es.foldl edit (ofExport op kind arrayBase gpr)).word1 =
      op.id % 2 ^ 7 :=
    h1.value_of_unset (by decide) fun e he => by cases hes e he <;> rfl
  constructor
  case type =>
    rw [type_eq, show CfWord1.cfInst = CfExportWord1.cfInst from rfl, hop]
    cases op <;> rfl
  case exportOp => rw [CfInstr.exportOp, hop, ExportOp.ofId?_id_mod]
  case arrayBase => exact h0.value_of_unset (by decide) fun e he => by cases hes e he <;> rfl
  case exportType => exact h0.value (by decide) (·) rfl fun e he => by cases hes e he <;> rfl
  case exportGpr => exact h0.value_of_unset (by decide) fun e he => by cases hes e he <;> rfl
  case exportRel => exact h0.test_of_unset (by decide) rfl fun e he => by cases hes e he <;> rfl
  case indexGpr => exact h0.value_of_unset (by decide) fun e he => by cases hes e he <;> rfl
  case elemSize => exact h0.value_of_unset (by decide) fun e he => by cases hes e he <;> rfl
  case exportSels =>
    refine sels_of_built h1 ⟨CfExportWord1.selX, CfExportWord1.selY, CfExportWord1.selZ,
      CfExportWord1.selW⟩ (fun c => ?_) (fun c => ?_)
      (fun e he c => ?_)
    · cases c <;> decide
    · cases c <;> rfl
    · cases hes e he <;> cases c <;> rfl
  case burstCount =>
    intro n hn hpos hle
    have hcount : CfExportWord1.burstCount.value
        (es.foldl edit (ofExport op kind arrayBase gpr)).word1 = (n - 1) % 2 ^ 4 := by
      rw [← hn]
      exact h1.value (by decide) (· - 1) rfl fun e he => by cases hes e he <;> rfl
    rw [CfInstr.burstCount, hcount]
    omega
  case endOfProgram => exact h1.test (by decide) rfl fun e he => by cases hes e he <;> rfl
  case barrier => exact h1.test_of_unset (by decide) rfl fun e he => by cases hes e he <;> rfl

end Export

end CfInstr

end LatteHlsl.Isa
