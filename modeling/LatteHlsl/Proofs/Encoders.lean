import LatteHlsl.Proofs.AluEncoders
import LatteHlsl.Proofs.ControlEncoders

/-!
# Encoders and accessors

Fetches are edited like the other instructions, field by field. With them every encoder agrees with
the accessors of its own view: after any list of edits a field reads as the last edit left it, and
as the encoder made it if no edit was for it.

* `TexInstr.Holds`, `TexInstr.holds`: texture fetches.
* `VtxInstr.Holds`, `VtxInstr.holds`: vertex fetches, whose low byte is a destination register or a
  semantic.
* `foldl_edit_holds`: all encoders.
-/

namespace LatteHlsl.Isa

open BitField Layout

/-! ## Codes -/

theorem TexOp.ofId?_id_mod (op : TexOp) : TexOp.ofId? (op.id % 2 ^ 5) = some op := by
  cases op <;> decide +kernel

theorem VtxOp.ofId?_id_mod (op : VtxOp) : VtxOp.ofId? (op.id % 2 ^ 5) = some op := by
  cases op <;> decide +kernel

/-- The bit of a coordinate type. -/
def CoordType.bit : CoordType → Nat
  | .unnormalized => 0
  | .normalized => 1

/-! ## Texture fetches -/

namespace TexEdit

/-- The fields that take the selectors of the coordinates. -/
def srcWrites (s : Quad Sel) : List (BitField × Nat) :=
  [(TexWord2.srcSelX, s.x.index), (TexWord2.srcSelY, s.y.index), (TexWord2.srcSelZ, s.z.index),
   (TexWord2.srcSelW, s.w.index)]

/-- The fields that take the destination. -/
def dstWrites (gpr : Nat) (s : Quad Sel) : List (BitField × Nat) :=
  [(TexWord1.dstGpr, gpr), (TexWord1.dstSelX, s.x.index), (TexWord1.dstSelY, s.y.index),
   (TexWord1.dstSelZ, s.z.index), (TexWord1.dstSelW, s.w.index)]

/-- What an edit writes into the first word. -/
def writes0 : TexEdit → List (BitField × Nat)
  | .src gpr _ => [(TexWord0.srcGpr, gpr)]
  | .fractionMode => [(TexWord0.bcFracMode, 1)]
  | .dst _ _ | .offset _ _ _ | .unnormalized _ => []

/-- What an edit writes into the second word. -/
def writes1 : TexEdit → List (BitField × Nat)
  | .dst gpr s => dstWrites gpr s
  | .unnormalized chan => [(TexInstr.coordTypeField chan, 0)]
  | .src _ _ | .offset _ _ _ | .fractionMode => []

/-- What an edit writes into the third word. -/
def writes2 : TexEdit → List (BitField × Nat)
  | .src _ s => srcWrites s
  | .offset x y z =>
    [(TexWord2.offsetX, (BitVec.ofInt 32 x).toNat), (TexWord2.offsetY, (BitVec.ofInt 32 y).toNat),
     (TexWord2.offsetZ, (BitVec.ofInt 32 z).toNat)]
  | .dst _ _ | .unnormalized _ | .fractionMode => []

/-- Cases on an edit and on the channel it is for. -/
@[elab_as_elim]
theorem chanCases {motive : TexEdit → Prop} (e : TexEdit) (src : ∀ gpr s, motive (.src gpr s))
    (dst : ∀ gpr s, motive (.dst gpr s)) (offset : ∀ x y z, motive (.offset x y z))
    (unnormalizedX : motive (.unnormalized .x)) (unnormalizedY : motive (.unnormalized .y))
    (unnormalizedZ : motive (.unnormalized .z)) (unnormalizedW : motive (.unnormalized .w))
    (fractionMode : motive .fractionMode) : motive e := by
  cases e with
  | src gpr s => exact src gpr s
  | dst gpr s => exact dst gpr s
  | offset x y z => exact offset x y z
  | unnormalized c =>
    cases c with
    | x => exact unnormalizedX
    | y => exact unnormalizedY
    | z => exact unnormalizedZ
    | w => exact unnormalizedW
  | fractionMode => exact fractionMode

end TexEdit

namespace TexInstr

theorem edit_eq (i : TexInstr) (e : TexEdit) :
    i.edit e =
      ⟨putAll i.word0 e.writes0, putAll i.word1 e.writes1, putAll i.word2 e.writes2,
        i.padding⟩ := by
  cases e with
  | offset x y z =>
    rw [edit, setOffset, set_eq_put, set_eq_put, set_eq_put]
    rfl
  | _ => rfl

/-- What a texture fetch holds after edits. -/
structure Holds (op : TexOp) (resource sampler : Nat) (es : List TexEdit) (i : TexInstr) :
    Prop where
  op : i.op = .ok op
  fractionMode : i.fractionMode = lastSet es false fun | .fractionMode => some true | _ => none
  resourceId : i.resourceId = resource % 2 ^ 8
  samplerId : i.samplerId = sampler % 2 ^ 5
  srcGpr : i.srcGpr = (lastSet es 0 fun | .src gpr _ => some gpr | _ => none) % 2 ^ 7
  srcRel : i.srcRel = false
  srcSels : i.srcSels = lastSet es Sel.identity fun | .src _ s => some s | _ => none
  dstGpr : i.dstGpr = (lastSet es 0 fun | .dst gpr _ => some gpr | _ => none) % 2 ^ 7
  dstRel : i.dstRel = false
  dstSels : i.dstSels = lastSet es Sel.identity fun | .dst _ s => some s | _ => none
  lodBias : i.lodBias = 0
  coordTypes : ∀ c, i.coordTypes.get c =
    lastSet es .normalized fun
      | .unnormalized d => if d = c then some .unnormalized else none
      | _ => none
  /-- Offsets have five bits, the first of them for the sign. -/
  offsetX : i.offsetX = (lastSet es 0 fun | .offset x _ _ => some x | _ => none).bmod (2 ^ 5)
  offsetY : i.offsetY = (lastSet es 0 fun | .offset _ y _ => some y | _ => none).bmod (2 ^ 5)
  offsetZ : i.offsetZ = (lastSet es 0 fun | .offset _ _ z => some z | _ => none).bmod (2 ^ 5)

variable (op : TexOp) (resource sampler : Nat) (es : List TexEdit)

theorem built0 :
    Built TexWord0.layout.fields
      [(TexWord0.texInst, op.id), (TexWord0.resourceId, resource), (TexWord0.srcGpr, 0)]
      TexEdit.writes0 es (es.foldl edit (ofOp op resource sampler)).word0 where
  eq_putAll :=
    putAll_foldl (fun _ => True) (fun _ _ h => h) (fun e _ i _ => by rw [edit_eq]) _ trivial
  sound := by decide
  init_mem := by simp [TexWord0.layout]
  writes_mem e _ := by cases e <;> simp [TexEdit.writes0, TexWord0.layout]

theorem built1 :
    Built TexWord1.layout.fields
      ((Chan.all.map fun c => (coordTypeField c, 1)) ++ TexEdit.dstWrites 0 Sel.identity)
      TexEdit.writes1 es (es.foldl edit (ofOp op resource sampler)).word1 where
  eq_putAll :=
    putAll_foldl (fun _ => True) (fun _ _ h => h) (fun e _ i _ => by rw [edit_eq]) _ trivial
  sound := by decide
  init_mem := of_decide_eq_true rfl
  writes_mem e _ := by
    cases e using TexEdit.chanCases <;> exact of_decide_eq_true rfl

theorem built2 :
    Built TexWord2.layout.fields
      ((TexWord2.samplerId, sampler) :: TexEdit.srcWrites Sel.identity)
      TexEdit.writes2 es (es.foldl edit (ofOp op resource sampler)).word2 where
  eq_putAll :=
    putAll_foldl (fun _ => True) (fun _ _ h => h) (fun e _ i _ => by rw [edit_eq]) _ trivial
  sound := by decide
  init_mem := by simp [TexEdit.srcWrites, TexWord2.layout]
  writes_mem e _ := by
    cases e <;> simp [TexEdit.writes2, TexEdit.srcWrites, TexWord2.layout]

theorem get_coordTypes (i : TexInstr) (c : Chan) :
    i.coordTypes.get c = CoordType.ofBool ((coordTypeField c).test i.word1) := by
  cases c <;> rfl

theorem holds : Holds op resource sampler es (es.foldl edit (ofOp op resource sampler)) := by
  have h0 := built0 op resource sampler es
  have h1 := built1 op resource sampler es
  have h2 := built2 op resource sampler es
  have hop : TexWord0.texInst.value (es.foldl edit (ofOp op resource sampler)).word0 =
      op.id % 2 ^ 5 :=
    h0.value_of_unset (by decide) fun e _ => by cases e <;> rfl
  constructor
  case op => rw [TexInstr.op, hop, TexOp.ofId?_id_mod]
  case fractionMode => exact h0.test (by decide) rfl fun e _ => by cases e <;> rfl
  case resourceId => exact h0.value_of_unset (by decide) fun e _ => by cases e <;> rfl
  case samplerId => exact h2.value_of_unset (by decide) fun e _ => by cases e <;> rfl
  case srcGpr => exact h0.value (by decide) (·) rfl fun e _ => by cases e <;> rfl
  case srcRel => exact h0.test_of_unset (by decide) rfl fun e _ => by cases e <;> rfl
  case srcSels =>
    refine sels_of_built h2 ⟨TexWord2.srcSelX, TexWord2.srcSelY, TexWord2.srcSelZ,
      TexWord2.srcSelW⟩ (fun c => ?_) (fun c => ?_) (fun e _ c => ?_)
    · cases c <;> decide
    · cases c <;> rfl
    · cases e <;> cases c <;> rfl
  case dstGpr =>
    exact h1.value (by decide) (·) rfl fun e _ => by cases e using TexEdit.chanCases <;> rfl
  case dstRel =>
    exact h1.test_of_unset (by decide) rfl fun e _ => by cases e using TexEdit.chanCases <;> rfl
  case dstSels =>
    refine sels_of_built h1 ⟨TexWord1.dstSelX, TexWord1.dstSelY, TexWord1.dstSelZ,
      TexWord1.dstSelW⟩ (fun c => ?_) (fun c => ?_) (fun e _ c => ?_)
    · cases c <;> decide
    · cases c <;> rfl
    · cases e using TexEdit.chanCases <;> cases c <;> rfl
  case lodBias =>
    have hbias : TexWord1.lodBias.value (es.foldl edit (ofOp op resource sampler)).word1 = 0 :=
      h1.value_of_unset (by decide) fun e _ => by cases e using TexEdit.chanCases <;> rfl
    rw [TexInstr.lodBias, signed_eq (by decide), hbias]
    rfl
  case coordTypes =>
    intro c
    have hcode : ∀ t : CoordType,
        CoordType.ofBool (t.bit % 2 ^ (coordTypeField c).width != 0) = t := by
      intro t
      cases c <;> cases t <;> rfl
    rw [get_coordTypes, test_eq]
    refine h1.decode ?_ (fun n => CoordType.ofBool (n != 0)) hcode ?_ (fun e _ => ?_)
    · cases c <;> decide
    · cases c <;> rfl
    · cases e using TexEdit.chanCases <;> cases c <;> rfl
  case offsetX => exact h2.signed (by decide) rfl fun e _ => by cases e <;> rfl
  case offsetY => exact h2.signed (by decide) rfl fun e _ => by cases e <;> rfl
  case offsetZ => exact h2.signed (by decide) rfl fun e _ => by cases e <;> rfl

end TexInstr

/-! ## Vertex fetches -/

namespace VtxEdit

/-- The fields that take the selectors of the destination. -/
def selWrites (s : Quad Sel) : List (BitField × Nat) :=
  [(VtxWord1.dstSelX, s.x.index), (VtxWord1.dstSelY, s.y.index), (VtxWord1.dstSelZ, s.z.index),
   (VtxWord1.dstSelW, s.w.index)]

/-- What an edit writes into the first word. -/
def writes0 : VtxEdit → List (BitField × Nat)
  | .fetchType t => [(VtxWord0.fetchType, t.index)]
  | .srcSelX s => [(VtxWord0.srcSelX, s.index)]
  | .dstSels _ | .dataFormat _ | .offset _ => []

/-- What an edit writes into the second word. -/
def writes1 : VtxEdit → List (BitField × Nat)
  | .dstSels s => selWrites s
  | .dataFormat n => [(VtxWord1.dataFormat, n)]
  | .fetchType _ | .srcSelX _ | .offset _ => []

/-- What an edit writes into the third word. -/
def writes2 : VtxEdit → List (BitField × Nat)
  | .offset n => [(VtxWord2.offset, n)]
  | .dstSels _ | .fetchType _ | .srcSelX _ | .dataFormat _ => []

end VtxEdit

namespace VtxInstr

theorem edit_eq (i : VtxInstr) (e : VtxEdit) :
    i.edit e =
      ⟨putAll i.word0 e.writes0, putAll i.word1 e.writes1, putAll i.word2 e.writes2,
        i.padding⟩ := by
  cases e <;> rfl

/-- What a vertex fetch holds after edits, apart from its low byte in the second word. -/
structure Holds (op : VtxOp) (buffer : Nat) (es : List VtxEdit) (i : VtxInstr) : Prop where
  op : i.op = .ok op
  fetchType : i.fetchType =
    (lastSet es .vertexData fun | .fetchType t => some t | _ => none).index
  bufferId : i.bufferId = buffer % 2 ^ 8
  srcGpr : i.srcGpr = 0
  /-- Only two bits are left for this selector. -/
  srcSelX : i.srcSelX =
    .ofBits ((lastSet es .x fun | .srcSelX s => some s | _ => none).index % 2 ^ 2)
  megaFetchCount : i.megaFetchCount = 0
  dstSels : i.dstSels = lastSet es Sel.identity fun | .dstSels s => some s | _ => none
  useConstFields : i.useConstFields = false
  dataFormat : i.dataFormat =
    (lastSet es DataFormat.fmt32_32_32_32Float.index fun | .dataFormat n => some n | _ => none) %
      2 ^ 6
  numFormatAll : i.numFormatAll = 0
  formatCompAll : i.formatCompAll = false
  offset : i.offset = (lastSet es 0 fun | .offset n => some n | _ => none) % 2 ^ 16
  endianSwap : i.endianSwap = 0
  megaFetch : i.megaFetch = false

/-- The fetch with a semantic in its low byte, if one is given. -/
def start (op : VtxOp) (buffer : Nat) (semantic : Option Nat) : VtxInstr :=
  { ofOp op buffer with
    word1 := putAll (ofOp op buffer).word1
      (semantic.toList.map fun id => (VtxWord1.semanticId, id)) }

/-- The fields of the second word, with a semantic in the low byte. A fetch without a semantic
leaves that byte zero, and its destination register with it. -/
def semanticFields : List BitField :=
  VtxWord1.semanticId :: VtxWord1.layout.fields.filter fun f => !f.overlaps VtxWord1.semanticId

variable (op : VtxOp) (buffer : Nat) (semantic : Option Nat) (es : List VtxEdit)

theorem built0 :
    Built VtxWord0.layout.fields
      [(VtxWord0.vtxInst, op.id), (VtxWord0.bufferId, buffer), (VtxWord0.srcSelX, Sel.x.index)]
      VtxEdit.writes0 es (es.foldl edit (start op buffer semantic)).word0 where
  eq_putAll :=
    putAll_foldl (fun _ => True) (fun _ _ h => h) (fun e _ i _ => by rw [edit_eq]) _ trivial
  sound := by decide
  init_mem := by simp [VtxWord0.layout]
  writes_mem e _ := by cases e <;> simp [VtxEdit.writes0, VtxWord0.layout]

/-- What the second word starts with. -/
def startWrites (semantic : Option Nat) : List (BitField × Nat) :=
  (VtxWord1.dataFormat, DataFormat.fmt32_32_32_32Float.index) :: VtxEdit.selWrites Sel.identity ++
    semantic.toList.map fun id => (VtxWord1.semanticId, id)

theorem built1 :
    Built semanticFields (startWrites semantic) VtxEdit.writes1 es
      (es.foldl edit (start op buffer semantic)).word1 where
  eq_putAll := by
    rw [putAll_append, startWrites, putAll_append]
    exact putAll_foldl (fun _ => True) (fun _ _ h => h) (fun e _ i _ => by rw [edit_eq]) _ trivial
  sound := by decide
  init_mem := by cases semantic <;> exact of_decide_eq_true rfl
  writes_mem e _ := by cases e <;> exact of_decide_eq_true rfl

theorem built2 :
    Built VtxWord2.layout.fields [] VtxEdit.writes2 es
      (es.foldl edit (start op buffer semantic)).word2 where
  eq_putAll :=
    putAll_foldl (fun _ => True) (fun _ _ h => h) (fun e _ i _ => by rw [edit_eq]) _ trivial
  sound := by decide
  init_mem := by simp
  writes_mem e _ := by cases e <;> simp [VtxEdit.writes2, VtxWord2.layout]

theorem holds : Holds op buffer es (es.foldl edit (start op buffer semantic)) := by
  have h0 := built0 op buffer semantic es
  have h1 := built1 op buffer semantic es
  have h2 := built2 op buffer semantic es
  have hop : VtxWord0.vtxInst.value (es.foldl edit (start op buffer semantic)).word0 =
      op.id % 2 ^ 5 :=
    h0.value_of_unset (by decide) fun e _ => by cases e <;> rfl
  constructor
  case op => rw [VtxInstr.op, hop, VtxOp.ofId?_id_mod]
  case fetchType =>
    have hcode : ∀ t : FetchType, t.index % 2 ^ 2 = t.index := by
      intro t
      cases t <;> rfl
    rw [← hcode]
    exact h0.value (by decide) FetchType.index rfl fun e _ => by cases e <;> rfl
  case bufferId => exact h0.value_of_unset (by decide) fun e _ => by cases e <;> rfl
  case srcGpr => exact h0.value_of_unset (by decide) fun e _ => by cases e <;> rfl
  case srcSelX =>
    exact congrArg Sel.ofBits (h0.value (by decide) Sel.index rfl fun e _ => by cases e <;> rfl)
  case megaFetchCount => exact h0.value_of_unset (by decide) fun e _ => by cases e <;> rfl
  case dstSels =>
    refine sels_of_built h1 ⟨VtxWord1.dstSelX, VtxWord1.dstSelY, VtxWord1.dstSelZ,
      VtxWord1.dstSelW⟩ (fun c => ?_) (fun c => ?_) (fun e _ c => ?_)
    · cases c <;> decide
    · cases semantic <;> cases c <;> rfl
    · cases e <;> cases c <;> rfl
  case useConstFields =>
    exact h1.test_of_unset (by decide) (by cases semantic <;> rfl) fun e _ => by cases e <;> rfl
  case dataFormat =>
    exact h1.value (by decide) (·) (by cases semantic <;> rfl) fun e _ => by cases e <;> rfl
  case numFormatAll =>
    have hinit : lastSet (startWrites semantic) 0 VtxWord1.numFormatAll.written = 0 := by
      cases semantic <;> rfl
    have hvalue := h1.value_of_unset (f := VtxWord1.numFormatAll) (by decide) fun e _ => by
      cases e <;> rfl
    rwa [hinit, Nat.zero_mod] at hvalue
  case formatCompAll =>
    exact h1.test_of_unset (by decide) (by cases semantic <;> rfl) fun e _ => by cases e <;> rfl
  case offset => exact h2.value (by decide) (·) rfl fun e _ => by cases e <;> rfl
  case endianSwap => exact h2.value_of_unset (by decide) fun e _ => by cases e <;> rfl
  case megaFetch => exact h2.test_of_unset (by decide) rfl fun e _ => by cases e <;> rfl

theorem semanticId_foldl :
    (es.foldl edit (start op buffer semantic)).semanticId = semantic.getD 0 % 2 ^ 8 := by
  have hinit : lastSet (startWrites semantic) 0 VtxWord1.semanticId.written = semantic.getD 0 := by
    cases semantic <;> rfl
  rw [← hinit]
  exact (built1 op buffer semantic es).value_of_unset (by decide) fun e _ => by cases e <;> rfl

/-- The destination register lies in the byte of the semantic. -/
theorem dstGpr_eq (i : VtxInstr) : i.dstGpr = i.semanticId % 2 ^ 7 :=
  value_low (f := VtxWord1.semanticId) (g := VtxWord1.dstGpr) (by decide) (by decide) rfl
    (by decide) i.word1

end VtxInstr

/-! ## All encoders -/

/-- After any list of edits of its own view, every accessor of the view of an encoded instruction
gives the last value that was set, cut to the width of its field, and its initial value if none was.
The operation, the encoding and the type stay what they were. -/
theorem foldl_edit_holds :
    (∀ op es, (∀ e ∈ es, CfEdit.Plain e) →
      CfInstr.PlainHolds op es (es.foldl CfInstr.edit (.ofOp op))) ∧
    (∀ op es, (∀ e ∈ es, CfEdit.Clause e) →
      CfInstr.ClauseHolds op es (es.foldl CfInstr.edit (.ofAluOp op))) ∧
    (∀ op kind arrayBase gpr es, (∀ e ∈ es, CfEdit.Export e) →
      CfInstr.ExportHolds op kind arrayBase gpr es
        (es.foldl CfInstr.edit (.ofExport op kind arrayBase gpr))) ∧
    (∀ op es, (∀ e ∈ es, AluEdit.SourceLt 2 e) →
      AluInstr.Op2Holds op es (es.foldl AluInstr.edit (.ofOp2 op))) ∧
    (∀ op es, (∀ e ∈ es, AluEdit.SourceLt 3 e) →
      AluInstr.Op3Holds op es (es.foldl AluInstr.edit (.ofOp3 op))) ∧
    (∀ op resource sampler es,
      TexInstr.Holds op resource sampler es
        (es.foldl TexInstr.edit (.ofOp op resource sampler))) ∧
    (∀ op buffer es,
      VtxInstr.Holds op buffer es (es.foldl VtxInstr.edit (.ofOp op buffer)) ∧
      (es.foldl VtxInstr.edit (.ofOp op buffer)).dstGpr = 0) ∧
    (∀ buffer id es,
      VtxInstr.Holds .semantic buffer es (es.foldl VtxInstr.edit (.ofSemantic buffer id)) ∧
      (es.foldl VtxInstr.edit (.ofSemantic buffer id)).semanticId = id % 2 ^ 8) := by
  refine ⟨fun op es => CfInstr.plainHolds op, fun op es => CfInstr.clauseHolds op,
    fun op kind arrayBase gpr es => CfInstr.exportHolds op kind arrayBase gpr,
    fun op es => AluInstr.op2Holds op, fun op es => AluInstr.op3Holds op, TexInstr.holds,
    fun op buffer es => ⟨VtxInstr.holds op buffer none es, ?_⟩,
    fun buffer id es => ⟨VtxInstr.holds .semantic buffer (some id) es,
      VtxInstr.semanticId_foldl .semantic buffer (some id) es⟩⟩
  have hsemantic : (es.foldl VtxInstr.edit (.ofOp op buffer)).semanticId = 0 :=
    VtxInstr.semanticId_foldl op buffer none es
  rw [VtxInstr.dstGpr_eq, hsemantic, Nat.zero_mod]

/-- A register that is set twice and a selector of ten bits, on a three-operand instruction that
takes no notice of the write bit. -/
theorem foldl_edit_holds_muladd :
    (∀ e ∈ [AluEdit.dst 3 .w, .src 2 600 .z, .write false, .dst 133 .y], e.SourceLt 3) ∧
    ((([AluEdit.dst 3 .w, .src 2 600 .z, .write false, .dst 133 .y].foldl AluInstr.edit
      (.ofOp3 .muladd)).src 2).sel = 88 ∧
    ([AluEdit.dst 3 .w, .src 2 600 .z, .write false, .dst 133 .y].foldl AluInstr.edit
      (.ofOp3 .muladd)).dstGpr = 5) := by
  have hes : ∀ e ∈ [AluEdit.dst 3 .w, .src 2 600 .z, .write false, .dst 133 .y],
      e.SourceLt 3 := by
    simp [AluEdit.SourceLt]
  have hholds := foldl_edit_holds.2.2.2.2.1 .muladd _ hes
  exact ⟨hes, (hholds.src 2 (by decide)).sel, hholds.dstGpr⟩

end LatteHlsl.Isa
