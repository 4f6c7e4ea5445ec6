import LatteHlsl.Microcode.Encode
import LatteHlsl.Proofs.FieldWrites

/-!
# Encoded ALU instructions

The two encodings of an ALU instruction share the first word and the destination. No edit reaches
the operation, which also tells the encoding, so an instruction keeps the encoding that it was made
with; an edit for fields that only the two-operand encoding has leaves the other one alone.

* `AluEdit.writes0`, `AluEdit.writes1`, `AluInstr.edit_eq`: an edit as field writes.
* `AluInstr.encoding_edit`: an edit keeps the encoding.
* `AluInstr.Holds`, `AluInstr.Op2Holds`, `AluInstr.Op3Holds`: what the accessors return after a list
  of edits.
* `AluInstr.op2Holds`, `AluInstr.op3Holds`: they do.
-/

namespace LatteHlsl.Isa

open BitField Layout

/-! ## Codes -/

theorem Chan.ofBits_index_mod (c : Chan) : Chan.ofBits (c.index % 2 ^ 2) = c := by
  cases c <;> rfl

theorem OutputModifier.ofBits_index_mod (m : OutputModifier) :
    OutputModifier.ofBits (m.index % 2 ^ 2) = m := by
  cases m <;> rfl

theorem AluOp2.ofId?_id_mod (op : AluOp2) : AluOp2.ofId? (op.id % 2 ^ 11) = some op := by
  cases op <;> decide +kernel

theorem AluOp3.ofId?_id_mod (op : AluOp3) : AluOp3.ofId? (op.id % 2 ^ 5) = some op := by
  cases op <;> rfl

/-! ## Edits as writes -/

/-- Writes that are made in the two-operand encoding only. -/
def AluEncoding.ifOp2 : AluEncoding → List (BitField × Nat) → List (BitField × Nat)
  | .op2, ws => ws
  | .op3, _ => []

/-- The number of sources. -/
def AluEncoding.srcCount : AluEncoding → Nat
  | .op2 => 2
  | .op3 => 3

namespace AluEdit

/-- What an edit writes into the first word. -/
def writes0 : AluEdit → List (BitField × Nat)
  | .src 0 sel chan => [(AluWord0.src0Sel, sel), (AluWord0.src0Chan, chan.index)]
  | .src 1 sel chan => [(AluWord0.src1Sel, sel), (AluWord0.src1Chan, chan.index)]
  | .srcRel 0 mode => [(AluWord0.indexMode, mode), (AluWord0.src0Rel, 1)]
  | .srcRel 1 mode => [(AluWord0.indexMode, mode), (AluWord0.src1Rel, 1)]
  | .srcRel _ mode => [(AluWord0.indexMode, mode)]
  | .neg 0 => [(AluWord0.src0Neg, 1)]
  | .neg 1 => [(AluWord0.src1Neg, 1)]
  | .last => [(AluWord0.last, 1)]
  | _ => []

/-- What an edit writes into the second word. -/
def writes1 (encoding : AluEncoding) : AluEdit → List (BitField × Nat)
  | .dst gpr chan => [(AluWord1Op2.dstGpr, gpr), (AluWord1Op2.dstChan, chan.index)]
  | .dstRel => [(AluWord1Op2.dstRel, 1)]
  | .clamp => [(AluWord1Op2.clamp, 1)]
  | .src 0 _ _ | .src 1 _ _ => []
  | .src _ sel chan => [(AluWord1Op3.src2Sel, sel), (AluWord1Op3.src2Chan, chan.index)]
  | .srcRel 0 _ | .srcRel 1 _ => []
  | .srcRel _ _ => [(AluWord1Op3.src2Rel, 1)]
  | .neg 0 | .neg 1 => []
  | .neg _ => [(AluWord1Op3.src2Neg, 1)]
  | .abs 0 => encoding.ifOp2 [(AluWord1Op2.src0Abs, 1)]
  | .abs _ => encoding.ifOp2 [(AluWord1Op2.src1Abs, 1)]
  | .write enabled => encoding.ifOp2 [(AluWord1Op2.writeMask, enabled.toNat)]
  | .omod m => encoding.ifOp2 [(AluWord1Op2.omod, m.index)]
  | .last => []

/-- Sources are numbered below `k`. -/
def SourceLt (k : Nat) : AluEdit → Prop
  | .src n _ _ | .srcRel n _ | .neg n | .abs n => n < k
  | _ => True

instance (k : Nat) : (e : AluEdit) → Decidable (e.SourceLt k)
  | .src n _ _ | .srcRel n _ | .neg n | .abs n => inferInstanceAs (Decidable (n < k))
  | .dst _ _ | .dstRel | .write _ | .clamp | .omod _ | .last => inferInstanceAs (Decidable True)

/-- Whether the edit is for a field that only two-operand instructions have. -/
def isOp2Only : AluEdit → Bool
  | .abs _ | .write _ | .omod _ => true
  | _ => false

/-- What an edit writes into the second word if the encoding has its source. -/
def ownWrites1 (encoding : AluEncoding) (e : AluEdit) : List (BitField × Nat) :=
  if e.SourceLt encoding.srcCount then e.writes1 encoding else []

/-- Cases on an edit and on the source it is for. -/
@[elab_as_elim]
theorem sourceCases {motive : AluEdit → Prop} (e : AluEdit)
    (dst : ∀ gpr chan, motive (.dst gpr chan)) (dstRel : motive .dstRel)
    (src0 : ∀ sel chan, motive (.src 0 sel chan)) (src1 : ∀ sel chan, motive (.src 1 sel chan))
    (src2 : ∀ sel chan, motive (.src 2 sel chan))
    (srcPast : ∀ n sel chan, motive (.src (n + 3) sel chan))
    (srcRel0 : ∀ mode, motive (.srcRel 0 mode)) (srcRel1 : ∀ mode, motive (.srcRel 1 mode))
    (srcRel2 : ∀ mode, motive (.srcRel 2 mode))
    (srcRelPast : ∀ n mode, motive (.srcRel (n + 3) mode))
    (neg0 : motive (.neg 0)) (neg1 : motive (.neg 1)) (neg2 : motive (.neg 2))
    (negPast : ∀ n, motive (.neg (n + 3)))
    (abs0 : motive (.abs 0)) (abs1 : motive (.abs 1)) (abs2 : motive (.abs 2))
    (absPast : ∀ n, motive (.abs (n + 3)))
    (write : ∀ enabled, motive (.write enabled)) (clamp : motive .clamp)
    (omod : ∀ m, motive (.omod m)) (last : motive .last) : motive e := by
  cases e with
  | dst gpr chan => exact dst gpr chan
  | dstRel => exact dstRel
  | src n sel chan =>
    rcases n with _ | _ | _ | n
    · exact src0 sel chan
    · exact src1 sel chan
    · exact src2 sel chan
    · exact srcPast n sel chan
  | srcRel n mode =>
    rcases n with _ | _ | _ | n
    · exact srcRel0 mode
    · exact srcRel1 mode
    · exact srcRel2 mode
    · exact srcRelPast n mode
  | neg n =>
    rcases n with _ | _ | _ | n
    · exact neg0
    · exact neg1
    · exact neg2
    · exact negPast n
  | abs n =>
    rcases n with _ | _ | _ | n
    · exact abs0
    · exact abs1
    · exact abs2
    · exact absPast n
  | write enabled => exact write enabled
  | clamp => exact clamp
  | omod m => exact omod m
  | last => exact last

end AluEdit

namespace AluInstr

theorem putOp2_eq (i : AluInstr) (f : BitField) (n : Nat) :
    i.putOp2 f n = ⟨i.word0, putAll i.word1 (i.encoding.ifOp2 [(f, n)])⟩ := by
  unfold putOp2
  split <;> rename_i hencoding <;> rw [hencoding] <;> rfl

theorem edit_eq (i : AluInstr) (e : AluEdit) :
    i.edit e = ⟨putAll i.word0 e.writes0, putAll i.word1 (e.writes1 i.encoding)⟩ := by
  cases e using AluEdit.sourceCases <;> first | rfl | exact putOp2_eq i _ _

/-- An edit keeps the encoding. -/
theorem encoding_edit (i : AluInstr) (e : AluEdit) : (i.edit e).encoding = i.encoding := by
  have hdisjoint : ∀ encoding, ∀ p ∈ e.writes1 encoding,
      p.1.WellFormed ∧ AluWord1Op2.encoding.overlaps p.1 = false := by
    intro encoding
    -- the fields of each case are fixed, whatever numbers are written into them
    cases encoding <;> cases e using AluEdit.sourceCases <;> exact of_decide_eq_true rfl
  rw [edit_eq, encoding, encoding, value_putAll_of_disjoint (by decide) (hdisjoint _)]

variable {es : List AluEdit}

theorem word0_foldl (i : AluInstr) (es : List AluEdit) :
    (es.foldl edit i).word0 = putAll i.word0 (es.flatMap AluEdit.writes0) :=
  putAll_foldl (fun _ => True) (fun _ _ h => h) (fun e _ i _ => by rw [edit_eq]) i trivial

/-- With the sources of its own encoding, an instruction is built from fields of that encoding. -/
theorem word1_foldl (i : AluInstr) (hes : ∀ e ∈ es, e.SourceLt i.encoding.srcCount) :
    (es.foldl edit i).word1 = putAll i.word1 (es.flatMap (AluEdit.ownWrites1 i.encoding)) := by
  refine putAll_foldl (fun j => j.encoding = i.encoding) (fun j e hj => ?_) (fun e he j hj => ?_) i
    rfl
  · rw [encoding_edit, hj]
  · rw [edit_eq, hj, AluEdit.ownWrites1, if_pos (hes e he)]

/-! ## Both encodings -/

/-- What a source holds after edits, apart from its absolute value. -/
structure SourceHolds (n : Nat) (es : List AluEdit) (s : AluSource) : Prop where
  sel : s.sel =
    (lastSet es 0 fun | .src m sel _ => if m = n then some sel else none | _ => none) % 2 ^ 9
  rel : s.rel = lastSet es false fun | .srcRel m _ => if m = n then some true else none | _ => none
  chan : s.chan =
    lastSet es .x fun | .src m _ chan => if m = n then some chan else none | _ => none
  neg : s.neg = lastSet es false fun | .neg m => if m = n then some true else none | _ => none

/-- What an instruction with `k` sources holds after edits, in either encoding. -/
structure Holds (k : Nat) (es : List AluEdit) (i : AluInstr) : Prop where
  srcCount : i.srcCount = k
  src : ∀ n < k, SourceHolds n es (i.src n)
  indexMode : i.indexMode = (lastSet es 0 fun | .srcRel _ mode => some mode | _ => none) % 2 ^ 3
  predSel : i.predSel = 0
  last : i.last = lastSet es false fun | .last => some true | _ => none
  dstGpr : i.dstGpr = (lastSet es 0 fun | .dst gpr _ => some gpr | _ => none) % 2 ^ 7
  dstRel : i.dstRel = lastSet es false fun | .dstRel => some true | _ => none
  dstChan : i.dstChan = lastSet es .x fun | .dst _ chan => some chan | _ => none
  clamp : i.clamp = lastSet es false fun | .clamp => some true | _ => none
  bankSwizzle : i.bankSwizzle = 0

theorem built_word0 {i : AluInstr} (hi : i.word0 = 0) (es : List AluEdit) :
    Built AluWord0.layout.fields [] AluEdit.writes0 es (es.foldl edit i).word0 where
  eq_putAll := by
    rw [word0_foldl, hi, List.nil_append]
  sound := by decide
  init_mem := by simp
  writes_mem e _ := by
    cases e using AluEdit.sourceCases <;> exact of_decide_eq_true rfl

/-- The first two sources are held in the first word. -/
theorem sourceHolds_lt_two {i : AluInstr}
    (h : Built AluWord0.layout.fields [] AluEdit.writes0 es i.word0) {n : Nat} (hn : n < 2) :
    SourceHolds n es (i.src n) := by
  have hcases : n = 0 ∨ n = 1 := by omega
  constructor
  case sel =>
    rcases hcases with rfl | rfl <;>
      exact h.value (by decide) (·) rfl fun e _ => by cases e using AluEdit.sourceCases <;> rfl
  case rel =>
    rcases hcases with rfl | rfl <;>
      exact h.test (by decide) rfl fun e _ => by cases e using AluEdit.sourceCases <;> rfl
  case chan =>
    rcases hcases with rfl | rfl <;>
      exact h.decode (by decide) Chan.ofBits Chan.ofBits_index_mod rfl fun e _ => by
        cases e using AluEdit.sourceCases <;> rfl
  case neg =>
    rcases hcases with rfl | rfl <;>
      exact h.test (by decide) rfl fun e _ => by cases e using AluEdit.sourceCases <;> rfl

/-- The fields of the second word that both encodings have. -/
def sharedFields : List BitField :=
  [AluWord1Op2.dstGpr, AluWord1Op2.dstRel, AluWord1Op2.dstChan, AluWord1Op2.clamp,
   AluWord1Op2.bankSwizzle]

theorem holds_of_built {k : Nat} {i : AluInstr} {fs : List BitField}
    {init : List (BitField × Nat)} {encoding : AluEncoding}
    (h0 : Built AluWord0.layout.fields [] AluEdit.writes0 es i.word0)
    (h1 : Built fs init (AluEdit.ownWrites1 encoding) es i.word1)
    (hshared : ∀ f ∈ sharedFields, f ∈ fs ∧ lastSet init 0 f.written = 0)
    (hcount : i.srcCount = k) (hsrc : ∀ n < k, SourceHolds n es (i.src n)) : Holds k es i := by
  have hgpr := hshared AluWord1Op2.dstGpr (by decide)
  have hrel := hshared AluWord1Op2.dstRel (by decide)
  have hchan := hshared AluWord1Op2.dstChan (by decide)
  have hclamp := hshared AluWord1Op2.clamp (by decide)
  have hswizzle := hshared AluWord1Op2.bankSwizzle (by decide)
  constructor
  case srcCount => exact hcount
  case src => exact hsrc
  case indexMode =>
    exact h0.value (by decide) (·) rfl fun e _ => by cases e using AluEdit.sourceCases <;> rfl
  case predSel =>
    exact h0.value_of_unset (by decide) fun e _ => by cases e using AluEdit.sourceCases <;> rfl
  case last =>
    exact h0.test (by decide) rfl fun e _ => by cases e using AluEdit.sourceCases <;> rfl
  case dstGpr =>
    exact h1.value hgpr.1 (·) hgpr.2 fun e _ => by
      cases encoding <;> cases e using AluEdit.sourceCases <;> rfl
  case dstRel =>
    exact h1.test hrel.1 hrel.2 fun e _ => by
      cases encoding <;> cases e using AluEdit.sourceCases <;> rfl
  case dstChan =>
    exact h1.decode hchan.1 Chan.ofBits Chan.ofBits_index_mod hchan.2 fun e _ => by
      cases encoding <;> cases e using AluEdit.sourceCases <;> rfl
  case clamp =>
    exact h1.test hclamp.1 hclamp.2 fun e _ => by
      cases encoding <;> cases e using AluEdit.sourceCases <;> rfl
  case bankSwizzle =>
    have hvalue := h1.value_of_unset hswizzle.1 fun e _ => by
      cases encoding <;> cases e using AluEdit.sourceCases <;> rfl
    rwa [hswizzle.2, Nat.zero_mod] at hvalue

theorem encoding_foldl (i : AluInstr) (es : List AluEdit) :
    (es.foldl edit i).encoding = i.encoding := by
  induction es generalizing i with
  | nil => rfl
  | cons e es ih => rw [List.foldl_cons, ih, encoding_edit]

/-! ## Two operands -/

/-- What a two-operand instruction holds after edits. -/
structure Op2Holds (op : AluOp2) (es : List AluEdit) (i : AluInstr) : Prop extends
    Holds 2 es i where
  encoding : i.encoding = .op2
  op : i.op = .ok (.op2 op)
  abs : ∀ n < 2, (i.src n).abs =
    lastSet es false fun | .abs m => if m = n then some true else none | _ => none
  writes : i.writes = lastSet es true fun | .write enabled => some enabled | _ => none
  omod : i.omod = lastSet es .off fun | .omod m => some m | _ => none
  updateExecMask : i.updateExecMask = false
  updatePred : i.updatePred = false

theorem encoding_ofOp2 (op : AluOp2) : (ofOp2 op).encoding = .op2 := by
  cases op <;> decide +kernel

theorem built_op2 (op : AluOp2) (hes : ∀ e ∈ es, e.SourceLt 2) :
    Built AluWord1Op2.layout.fields [(AluWord1Op2.aluInst, op.id), (AluWord1Op2.writeMask, 1)]
      (AluEdit.ownWrites1 .op2) es (es.foldl edit (ofOp2 op)).word1 where
  eq_putAll := by
    rw [word1_foldl (ofOp2 op) (by rwa [encoding_ofOp2]), encoding_ofOp2]
    rfl
  sound := by decide
  init_mem := by simp [AluWord1Op2.layout]
  writes_mem e _ := by
    cases e using AluEdit.sourceCases <;> exact of_decide_eq_true rfl

theorem op2Holds (op : AluOp2) (hes : ∀ e ∈ es, e.SourceLt 2) :
    Op2Holds op es (es.foldl edit (ofOp2 op)) := by
  have h0 := built_word0 (i := ofOp2 op) rfl es
  have h1 := built_op2 op hes
  have hencoding : (es.foldl edit (ofOp2 op)).encoding = .op2 := by
    rw [encoding_foldl, encoding_ofOp2]
  have hop : AluWord1Op2.aluInst.value (es.foldl edit (ofOp2 op)).word1 = op.id % 2 ^ 11 :=
    h1.value_of_unset (by decide) fun e _ => by
      cases e using AluEdit.sourceCases <;> rfl
  constructor
  case toHolds =>
    apply holds_of_built h0 h1
    · exact of_decide_eq_true rfl
    · rw [srcCount, hencoding]
    · exact fun n => sourceHolds_lt_two h0
  case encoding => exact hencoding
  case op => simp only [AluInstr.op, hencoding, hop, AluOp2.ofId?_id_mod]
  case abs =>
    intro n hn
    have hcases : n = 0 ∨ n = 1 := by omega
    rcases hcases with rfl | rfl <;>
      simp only [src, hencoding, decide_true, Bool.true_and] <;>
      exact h1.test (by decide) rfl fun e _ => by
        cases e using AluEdit.sourceCases <;> rfl
  case writes =>
    rw [AluInstr.writes, hencoding]
    exact h1.test (by decide) rfl fun e _ => by
      cases e using AluEdit.sourceCases <;> rfl
  case omod =>
    rw [AluInstr.omod, hencoding]
    exact h1.decode (by decide) OutputModifier.ofBits OutputModifier.ofBits_index_mod rfl
      fun e _ => by
        cases e using AluEdit.sourceCases <;> rfl
  case updateExecMask =>
    have hflag := h1.test_of_unset (f := AluWord1Op2.updateExecuteMask) (by decide) rfl
      fun e _ => by
        cases e using AluEdit.sourceCases <;> rfl
    rw [AluInstr.updateExecMask, hflag, Bool.and_false]
  case updatePred =>
    have hflag := h1.test_of_unset (f := AluWord1Op2.updatePred) (by decide) rfl fun e _ => by
      cases e using AluEdit.sourceCases <;> rfl
    rw [AluInstr.updatePred, hflag, Bool.and_false]

/-! ## Three operands -/

/-- What a three-operand instruction holds after edits. The fields that only two-operand
instructions have read as unset, and edits of them change nothing. -/
structure Op3Holds (op : AluOp3) (es : List AluEdit) (i : AluInstr) : Prop extends
    Holds 3 es i where
  eq_filter : i = (es.filter fun e => !e.isOp2Only).foldl edit (ofOp3 op)
  encoding : i.encoding = .op3
  op : i.op = .ok (.op3 op)
  abs : ∀ n, (i.src n).abs = false
  writes : i.writes = true
  omod : i.omod = .off
  updateExecMask : i.updateExecMask = false
  updatePred : i.updatePred = false

theorem encoding_ofOp3 (op : AluOp3) : (ofOp3 op).encoding = .op3 := by
  cases op <;> decide +kernel

theorem edit_of_isOp2Only {i : AluInstr} (hi : i.encoding = .op3) {e : AluEdit}
    (he : e.isOp2Only = true) : i.edit e = i := by
  rw [edit_eq, hi]
  cases e using AluEdit.sourceCases <;> first | rfl | cases he

theorem foldl_filter {i : AluInstr} (hi : i.encoding = .op3) (es : List AluEdit) :
    es.foldl edit i = (es.filter fun e => !e.isOp2Only).foldl edit i := by
  induction es generalizing i with
  | nil => rfl
  | cons e es ih =>
    have hedit : (i.edit e).encoding = .op3 := by rw [encoding_edit, hi]
    rw [List.foldl_cons, ih hedit]
    cases he : e.isOp2Only with
    | true => rw [List.filter_cons_of_neg (by simp [he]), edit_of_isOp2Only hi he]
    | false => rw [List.filter_cons_of_pos (by simp [he]), List.foldl_cons]

theorem built_op3 (op : AluOp3) (hes : ∀ e ∈ es, e.SourceLt 3) :
    Built AluWord1Op3.layout.fields [(AluWord1Op3.aluInst, op.id)] (AluEdit.ownWrites1 .op3) es
      (es.foldl edit (ofOp3 op)).word1 where
  eq_putAll := by
    rw [word1_foldl (ofOp3 op) (by rwa [encoding_ofOp3]), encoding_ofOp3]
    rfl
  sound := by decide
  init_mem := by simp [AluWord1Op3.layout]
  writes_mem e _ := by
    cases e using AluEdit.sourceCases <;> exact of_decide_eq_true rfl

/-- The third source is held in the second word. -/
theorem sourceHolds_two {op : AluOp3} (hes : ∀ e ∈ es, e.SourceLt 3) :
    SourceHolds 2 es ((es.foldl edit (ofOp3 op)).src 2) := by
  have h1 := built_op3 op hes
  constructor
  case sel =>
    exact h1.value (by decide) (·) rfl fun e _ => by
      cases e using AluEdit.sourceCases <;> rfl
  case rel =>
    exact h1.test (by decide) rfl fun e _ => by
      cases e using AluEdit.sourceCases <;> rfl
  case chan =>
    exact h1.decode (by decide) Chan.ofBits Chan.ofBits_index_mod rfl fun e _ => by
      cases e using AluEdit.sourceCases <;> rfl
  case neg =>
    exact h1.test (by decide) rfl fun e _ => by
      cases e using AluEdit.sourceCases <;> rfl

theorem op3Holds (op : AluOp3) (hes : ∀ e ∈ es, e.SourceLt 3) :
    Op3Holds op es (es.foldl edit (ofOp3 op)) := by
  have h0 := built_word0 (i := ofOp3 op) rfl es
  have h1 := built_op3 op hes
  have hencoding : (es.foldl edit (ofOp3 op)).encoding = .op3 := by
    rw [encoding_foldl, encoding_ofOp3]
  have hop : AluWord1Op3.aluInst.value (es.foldl edit (ofOp3 op)).word1 = op.id % 2 ^ 5 :=
    h1.value_of_unset (by decide) fun e _ => by cases e using AluEdit.sourceCases <;> rfl
  constructor
  case toHolds =>
    apply holds_of_built h0 h1
    · exact of_decide_eq_true rfl
    · rw [srcCount, hencoding]
    · intro n hn
      have hcases : n < 2 ∨ n = 2 := by omega
      rcases hcases with hlt | rfl
      · exact sourceHolds_lt_two h0 hlt
      · exact sourceHolds_two hes
  case encoding => exact hencoding
  case op => simp only [AluInstr.op, hencoding, hop, AluOp3.ofId?_id_mod]
  case abs =>
    intro n
    rcases n with _ | _ | n <;> simp [src, hencoding]
  case writes => rw [AluInstr.writes, hencoding]
  case omod => rw [AluInstr.omod, hencoding]
  case updateExecMask => simp [AluInstr.updateExecMask, hencoding]
  case updatePred => simp [AluInstr.updatePred, hencoding]
  case eq_filter => exact foldl_filter (encoding_ofOp3 op) es

end AluInstr

end LatteHlsl.Isa
