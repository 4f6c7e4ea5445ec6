import Mathlib.Algebra.Group.Nat.Defs
import LatteHlsl.Microcode.Program

/-!
# Instructions as bytes

An instruction is read back from any byte string that holds its bytes at the position read. All
four kinds of instruction are runs of words, so one statement, `Encodes`, covers them, and a clause
is read back as the list that was written.

* `StandsAt`: a part of a byte string and where it starts.
* `Word.readAt_of_standsAt`, `Word.readAt_listToBytes`: words.
* `CfInstr.encodes`, `AluInstr.encodes`, `TexInstr.encodes`, `VtxInstr.encodes`: instructions.
* `Encodes.map_readAt`: lists of instructions.
* `Program.cfAt_of_standsAt`, `Program.clause_of_standsAt`: what a program holds at a position is
  what is read from there.
-/

namespace LatteHlsl

/-! ## Parts of a byte string -/

/-- `part` is the run of bytes that starts at `pos`. -/
def StandsAt (bytes : Array UInt8) (pos : Nat) (part : List UInt8) : Prop :=
  ∃ before after, bytes.toList = before ++ (part ++ after) ∧ before.length = pos

namespace StandsAt

variable {bytes : Array UInt8} {pos : Nat} {part part' : List UInt8}

theorem zero (part : List UInt8) : StandsAt part.toArray 0 part := ⟨[], [], by simp, rfl⟩

theorem left (h : StandsAt bytes pos (part ++ part')) : StandsAt bytes pos part := by
  obtain ⟨before, after, hbytes, hpos⟩ := h
  exact ⟨before, part' ++ after, by rw [hbytes, List.append_assoc], hpos⟩

theorem right (h : StandsAt bytes pos (part ++ part')) :
    StandsAt bytes (pos + part.length) part' := by
  obtain ⟨before, after, hbytes, hpos⟩ := h
  refine ⟨before ++ part, after, ?_, by rw [List.length_append, hpos]⟩
  rw [hbytes, List.append_assoc, List.append_assoc]

theorem le_size (h : StandsAt bytes pos part) : pos + part.length ≤ bytes.size := by
  obtain ⟨before, after, hbytes, hpos⟩ := h
  have hsize : bytes.size = before.length + (part.length + after.length) := by
    rw [← Array.length_toList, hbytes, List.length_append, List.length_append]
  omega

theorem getD_eq (h : StandsAt bytes pos part) {k : Nat} {b : UInt8} (hk : part[k]? = some b) :
    bytes.getD (pos + k) 0 = b := by
  obtain ⟨before, after, hbytes, rfl⟩ := h
  have hlt : k < part.length := (List.getElem?_eq_some_iff.mp hk).1
  rw [Array.getD_eq_getD_getElem?, ← Array.getElem?_toList, hbytes,
    List.getElem?_append_right (Nat.le_add_right _ _), Nat.add_sub_cancel_left,
    List.getElem?_append_left hlt, hk, Option.getD_some]

theorem extract_eq (h : StandsAt bytes pos part) :
    bytes.extract pos (pos + part.length) = part.toArray := by
  obtain ⟨before, after, hbytes, rfl⟩ := h
  apply Array.toList_inj.mp
  rw [Array.toList_extract, hbytes, List.extract_eq_take_drop, List.drop_left,
    Nat.add_sub_cancel_left, List.take_left]

end StandsAt

/-! ## Words -/

namespace Word

theorem ofBytes_byte (w : Word) : ofBytes (byte w 0) (byte w 1) (byte w 2) (byte w 3) = w := by
  show w.extractLsb' 24 8 ++ w.extractLsb' 16 8 ++ w.extractLsb' 8 8 ++ w.extractLsb' 0 8 = w
  rw [BitVec.extractLsb'_append_extractLsb'_eq_extractLsb' (by decide),
    BitVec.extractLsb'_append_extractLsb'_eq_extractLsb' (by decide),
    BitVec.extractLsb'_append_extractLsb'_eq_extractLsb' (by decide)]
  exact BitVec.extractLsb'_eq_self

theorem readAt_of_standsAt {bytes : Array UInt8} {pos : Nat} {w : Word}
    (h : StandsAt bytes pos (toBytes w)) : readAt bytes pos = w := by
  have h0 : bytes.getD pos 0 = byte w 0 := h.getD_eq (k := 0) rfl
  have h1 : bytes.getD (pos + 1) 0 = byte w 1 := h.getD_eq rfl
  have h2 : bytes.getD (pos + 2) 0 = byte w 2 := h.getD_eq rfl
  have h3 : bytes.getD (pos + 3) 0 = byte w 3 := h.getD_eq rfl
  rw [readAt, h0, h1, h2, h3, ofBytes_byte]

/-- The words of a run of words are found four bytes apart. -/
theorem readAt_listToBytes {bytes : Array UInt8} {pos : Nat} {ws : List Word}
    (h : StandsAt bytes pos (listToBytes ws)) {k : Nat} {w : Word} (hk : ws[k]? = some w) :
    readAt bytes (pos + 4 * k) = w := by
  induction ws generalizing pos k with
  | nil => cases hk
  | cons v ws ih =>
    have hcons : listToBytes (v :: ws) = toBytes v ++ listToBytes ws := List.flatMap_cons
    rw [hcons] at h
    cases k with
    | zero =>
      cases hk
      exact readAt_of_standsAt h.left
    | succ k =>
      rw [show pos + 4 * (k + 1) = pos + 4 + 4 * k by omega]
      exact ih h.right hk

end Word

/-! ## Instructions -/

/-- Instructions of `unit` bytes that are read from wherever their bytes stand. -/
structure Encodes {ι : Type} (toBytes : ι → List UInt8) (readAt : Array UInt8 → Nat → ι)
    (unit : Nat) : Prop where
  length_eq : ∀ i, (toBytes i).length = unit
  readAt_eq : ∀ {bytes pos i}, StandsAt bytes pos (toBytes i) → readAt bytes pos = i

namespace Encodes

variable {ι : Type} {toBytes : ι → List UInt8} {readAt : Array UInt8 → Nat → ι} {unit : Nat}

theorem length_flatMap (h : Encodes toBytes readAt unit) (is : List ι) :
    (is.flatMap toBytes).length = is.length * unit := by
  induction is with
  | nil => rw [List.flatMap_nil, List.length_nil, List.length_nil, Nat.zero_mul]
  | cons i is ih =>
    rw [List.flatMap_cons, List.length_append, h.length_eq, ih, List.length_cons, Nat.succ_mul,
      Nat.add_comm]

/-- Each instruction of a run of instructions stands where the ones before it end. -/
theorem standsAt_of_getElem? (h : Encodes toBytes readAt unit) {bytes : Array UInt8} {pos : Nat}
    {is : List ι} (hat : StandsAt bytes pos (is.flatMap toBytes)) {k : Nat} {i : ι}
    (hk : is[k]? = some i) : StandsAt bytes (pos + k * unit) (toBytes i) := by
  induction is generalizing pos k with
  | nil => cases hk
  | cons j is ih =>
    rw [List.flatMap_cons] at hat
    cases k with
    | zero =>
      cases hk
      rw [Nat.zero_mul]
      exact hat.left
    | succ k =>
      have hrest := hat.right
      rw [h.length_eq] at hrest
      rw [Nat.succ_mul, Nat.add_comm (k * unit), ← Nat.add_assoc]
      exact ih hrest hk

/-- A run of instructions is read back as the list it was written from. -/
theorem map_readAt (h : Encodes toBytes readAt unit) (is : List ι) :
    (List.range is.length).map (fun k => readAt (is.flatMap toBytes).toArray (k * unit)) = is := by
  apply List.ext_getElem?
  intro k
  rw [List.getElem?_map]
  by_cases hk : k < is.length
  · have hat := h.standsAt_of_getElem? (StandsAt.zero _) (List.getElem?_eq_getElem hk)
    rw [List.getElem?_range hk, Option.map_some, List.getElem?_eq_getElem hk]
    rw [Nat.zero_add] at hat
    rw [h.readAt_eq hat]
  · rw [List.getElem?_eq_none (by simpa using hk), List.getElem?_eq_none (by simpa using hk)]
    rfl

end Encodes

namespace Isa

theorem CfInstr.encodes : Encodes CfInstr.toBytes CfInstr.readAt CfInstr.byteSize where
  length_eq _ := rfl
  readAt_eq {bytes pos i} h := by
    have h0 : Word.readAt bytes pos = i.word0 := Word.readAt_listToBytes h (k := 0) rfl
    have h1 : Word.readAt bytes (pos + 4) = i.word1 := Word.readAt_listToBytes h (k := 1) rfl
    rw [CfInstr.readAt, h0, h1]

theorem AluInstr.encodes : Encodes AluInstr.toBytes AluInstr.readAt AluInstr.byteSize where
  length_eq _ := rfl
  readAt_eq {bytes pos i} h := by
    have h0 : Word.readAt bytes pos = i.word0 := Word.readAt_listToBytes h (k := 0) rfl
    have h1 : Word.readAt bytes (pos + 4) = i.word1 := Word.readAt_listToBytes h (k := 1) rfl
    rw [AluInstr.readAt, h0, h1]

theorem TexInstr.encodes : Encodes TexInstr.toBytes TexInstr.readAt TexInstr.byteSize where
  length_eq _ := rfl
  readAt_eq {bytes pos i} h := by
    have h0 : Word.readAt bytes pos = i.word0 := Word.readAt_listToBytes h (k := 0) rfl
    have h1 : Word.readAt bytes (pos + 4) = i.word1 := Word.readAt_listToBytes h (k := 1) rfl
    have h2 : Word.readAt bytes (pos + 8) = i.word2 := Word.readAt_listToBytes h (k := 2) rfl
    have h3 : Word.readAt bytes (pos + 12) = i.padding := Word.readAt_listToBytes h (k := 3) rfl
    rw [TexInstr.readAt, h0, h1, h2, h3]

theorem VtxInstr.encodes : Encodes VtxInstr.toBytes VtxInstr.readAt VtxInstr.byteSize where
  length_eq _ := rfl
  readAt_eq {bytes pos i} h := by
    have h0 : Word.readAt bytes pos = i.word0 := Word.readAt_listToBytes h (k := 0) rfl
    have h1 : Word.readAt bytes (pos + 4) = i.word1 := Word.readAt_listToBytes h (k := 1) rfl
    have h2 : Word.readAt bytes (pos + 8) = i.word2 := Word.readAt_listToBytes h (k := 2) rfl
    have h3 : Word.readAt bytes (pos + 12) = i.padding := Word.readAt_listToBytes h (k := 3) rfl
    rw [VtxInstr.readAt, h0, h1, h2, h3]

end Isa

/-! ## Reading from a program -/

open Isa

namespace Program

variable {p : Program}

theorem slice_of_standsAt (hsize : p.size < positionLimit) {offset : Nat} {part : List UInt8}
    (h : StandsAt p.bytes offset part) : p.slice offset part.length = .ok part.toArray := by
  have hend : offset + part.length ≤ p.size := h.le_size
  rw [slice_of_le (Nat.lt_of_le_of_lt hend hsize) hend, h.extract_eq]

theorem scale_of_le (hsize : p.size < positionLimit) {n unit : Nat} (h : n * unit ≤ p.size) :
    p.scale n unit = .ok (n * unit) := by
  rw [scale, if_pos (Nat.lt_of_le_of_lt h hsize)]

theorem cfAt_of_standsAt (hsize : p.size < positionLimit) {i : Nat} {cf : CfInstr}
    (h : StandsAt p.bytes (i * CfInstr.byteSize) cf.toBytes) : p.cfAt i = .ok cf := by
  have hend := h.le_size
  have hslice : p.slice (i * CfInstr.byteSize) CfInstr.byteSize = .ok cf.toBytes.toArray :=
    slice_of_standsAt hsize h
  rw [cfAt, scale_of_le hsize (Nat.le_trans (Nat.le_add_right _ _) hend)]
  show (p.slice (i * CfInstr.byteSize) CfInstr.byteSize >>= _) = _
  rw [hslice]
  exact congrArg Except.ok (CfInstr.encodes.readAt_eq (StandsAt.zero _))

theorem clauseBytes_of_standsAt (hsize : p.size < positionLimit) {addr count unit : Nat}
    {part : List UInt8} (h : StandsAt p.bytes (addr * clauseUnit) part)
    (hlen : part.length = count * unit) : p.clauseBytes addr count unit = .ok part.toArray := by
  have hend : addr * clauseUnit + part.length ≤ p.size := h.le_size
  rw [clauseBytes, scale_of_le hsize (by omega), scale_of_le hsize (by omega), ← hlen]
  exact slice_of_standsAt hsize h

/-- The three kinds of clause are read alike. -/
theorem clause_of_standsAt {ι : Type} {toBytes : ι → List UInt8} {readAt : Array UInt8 → Nat → ι}
    {unit : Nat} (henc : Encodes toBytes readAt unit) (hsize : p.size < positionLimit)
    {addr : Nat} {is : List ι} (h : StandsAt p.bytes (addr * clauseUnit) (is.flatMap toBytes)) :
    (do
      let bytes ← p.clauseBytes addr is.length unit
      return (List.range is.length).map fun k => readAt bytes (k * unit)) = .ok is := by
  rw [clauseBytes_of_standsAt hsize h (henc.length_flatMap is)]
  exact congrArg Except.ok (henc.map_readAt is)

end Program

end LatteHlsl
