import Mathlib.Algebra.Group.Nat.Defs
import LatteHlsl.Microcode.Program

/-!
# Reads are exact

A read of a program succeeds exactly if the bytes it asks for are there, and gives what these bytes
hold. Positions are products and sums that may leave the 64-bit numbers; a read at such a position
fails like any other read past the end, and never finds bytes at a smaller position instead.

* `Word.IsAt`, `WordsAt`: the words at a byte position, said by the bytes there.
* `ReadsClause`: a clause is read as it should be, or refused with its range.
* `Program.readsClause`: one statement for the three kinds of clause.
* `Program.readsExactly`: all reads of a program.
-/

namespace LatteHlsl

open Isa

/-! ## Words at a position -/

/-- `w` is the word whose bytes start at `pos`, least significant first. -/
def Word.IsAt (bytes : Array UInt8) (pos : Nat) (w : Word) : Prop :=
  ∃ b0 b1 b2 b3 : UInt8, bytes[pos]? = some b0 ∧ bytes[pos + 1]? = some b1 ∧
    bytes[pos + 2]? = some b2 ∧ bytes[pos + 3]? = some b3 ∧
    w.toNat = b0.toNat + 2 ^ 8 * b1.toNat + 2 ^ 16 * b2.toNat + 2 ^ 24 * b3.toNat

/-- The words of `ws` stand one after the other from `pos` on. -/
def WordsAt (bytes : Array UInt8) (pos : Nat) (ws : List Word) : Prop :=
  ∀ k w, ws[k]? = some w → Word.IsAt bytes (pos + 4 * k) w

theorem toNat_append_eq_add {m n : Nat} (x : BitVec m) (y : BitVec n) :
    (x ++ y).toNat = 2 ^ n * x.toNat + y.toNat := by
  rw [BitVec.toNat_append, ← Nat.shiftLeft_add_eq_or_of_lt y.isLt, Nat.shiftLeft_eq, Nat.mul_comm]

theorem Word.toNat_ofBytes (b0 b1 b2 b3 : UInt8) :
    (ofBytes b0 b1 b2 b3).toNat =
      b0.toNat + 2 ^ 8 * b1.toNat + 2 ^ 16 * b2.toNat + 2 ^ 24 * b3.toNat := by
  rw [ofBytes, toNat_append_eq_add, toNat_append_eq_add, toNat_append_eq_add]
  simp only [UInt8.toNat_toBitVec]
  omega

/-- Inside the bytes, what is read at a position is the word there. -/
theorem Word.isAt_readAt {bytes : Array UInt8} {pos : Nat} (h : pos + 4 ≤ bytes.size) :
    IsAt bytes pos (readAt bytes pos) := by
  have hbyte : ∀ k < 4, bytes[pos + k]? = some (bytes.getD (pos + k) 0) := by
    intro k hk
    have hlt : pos + k < bytes.size := by omega
    rw [Array.getD_eq_getD_getElem?, Array.getElem?_eq_getElem hlt, Option.getD_some]
  exact ⟨_, _, _, _, hbyte 0 (by decide), hbyte 1 (by decide), hbyte 2 (by decide),
    hbyte 3 (by decide), toNat_ofBytes _ _ _ _⟩

theorem WordsAt.cons {bytes : Array UInt8} {pos : Nat} {w : Word} {ws : List Word}
    (hw : Word.IsAt bytes pos w) (hws : WordsAt bytes (pos + 4) ws) :
    WordsAt bytes pos (w :: ws) := by
  intro k v hv
  cases k with
  | zero =>
    obtain rfl := Option.some.inj hv
    exact hw
  | succ k =>
    have hat := hws k v hv
    rwa [show pos + 4 * (k + 1) = pos + 4 + 4 * k by omega]

theorem WordsAt.nil (bytes : Array UInt8) (pos : Nat) : WordsAt bytes pos [] := by
  intro k w hw
  cases hw

/-- The words of a part of a byte string are words of the whole. -/
theorem WordsAt.of_extract {bytes : Array UInt8} {start stop pos : Nat} {ws : List Word}
    (h : WordsAt (bytes.extract start stop) pos ws) : WordsAt bytes (start + pos) ws := by
  have hbyte : ∀ {k : Nat} {b : UInt8}, (bytes.extract start stop)[k]? = some b →
      bytes[start + k]? = some b := by
    intro k b hb
    rw [Array.getElem?_extract] at hb
    split at hb
    · exact hb
    · cases hb
  intro k w hw
  obtain ⟨b0, b1, b2, b3, h0, h1, h2, h3, hvalue⟩ := h k w hw
  rw [Nat.add_assoc]
  exact ⟨b0, b1, b2, b3, hbyte h0, hbyte h1, hbyte h2, hbyte h3, hvalue⟩

theorem Isa.CfInstr.wordsAt_readAt {bytes : Array UInt8} {pos : Nat} (h : pos + 8 ≤ bytes.size) :
    WordsAt bytes pos [(CfInstr.readAt bytes pos).word0, (CfInstr.readAt bytes pos).word1] :=
  .cons (Word.isAt_readAt (by omega)) (.cons (Word.isAt_readAt (by omega)) (.nil _ _))

theorem Isa.AluInstr.wordsAt_readAt {bytes : Array UInt8} {pos : Nat} (h : pos + 8 ≤ bytes.size) :
    WordsAt bytes pos [(AluInstr.readAt bytes pos).word0, (AluInstr.readAt bytes pos).word1] :=
  .cons (Word.isAt_readAt (by omega)) (.cons (Word.isAt_readAt (by omega)) (.nil _ _))

theorem Isa.TexInstr.wordsAt_readAt {bytes : Array UInt8} {pos : Nat}
    (h : pos + 16 ≤ bytes.size) :
    WordsAt bytes pos [(TexInstr.readAt bytes pos).word0, (TexInstr.readAt bytes pos).word1,
      (TexInstr.readAt bytes pos).word2, (TexInstr.readAt bytes pos).padding] :=
  .cons (Word.isAt_readAt (by omega)) (.cons (Word.isAt_readAt (by omega))
    (.cons (Word.isAt_readAt (by omega)) (.cons (Word.isAt_readAt (by omega)) (.nil _ _))))

theorem Isa.VtxInstr.wordsAt_readAt {bytes : Array UInt8} {pos : Nat}
    (h : pos + 16 ≤ bytes.size) :
    WordsAt bytes pos [(VtxInstr.readAt bytes pos).word0, (VtxInstr.readAt bytes pos).word1,
      (VtxInstr.readAt bytes pos).word2, (VtxInstr.readAt bytes pos).padding] :=
  .cons (Word.isAt_readAt (by omega)) (.cons (Word.isAt_readAt (by omega))
    (.cons (Word.isAt_readAt (by omega)) (.cons (Word.isAt_readAt (by omega)) (.nil _ _))))

/-! ## Clauses -/

/-- `r` is what reading `count` instructions of `unit` bytes at byte `offset` should come to;
`words` are the words of an instruction. -/
structure ReadsClause {ι : Type} (p : Program) (words : ι → List Word) (unit offset count : Nat)
    (r : Except DecodeFault (List ι)) : Prop where
  ok_iff : (∃ is, r = .ok is) ↔ offset + unit * count ≤ p.size
  length_eq : ∀ is, r = .ok is → is.length = count
  instr : ∀ is, r = .ok is → ∀ k i, is[k]? = some i →
    WordsAt p.bytes (offset + unit * k) (words i)
  fault : ∀ fault, r = .error fault → fault = .outOfBounds offset (unit * count) p.size

namespace Program

variable {p : Program}

/-- Products of 32-bit numbers and the sizes of instructions are 64-bit numbers. -/
theorem scale_word (p : Program) (n : Word) {unit : Nat} (hunit : unit ≤ 16) :
    p.scale n.toNat unit = .ok (unit * n.toNat) := by
  have hlimit : n.toNat * unit < positionLimit := by
    have hle : n.toNat * unit ≤ n.toNat * 16 := Nat.mul_le_mul_left _ hunit
    have hlt := n.isLt
    show n.toNat * unit < 2 ^ 64
    omega
  rw [scale, if_pos hlimit, Nat.mul_comm]

theorem clauseBytes_word (p : Program) (addr count : Word) {unit : Nat} (hunit : unit ≤ 16) :
    p.clauseBytes addr.toNat count.toNat unit =
      p.slice (8 * addr.toNat) (unit * count.toNat) := by
  rw [clauseBytes, scale_word p addr (by decide), scale_word p count hunit]
  rfl

/-- The three kinds of clause are read alike. -/
theorem readsClause {ι : Type} {words : ι → List Word} {readAt : Array UInt8 → Nat → ι}
    {unit : Nat} (hunit : unit ≤ 16)
    (hread : ∀ {bytes : Array UInt8} {pos : Nat}, pos + unit ≤ bytes.size →
      WordsAt bytes pos (words (readAt bytes pos)))
    (p : Program) (addr count : Word) :
    ReadsClause p words unit (8 * addr.toNat) count.toNat (do
      let bytes ← p.clauseBytes addr.toNat count.toNat unit
      return (List.range count.toNat).map fun k => readAt bytes (k * unit)) := by
  rw [clauseBytes_word p addr count hunit]
  have hfits : 8 * addr.toNat + unit * count.toNat < positionLimit := by
    have hlen : unit * count.toNat ≤ 16 * count.toNat := Nat.mul_le_mul_right _ hunit
    have haddr := addr.isLt
    have hcount := count.isLt
    show _ < 2 ^ 64
    omega
  by_cases hle : 8 * addr.toNat + unit * count.toNat ≤ p.size
  · rw [slice_of_le hfits hle]
    refine ⟨⟨fun _ => hle, fun _ => ⟨_, rfl⟩⟩, ?_, ?_, ?_⟩
    · intro is his
      cases his
      rw [List.length_map, List.length_range]
    · intro is his k i hi
      cases his
      rw [List.getElem?_map, Option.map_eq_some_iff] at hi
      obtain ⟨j, hj, rfl⟩ := hi
      obtain ⟨hlt, rfl⟩ := List.getElem?_eq_some_iff.mp hj
      rw [List.getElem_range, Nat.mul_comm unit]
      rw [List.length_range] at hlt
      refine .of_extract (hread ?_)
      -- the last instruction ends where the bytes of the clause end
      have hend : k * unit + unit ≤ unit * count.toNat := by
        rw [← Nat.succ_mul, Nat.mul_comm unit]
        exact Nat.mul_le_mul_right _ hlt
      have hsize : 8 * addr.toNat + unit * count.toNat ≤ p.bytes.size := hle
      rw [Array.size_extract]
      omega
    · intro fault hfault
      cases hfault
  · rw [slice_of_lt (by omega)]
    refine ⟨⟨?_, fun h => absurd h hle⟩, ?_, ?_, ?_⟩
    · rintro ⟨is, his⟩
      cases his
    · intro is his
      cases his
    · intro is his
      cases his
    · intro fault hfault
      cases hfault
      rfl

/-! ## Control flow slots -/

/-- A control flow slot that lies inside the program is read. -/
theorem cfAt_of_le (hsize : p.size < 2 ^ 64) {i : Nat} (h : 8 * i + 8 ≤ p.size) :
    p.cfAt i = .ok (CfInstr.readAt (p.bytes.extract (8 * i) (8 * i + 8)) 0) := by
  have hscale : p.scale i CfInstr.byteSize = .ok (8 * i) := by
    have hlimit : i * CfInstr.byteSize < positionLimit := by
      show i * 8 < 2 ^ 64
      omega
    rw [scale, if_pos hlimit, Nat.mul_comm]
    rfl
  rw [cfAt, hscale]
  show (p.slice (8 * i) 8 >>= _) = _
  rw [slice_of_le (Nat.lt_of_le_of_lt h hsize) h]
  rfl

/-- A control flow slot that does not is refused. A position that is no 64-bit number is reported as
the greatest one. -/
theorem cfAt_of_lt {i : Nat} (h : p.size < 8 * i + 8) :
    p.cfAt i = .error (.outOfBounds (min (8 * i) (2 ^ 64 - 1)) 8 p.size) := by
  unfold cfAt scale
  split
  · rename_i hlimit
    have hlt : i * 8 < 2 ^ 64 := hlimit
    have hmin : min (8 * i) (2 ^ 64 - 1) = i * 8 := by omega
    show (p.slice (i * 8) 8 >>= _) = _
    rw [slice_of_lt (by omega), hmin]
    rfl
  · rename_i hlimit
    have hge : ¬ i * 8 < 2 ^ 64 := hlimit
    have hmin : min (8 * i) (2 ^ 64 - 1) = 2 ^ 64 - 1 := by omega
    rw [hmin]
    rfl

theorem cfAt_ok_iff (hsize : p.size < 2 ^ 64) {i : Nat} :
    (∃ cf, p.cfAt i = .ok cf) ↔ 8 * i + 8 ≤ p.size := by
  constructor
  · rintro ⟨cf, hcf⟩
    by_cases hle : 8 * i + 8 ≤ p.size
    · exact hle
    · rw [cfAt_of_lt (by omega)] at hcf
      cases hcf
  · intro hle
    exact ⟨_, cfAt_of_le hsize hle⟩

theorem cfAt_error_iff (hsize : p.size < 2 ^ 64) {i : Nat} :
    (∃ fault, p.cfAt i = .error fault) ↔ p.size < 8 * i + 8 := by
  constructor
  · rintro ⟨fault, hfault⟩
    by_cases hle : 8 * i + 8 ≤ p.size
    · rw [cfAt_of_le hsize hle] at hfault
      cases hfault
    · omega
  · intro hlt
    exact ⟨_, cfAt_of_lt hlt⟩

theorem hasCf_iff (hsize : p.size < 2 ^ 64) {i : Nat} : p.hasCf i = true ↔ 8 * i < p.size := by
  have hlimit : i * 8 < p.size → i * 8 < 2 ^ 64 := fun h => Nat.lt_trans h hsize
  rw [hasCf, Bool.and_eq_true, decide_eq_true_eq, decide_eq_true_eq]
  show i * 8 < 2 ^ 64 ∧ i * 8 < p.size ↔ 8 * i < p.size
  rw [Nat.mul_comm i]
  rw [Nat.mul_comm i] at hlimit
  exact ⟨And.right, fun h => ⟨hlimit h, h⟩⟩

/-! ## All reads -/

/-- Every read of a program succeeds exactly if its bytes are there, with what they hold. -/
structure ReadsExactly (p : Program) : Prop where
  alu : ∀ addr count : Word,
    ReadsClause p (fun i : AluInstr => [i.word0, i.word1]) 8 (8 * addr.toNat) count.toNat
      (p.aluClause addr.toNat count.toNat)
  tex : ∀ addr count : Word,
    ReadsClause p (fun i : TexInstr => [i.word0, i.word1, i.word2, i.padding]) 16
      (8 * addr.toNat) count.toNat (p.texClause addr.toNat count.toNat)
  vtx : ∀ addr count : Word,
    ReadsClause p (fun i : VtxInstr => [i.word0, i.word1, i.word2, i.padding]) 16
      (8 * addr.toNat) count.toNat (p.vtxClause addr.toNat count.toNat)
  slice_ok : ∀ offset len, offset + len ≤ p.size →
    ∃ part, p.slice offset len = .ok part ∧ part.size = len ∧
      ∀ k < len, part[k]? = p.bytes[offset + k]?
  slice_fault : ∀ offset len, p.size < offset + len →
    p.slice offset len = .error (.outOfBounds offset len p.size)
  cf_ok_iff : ∀ i, (∃ cf, p.cfAt i = .ok cf) ↔ 8 * i + 8 ≤ p.size
  cf_words : ∀ i cf, p.cfAt i = .ok cf → WordsAt p.bytes (8 * i) [cf.word0, cf.word1]
  cf_fault : ∀ i fault, p.cfAt i = .error fault →
    fault = .outOfBounds (min (8 * i) (2 ^ 64 - 1)) 8 p.size
  /-- A slot that starts and cannot be read is the one that the program ends in. -/
  torn_iff : ∀ i, (p.hasCf i = true ∧ ∃ fault, p.cfAt i = .error fault) ↔
    8 * i < p.size ∧ p.size < 8 * i + 8

/-- The reads of a program whose size is a 64-bit number, at 32-bit clause addresses and counts and
at positions of any size. -/
theorem readsExactly (p : Program) (hsize : p.size < 2 ^ 64) : p.ReadsExactly where
  alu := readsClause (by decide) AluInstr.wordsAt_readAt p
  tex := readsClause (by decide) TexInstr.wordsAt_readAt p
  vtx := readsClause (by decide) VtxInstr.wordsAt_readAt p
  slice_ok offset len hle := by
    have hbytes : offset + len ≤ p.bytes.size := hle
    refine ⟨_, slice_of_le (Nat.lt_of_le_of_lt hle hsize) hle, ?_, ?_⟩
    · rw [Array.size_extract]
      omega
    · intro k hk
      rw [Array.getElem?_extract, if_pos (by omega)]
  slice_fault offset len := slice_of_lt
  cf_ok_iff i := cfAt_ok_iff hsize
  cf_words i cf hcf := by
    have hle := (cfAt_ok_iff hsize).mp ⟨cf, hcf⟩
    have hbytes : 8 * i + 8 ≤ p.bytes.size := hle
    rw [cfAt_of_le hsize hle] at hcf
    obtain rfl := Except.ok.inj hcf
    refine .of_extract (CfInstr.wordsAt_readAt ?_)
    rw [Array.size_extract]
    omega
  cf_fault i fault hfault := by
    have hlt := (cfAt_error_iff hsize).mp ⟨fault, hfault⟩
    rw [cfAt_of_lt hlt] at hfault
    exact (Except.error.inj hfault).symm
  torn_iff i := by rw [hasCf_iff hsize, cfAt_error_iff hsize]

/-- A program that ends in the middle of its second slot. -/
def tornSlot : Program := ⟨#[1, 0, 0, 0, 2, 0, 0, 0, 3, 0, 0, 0]⟩

/-- The torn slot is there and cannot be read, the first slot is an ALU clause of one slot, and at
the last address there is no clause. -/
theorem readsExactly_tornSlot :
    tornSlot.size < 2 ^ 64 ∧
      (tornSlot.hasCf 1 = true ∧ ∃ fault, tornSlot.cfAt 1 = .error fault) ∧
      (∃ is, tornSlot.aluClause 0 1 = .ok is ∧ is.length = 1) ∧
      ¬ ∃ is, tornSlot.texClause 0xFFFFFFFF 0xFFFFFFFF = .ok is := by
  have hsize : tornSlot.size < 2 ^ 64 := by decide
  have hreads := readsExactly tornSlot hsize
  refine ⟨hsize, (hreads.torn_iff 1).mpr (by decide), ?_, ?_⟩
  · obtain ⟨is, his⟩ := (hreads.alu 0 1).ok_iff.mpr (by decide)
    exact ⟨is, his, (hreads.alu 0 1).length_eq is his⟩
  · exact fun h => absurd ((hreads.tex 0xFFFFFFFF 0xFFFFFFFF).ok_iff.mp h) (by decide)

end Program

end LatteHlsl
