import Mathlib.Algebra.Ring.Int.Defs
import LatteHlsl.Isa.Layout
import LatteHlsl.Proofs.FieldWrites

/-!
# The laws of fields

A field is a view of its word: what is written into it is read back, writing back what was read
changes nothing, and of two writes the second one counts. Two fields are independent exactly if no
bit position belongs to both of them. The laws hold for every field that ends inside the word, the
one that takes up the whole word among them.

* `set_get`, `set_set`: one field, read and written.
* `overlaps_iff_exists_covers`, `set_comm_of_disjoint`: two fields.
* `signed_eq_sshiftRight`, `signed_set_ofInt`: a field in two's complement.
* `fields_lawful`: the laws together.
-/

namespace LatteHlsl

namespace BitField

open Isa.Layout.CfWord0 (addr)
open Isa.Layout.TexWord2 (offsetX offsetY)

variable {f g : BitField}

/-! ## One field -/

/-- Writing back what a field holds changes nothing. -/
theorem set_get (hf : f.WellFormed) (w : Word) : f.set w (f.get w) = w := by
  apply BitVec.eq_of_getLsbD_eq
  intro i _
  rw [getLsbD_set hf]
  by_cases hi : f.Covers i
  · obtain ⟨hlo, hhi⟩ := hi
    have hin : i - f.offset < f.width := by omega
    rw [if_pos ⟨hlo, hhi⟩, getLsbD_get hf, decide_eq_true hin, Bool.true_and,
      Nat.add_sub_of_le hlo]
  · rw [if_neg hi]

/-- Of two writes into a field the second one counts. -/
theorem set_set (hf : f.WellFormed) (w u v : Word) : f.set (f.set w u) v = f.set w v := by
  apply BitVec.eq_of_getLsbD_eq
  intro i _
  simp only [getLsbD_set hf]
  by_cases hi : f.Covers i
  · rw [if_pos hi, if_pos hi]
  · rw [if_neg hi, if_neg hi, if_neg hi]

/-! ## Two fields -/

theorem overlaps_iff_exists_covers (hf : f.WellFormed) (hg : g.WellFormed) :
    f.overlaps g = true ↔ ∃ i, f.Covers i ∧ g.Covers i := by
  constructor
  · intro h
    rw [overlaps, Bool.and_eq_true, decide_eq_true_eq, decide_eq_true_eq] at h
    have hfwidth := hf.1
    have hgwidth := hg.1
    -- of the two fields, the one that starts last has its first bit in both
    exact ⟨max f.offset g.offset, ⟨by omega, by omega⟩, ⟨by omega, by omega⟩⟩
  · rintro ⟨i, hfi, hgi⟩
    exact overlaps_of_covers hfi hgi

/-- Fields without a common bit can be written in any order. -/
theorem set_comm_of_disjoint (hf : f.WellFormed) (hg : g.WellFormed) (h : f.overlaps g = false)
    (w u v : Word) : f.set (g.set w u) v = g.set (f.set w v) u := by
  apply BitVec.eq_of_getLsbD_eq
  intro i _
  simp only [getLsbD_set hf, getLsbD_set hg]
  by_cases hi : f.Covers i
  · have hgi : ¬ g.Covers i := not_covers_of_disjoint h hi
    rw [if_pos hi, if_neg hgi, if_pos hi]
  · rw [if_neg hi, if_neg hi]

/-! ## Two's complement -/

/-- The bits of a field that is moved to the high end of a word. -/
theorem getLsbD_get_shiftLeft (hf : f.WellFormed) (w : Word) {i : Nat} (hi : i < f.width) :
    (f.get w <<< (32 - f.width)).getLsbD (32 - f.width + i) = w.getLsbD (f.offset + i) := by
  have hwidth := hf.width_le
  have hword : 32 - f.width + i < 32 := by omega
  have hmoved : ¬ 32 - f.width + i < 32 - f.width := by omega
  rw [BitVec.getLsbD_shiftLeft, Nat.add_sub_cancel_left, getLsbD_get hf]
  simp only [hword, hmoved, hi, decide_true, decide_false, Bool.not_false, Bool.true_and]

/-- Moving a field to the high end of a word makes its sign bit that of the word. -/
theorem msb_get_shiftLeft (hf : f.WellFormed) (w : Word) :
    (f.get w <<< (32 - f.width)).msb = (w.extractLsb' f.offset f.width).msb := by
  have hwidth := hf.width_le
  have hpos := hf.1
  have hsign : f.width - 1 < f.width := by omega
  have hlast : 32 - 1 = 32 - f.width + (f.width - 1) := by omega
  rw [BitVec.msb_eq_getLsbD_last, BitVec.msb_eq_getLsbD_last, hlast,
    getLsbD_get_shiftLeft hf w hsign, BitVec.getLsbD_extractLsb', decide_eq_true hsign,
    Bool.true_and]

/-- A signed reading moves the field to the high end of a word and back, repeating its sign bit. A
field that is as wide as the word is not moved at all. -/
theorem signed_eq_sshiftRight (hf : f.WellFormed) (w : Word) :
    f.signed w = ((f.get w <<< (32 - f.width)).sshiftRight (32 - f.width)).toInt := by
  have hwidth := hf.width_le
  have hextend : (w.extractLsb' f.offset f.width).signExtend 32 =
      (f.get w <<< (32 - f.width)).sshiftRight (32 - f.width) := by
    apply BitVec.eq_of_getLsbD_eq
    intro i hi
    rw [BitVec.getLsbD_signExtend, BitVec.getLsbD_sshiftRight, decide_eq_true hi,
      decide_eq_false (Nat.not_le.mpr hi), Bool.not_false, Bool.true_and, Bool.true_and]
    by_cases hin : i < f.width
    · have hup : 32 - f.width + i < 32 := by omega
      rw [if_pos hin, if_pos hup, getLsbD_get_shiftLeft hf w hin, BitVec.getLsbD_extractLsb',
        decide_eq_true hin, Bool.true_and]
    · have hup : ¬ 32 - f.width + i < 32 := by omega
      rw [if_neg hin, if_neg hup, msb_get_shiftLeft hf]
  rw [signed, ← hextend, BitVec.toInt_signExtend_of_le hwidth]

/-- A number that a field can hold in two's complement is read back from it. -/
theorem signed_set_ofInt (hf : f.WellFormed) (w : Word) {x : Int}
    (hlow : -2 ^ (f.width - 1) ≤ x) (hhigh : x < 2 ^ (f.width - 1)) :
    f.signed (f.set w (BitVec.ofInt 32 x)) = x := by
  have hhalf : ((2 ^ f.width : Nat) : Int) = 2 ^ (f.width - 1) * 2 := by
    rw [← Int.pow_succ, Nat.succ_eq_add_one, Nat.sub_add_cancel hf.1, Int.natCast_pow]
    rfl
  calc f.signed (f.set w (BitVec.ofInt 32 x))
      = (((BitVec.ofInt 32 x).toNat % 2 ^ f.width : Nat) : Int).bmod (2 ^ f.width) := by
        rw [signed_eq hf, value, toNat_get_set hf]
    _ = x.bmod (2 ^ f.width) := bmod_ofInt hf.width_le x
    _ = x := Int.bmod_eq_of_le_mul_two (by omega) (by omega)

/-! ## The laws together -/

/-- Fields are read and written independently of each other, and each of them like a variable of
its own width. -/
theorem fields_lawful {a b : BitField} (ha : a.WellFormed) (hb : b.WellFormed) (w u v : Word) :
    (a.get (a.set w v)).toNat = v.toNat % 2 ^ a.width ∧
    a.set w (a.get w) = w ∧
    a.set (a.set w u) v = a.set w v ∧
    (a.overlaps b = true ↔ ∃ i, a.Covers i ∧ b.Covers i) ∧
    (a.overlaps b = false →
      b.get (a.set w v) = b.get w ∧ a.set (b.set w u) v = b.set (a.set w v) u) ∧
    a.signed w = ((a.get w <<< (32 - a.width)).sshiftRight (32 - a.width)).toInt ∧
    ∀ x : Int, -2 ^ (a.width - 1) ≤ x → x < 2 ^ (a.width - 1) →
      a.signed (a.set w (BitVec.ofInt 32 x)) = x := by
  refine ⟨toNat_get_set ha w v, set_get ha w, set_set ha w u v, overlaps_iff_exists_covers ha hb,
    ?_, signed_eq_sshiftRight ha w, fun x hlow hhigh => signed_set_ofInt ha w hlow hhigh⟩
  intro h
  have hcomm : b.overlaps a = false := (overlaps_comm b a).trans h
  exact ⟨get_set_of_disjoint hb ha hcomm w v, set_comm_of_disjoint ha hb h w u v⟩

/-- Two neighbouring fields, and one that takes up its word, at the least numbers that they hold. -/
theorem fields_lawful_neighbours :
    offsetX.WellFormed ∧ offsetY.WellFormed ∧ offsetX.overlaps offsetY = false ∧
    offsetY.get (offsetX.set 0xDEADBEEF 0x3F) = offsetY.get 0xDEADBEEF ∧
    offsetX.set (offsetY.set 0xDEADBEEF 1) 0x3F = offsetY.set (offsetX.set 0xDEADBEEF 0x3F) 1 ∧
    offsetX.signed (offsetX.set 0xDEADBEEF (BitVec.ofInt 32 (-16))) = -16 ∧
    addr.WellFormed ∧ addr.signed (addr.set 0xDEADBEEF (BitVec.ofInt 32 (-2 ^ 31))) = -2 ^ 31 := by
  have hx : offsetX.WellFormed := by decide
  have hy : offsetY.WellFormed := by decide
  have hdisjoint : offsetX.overlaps offsetY = false := by decide
  have haddr : addr.WellFormed := by decide
  obtain ⟨-, -, -, -, hindependent, -, hsigned⟩ := fields_lawful hx hy 0xDEADBEEF 1 0x3F
  obtain ⟨-, -, -, -, -, -, hwhole⟩ := fields_lawful haddr haddr 0xDEADBEEF 0 0
  obtain ⟨hget, hset⟩ := hindependent hdisjoint
  exact ⟨hx, hy, hdisjoint, hget, hset, hsigned (-16) (by decide) (by decide), haddr,
    hwhole (-2 ^ 31) (by decide) (by decide)⟩

end BitField

end LatteHlsl
