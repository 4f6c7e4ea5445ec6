import Mathlib.Algebra.Group.Nat.Defs
import LatteHlsl.Word.BitField

/-!
# The algebra of bit fields

A field of a word that was replaced holds the new value, and every bit outside of it stays as it
was. Both follow from `getLsbD_set`, which says bit by bit what replacing a field does.

* `getLsbD_get`, `getLsbD_set`: the two operations on single bits.
* `toNat_get_set`: a field holds what was written into it, less the bits that do not fit.
* `value_put`: a number that fits in a field is read back.
* `value_put_of_disjoint`: fields without a common bit do not disturb each other.
* `SameOutside`: two words that differ only inside given fields.
-/

namespace LatteHlsl

namespace BitField

variable {f g : BitField}

/-- A bit position that belongs to a field. -/
def Covers (f : BitField) (i : Nat) : Prop := f.offset ≤ i ∧ i < f.offset + f.width

instance (f : BitField) (i : Nat) : Decidable (f.Covers i) := inferInstanceAs (Decidable (_ ∧ _))

theorem WellFormed.width_le (hf : f.WellFormed) : f.width ≤ 32 := by
  unfold WellFormed at hf
  omega

/-! ## Single bits -/

theorem getLsbD_mask (h : f.width ≤ 32) (i : Nat) : f.mask.getLsbD i = decide (i < f.width) := by
  rw [mask, Nat.one_shiftLeft, BitVec.getLsbD_ofNat, Nat.testBit_two_pow_sub_one,
    Bool.and_eq_right_iff_imp]
  intro hi
  have := of_decide_eq_true hi
  exact decide_eq_true (by omega)

theorem getLsbD_get (hf : f.WellFormed) (w : Word) (i : Nat) :
    (f.get w).getLsbD i = (decide (i < f.width) && w.getLsbD (f.offset + i)) := by
  rw [get, BitVec.getLsbD_and, BitVec.getLsbD_ushiftRight, getLsbD_mask hf.width_le, Bool.and_comm]

/-- Replacing a field moves the new value's bits into it and keeps all others. -/
theorem getLsbD_set (hf : f.WellFormed) (w v : Word) (i : Nat) :
    (f.set w v).getLsbD i = if f.Covers i then v.getLsbD (i - f.offset) else w.getLsbD i := by
  have hend := hf.2
  unfold set
  simp only [BitVec.getLsbD_or, BitVec.getLsbD_and, BitVec.getLsbD_not, BitVec.getLsbD_shiftLeft,
    getLsbD_mask hf.width_le]
  by_cases hi : f.Covers i
  · obtain ⟨hlo, hhi⟩ := hi
    have hword : i < 32 := by omega
    have hin : i - f.offset < f.width := by omega
    simp [Covers, hlo, hhi, hword, hin, Nat.not_lt.mpr hlo]
  · rw [if_neg hi]
    by_cases hlo : i < f.offset
    · by_cases hword : i < 32
      · simp [hlo, hword]
      · simp [hword, BitVec.getLsbD_of_ge w i (by omega)]
    · have hout : ¬ i - f.offset < f.width := by
        intro hin
        exact hi ⟨by omega, by omega⟩
      by_cases hword : i < 32
      · simp [hlo, hout, hword]
      · simp [hword, BitVec.getLsbD_of_ge w i (by omega)]

/-! ## Whole fields -/

theorem get_set (hf : f.WellFormed) (w v : Word) : f.get (f.set w v) = v &&& f.mask := by
  apply BitVec.eq_of_getLsbD_eq
  intro i _
  rw [getLsbD_get hf, getLsbD_set hf, BitVec.getLsbD_and, getLsbD_mask hf.width_le]
  by_cases hi : i < f.width
  · simp [Covers, hi]
  · simp [hi]

/-- A field holds what was written into it, less the bits that do not fit. -/
theorem toNat_get_set (hf : f.WellFormed) (w v : Word) :
    (f.get (f.set w v)).toNat = v.toNat % 2 ^ f.width := by
  rw [get_set hf, BitVec.toNat_and, toNat_mask f hf.width_le, Nat.one_shiftLeft,
    Nat.and_two_pow_sub_one_eq_mod]

/-- A number that fits in a field is read back from it. -/
theorem value_put (hf : f.WellFormed) (w : Word) {n : Nat} (hn : n < 2 ^ f.width) :
    f.value (f.put w n) = n := by
  have hpow : 2 ^ f.width ≤ 2 ^ 32 := Nat.pow_le_pow_right (by decide) hf.width_le
  have hword : (BitVec.ofNat 32 n).toNat = n := Nat.mod_eq_of_lt (Nat.lt_of_lt_of_le hn hpow)
  rw [value, put, toNat_get_set hf, hword, Nat.mod_eq_of_lt hn]

theorem overlaps_of_covers {i : Nat} (hf : f.Covers i) (hg : g.Covers i) :
    f.overlaps g = true := by
  obtain ⟨hf0, hf1⟩ := hf
  obtain ⟨hg0, hg1⟩ := hg
  rw [overlaps, Bool.and_eq_true, decide_eq_true_eq, decide_eq_true_eq]
  exact ⟨by omega, by omega⟩

theorem not_covers_of_disjoint {i : Nat} (h : f.overlaps g = false) (hf : f.Covers i) :
    ¬ g.Covers i := by
  intro hg
  rw [overlaps_of_covers hf hg] at h
  cases h

/-- A field is not disturbed by another one that shares no bit with it. -/
theorem get_set_of_disjoint (hf : f.WellFormed) (hg : g.WellFormed) (h : f.overlaps g = false)
    (w v : Word) : f.get (g.set w v) = f.get w := by
  apply BitVec.eq_of_getLsbD_eq
  intro i _
  rw [getLsbD_get hf, getLsbD_get hf, getLsbD_set hg]
  by_cases hi : i < f.width
  · have hcover : f.Covers (f.offset + i) := ⟨by omega, by omega⟩
    rw [if_neg (not_covers_of_disjoint h hcover)]
  · simp [hi]

theorem value_put_of_disjoint (hf : f.WellFormed) (hg : g.WellFormed) (h : f.overlaps g = false)
    (w : Word) (n : Nat) : f.value (g.put w n) = f.value w := by
  rw [value, put, get_set_of_disjoint hf hg h, value]

/-! ## Words that differ inside fields -/

/-- Two words that differ at most in bits of the given fields. -/
def SameOutside (fs : List BitField) (w w' : Word) : Prop :=
  ∀ i, (∀ f ∈ fs, ¬ f.Covers i) → w'.getLsbD i = w.getLsbD i

theorem SameOutside.put {fs : List BitField} {w w' : Word} (h : SameOutside fs w w')
    (hf : f.WellFormed) (hmem : f ∈ fs) (n : Nat) : SameOutside fs w (f.put w' n) := by
  intro i hi
  rw [BitField.put, getLsbD_set hf, if_neg (hi f hmem)]
  exact h i hi

theorem SameOutside.refl (fs : List BitField) (w : Word) : SameOutside fs w w := fun _ _ => rfl

end BitField

end LatteHlsl
