import LatteHlsl.Word.Basic

/-!
# Bit fields

A `BitField` names a run of bits inside a 32-bit word. Instruction layouts are lists of bit
fields, and both the instruction views and the encoders go through them, so the hardware layout
is written down once.

* `get`, `value`, `test`, `signed`: the field as a word, a number, a flag, a two's complement
  number.
* `set`: replace the field, dropping the bits of the new value that do not fit.
* `overlaps`: whether two fields share a bit.
* `value_lt`: a field of width `n` holds a number below `1 <<< n`.
-/

namespace LatteHlsl

/-- A named run of `width` bits that starts at bit `offset` of a word. -/
structure BitField where
  name : String
  offset : Nat
  width : Nat
deriving DecidableEq

namespace BitField

/-- A field is well formed when it holds at least one bit and ends inside the word. -/
def WellFormed (f : BitField) : Prop := 0 < f.width ∧ f.offset + f.width ≤ 32

instance (f : BitField) : Decidable f.WellFormed := inferInstanceAs (Decidable (_ ∧ _))

/-- Ones in the lowest `width` bits. -/
def mask (f : BitField) : Word := BitVec.ofNat 32 (1 <<< f.width - 1)

/-- The field of `w`, moved to the low end of a word. -/
def get (f : BitField) (w : Word) : Word := (w >>> f.offset) &&& f.mask

/-- The field of `w` as a number. -/
def value (f : BitField) (w : Word) : Nat := (f.get w).toNat

/-- Whether some bit of the field is set. -/
def test (f : BitField) (w : Word) : Bool := f.get w != 0

/-- The field of `w` as a two's complement number of `width` bits. -/
def signed (f : BitField) (w : Word) : Int := (w.extractLsb' f.offset f.width).toInt

/-- `w` with the field replaced by the low `width` bits of `v`. -/
def set (f : BitField) (w v : Word) : Word :=
  (w &&& ~~~(f.mask <<< f.offset)) ||| ((v &&& f.mask) <<< f.offset)

/-- `set` with the new value given as a number. -/
def put (f : BitField) (w : Word) (n : Nat) : Word := f.set w (BitVec.ofNat 32 n)

/-- Whether two fields have a bit position in common. -/
def overlaps (a b : BitField) : Bool :=
  decide (a.offset < b.offset + b.width) && decide (b.offset < a.offset + a.width)

theorem toNat_mask (f : BitField) (h : f.width ≤ 32) : f.mask.toNat = 1 <<< f.width - 1 := by
  have hpow : 2 ^ f.width ≤ 2 ^ 32 := Nat.pow_le_pow_right (by decide) h
  have hpos : 0 < 2 ^ f.width := Nat.two_pow_pos _
  rw [mask, Nat.one_shiftLeft, BitVec.toNat_ofNat, Nat.mod_eq_of_lt (by omega)]

/-- A field of width `n` holds a number below `1 <<< n`. -/
theorem value_lt (f : BitField) (w : Word) (h : f.width ≤ 32) : f.value w < 1 <<< f.width := by
  have hpos : 0 < 1 <<< f.width := by
    rw [Nat.one_shiftLeft]
    exact Nat.two_pow_pos _
  have hle : (f.get w).toNat ≤ f.mask.toNat := by
    rw [get, BitVec.toNat_and]
    exact Nat.and_le_right
  rw [toNat_mask f h] at hle
  rw [value]
  omega

end BitField

end LatteHlsl
