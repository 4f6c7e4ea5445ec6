import Mathlib.Algebra.Group.Nat.Defs
import Mathlib.Data.List.Pairwise
import LatteHlsl.Proofs.BitFields

/-!
# Words built from field writes

An instruction word is built by writing numbers into its fields, over and over. Where the fields do
not overlap, each of them holds the last number that was written into it, less the bits that do not
fit, and zero if none was.

* `lastSet`: the last value that a list of steps sets.
* `value_putAll`: what a field holds after a list of writes.
* `Built`: a word built by an initial list of writes and those of a list of steps.
* `Built.value`, `Built.value_of_unset`, `Built.test`, `Built.decode`: its fields.
-/

namespace LatteHlsl

/-! ## The last value -/

section LastSet

variable {ε α β : Type}

/-- The last value that one of the steps sets, if one does. -/
def lastSet? (es : List ε) (sets : ε → Option α) : Option α := (es.filterMap sets).getLast?

/-- The last value that one of the steps sets, or the initial one. -/
def lastSet (es : List ε) (init : α) (sets : ε → Option α) : α := (lastSet? es sets).getD init

theorem lastSet?_append (es es' : List ε) (sets : ε → Option α) :
    lastSet? (es ++ es') sets = (lastSet? es' sets).or (lastSet? es sets) := by
  rw [lastSet?, List.filterMap_append, List.getLast?_append]
  rfl

theorem lastSet?_cons (e : ε) (es : List ε) (sets : ε → Option α) :
    lastSet? (e :: es) sets = (lastSet? es sets).or (sets e) := by
  rw [show e :: es = [e] ++ es from rfl, lastSet?_append]
  cases h : sets e <;> simp [lastSet?, h]

theorem lastSet?_flatMap (es : List ε) (g : ε → List β) (sets : β → Option α) :
    lastSet? (es.flatMap g) sets = lastSet? es fun e => lastSet? (g e) sets := by
  induction es with
  | nil => rfl
  | cons e es ih => rw [List.flatMap_cons, lastSet?_append, ih, lastSet?_cons]

theorem lastSet?_congr {es : List ε} {sets sets' : ε → Option α} (h : ∀ e ∈ es, sets e = sets' e) :
    lastSet? es sets = lastSet? es sets' := by
  induction es with
  | nil => rfl
  | cons e es ih =>
    obtain ⟨he, hes⟩ := List.forall_mem_cons.mp h
    rw [lastSet?_cons, lastSet?_cons, he, ih hes]

theorem lastSet?_map (es : List ε) (sets : ε → Option α) (f : α → β) :
    lastSet? es (fun e => (sets e).map f) = (lastSet? es sets).map f := by
  induction es with
  | nil => rfl
  | cons e es ih =>
    rw [lastSet?_cons, lastSet?_cons, ih]
    cases lastSet? es sets <;> rfl

theorem lastSet_none (es : List ε) (init : α) : lastSet es init (fun _ => none) = init := by
  induction es with
  | nil => rfl
  | cons e es ih => rwa [lastSet, lastSet?_cons, Option.or_none]

end LastSet

namespace BitField

variable {f g : BitField}

/-! ## Fields as numbers -/

theorem value_eq (hf : f.WellFormed) (w : Word) :
    f.value w = w.toNat / 2 ^ f.offset % 2 ^ f.width := by
  rw [value, get, BitVec.toNat_and, toNat_mask f hf.width_le, Nat.one_shiftLeft,
    Nat.and_two_pow_sub_one_eq_mod, BitVec.toNat_ushiftRight, Nat.shiftRight_eq_div_pow]

/-- A number that does not fit in a field loses its high bits. -/
theorem value_put_mod (hf : f.WellFormed) (w : Word) (n : Nat) :
    f.value (f.put w n) = n % 2 ^ f.width := by
  rw [value, put, toNat_get_set hf, BitVec.toNat_ofNat]
  exact Nat.mod_mod_of_dvd n (Nat.pow_dvd_pow 2 hf.width_le)

/-- The high bits of a field, seen as a field of their own. -/
theorem value_high (hf : f.WellFormed) (hg : g.WellFormed) {k : Nat}
    (hoffset : g.offset = f.offset + k) (hwidth : f.width = k + g.width) (w : Word) :
    g.value w = f.value w / 2 ^ k := by
  rw [value_eq hf, value_eq hg, hoffset, hwidth, Nat.pow_add, Nat.pow_add, ← Nat.div_div_eq_div_mul,
    Nat.mod_mul_right_div_self]

/-- The low bits of a field, seen as a field of their own. -/
theorem value_low (hf : f.WellFormed) (hg : g.WellFormed) (hoffset : g.offset = f.offset)
    (hwidth : g.width ≤ f.width) (w : Word) : g.value w = f.value w % 2 ^ g.width := by
  rw [value_eq hf, value_eq hg, hoffset]
  exact (Nat.mod_mod_of_dvd _ (Nat.pow_dvd_pow 2 hwidth)).symm

theorem signed_eq (hf : f.WellFormed) (w : Word) :
    f.signed w = (f.value w : Int).bmod (2 ^ f.width) := by
  rw [signed, BitVec.toInt_eq_toNat_bmod, BitVec.extractLsb'_toNat, Nat.shiftRight_eq_div_pow,
    value_eq hf]

/-- The low bits of a word give the number again, as far as they can hold it. -/
theorem bmod_ofInt {k : Nat} (hk : k ≤ 32) (x : Int) :
    (((BitVec.ofInt 32 x).toNat % 2 ^ k : Nat) : Int).bmod (2 ^ k) = x.bmod (2 ^ k) := by
  have hdvd : ((2 ^ k : Nat) : Int) ∣ ((2 ^ 32 : Nat) : Int) :=
    Int.natCast_dvd_natCast.mpr (Nat.pow_dvd_pow 2 hk)
  have hword : ((BitVec.ofInt 32 x).toNat : Int) = x % ((2 ^ 32 : Nat) : Int) := by
    rw [BitVec.toNat_ofInt]
    exact Int.toNat_of_nonneg (Int.emod_nonneg _ (by decide))
  rw [Int.natCast_emod, hword, Int.emod_emod_of_dvd _ hdvd]
  exact Int.emod_bmod x (2 ^ k)

theorem test_eq (f : BitField) (w : Word) : f.test w = (f.value w != 0) := by
  rw [Bool.eq_iff_iff, test, bne_iff_ne, bne_iff_ne, value, ne_eq, ne_eq, BitVec.toNat_eq]
  rfl

/-- A word given as a word is written as its number. -/
theorem set_eq_put (f : BitField) (w v : Word) : f.set w v = f.put w v.toNat := by
  rw [put, BitVec.ofNat_toNat, BitVec.setWidth_eq]

/-! ## Lists of writes -/

/-- Write numbers into fields, one after the other. -/
def putAll (w : Word) (ws : List (BitField × Nat)) : Word := ws.foldl (fun w p => p.1.put w p.2) w

theorem putAll_append (w : Word) (ws ws' : List (BitField × Nat)) :
    putAll w (ws ++ ws') = putAll (putAll w ws) ws' := List.foldl_append

/-- The number that a write puts into the field. -/
def written (f : BitField) (p : BitField × Nat) : Option Nat :=
  if f.overlaps p.1 then some p.2 else none

theorem overlaps_self (hf : f.WellFormed) : f.overlaps f = true :=
  overlaps_of_covers (i := f.offset) ⟨by omega, by have := hf.1; omega⟩
    ⟨by omega, by have := hf.1; omega⟩

theorem overlaps_comm (f g : BitField) : f.overlaps g = g.overlaps f := Bool.and_comm _ _

/-- A write changes the field that it is for and no field that it does not overlap. -/
theorem value_write (hf : f.WellFormed) {p : BitField × Nat}
    (hp : p.1 = f ∨ p.1.WellFormed ∧ f.overlaps p.1 = false) (w : Word) :
    f.value (p.1.put w p.2) = ((f.written p).map (· % 2 ^ f.width)).getD (f.value w) := by
  rcases hp with rfl | ⟨hwf, hdisjoint⟩
  · rw [written, overlaps_self hf, if_pos rfl]
    exact value_put_mod hf w p.2
  · rw [written, hdisjoint]
    exact value_put_of_disjoint hf hwf hdisjoint w p.2

/-- After a list of writes a field holds the last number written into it. -/
theorem value_putAll (hf : f.WellFormed) {ws : List (BitField × Nat)} :
    ∀ {w : Word}, (∀ p ∈ ws, p.1 = f ∨ p.1.WellFormed ∧ f.overlaps p.1 = false) →
      f.value (putAll w ws) = ((lastSet? ws f.written).map (· % 2 ^ f.width)).getD (f.value w) := by
  induction ws with
  | nil => exact fun _ => rfl
  | cons p ws ih =>
    intro w h
    obtain ⟨hp, hws⟩ := List.forall_mem_cons.mp h
    -- what comes first is seen only if nothing after it writes the field
    have hrest : f.value (putAll w (p :: ws)) = _ := ih hws
    rw [hrest, value_write hf hp, lastSet?_cons]
    cases lastSet? ws f.written <;> rfl

/-- Writes that do not overlap a field leave it alone. -/
theorem value_putAll_of_disjoint (hf : f.WellFormed) {ws : List (BitField × Nat)} :
    ∀ {w : Word}, (∀ p ∈ ws, p.1.WellFormed ∧ f.overlaps p.1 = false) →
      f.value (putAll w ws) = f.value w := by
  induction ws with
  | nil => exact fun _ => rfl
  | cons p ws ih =>
    intro w h
    obtain ⟨hp, hws⟩ := List.forall_mem_cons.mp h
    have hrest : f.value (putAll w (p :: ws)) = f.value (p.1.put w p.2) := ih hws
    rw [hrest, value_put_of_disjoint hf hp.1 hp.2]

/-- Fields that lie inside the word and do not overlap. -/
def Sound (fs : List BitField) : Prop :=
  (∀ f ∈ fs, f.WellFormed) ∧ fs.Pairwise fun f g => f.overlaps g = false

instance (fs : List BitField) : Decidable (Sound fs) := inferInstanceAs (Decidable (_ ∧ _))

theorem Sound.disjoint {fs : List BitField} (h : Sound fs) (hf : f ∈ fs) (hg : g ∈ fs) :
    g = f ∨ g.WellFormed ∧ f.overlaps g = false := by
  have hsymm : Std.Symm fun f g : BitField => f.overlaps g = false :=
    ⟨fun a b hab => (overlaps_comm b a).trans hab⟩
  by_cases hfg : g = f
  · exact .inl hfg
  · exact .inr ⟨h.1 g hg, h.2.forall hf hg (Ne.symm hfg)⟩

/-! ## Built words -/

/-- The word is built by writing fields of `fs`: first those of `init`, then those of each step. -/
structure Built {ε : Type} (fs : List BitField) (init : List (BitField × Nat))
    (writes : ε → List (BitField × Nat)) (es : List ε) (w : Word) : Prop where
  eq_putAll : w = putAll 0 (init ++ es.flatMap writes)
  sound : Sound fs
  init_mem : ∀ p ∈ init, p.1 ∈ fs
  writes_mem : ∀ e ∈ es, ∀ p ∈ writes e, p.1 ∈ fs

/-- Steps that write fields of a word build it, from a start that is built so. -/
theorem putAll_foldl {ι ε : Type} {edit : ι → ε → ι} {word : ι → Word}
    {writes : ε → List (BitField × Nat)} (inv : ι → Prop)
    (hinv : ∀ i e, inv i → inv (edit i e)) {es : List ε} :
    (∀ e ∈ es, ∀ i, inv i → word (edit i e) = putAll (word i) (writes e)) →
      ∀ i, inv i → word (es.foldl edit i) = putAll (word i) (es.flatMap writes) := by
  induction es with
  | nil => exact fun _ _ _ => rfl
  | cons e es ih =>
    intro hword i hi
    obtain ⟨he, hes⟩ := List.forall_mem_cons.mp hword
    rw [List.foldl_cons, ih hes _ (hinv i e hi), he i hi, List.flatMap_cons, putAll_append]

namespace Built

variable {ε β : Type} {fs : List BitField} {init : List (BitField × Nat)}
  {writes : ε → List (BitField × Nat)} {es : List ε} {w : Word}

/-- Where the steps write a field with encoded values, it holds the last one. -/
theorem value (h : Built fs init writes es w) (hf : f ∈ fs) (encode : β → Nat)
    {sets : ε → Option β} {b : β} (hinit : lastSet init 0 f.written = encode b)
    (hsets : ∀ e ∈ es, lastSet? (writes e) f.written = (sets e).map encode) :
    f.value w = encode (lastSet es b sets) % 2 ^ f.width := by
  have hwrites : ∀ p ∈ init ++ es.flatMap writes,
      p.1 = f ∨ p.1.WellFormed ∧ f.overlaps p.1 = false := by
    intro p hp
    rcases List.mem_append.mp hp with hp | hp
    · exact h.sound.disjoint hf (h.init_mem p hp)
    · obtain ⟨e, he, hp⟩ := List.mem_flatMap.mp hp
      exact h.sound.disjoint hf (h.writes_mem e he p hp)
  have hzero : f.value 0 = 0 := by
    rw [value_eq (h.sound.1 f hf)]
    simp
  rw [h.eq_putAll, value_putAll (h.sound.1 f hf) hwrites, hzero, lastSet?_append, lastSet?_flatMap,
    lastSet?_congr hsets, lastSet?_map, lastSet]
  rw [lastSet] at hinit
  cases lastSet? es sets with
  | some b' => rfl
  | none =>
    rw [Option.map_none, Option.none_or, Option.getD_none, ← hinit]
    cases lastSet? init f.written with
    | some n => rfl
    | none => exact (Nat.zero_mod _).symm

/-- A field that no step writes keeps its initial number. -/
theorem value_of_unset (h : Built fs init writes es w) (hf : f ∈ fs)
    (hsets : ∀ e ∈ es, lastSet? (writes e) f.written = none) :
    f.value w = lastSet init 0 f.written % 2 ^ f.width := by
  have hvalue : f.value w = (lastSet es (lastSet init 0 f.written) fun _ => none) % 2 ^ f.width :=
    h.value hf (fun n => n) rfl hsets
  rwa [lastSet_none] at hvalue

/-- A field with a code for each value. -/
theorem decode (h : Built fs init writes es w) (hf : f ∈ fs) (decode : Nat → β) {encode : β → Nat}
    (hcode : ∀ b, decode (encode b % 2 ^ f.width) = b) {sets : ε → Option β} {b : β}
    (hinit : lastSet init 0 f.written = encode b)
    (hsets : ∀ e ∈ es, lastSet? (writes e) f.written = (sets e).map encode) :
    decode (f.value w) = lastSet es b sets := by
  rw [h.value hf encode hinit hsets, hcode]

/-- A flag. -/
theorem test (h : Built fs init writes es w) (hf : f ∈ fs) {sets : ε → Option Bool} {b : Bool}
    (hinit : lastSet init 0 f.written = b.toNat)
    (hsets : ∀ e ∈ es, lastSet? (writes e) f.written = (sets e).map Bool.toNat) :
    f.test w = lastSet es b sets := by
  rw [test_eq]
  refine h.decode hf (· != 0) (fun b => ?_) hinit hsets
  have hone : 1 < 2 ^ f.width := Nat.one_lt_two_pow (Nat.ne_of_gt (h.sound.1 f hf).1)
  cases b with
  | false => rw [Bool.toNat_false, Nat.zero_mod]; rfl
  | true => rw [Bool.toNat_true, Nat.mod_eq_of_lt hone]; rfl

/-- A flag that is never set. -/
theorem test_of_unset (h : Built fs init writes es w) (hf : f ∈ fs)
    (hinit : lastSet init 0 f.written = 0)
    (hsets : ∀ e ∈ es, lastSet? (writes e) f.written = none) : f.test w = false := by
  have htest : f.test w = lastSet es false fun _ => none := h.test hf hinit hsets
  rwa [lastSet_none] at htest

/-- A field in two's complement, which is as wide as it is. -/
theorem signed (h : Built fs init writes es w) (hf : f ∈ fs) {sets : ε → Option Int} {b : Int}
    (hinit : lastSet init 0 f.written = (BitVec.ofInt 32 b).toNat)
    (hsets : ∀ e ∈ es, lastSet? (writes e) f.written =
      (sets e).map fun x => (BitVec.ofInt 32 x).toNat) :
    f.signed w = (lastSet es b sets).bmod (2 ^ f.width) := by
  have hwf := h.sound.1 f hf
  rw [signed_eq hwf, h.value hf (fun x => (BitVec.ofInt 32 x).toNat) hinit hsets,
    bmod_ofInt hwf.width_le]

end Built

end BitField

end LatteHlsl
