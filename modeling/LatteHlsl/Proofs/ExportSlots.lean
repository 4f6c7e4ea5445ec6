import Mathlib.Algebra.Group.Nat.Defs
import Mathlib.Data.Fintype.Card
import Mathlib.Data.List.Nodup
import LatteHlsl.Interface.Exports

/-!
# Export slots

An export map gives the targets of each kind the slots 0, 1, 2, … in the order in which they are
first asked for. A target keeps its slot when more are asked for. Slots have 32 bits, and so have
targets, so the slots of a kind do not run out.

* `ExportMap.Numbered`: what holds of every map that is filled this way.
* `ExportMap.targets_assignAll`: which targets a map knows, and in which order.
* `ExportMap.slot?_assignAll`: slots are kept.
* `ExportMap.Numbered.slot_lt`, `ExportMap.Numbered.target_unique`: slots are dense and not shared.
* `ExportMap.length_lt_of_not_mem`: a kind has a slot left while it has a target left.
-/

namespace LatteHlsl

open Isa

theorem eraseDups_eq_self {α : Type} [BEq α] [LawfulBEq α] {as : List α} (h : as.Nodup) :
    as.eraseDups = as := by
  induction as with
  | nil => rfl
  | cons a as ih =>
    obtain ⟨hnot, hnodup⟩ := List.nodup_cons.mp h
    have hfilter : (as.filter fun b => !b == a) = as :=
      List.filter_eq_self.mpr fun b hb => by
        simpa using fun heq : b = a => hnot (heq ▸ hb)
    rw [List.eraseDups_cons, hfilter, ih hnodup]

/-- Only the first occurrence counts. -/
theorem eraseDups_append_cons_of_mem {α : Type} [BEq α] [LawfulBEq α] {as : List α} {a : α}
    (h : a ∈ as) (bs : List α) : (as ++ a :: bs).eraseDups = (as ++ bs).eraseDups := by
  rw [List.eraseDups_append, List.eraseDups_append, List.cons_removeAll, List.contains_iff_mem.mpr h]
  rfl

namespace ExportMap

variable {m : ExportMap} {kind : ExportKind} {base slot : Word}

/-- The targets that have a slot, in the order of their first use. -/
def targets (m : ExportMap) : List (ExportKind × Word) :=
  m.entries.map fun e => (e.kind, e.arrayBase)

/-- The map after a list of targets was asked for. -/
def assignAll (m : ExportMap) (ts : List (ExportKind × Word)) : ExportMap :=
  ts.foldl (fun m t => (m.assign t.1 t.2).2) m

@[simp] theorem assignAll_nil (m : ExportMap) : m.assignAll [] = m := rfl

@[simp] theorem assignAll_cons (m : ExportMap) (t : ExportKind × Word) (ts : List (ExportKind × Word)) :
    m.assignAll (t :: ts) = (m.assign t.1 t.2).2.assignAll ts := rfl

/-! ## One target -/

theorem mem_entries_of_slot? (h : m.slot? kind base = some slot) : ⟨kind, base, slot⟩ ∈ m.entries := by
  obtain ⟨e, he, rfl⟩ := Option.map_eq_some_iff.mp h
  have hkey := List.find?_some he
  simp only [Bool.and_eq_true, decide_eq_true_eq] at hkey
  obtain ⟨rfl, rfl⟩ := hkey
  exact List.mem_of_find?_eq_some he

theorem slot?_eq_none_iff : m.slot? kind base = none ↔ (kind, base) ∉ m.targets := by
  simp [slot?, targets]

/-- A target that is known keeps its slot. -/
theorem assign_of_slot? (h : m.slot? kind base = some slot) : m.assign kind base = (slot, m) := by
  unfold assign
  rw [h]

/-- A new target gets the next slot of its kind. -/
theorem assign_of_not_mem (h : (kind, base) ∉ m.targets) :
    m.assign kind base =
      (m.count kind, { entries := m.entries ++ [⟨kind, base, m.count kind⟩] }) := by
  unfold assign
  rw [slot?_eq_none_iff.mpr h]

theorem exists_slot? (h : (kind, base) ∈ m.targets) : ∃ slot, m.slot? kind base = some slot := by
  cases hslot : m.slot? kind base with
  | none => exact absurd h (slot?_eq_none_iff.mp hslot)
  | some slot => exact ⟨slot, rfl⟩

theorem targets_assign (m : ExportMap) (kind : ExportKind) (base : Word) :
    (m.assign kind base).2.targets =
      if (kind, base) ∈ m.targets then m.targets else m.targets ++ [(kind, base)] := by
  split
  · rename_i hmem
    obtain ⟨slot, hslot⟩ := exists_slot? hmem
    rw [assign_of_slot? hslot]
  · rename_i hnot
    rw [assign_of_not_mem hnot]
    simp [targets]

theorem ofKind_assign (h : (kind, base) ∉ m.targets) (kind' : ExportKind) :
    (m.assign kind base).2.ofKind kind' =
      m.ofKind kind' ++ if kind = kind' then [⟨kind, base, m.count kind⟩] else [] := by
  rw [assign_of_not_mem h]
  by_cases hkind : kind = kind' <;> simp [ofKind, hkind]

theorem slot?_assign_self (m : ExportMap) (kind : ExportKind) (base : Word) :
    (m.assign kind base).2.slot? kind base = some (m.assign kind base).1 := by
  by_cases hmem : (kind, base) ∈ m.targets
  · obtain ⟨slot, hslot⟩ := exists_slot? hmem
    rw [assign_of_slot? hslot, hslot]
  · have hnone : m.slot? kind base = none := slot?_eq_none_iff.mpr hmem
    rw [assign_of_not_mem hmem]
    unfold slot? at hnone ⊢
    rw [List.find?_append, Option.map_eq_none_iff.mp hnone]
    simp

theorem slot?_assign (h : m.slot? kind base = some slot) (kind' : ExportKind) (base' : Word) :
    (m.assign kind' base').2.slot? kind base = some slot := by
  by_cases hmem : (kind', base') ∈ m.targets
  · obtain ⟨slot', hslot'⟩ := exists_slot? hmem
    rwa [assign_of_slot? hslot']
  · rw [assign_of_not_mem hmem]
    obtain ⟨e, he, rfl⟩ := Option.map_eq_some_iff.mp h
    unfold slot?
    rw [List.find?_append, he]
    rfl

/-! ## The invariant -/

/-- The targets are distinct, and those of each kind are numbered in their order. -/
structure Numbered (m : ExportMap) : Prop where
  nodup : m.targets.Nodup
  slots : ∀ kind, (m.ofKind kind).map (·.slot.toNat) = List.range (m.ofKind kind).length

theorem numbered_empty : Numbered {} := ⟨List.nodup_nil, fun _ => rfl⟩

theorem mem_targets_iff : (kind, base) ∈ m.targets ↔ base ∈ (m.ofKind kind).map (·.arrayBase) := by
  simp only [targets, ofKind, List.mem_map, List.mem_filter, decide_eq_true_eq, Prod.mk.injEq]
  constructor
  · rintro ⟨e, he, hkind, hbase⟩
    exact ⟨e, ⟨he, hkind⟩, hbase⟩
  · rintro ⟨e, ⟨he, hkind⟩, hbase⟩
    exact ⟨e, he, hkind, hbase⟩

/-- The targets of one kind are distinct. -/
theorem nodup_ofKind (h : m.targets.Nodup) (kind : ExportKind) :
    ((m.ofKind kind).map (·.arrayBase)).Nodup := by
  have hpairs : ((m.ofKind kind).map fun e => (e.kind, e.arrayBase)).Nodup :=
    h.sublist (List.filter_sublist.map _)
  have heq : ((m.ofKind kind).map fun e => (e.kind, e.arrayBase)) =
      ((m.ofKind kind).map (·.arrayBase)).map (kind, ·) := by
    rw [List.map_map]
    refine List.map_congr_left fun e he => ?_
    have hkind : e.kind = kind := by simpa using (List.mem_filter.mp he).2
    rw [← hkind]
    rfl
  rw [heq] at hpairs
  exact hpairs.of_map

/-- There are as many 32-bit numbers as a list without repetitions can hold. -/
theorem length_le_of_nodup {bases : List Word} (h : bases.Nodup) : bases.length ≤ 2 ^ 32 := by
  have hfin : (bases.map BitVec.toFin).Nodup :=
    h.map fun _ _ heq => BitVec.eq_of_toFin_eq heq
  have hcard := hfin.length_le_card
  rwa [List.length_map, Fintype.card_fin] at hcard

/-- While a target is left, the slots of its kind can be counted. -/
theorem length_lt_of_not_mem (h : m.targets.Nodup) (hnew : (kind, base) ∉ m.targets) :
    (m.ofKind kind).length < 2 ^ 32 := by
  rw [mem_targets_iff] at hnew
  have hbound := length_le_of_nodup (List.nodup_cons.mpr ⟨hnew, nodup_ofKind h kind⟩)
  rwa [List.length_cons, List.length_map] at hbound

theorem toNat_count_of_not_mem (h : m.targets.Nodup) (hnew : (kind, base) ∉ m.targets) :
    (m.count kind).toNat = (m.ofKind kind).length :=
  Nat.mod_eq_of_lt (length_lt_of_not_mem h hnew)

theorem Numbered.assign (h : m.Numbered) (kind : ExportKind) (base : Word) :
    (m.assign kind base).2.Numbered := by
  by_cases hmem : (kind, base) ∈ m.targets
  · obtain ⟨slot, hslot⟩ := exists_slot? hmem
    rwa [assign_of_slot? hslot]
  · constructor
    · rw [targets_assign, if_neg hmem]
      exact h.nodup.append (List.nodup_singleton _) (by simpa using hmem)
    · intro kind'
      rw [ofKind_assign hmem]
      split
      · rename_i hkind
        subst hkind
        rw [List.map_append, List.length_append, List.length_singleton, List.range_succ, h.slots,
          List.map_singleton, toNat_count_of_not_mem h.nodup hmem]
      · rw [List.append_nil]
        exact h.slots kind'

namespace Numbered

/-- What a numbered map knows of a target is in its entry. -/
theorem slot?_eq_some_iff (h : m.Numbered) :
    m.slot? kind base = some slot ↔ ⟨kind, base, slot⟩ ∈ m.entries := by
  refine ⟨mem_entries_of_slot?, fun hmem => ?_⟩
  obtain ⟨slot', hslot'⟩ := exists_slot? (List.mem_map_of_mem hmem)
  have heq := List.inj_on_of_nodup_map h.nodup hmem (mem_entries_of_slot? hslot') rfl
  rw [hslot', (ExportEntry.mk.inj heq).2.2]

/-- Slots are below the number of targets of their kind. -/
theorem slot_lt (h : m.Numbered) (hslot : m.slot? kind base = some slot) :
    slot.toNat < (m.ofKind kind).length := by
  have hmem : slot.toNat ∈ (m.ofKind kind).map (·.slot.toNat) :=
    List.mem_map.mpr
      ⟨⟨kind, base, slot⟩, List.mem_filter.mpr ⟨mem_entries_of_slot? hslot, by simp⟩, rfl⟩
  rw [h.slots] at hmem
  exact List.mem_range.mp hmem

/-- Every number below the number of targets of a kind is a slot. -/
theorem exists_slot?_of_lt (h : m.Numbered) (hlt : slot.toNat < (m.ofKind kind).length) :
    ∃ base, m.slot? kind base = some slot := by
  rw [← List.mem_range, ← h.slots kind] at hlt
  obtain ⟨e, he, heq⟩ := List.mem_map.mp hlt
  obtain ⟨hentry, hkind⟩ := List.mem_filter.mp he
  refine ⟨e.arrayBase, h.slot?_eq_some_iff.mpr ?_⟩
  rw [← of_decide_eq_true hkind, ← BitVec.eq_of_toNat_eq heq]
  exact hentry

/-- An entry of a kind stands at its slot. -/
theorem getElem?_ofKind (h : m.Numbered) {e : ExportEntry} {i : Nat} :
    (m.ofKind kind)[i]? = some e ↔ e ∈ m.ofKind kind ∧ e.slot.toNat = i := by
  have hslot : ∀ {i : Nat}, (m.ofKind kind)[i]? = some e → e.slot.toNat = i := by
    intro i he
    have hmap : ((m.ofKind kind).map (·.slot.toNat))[i]? = some e.slot.toNat := by
      rw [List.getElem?_map, he]
      rfl
    rw [h.slots, List.getElem?_eq_some_iff] at hmap
    obtain ⟨hi, heq⟩ := hmap
    rw [← heq, List.getElem_range]
  constructor
  · exact fun he => ⟨List.mem_of_getElem? he, hslot he⟩
  · rintro ⟨hmem, rfl⟩
    obtain ⟨j, hj⟩ := List.getElem?_of_mem hmem
    rw [hslot hj, hj]

/-- No two targets of a kind share a slot. -/
theorem target_unique (h : m.Numbered) {base' : Word} (hslot : m.slot? kind base = some slot)
    (hslot' : m.slot? kind base' = some slot) : base = base' := by
  have hnodup : ((m.ofKind kind).map (·.slot.toNat)).Nodup := by
    rw [h.slots]
    exact List.nodup_range
  have hmem : ∀ {b}, m.slot? kind b = some slot → ⟨kind, b, slot⟩ ∈ m.ofKind kind :=
    fun hb => List.mem_filter.mpr ⟨mem_entries_of_slot? hb, by simp⟩
  have heq := List.inj_on_of_nodup_map hnodup (hmem hslot) (hmem hslot') rfl
  exact (ExportEntry.mk.inj heq).2.1

end Numbered

/-! ## Many targets -/

theorem Numbered.assignAll (h : m.Numbered) (ts : List (ExportKind × Word)) :
    (m.assignAll ts).Numbered := by
  induction ts generalizing m with
  | nil => exact h
  | cons t ts ih => exact ih (h.assign t.1 t.2)

/-- A map knows the targets that were asked for, in the order of their first use. -/
theorem targets_assignAll (h : m.targets.Nodup) (ts : List (ExportKind × Word)) :
    (m.assignAll ts).targets = (m.targets ++ ts).eraseDups := by
  induction ts generalizing m with
  | nil => rw [assignAll_nil, List.append_nil, eraseDups_eq_self h]
  | cons t ts ih =>
    have htargets := targets_assign m t.1 t.2
    rw [assignAll_cons]
    split at htargets
    · rename_i hmem
      rw [ih (by rwa [htargets]), htargets, eraseDups_append_cons_of_mem hmem]
    · rename_i hnot
      have hnodup : (m.targets ++ [t]).Nodup :=
        h.append (List.nodup_singleton _) (by simpa using hnot)
      rw [ih (by rwa [htargets]), htargets, List.append_assoc, List.singleton_append]

/-- A target keeps its slot. -/
theorem slot?_assignAll (h : m.slot? kind base = some slot) (ts : List (ExportKind × Word)) :
    (m.assignAll ts).slot? kind base = some slot := by
  induction ts generalizing m with
  | nil => exact h
  | cons t ts ih => exact ih (slot?_assign h t.1 t.2)

end ExportMap

end LatteHlsl
