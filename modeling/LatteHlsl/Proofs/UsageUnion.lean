import Mathlib.Order.Lattice
import LatteHlsl.Proofs.AppendOnly

/-!
# Usage as a union

Usages are ordered part by part, and merging two of them is their least upper bound. A usage that
was recorded is known from the set of its accesses, so recording two lists one after the other
merges what they record, and neither order nor repetition matters.

* `Usage.Le.antisymm`, `Usage.merge_le`: the order, and merging as least upper bound.
* `Usage.Records.unique`, `Usage.ofAccesses_append`: recorded usages.
* `StageResources.clean_mono`, `StageResources.clean_clean`: resources cut down to a usage.
* `Usage.ofAccesses_union`: all of it together.
-/

namespace LatteHlsl

/-- Tables with the same entry in every slot are equal. -/
theorem ext_slot {α : Type} {v w : Vector α slotCount} (h : ∀ s : Slot, v[s] = w[s]) : v = w := by
  apply Vector.ext
  intro i hi
  exact h ⟨i, hi⟩

/-! ## The order of usages -/

namespace Usage

variable {u v w : Usage} {p q : List Access}

theorem Le.refl (u : Usage) : u.Le u :=
  ⟨fun _ h => h, fun _ h => h, fun _ => Nat.le_refl _, Nat.le_refl _⟩

theorem Le.trans (h : u.Le v) (h' : v.Le w) : u.Le w where
  textures s hs := h'.textures s (h.textures s hs)
  samplers s hs := h'.samplers s (h.samplers s hs)
  uniformBlocks b := Nat.le_trans (h.uniformBlocks b) (h'.uniformBlocks b)
  cfile := Nat.le_trans h.cfile h'.cfile

theorem Le.antisymm (h : u.Le v) (h' : v.Le u) : u = v := by
  have htextures : u.textures = v.textures :=
    ext_slot fun s => Bool.eq_iff_iff.mpr ⟨h.textures s, h'.textures s⟩
  have hsamplers : u.samplers = v.samplers :=
    ext_slot fun s => Bool.eq_iff_iff.mpr ⟨h.samplers s, h'.samplers s⟩
  have hblocks : u.uniformBlocks = v.uniformBlocks :=
    ext_slot fun b => Nat.le_antisymm (h.uniformBlocks b) (h'.uniformBlocks b)
  have hcfile : u.cfile = v.cfile := Nat.le_antisymm h.cfile h'.cfile
  cases u
  cases v
  simp_all only

theorem le_merge_left (u v : Usage) : u.Le (u.merge v) where
  textures s hs := by simp [merge, hs]
  samplers s hs := by simp [merge, hs]
  uniformBlocks b := by simp [merge]
  cfile := Nat.le_max_left _ _

theorem le_merge_right (u v : Usage) : v.Le (u.merge v) where
  textures s hs := by simp [merge, hs]
  samplers s hs := by simp [merge, hs]
  uniformBlocks b := by simp [merge]
  cfile := Nat.le_max_right _ _

theorem merge_le (h : u.Le w) (h' : v.Le w) : (u.merge v).Le w where
  textures s hs := by
    rw [merge, getElem_zipWith_slot, Bool.or_eq_true] at hs
    exact hs.elim (h.textures s) (h'.textures s)
  samplers s hs := by
    rw [merge, getElem_zipWith_slot, Bool.or_eq_true] at hs
    exact hs.elim (h.samplers s) (h'.samplers s)
  uniformBlocks b := by
    rw [merge, getElem_zipWith_slot]
    exact Nat.max_le.mpr ⟨h.uniformBlocks b, h'.uniformBlocks b⟩
  cfile := Nat.max_le.mpr ⟨h.cfile, h'.cfile⟩

/-- Usages form a semilattice, in which merging is the join. -/
instance : SemilatticeSup Usage where
  le := Le
  le_refl := Le.refl
  le_trans _ _ _ := Le.trans
  le_antisymm _ _ := Le.antisymm
  sup := merge
  le_sup_left := le_merge_left
  le_sup_right := le_merge_right
  sup_le _ _ _ := merge_le

/-! ## Recorded usages -/

/-- Two usages that record the same accesses are equal. -/
theorem Records.unique {P : Access → Prop} (hu : u.Records P) (hv : v.Records P) : u = v :=
  (hu.le hv fun _ ha => ha).antisymm (hv.le hu fun _ ha => ha)

theorem records_ofAccesses (p : List Access) : (ofAccesses p).Records (· ∈ p) :=
  (Records.empty.foldl p).congr fun a => by simp

/-- Recording one list after the other merges what they record. -/
theorem ofAccesses_append (p q : List Access) :
    ofAccesses (p ++ q) = (ofAccesses p).merge (ofAccesses q) := by
  apply Records.unique (records_ofAccesses (p ++ q))
  apply ((records_ofAccesses p).merge (records_ofAccesses q)).congr
  intro a
  exact List.mem_append.symm

/-- Neither the order of the accesses nor how often they occur matters. -/
theorem ofAccesses_congr (h : ∀ a, a ∈ p ↔ a ∈ q) : ofAccesses p = ofAccesses q :=
  (records_ofAccesses p).unique ((records_ofAccesses q).congr fun a => (h a).symm)

end Usage

/-! ## Resources cut down to a usage -/

namespace StageResources

variable {r r' : StageResources} {u v : Usage}

/-- Every binding of `r` is one of `r'`, where it is at least as large. -/
structure KeptIn (r r' : StageResources) : Prop where
  textures : ∀ (s : Slot) b, r.textures[s] = some b → r'.textures[s] = some b
  samplers : ∀ (s : Slot) b, r.samplers[s] = some b → r'.samplers[s] = some b
  uniformBlocks : ∀ (s : Slot) b, r.uniformBlocks[s] = some b →
    ∃ b', r'.uniformBlocks[s] = some b' ∧ b'.handle = b.handle ∧ b.size ≤ b'.size
  cfileSize : r.cfileSize ≤ r'.cfileSize

theorem keepIf_eq_some {α : Type} {binding : Option α} {used : Bool} {a : α} :
    keepIf binding used = some a ↔ used = true ∧ binding = some a := by
  cases used <;> simp [keepIf]

theorem trimBlock_eq_some {binding : Option BlockBinding} {count : Nat} {b : BlockBinding} :
    trimBlock binding count = some b ↔
      0 < count ∧ ∃ b₀, binding = some b₀ ∧ b = { b₀ with size := min b₀.size count } := by
  unfold trimBlock
  split
  · rename_i hcount
    rw [Option.map_eq_some_iff]
    constructor
    · rintro ⟨b₀, hb₀, rfl⟩
      exact ⟨hcount, b₀, hb₀, rfl⟩
    · rintro ⟨-, b₀, hb₀, rfl⟩
      exact ⟨b₀, hb₀, rfl⟩
  · rename_i hcount
    simp [hcount]

/-- A larger usage keeps more. -/
theorem clean_mono (h : u.Le v) (r : StageResources) : (r.clean u).KeptIn (r.clean v) where
  textures s b hb := by
    rw [clean, getElem_zipWith_slot, keepIf_eq_some] at hb ⊢
    exact ⟨h.textures s hb.1, hb.2⟩
  samplers s b hb := by
    rw [clean, getElem_zipWith_slot, keepIf_eq_some] at hb ⊢
    exact ⟨h.samplers s hb.1, hb.2⟩
  uniformBlocks s b hb := by
    rw [clean, getElem_zipWith_slot, trimBlock_eq_some] at hb
    obtain ⟨hcount, b₀, hb₀, rfl⟩ := hb
    have hle := h.uniformBlocks s
    refine ⟨{ b₀ with size := min b₀.size v.uniformBlocks[s] }, ?_, rfl, ?_⟩
    · rw [clean, getElem_zipWith_slot, trimBlock_eq_some]
      exact ⟨by omega, b₀, hb₀, rfl⟩
    · show min b₀.size u.uniformBlocks[s] ≤ min b₀.size v.uniformBlocks[s]
      omega
  cfileSize := by
    have hle := h.cfile
    show min r.cfileSize u.cfile ≤ min r.cfileSize v.cfile
    omega

theorem keepIf_keepIf {α : Type} (binding : Option α) (used : Bool) :
    keepIf (keepIf binding used) used = keepIf binding used := by
  cases used <;> rfl

theorem trimBlock_trimBlock (binding : Option BlockBinding) (count : Nat) :
    trimBlock (trimBlock binding count) count = trimBlock binding count := by
  cases binding with
  | none => simp [trimBlock]
  | some b =>
    by_cases hcount : 0 < count
    · simp [trimBlock, hcount]
    · simp [trimBlock, hcount]

/-- Cutting resources down to the same usage again changes nothing. -/
theorem clean_clean (r : StageResources) (u : Usage) : (r.clean u).clean u = r.clean u := by
  have htextures : ((r.clean u).clean u).textures = (r.clean u).textures :=
    ext_slot fun s => by simp [clean, keepIf_keepIf]
  have hsamplers : ((r.clean u).clean u).samplers = (r.clean u).samplers :=
    ext_slot fun s => by simp [clean, keepIf_keepIf]
  have hblocks : ((r.clean u).clean u).uniformBlocks = (r.clean u).uniformBlocks :=
    ext_slot fun s => by simp [clean, trimBlock_trimBlock]
  have hcfile : ((r.clean u).clean u).cfileSize = (r.clean u).cfileSize := by
    show min (min r.cfileSize u.cfile) u.cfile = min r.cfileSize u.cfile
    omega
  unfold clean at *
  rw [StageResources.mk.injEq]
  exact ⟨htextures, hsamplers, hblocks, hcfile⟩

end StageResources

namespace Usage

/-- Recording is a union: of lists one after the other, of lists in any order and with repetitions,
and of usages that are merged. Resources that are cut down to a union keep what they keep when they
are cut down to a part of it. -/
theorem ofAccesses_union (p q : List Access) (u v w : Usage) (r : StageResources) :
    ofAccesses (p ++ q) = (ofAccesses p).merge (ofAccesses q) ∧
    ((∀ a, a ∈ p ↔ a ∈ q) → ofAccesses p = ofAccesses q) ∧
    u.merge v = v.merge u ∧ (u.merge v).merge w = u.merge (v.merge w) ∧ u.merge u = u ∧
    (r.clean u).KeptIn (r.clean (u.merge v)) ∧ (r.clean u).clean u = r.clean u :=
  ⟨ofAccesses_append p q, ofAccesses_congr, sup_comm u v, sup_assoc u v w, sup_idem u,
    StageResources.clean_mono (le_merge_left u v) r, r.clean_clean u⟩

/-- Two accesses in the other order, one of them twice. -/
theorem ofAccesses_union_swapped :
    let p : List Access := [.uniform ⟨9, by decide⟩ 5, .cfileAll]
    let q : List Access := [.cfileAll, .uniform ⟨9, by decide⟩ 5, .cfileAll]
    (∀ a, a ∈ p ↔ a ∈ q) ∧ ofAccesses p = ofAccesses q := by
  intro p q
  have hsame : ∀ a, a ∈ p ↔ a ∈ q := by
    intro a
    simp only [p, q, List.mem_cons, List.not_mem_nil, or_false]
    tauto
  exact ⟨hsame, (ofAccesses_union p q {} {} {} {}).2.1 hsame⟩

end Usage

end LatteHlsl
