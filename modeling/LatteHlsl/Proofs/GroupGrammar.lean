import Mathlib.Data.List.Forall2
import Mathlib.Data.List.Nodup
import Mathlib.Data.List.Perm.Basic
import LatteHlsl.Proofs.Counting
import LatteHlsl.Proofs.Usage

/-!
# The grammar of ALU clauses

A group is written as its instructions, of which exactly the last one is marked, followed by the
slots of its literals. Nothing in a slot says which of the two it is, so a reader that takes one
literal too many or too few is lost for the rest of the clause. Reading accepts what the grammar
generates and nothing else, and it loses no slot.

* `Grammatical`: instructions and literals that form a group.
* `AluGroup.Carries`: the group that they form.
* `AluGroup.Fills`: instructions put on their units one after the other, as they are read.
* `Fills.grammatical`, `exists_fills_of_grammatical`: this is possible exactly where the grammar
  allows it.
* `read_of_grammatical`, `grammatical_of_read`: reading one group.
* `Cursor.Run`, `Cursor.readsGroups`: reading a clause.
-/

namespace LatteHlsl

open Isa

/-! ## Groups as they are written -/

/-- Whether only the T unit can run the instruction. -/
def transOnly (i : AluInstr) : Bool :=
  match i.op with
  | .ok op => op.traits.transOnly
  | .error _ => false

/-- The unit that an instruction claims: that of its destination channel, or T if it can run nowhere
else or that unit is taken. -/
def claimedUnit (taken : List Lane) (i : AluInstr) : Lane :=
  if transOnly i ∨ Lane.ofChan i.dstChan ∈ taken then .t else Lane.ofChan i.dstChan

/-- The units that instructions claim in turn. -/
def claimedUnits (taken : List Lane) : List AluInstr → List Lane
  | [] => []
  | i :: is => claimedUnit taken i :: claimedUnits (claimedUnit taken i :: taken) is

/-- A source of the instructions is the literal of a channel. -/
def AsksFor (is : List AluInstr) (c : Chan) : Prop :=
  ∃ i ∈ is, ∃ s ∈ i.srcs, s.sel = Operand.literalSel ∧ s.chan = c

/-- How many slots of literals instructions need: the first one holds X and Y, the second one Z
and W. -/
inductive NeedsLiterals (is : List AluInstr) : Nat → Prop where
  | none (h : ∀ c, ¬ AsksFor is c) : NeedsLiterals is 0
  | one (h : AsksFor is .x ∨ AsksFor is .y) (hz : ¬ AsksFor is .z) (hw : ¬ AsksFor is .w) :
      NeedsLiterals is 1
  | two (h : AsksFor is .z ∨ AsksFor is .w) : NeedsLiterals is 2

/-- Exactly the last instruction is marked. -/
def EndMarked (is : List AluInstr) : Prop :=
  ∃ init final, is = init ++ [final] ∧ final.last = true ∧ ∀ i ∈ init, i.last = false

/-- Instructions and literals that form a group. -/
structure Grammatical (instrs literals : List AluInstr) : Prop where
  known : ∀ i ∈ instrs, ∃ op, i.op = .ok op
  marked : EndMarked instrs
  units : (claimedUnits [] instrs).count .t ≤ 1
  literals : NeedsLiterals instrs literals.length

/-- The group has the instructions on the units that they claim, and the literals that they ask
for. -/
structure AluGroup.Carries (g : AluGroup) (instrs literals : List AluInstr) : Prop where
  occupied : g.occupied.Perm ((claimedUnits [] instrs).zip instrs)
  size : g.size = instrs.length
  size_le : g.size ≤ 5
  literal : ∀ c, AsksFor instrs c → ∃ slot, literals[c.index / 2]? = some slot ∧
    [slot.word0, slot.word1][c.index % 2]? = some (g.literal c)

theorem EndMarked.ne_nil {is : List AluInstr} (h : EndMarked is) : is ≠ [] := by
  obtain ⟨init, final, rfl, -⟩ := h
  exact List.append_ne_nil_of_right_ne_nil init (List.cons_ne_nil final [])

theorem endMarked_singleton {i : AluInstr} : EndMarked [i] ↔ i.last = true := by
  constructor
  · rintro ⟨init, final, heq, hfinal, -⟩
    have hsame : [i] = [final] :=
      List.append_inj_right' (show [] ++ [i] = init ++ [final] from heq) rfl
    rw [(List.cons.inj hsame).1]
    exact hfinal
  · intro hlast
    exact ⟨[], i, rfl, hlast, fun _ hj => absurd hj List.not_mem_nil⟩

/-- Before other instructions, an instruction is not marked. -/
theorem endMarked_cons_iff {i : AluInstr} {is : List AluInstr} (hne : is ≠ []) :
    EndMarked (i :: is) ↔ i.last = false ∧ EndMarked is := by
  constructor
  · rintro ⟨init, final, heq, hfinal, hinit⟩
    cases init with
    | nil => exact absurd (List.cons.inj heq).2 hne
    | cons j init =>
      obtain ⟨rfl, rfl⟩ := List.cons.inj heq
      obtain ⟨hi, hinit⟩ := List.forall_mem_cons.mp hinit
      exact ⟨hi, init, final, rfl, hfinal, hinit⟩
  · rintro ⟨hi, init, final, rfl, hfinal, hinit⟩
    exact ⟨i :: init, final, rfl, hfinal, List.forall_mem_cons.mpr ⟨hi, hinit⟩⟩

theorem length_claimedUnits (taken : List Lane) (is : List AluInstr) :
    (claimedUnits taken is).length = is.length := by
  induction is generalizing taken with
  | nil => rfl
  | cons i is ih =>
    rw [claimedUnits, List.length_cons, ih, List.length_cons]

/-! ## Units -/

namespace AluGroup

theorem lane_setLane (g : AluGroup) (l k : Lane) (i : AluInstr) :
    (g.setLane l i).lane k = if k = l then some i else g.lane k := by
  cases l <;> cases k <;> rfl

theorem mem_occupied {g : AluGroup} {l : Lane} {i : AluInstr} :
    (l, i) ∈ g.occupied ↔ g.lane l = some i := by
  have hall : l ∈ Lane.all := by cases l <;> decide
  rw [occupied, List.mem_filterMap]
  constructor
  · rintro ⟨k, -, hk⟩
    obtain ⟨j, hj, heq⟩ := Option.map_eq_some_iff.mp hk
    obtain ⟨rfl, rfl⟩ := Prod.mk.inj heq
    exact hj
  · intro hi
    exact ⟨l, hall, by rw [hi]; rfl⟩

theorem nodup_occupied (g : AluGroup) : g.occupied.Nodup := by
  refine List.Nodup.filterMap ?_ (by decide)
  intro l l' p hl hl'
  obtain ⟨i, -, rfl⟩ := Option.map_eq_some_iff.mp hl
  obtain ⟨j, -, heq⟩ := Option.map_eq_some_iff.mp hl'
  exact (Prod.mk.inj heq).1.symm

theorem size_le_five (g : AluGroup) : g.size ≤ 5 := List.length_filterMap_le _ Lane.all

/-- An instruction on a free unit is one more. -/
theorem occupied_setLane {g : AluGroup} {l : Lane} (i : AluInstr) (hl : g.lane l = none) :
    (g.setLane l i).occupied.Perm ((l, i) :: g.occupied) := by
  have hnew : (l, i) ∉ g.occupied := by
    rw [mem_occupied, hl]
    exact fun h => Option.some_ne_none i h.symm
  refine (List.perm_ext_iff_of_nodup (nodup_occupied _)
    (List.nodup_cons.mpr ⟨hnew, nodup_occupied g⟩)).mpr ?_
  rintro ⟨k, j⟩
  rw [mem_occupied, lane_setLane, List.mem_cons, mem_occupied, Prod.mk.injEq]
  by_cases hk : k = l
  · subst hk
    rw [if_pos rfl, hl, Option.some.injEq]
    simp [eq_comm]
  · rw [if_neg hk]
    simp [hk]

/-- The units of a group that are taken, each of them once. -/
def Takes (g : AluGroup) (taken : List Lane) : Prop :=
  ∀ l, taken.count l = if (g.lane l).isSome then 1 else 0

theorem Takes.mem_iff {g : AluGroup} {taken : List Lane} (h : g.Takes taken) (l : Lane) :
    l ∈ taken ↔ (g.lane l).isSome = true := by
  rw [← List.count_pos_iff, h l]
  split <;> simp [*]

theorem Takes.setLane {g : AluGroup} {taken : List Lane} {l : Lane} (h : g.Takes taken)
    (i : AluInstr) (hl : g.lane l = none) : (g.setLane l i).Takes (l :: taken) := by
  intro k
  rw [List.count_cons, h k, lane_setLane]
  by_cases hk : k = l
  · subst hk
    simp [hl]
  · have hlk : ¬ l = k := fun heq => hk heq.symm
    simp [hk, hlk]

theorem unitFor_eq {g : AluGroup} {taken : List Lane} {i : AluInstr} {op : AluOp}
    (h : g.Takes taken) (hop : i.op = .ok op) : g.unitFor op i = claimedUnit taken i := by
  have hmem := h.mem_iff (Lane.ofChan i.dstChan)
  simp only [unitFor, claimedUnit, transOnly, hop, hmem, Bool.or_eq_true]

/-- A unit that is claimed is free, or it is T. -/
theorem lane_claimedUnit {g : AluGroup} {taken : List Lane} {i : AluInstr} (h : g.Takes taken)
    (hne : claimedUnit taken i ≠ .t) : g.lane (claimedUnit taken i) = none := by
  unfold claimedUnit at hne ⊢
  split at hne
  · exact absurd rfl hne
  · rename_i hfree
    rw [if_neg hfree, ← Option.not_isSome_iff_eq_none, ← h.mem_iff]
    exact fun hmem => hfree (.inr hmem)

/-- Whether a claimed unit is free depends on how often T was claimed. -/
theorem lane_claimedUnit_iff {g : AluGroup} {taken : List Lane} {i : AluInstr} (h : g.Takes taken) :
    g.lane (claimedUnit taken i) = none ↔ (claimedUnit taken i :: taken).count .t ≤ 1 := by
  rw [List.count_cons, h .t]
  by_cases ht : claimedUnit taken i = .t
  · rw [ht]
    cases g.lane .t <;> simp
  · refine iff_of_true (lane_claimedUnit h ht) ?_
    split <;> simp [ht]

/-! ## Reading the instructions -/

/-- Instructions up to the one that is marked fill free units of a group. -/
inductive Fills : AluGroup → List AluInstr → AluGroup → Prop where
  | last {g : AluGroup} {i : AluInstr} {op : AluOp} (hop : i.op = .ok op)
      (hfree : g.lane (g.unitFor op i) = none) (hlast : i.last = true) :
      Fills g [i] (g.setLane (g.unitFor op i) i)
  | cons {g g' : AluGroup} {i : AluInstr} {is : List AluInstr} {op : AluOp} (hop : i.op = .ok op)
      (hfree : g.lane (g.unitFor op i) = none) (hlast : i.last = false)
      (hrest : Fills (g.setLane (g.unitFor op i) i) is g') : Fills g (i :: is) g'

theorem Fills.ne_nil {g g' : AluGroup} {is : List AluInstr} (h : Fills g is g') : is ≠ [] := by
  cases h <;> exact List.cons_ne_nil _ _

/-- The literal slots that instructions need beyond `needed`. -/
def literalsFrom (needed : Nat) (is : List AluInstr) : Nat :=
  is.foldl (fun n i => Nat.max n (instrLiterals i)) needed

/-- What fills the group is read as its instructions. -/
theorem Fills.readFrom_eq {start consumed needed : Nat} {g g' : AluGroup} {is : List AluInstr}
    (h : Fills g is g') (rest : List AluInstr) :
    readFrom start g consumed needed (is ++ rest) =
      finish start g' (consumed + is.length) (literalsFrom needed is) rest := by
  induction h generalizing consumed needed with
  | last hop hfree hlast =>
    rw [List.singleton_append, readFrom]
    simp only [hop, hfree, hlast, Option.isSome_none, Bool.false_eq_true, if_false, if_true]
    rfl
  | @cons g g' i is op hop hfree hlast _ ih =>
    rw [List.cons_append, readFrom]
    simp only [hop, hfree, hlast, Option.isSome_none, Bool.false_eq_true, if_false]
    rw [ih, List.length_cons, literalsFrom, literalsFrom, List.foldl_cons,
      show consumed + 1 + is.length = consumed + (is.length + 1) by omega]

/-- What is read as a group begins with instructions that fill it. -/
theorem exists_fills {start consumed needed : Nat} {g g' : AluGroup} {slots : List AluInstr}
    (h : (readFrom start g consumed needed slots).outcome = .ok g') :
    ∃ is rest filled, slots = is ++ rest ∧ Fills g is filled := by
  induction slots generalizing g consumed needed with
  | nil => cases h
  | cons i slots ih =>
    rw [readFrom] at h
    cases hop : i.op with
    | error fault =>
      simp only [hop] at h
      cases h
    | ok op =>
      simp only [hop] at h
      cases hfree : g.lane (g.unitFor op i) with
      | some j =>
        simp only [hfree, Option.isSome_some, if_true] at h
        cases h
      | none =>
        simp only [hfree, Option.isSome_none, Bool.false_eq_true, if_false] at h
        cases hlast : i.last with
        | true => exact ⟨[i], slots, _, rfl, .last hop hfree hlast⟩
        | false =>
          simp only [hlast, Bool.false_eq_true, if_false] at h
          obtain ⟨is, rest, filled, rfl, hfills⟩ := ih h
          exact ⟨i :: is, rest, filled, rfl, .cons hop hfree hlast hfills⟩

/-- The claims of the first instruction and of the others are the claims of all. -/
theorem count_claimedUnits_cons (taken : List Lane) (i : AluInstr) (is : List AluInstr) (l : Lane) :
    (claimedUnits taken (i :: is) ++ taken).count l =
      (claimedUnits (claimedUnit taken i :: taken) is ++ claimedUnit taken i :: taken).count l := by
  rw [claimedUnits, List.cons_append, List.count_cons, List.count_append, List.count_append,
    List.count_cons]
  omega

/-- What fills a group is grammatical, as far as the units are not yet taken. -/
theorem Fills.grammatical {g g' : AluGroup} {taken : List Lane} {is : List AluInstr}
    (h : Fills g is g') (hg : g.Takes taken) :
    (∀ i ∈ is, ∃ op, i.op = .ok op) ∧ EndMarked is ∧
      (claimedUnits taken is ++ taken).count .t ≤ 1 := by
  induction h generalizing taken with
  | @last g i op hop hfree hlast =>
    rw [unitFor_eq hg hop] at hfree
    refine ⟨?_, endMarked_singleton.mpr hlast, (lane_claimedUnit_iff hg).mp hfree⟩
    intro j hj
    rw [List.mem_singleton.mp hj]
    exact ⟨op, hop⟩
  | @cons g g' i is op hop hfree hlast hrest ih =>
    rw [unitFor_eq hg hop] at hfree ih
    obtain ⟨hknown, hmarked, hunits⟩ := ih (hg.setLane i hfree)
    refine ⟨List.forall_mem_cons.mpr ⟨⟨op, hop⟩, hknown⟩, ?_, ?_⟩
    · exact (endMarked_cons_iff hrest.ne_nil).mpr ⟨hlast, hmarked⟩
    · rw [count_claimedUnits_cons]
      exact hunits

/-- Each instruction is put on the unit that it claims. -/
theorem Fills.occupied {g g' : AluGroup} {taken : List Lane} {is : List AluInstr}
    (h : Fills g is g') (hg : g.Takes taken) :
    g'.occupied.Perm (g.occupied ++ (claimedUnits taken is).zip is) := by
  induction h generalizing taken with
  | @last g i op hop hfree hlast =>
    rw [unitFor_eq hg hop] at hfree ⊢
    exact (occupied_setLane i hfree).trans (List.perm_append_singleton _ _).symm
  | @cons g g' i is op hop hfree hlast hrest ih =>
    rw [unitFor_eq hg hop] at hfree ih
    have hstep := occupied_setLane i hfree
    refine (ih (hg.setLane i hfree)).trans ?_
    refine (hstep.append_right _).trans ?_
    rw [claimedUnits, List.zip_cons_cons]
    exact List.perm_middle.symm

/-- What is grammatical fills a group. -/
theorem exists_fills_of_grammatical {g : AluGroup} {taken : List Lane} {is : List AluInstr}
    (hg : g.Takes taken) (hknown : ∀ i ∈ is, ∃ op, i.op = .ok op) (hmarked : EndMarked is)
    (hunits : (claimedUnits taken is ++ taken).count .t ≤ 1) : ∃ g', Fills g is g' := by
  induction is generalizing g taken with
  | nil => exact absurd rfl hmarked.ne_nil
  | cons i is ih =>
    obtain ⟨⟨op, hop⟩, hknown⟩ := List.forall_mem_cons.mp hknown
    rw [count_claimedUnits_cons] at hunits
    -- a vector unit is free because it is claimed, and T because it is claimed only once
    have hfree : g.lane (g.unitFor op i) = none := by
      rw [unitFor_eq hg hop, lane_claimedUnit_iff hg]
      rw [List.count_append] at hunits
      omega
    cases is with
    | nil => exact ⟨_, .last hop hfree (endMarked_singleton.mp hmarked)⟩
    | cons j is =>
      obtain ⟨hlast, hmarked⟩ := (endMarked_cons_iff (List.cons_ne_nil j is)).mp hmarked
      have htakes := hg.setLane i (unitFor_eq hg hop ▸ hfree)
      rw [← unitFor_eq hg hop] at htakes hunits
      obtain ⟨g', hfills⟩ := ih htakes hknown hmarked hunits
      exact ⟨g', .cons hop hfree hlast hfills⟩

theorem takes_empty : AluGroup.Takes {} [] := by
  intro l
  cases l <;> rfl

/-! ## Reading the literals -/

theorem foldl_max_map_le_iff {α : Type} {f : α → Nat} {as : List α} {m n : Nat} :
    as.foldl (fun k a => Nat.max k (f a)) m ≤ n ↔ m ≤ n ∧ ∀ a ∈ as, f a ≤ n := by
  have hmap : as.foldl (fun k a => Nat.max k (f a)) m = (as.map f).foldl max m :=
    List.foldl_map.symm
  rw [hmap, foldl_max_le_iff, List.forall_mem_map]

theorem literalsFrom_zero_le_iff {is : List AluInstr} {n : Nat} :
    literalsFrom 0 is ≤ n ↔ ∀ i ∈ is, ∀ s ∈ i.srcs, sourceLiterals s ≤ n := by
  rw [literalsFrom, foldl_max_map_le_iff]
  simp only [instrLiterals, foldl_max_map_le_iff, Nat.zero_le, true_and]

theorem sourceLiterals_le_zero_iff {s : AluSource} :
    sourceLiterals s ≤ 0 ↔ s.sel ≠ Operand.literalSel := by
  unfold sourceLiterals
  split
  · rename_i hsel
    split <;> simp [hsel]
  · rename_i hsel
    simp [hsel]

theorem sourceLiterals_le_one_iff {s : AluSource} :
    sourceLiterals s ≤ 1 ↔ (s.sel = Operand.literalSel → s.chan ≠ .z ∧ s.chan ≠ .w) := by
  unfold sourceLiterals
  split
  · rename_i hsel
    cases s.chan <;> simp [hsel, Chan.index]
  · rename_i hsel
    simp [hsel]

theorem literalsFrom_le_zero_iff {is : List AluInstr} :
    literalsFrom 0 is ≤ 0 ↔ ∀ c, ¬ AsksFor is c := by
  simp only [literalsFrom_zero_le_iff, sourceLiterals_le_zero_iff]
  constructor
  · rintro h c ⟨i, hi, s, hs, hsel, -⟩
    exact h i hi s hs hsel
  · intro h i hi s hs hsel
    exact h s.chan ⟨i, hi, s, hs, hsel, rfl⟩

theorem literalsFrom_le_one_iff {is : List AluInstr} :
    literalsFrom 0 is ≤ 1 ↔ ¬ AsksFor is .z ∧ ¬ AsksFor is .w := by
  simp only [literalsFrom_zero_le_iff, sourceLiterals_le_one_iff]
  constructor
  · intro h
    constructor
    · rintro ⟨i, hi, s, hs, hsel, hchan⟩
      exact (h i hi s hs hsel).1 hchan
    · rintro ⟨i, hi, s, hs, hsel, hchan⟩
      exact (h i hi s hs hsel).2 hchan
  · rintro ⟨hz, hw⟩ i hi s hs hsel
    exact ⟨fun hchan => hz ⟨i, hi, s, hs, hsel, hchan⟩,
      fun hchan => hw ⟨i, hi, s, hs, hsel, hchan⟩⟩

theorem literalsFrom_le_two (is : List AluInstr) : literalsFrom 0 is ≤ 2 := by
  rw [literalsFrom_zero_le_iff]
  intro i _ s _
  unfold sourceLiterals
  split
  · split <;> decide
  · decide

/-- Reading asks for as many slots of literals as the sources need. -/
theorem needsLiterals_iff {is : List AluInstr} {n : Nat} :
    NeedsLiterals is n ↔ literalsFrom 0 is = n := by
  have hzero := @literalsFrom_le_zero_iff is
  have hone := @literalsFrom_le_one_iff is
  have htwo := literalsFrom_le_two is
  constructor
  · intro h
    cases h with
    | none h =>
      have hle := hzero.mpr h
      omega
    | one h hz hw =>
      have hle := hone.mpr ⟨hz, hw⟩
      have hpos : ¬ literalsFrom 0 is ≤ 0 := fun hle => h.elim (hzero.mp hle .x) (hzero.mp hle .y)
      omega
    | two h =>
      have hgt : ¬ literalsFrom 0 is ≤ 1 := fun hle => h.elim (hone.mp hle).1 (hone.mp hle).2
      omega
  · rintro rfl
    by_cases h0 : literalsFrom 0 is ≤ 0
    · have hasks := hzero.mp h0
      rw [Nat.le_zero.mp h0]
      exact .none hasks
    · by_cases h1 : literalsFrom 0 is ≤ 1
      · obtain ⟨hz, hw⟩ := hone.mp h1
        obtain ⟨c, hc⟩ := not_forall.mp fun hasks => h0 (hzero.mpr hasks)
        have hxy : AsksFor is .x ∨ AsksFor is .y := by
          cases c with
          | x => exact .inl (not_not.mp hc)
          | y => exact .inr (not_not.mp hc)
          | z => exact absurd hz hc
          | w => exact absurd hw hc
        rw [show literalsFrom 0 is = 1 by omega]
        exact .one hxy hz hw
      · have hzw : AsksFor is .z ∨ AsksFor is .w := by
          by_cases hz : AsksFor is .z
          · exact .inl hz
          · exact .inr (not_not.mp fun hw => h1 (hone.mpr ⟨hz, hw⟩))
        rw [show literalsFrom 0 is = 2 by omega]
        exact .two hzw

/-- A literal that is asked for lies in one of the slots. -/
theorem lt_of_asksFor {is : List AluInstr} {n : Nat} {c : Chan} (h : NeedsLiterals is n)
    (hc : AsksFor is c) : c.index / 2 < n := by
  cases h with
  | none hnone => exact absurd hc (hnone c)
  | one _ hz hw =>
    cases c with
    | x | y => decide
    | z => exact absurd hc hz
    | w => exact absurd hc hw
  | two _ => cases c <;> decide

theorem literal_withLiterals {g : AluGroup} {slots : List AluInstr} {c : Chan} {slot : AluInstr}
    (h : slots[c.index / 2]? = some slot) :
    [slot.word0, slot.word1][c.index % 2]? = some ((g.withLiterals slots).literal c) := by
  rcases slots with _ | ⟨a, _ | ⟨b, rest⟩⟩
  · cases h
  · cases c with
    | x | y =>
      obtain rfl := Option.some.inj h
      rfl
    | z | w => cases h
  · cases c with
    | x | y | z | w =>
      obtain rfl := Option.some.inj h
      rfl

theorem occupied_withLiterals (g : AluGroup) (slots : List AluInstr) :
    (g.withLiterals slots).occupied = g.occupied := by
  unfold withLiterals
  split <;> rfl

theorem finish_of_le {start consumed needed : Nat} {g : AluGroup} {rest : List AluInstr}
    (h : needed ≤ rest.length) : finish start g consumed needed rest =
      ⟨.ok (g.withLiterals (rest.take needed)), consumed + needed⟩ := by
  by_cases hzero : needed = 0
  · rw [finish, if_pos hzero, hzero]
    rfl
  · rw [finish, if_neg hzero, if_pos h]

theorem le_of_finish {start consumed needed : Nat} {g g' : AluGroup} {rest : List AluInstr}
    (h : (finish start g consumed needed rest).outcome = .ok g') : needed ≤ rest.length := by
  unfold finish at h
  split at h
  · rename_i hzero
    rw [hzero]
    exact Nat.zero_le _
  · split at h
    · assumption
    · cases h

/-! ## Reading a group -/

/-- What is grammatical is read as the group that it forms. -/
theorem read_of_grammatical {instrs literals : List AluInstr} (start : Nat) (rest : List AluInstr)
    (h : Grammatical instrs literals) :
    ∃ g : AluGroup, g.Carries instrs literals ∧
      read start (instrs ++ literals ++ rest) = ⟨.ok g, instrs.length + literals.length⟩ := by
  obtain ⟨filled, hfills⟩ := exists_fills_of_grammatical takes_empty h.known h.marked
    (by rw [List.append_nil]; exact h.units)
  have hneeded : literalsFrom 0 instrs = literals.length := needsLiterals_iff.mp h.literals
  have hread : read start (instrs ++ literals ++ rest) =
      ⟨.ok (filled.withLiterals literals), instrs.length + literals.length⟩ := by
    have hle : literals.length ≤ (literals ++ rest).length := by
      rw [List.length_append]
      omega
    rw [read, List.append_assoc, hfills.readFrom_eq, hneeded, finish_of_le hle, List.take_left,
      Nat.zero_add]
  have hoccupied : (filled.withLiterals literals).occupied.Perm
      ((claimedUnits [] instrs).zip instrs) := by
    rw [occupied_withLiterals]
    exact hfills.occupied takes_empty
  refine ⟨_, ⟨hoccupied, ?_, size_le_five _, ?_⟩, hread⟩
  · rw [size, hoccupied.length_eq, List.length_zip, length_claimedUnits, Nat.min_self]
  · intro c hc
    have hlt := lt_of_asksFor h.literals hc
    exact ⟨_, List.getElem?_eq_getElem hlt, literal_withLiterals (List.getElem?_eq_getElem hlt)⟩

/-- What is read as a group is grammatical. -/
theorem grammatical_of_read {start : Nat} {slots : List AluInstr} {g : AluGroup}
    (h : (read start slots).outcome = .ok g) :
    ∃ instrs literals rest, Grammatical instrs literals ∧ slots = instrs ++ literals ++ rest := by
  -- the instructions are fixed by the mark, and the literals by what the instructions ask for
  obtain ⟨instrs, after, filled, rfl, hfills⟩ := exists_fills h
  obtain ⟨hknown, hmarked, hunits⟩ := hfills.grammatical takes_empty
  rw [read, hfills.readFrom_eq] at h
  have hle := le_of_finish h
  have hlength : (after.take (literalsFrom 0 instrs)).length = literalsFrom 0 instrs :=
    List.length_take_of_le hle
  refine ⟨instrs, after.take (literalsFrom 0 instrs), after.drop (literalsFrom 0 instrs),
    ⟨hknown, hmarked, ?_, ?_⟩, ?_⟩
  · rw [List.append_nil] at hunits
    exact hunits
  · exact needsLiterals_iff.mpr hlength.symm
  · rw [List.append_assoc, List.take_append_drop]

/-! ## Reading a clause -/

theorem consumed_finish_le (start : Nat) (g : AluGroup) (consumed needed : Nat)
    (rest : List AluInstr) :
    (finish start g consumed needed rest).consumed ≤ consumed + rest.length := by
  unfold finish
  split
  · exact Nat.le_add_right _ _
  · split
    · exact Nat.add_le_add_left (by assumption) _
    · exact Nat.le_add_right _ _

/-- Whatever reading comes to, it uses up a slot where there is one, and does not go past the
end. -/
theorem consumed_readFrom_bounds (start : Nat) (g : AluGroup) (consumed needed : Nat)
    (slots : List AluInstr) :
    consumed + min 1 slots.length ≤ (readFrom start g consumed needed slots).consumed ∧
      (readFrom start g consumed needed slots).consumed ≤ consumed + slots.length := by
  induction slots generalizing g consumed needed with
  | nil => exact ⟨Nat.le_refl _, Nat.le_refl _⟩
  | cons i slots ih =>
    have hstop : consumed + min 1 (slots.length + 1) ≤ consumed + 1 ∧
        consumed + 1 ≤ consumed + (slots.length + 1) := by
      omega
    rw [readFrom, List.length_cons]
    cases i.op with
    | error fault => exact hstop
    | ok op =>
      dsimp only
      split
      · exact hstop
      · split
        · have hle := le_consumed_finish start (g.setLane (g.unitFor op i) i) (consumed + 1)
            (Nat.max needed (instrLiterals i)) slots
          have hge := consumed_finish_le start (g.setLane (g.unitFor op i) i) (consumed + 1)
            (Nat.max needed (instrLiterals i)) slots
          omega
        · have hrest := ih (g.setLane (g.unitFor op i) i) (consumed + 1)
            (Nat.max needed (instrLiterals i))
          omega

namespace Cursor

theorem atEnd_iff {c : Cursor} : c.atEnd = true ↔ c.slots.length ≤ c.pos := by
  rw [atEnd, decide_eq_true_eq]

theorem not_atEnd_iff {c : Cursor} : c.atEnd = false ↔ c.pos < c.slots.length := by
  rw [← Bool.not_eq_true, atEnd_iff, Nat.not_le]

@[simp] theorem next_slots (c : Cursor) : c.next.2.slots = c.slots := rfl

/-- Before the end, each call moves on, and not past the end. -/
theorem next_pos {c : Cursor} (h : c.atEnd = false) :
    c.pos < c.next.2.pos ∧ c.next.2.pos ≤ c.slots.length := by
  have hlt := not_atEnd_iff.mp h
  have hbounds := consumed_readFrom_bounds c.pos {} 0 0 (c.slots.drop c.pos)
  rw [List.length_drop] at hbounds
  show c.pos < c.pos + (read c.pos (c.slots.drop c.pos)).consumed ∧
    c.pos + (read c.pos (c.slots.drop c.pos)).consumed ≤ c.slots.length
  rw [read]
  omega

theorem pos_of_next {c c' : Cursor} {r : Except DecodeFault AluGroup} (hend : c.atEnd = false)
    (hnext : c.next = (r, c')) :
    c'.slots = c.slots ∧ c.pos < c'.pos ∧ c'.pos ≤ c.slots.length := by
  obtain rfl : c.next.2 = c' := congrArg Prod.snd hnext
  exact ⟨rfl, next_pos hend⟩

/-- The place after `n` calls, whatever they come to. -/
def after : Nat → Cursor → Cursor
  | 0, c => c
  | n + 1, c => after n c.next.2

/-- One call a slot reaches the end. -/
theorem atEnd_after {n : Nat} {c : Cursor} (h : c.slots.length ≤ c.pos + n) :
    (after n c).atEnd = true := by
  induction n generalizing c with
  | zero => exact atEnd_iff.mpr h
  | succ n ih =>
    apply ih
    rw [next_slots]
    cases hend : c.atEnd with
    | true =>
      have hle := atEnd_iff.mp hend
      show c.slots.length ≤ c.pos + (read c.pos (c.slots.drop c.pos)).consumed + n
      omega
    | false =>
      have hlt := (next_pos hend).1
      omega

/-- Reading until the end or the first fault, as a loop without a bound. -/
inductive Run : Cursor → List (Except DecodeFault AluGroup × Cursor) → Prop where
  | done {c : Cursor} (hend : c.atEnd = true) : Run c []
  | fault {c c' : Cursor} {fault : DecodeFault} (hend : c.atEnd = false)
      (hnext : c.next = (.error fault, c')) : Run c [(.error fault, c')]
  | group {c c' : Cursor} {g : AluGroup} {rs : List (Except DecodeFault AluGroup × Cursor)}
      (hend : c.atEnd = false) (hnext : c.next = (.ok g, c')) (hrest : Run c' rs) :
      Run c ((.ok g, c') :: rs)

theorem run_readsToEnd {n : Nat} {c : Cursor} (h : c.slots.length ≤ c.pos + n) :
    c.Run (c.readsToEnd n) := by
  induction n generalizing c with
  | zero => exact .done (atEnd_iff.mpr h)
  | succ n ih =>
    rw [readsToEnd]
    cases hend : c.atEnd with
    | true => exact .done hend
    | false =>
      rw [if_neg Bool.false_ne_true]
      cases hnext : c.next with
      | mk outcome c' =>
        obtain ⟨hslots, hlt, -⟩ := pos_of_next hend hnext
        cases outcome with
        | error fault => exact .fault hend hnext
        | ok g =>
          refine .group hend hnext (ih ?_)
          rw [hslots]
          omega

theorem run_toEnd (c : Cursor) : c.Run c.toEnd := run_readsToEnd (Nat.le_add_left _ _)

/-- There are no more calls than slots. -/
theorem Run.length_le {c : Cursor} {rs : List (Except DecodeFault AluGroup × Cursor)}
    (h : c.Run rs) : rs.length ≤ c.slots.length - c.pos := by
  induction h with
  | done => exact Nat.zero_le _
  | fault hend =>
    have hlt := not_atEnd_iff.mp hend
    rw [List.length_singleton]
    omega
  | group hend hnext _ ih =>
    obtain ⟨hslots, hlt, hle⟩ := pos_of_next hend hnext
    rw [hslots] at ih
    rw [List.length_cons]
    omega

/-- What is grammatical is read, and the place moves past it. -/
theorem next_of_grammatical {c : Cursor} {instrs literals rest : List AluInstr}
    (h : Grammatical instrs literals) (hslots : c.slots.drop c.pos = instrs ++ literals ++ rest) :
    ∃ g : AluGroup, g.Carries instrs literals ∧
      c.next = (.ok g, { c with pos := c.pos + (instrs.length + literals.length) }) := by
  obtain ⟨g, hg, hread⟩ := read_of_grammatical c.pos rest h
  refine ⟨g, hg, ?_⟩
  rw [next, hslots, hread]

/-- A group that was read is that of the instructions and literals before the new place. -/
theorem exists_carries_of_next {c c' : Cursor} {g : AluGroup} (h : c.next = (.ok g, c')) :
    ∃ instrs literals, Grammatical instrs literals ∧ g.Carries instrs literals ∧
      c.slots.drop c.pos = instrs ++ literals ++ c'.slots.drop c'.pos := by
  have houtcome : (read c.pos (c.slots.drop c.pos)).outcome = .ok g := congrArg Prod.fst h
  obtain ⟨instrs, literals, rest, hgrammatical, hslots⟩ := grammatical_of_read houtcome
  obtain ⟨g', hg', hnext⟩ := next_of_grammatical hgrammatical hslots
  obtain ⟨hsame, rfl⟩ := Prod.mk.inj (hnext.symm.trans h)
  obtain rfl := Except.ok.inj hsame
  refine ⟨instrs, literals, hgrammatical, hg', ?_⟩
  show _ = instrs ++ literals ++ c.slots.drop (c.pos + (instrs.length + literals.length))
  rw [← List.drop_drop, hslots, ← List.length_append, List.drop_left]

/-- If all calls succeed, the slots are the instructions and literals of the groups in order. -/
theorem Run.partition {c : Cursor} {rs : List (Except DecodeFault AluGroup × Cursor)}
    {gs : List AluGroup} (h : c.Run rs) (hok : rs.map Prod.fst = gs.map .ok) :
    ∃ parts : List (List AluInstr × List AluInstr),
      List.Forall₂ (fun part g => Grammatical part.1 part.2 ∧ g.Carries part.1 part.2) parts gs ∧
        c.slots.drop c.pos = parts.flatMap fun part => part.1 ++ part.2 := by
  induction h generalizing gs with
  | done hend =>
    obtain rfl := List.map_eq_nil_iff.mp hok.symm
    exact ⟨[], .nil, List.drop_eq_nil_of_le (atEnd_iff.mp hend)⟩
  | fault hend hnext =>
    cases gs with
    | nil => cases hok
    | cons g gs => cases (List.cons.inj hok).1
  | group hend hnext _ ih =>
    cases gs with
    | nil => cases hok
    | cons g gs =>
      obtain ⟨hfirst, hrest⟩ := List.cons.inj hok
      obtain rfl := Except.ok.inj hfirst
      obtain ⟨instrs, literals, hgrammatical, hcarries, hslots⟩ := exists_carries_of_next hnext
      obtain ⟨parts, hparts, hafter⟩ := ih hrest
      refine ⟨(instrs, literals) :: parts, .cons ⟨hgrammatical, hcarries⟩ hparts, ?_⟩
      rw [hslots, hafter, List.flatMap_cons]

end Cursor

/-- The groups of a clause, and then the fault if there is one. -/
def Clause.outcomes (clause : Clause) : List (Except DecodeFault AluGroup) :=
  clause.groups.map .ok ++ clause.fault.toList.map .error

theorem outcomes_readUpTo (n : Nat) (c : Cursor) :
    (readUpTo n c.pos (c.slots.drop c.pos)).outcomes = (c.readsToEnd n).map Prod.fst := by
  induction n generalizing c with
  | zero => rfl
  | succ n ih =>
    rw [Cursor.readsToEnd]
    cases hslots : c.slots.drop c.pos with
    | nil =>
      have hend : c.atEnd = true := Cursor.atEnd_iff.mpr (List.drop_eq_nil_iff.mp hslots)
      rw [if_pos hend]
      rfl
    | cons i rest =>
      have hend : ¬ c.atEnd = true := by
        rw [Cursor.atEnd_iff, ← List.drop_eq_nil_iff, hslots]
        exact List.cons_ne_nil i rest
      rw [if_neg hend, Cursor.next, hslots, readUpTo]
      cases hread : (read c.pos (i :: rest)).outcome with
      | error fault => rfl
      | ok g =>
        have hrest := ih { c with pos := c.pos + (read c.pos (i :: rest)).consumed }
        rw [← List.drop_drop, hslots] at hrest
        show .ok g :: Clause.outcomes _ = .ok g :: _
        rw [hrest]

namespace Cursor

/-- The groups that are read from a place on, and what becomes of the slots. -/
structure ReadsGroups (c : Cursor) : Prop where
  /-- A call succeeds exactly if the grammar generates what follows. -/
  ok_iff : (∃ g, c.next.1 = .ok g) ↔ ∃ instrs literals rest, Grammatical instrs literals ∧
    c.slots.drop c.pos = instrs ++ literals ++ rest
  group : ∀ instrs literals rest, Grammatical instrs literals →
    c.slots.drop c.pos = instrs ++ literals ++ rest → ∃ g : AluGroup, g.Carries instrs literals ∧
      c.next = (.ok g, { c with pos := c.pos + (instrs.length + literals.length) })
  advances : c.atEnd = false → c.pos < c.next.2.pos ∧ c.next.2.pos ≤ c.slots.length
  /-- One call a slot reaches the end, even if reading goes on after faults. -/
  ends : (after (c.slots.length - c.pos) c).atEnd = true
  run : c.Run c.toEnd
  calls : c.toEnd.length ≤ c.slots.length - c.pos
  partition : ∀ gs : List AluGroup, c.toEnd.map Prod.fst = gs.map .ok →
    ∃ parts : List (List AluInstr × List AluInstr),
      List.Forall₂ (fun part g => Grammatical part.1 part.2 ∧ g.Carries part.1 part.2) parts gs ∧
        c.slots.drop c.pos = parts.flatMap fun part => part.1 ++ part.2
  /-- Clauses that are read as a whole are read in the same way. -/
  clause : c.pos = 0 → (readAll c.slots).outcomes = c.toEnd.map Prod.fst

theorem readsGroups (c : Cursor) : c.ReadsGroups where
  ok_iff := by
    constructor
    · rintro ⟨g, hg⟩
      exact grammatical_of_read hg
    · rintro ⟨instrs, literals, rest, h, hslots⟩
      obtain ⟨g, -, hnext⟩ := next_of_grammatical h hslots
      exact ⟨g, congrArg Prod.fst hnext⟩
  group _ _ _ h hslots := next_of_grammatical h hslots
  advances := next_pos
  ends := by
    apply atEnd_after
    omega
  run := c.run_toEnd
  calls := c.run_toEnd.length_le
  partition _ hok := c.run_toEnd.partition hok
  clause hpos := by
    have houtcomes := outcomes_readUpTo c.slots.length c
    rw [hpos, List.drop_zero] at houtcomes
    exact houtcomes

/-- Products on all units, the last of them on T because X is taken. The first one reads the literal
of Z. -/
def fiveProducts : List AluInstr :=
  [⟨0x8FD, 0x80⟩, ⟨0, 0x20000080⟩, ⟨0, 0x40000080⟩, ⟨0, 0x60000080⟩, ⟨0x80000000, 0x80⟩]

/-- Two slots of literals. -/
def fourConstants : List AluInstr := [⟨1, 2⟩, ⟨3, 4⟩]

theorem asksFor_fiveProducts : AsksFor fiveProducts .z :=
  ⟨⟨0x8FD, 0x80⟩, by decide, AluInstr.src ⟨0x8FD, 0x80⟩ 0, by decide⟩

theorem grammatical_fiveProducts : Grammatical fiveProducts fourConstants where
  known := by
    intro i hi
    refine ⟨.op2 .mul, ?_⟩
    simp only [fiveProducts, List.mem_cons, List.not_mem_nil, or_false] at hi
    rcases hi with rfl | rfl | rfl | rfl | rfl <;> rfl
  marked := ⟨fiveProducts.take 4, ⟨0x80000000, 0x80⟩, rfl, by decide, by decide⟩
  units := by decide
  literals := .two (.inl asksFor_fiveProducts)

/-- They are read as one group, which takes all seven slots. -/
theorem readsGroups_fiveProducts :
    ∃ g : AluGroup, g.Carries fiveProducts fourConstants ∧ g.literal .z = 3 ∧
      (Cursor.mk (fiveProducts ++ fourConstants) 0).next =
        (.ok g, ⟨fiveProducts ++ fourConstants, 7⟩) := by
  have hreads := readsGroups ⟨fiveProducts ++ fourConstants, 0⟩
  obtain ⟨g, hg, hnext⟩ := hreads.group fiveProducts fourConstants [] grammatical_fiveProducts
    (List.append_nil _).symm
  refine ⟨g, hg, ?_, hnext⟩
  obtain ⟨slot, hslot, hword⟩ := hg.literal .z asksFor_fiveProducts
  obtain rfl := Option.some.inj hslot
  exact (Option.some.inj hword).symm

end Cursor

end AluGroup

end LatteHlsl
