import Mathlib.Data.List.Forall2
import LatteHlsl.Microcode.Assembly
import LatteHlsl.Proofs.BitFields
import LatteHlsl.Proofs.Encoding

/-!
# Assembled programs

The control flow instructions and the clauses of an assembled program are read back as they were
given. An owner differs from the instruction it was made from only in the fields that hold the
address and the length of its clause, and these lead to the clause.

* `ClauseBody.owned_link`: the owner of a clause, once it knows where the clause stands.
* `Placed.cons_clause`: one clause is laid out; `placed_place`: all of them are.
* `exists_decodes_build`: the program of an assembly.
-/

namespace LatteHlsl

open Isa Layout BitField

/-! ## Owners -/

/-- The split count of a fetch clause holds the numbers up to fifteen. -/
theorem Isa.CfInstr.count_setCount (i : CfInstr) {n : Nat} (hpos : 0 < n) (hle : n ≤ 15) :
    (i.setCount n).count = n := by
  have hlow : (if 8 < n then n - 9 else n - 1) < 2 ^ CfWord1.count.width := by
    show _ < 8
    split <;> omega
  have hhigh : (if 8 < n then 1 else 0) < 2 ^ CfWord1.count3.width := by
    show _ < 2
    split <;> omega
  unfold count setCount
  dsimp only
  rw [value_put_of_disjoint (by decide) (by decide) (by decide), value_put (by decide) _ hlow,
    value_put (by decide) _ hhigh]
  have hsplit : ∀ n ≤ 15, 0 < n →
      ((if 8 < n then n - 9 else n - 1) + 1) ||| ((if 8 < n then 1 else 0) <<< 3) = n := by
    decide
  exact hsplit n hle hpos

namespace ClauseBody

/-- The clauses whose length an owner can hold. -/
def Fits : ClauseBody → Prop
  | .alu slots => 0 < slots.length ∧ slots.length ≤ 128
  | .tex fetches => 0 < fetches.length ∧ fetches.length ≤ 15
  | .vtx fetches => 0 < fetches.length ∧ fetches.length ≤ 15

instance : (c : ClauseBody) → Decidable c.Fits
  | .alu _ | .tex _ | .vtx _ => inferInstanceAs (Decidable (_ ∧ _))

/-- A clause starts at a multiple of this many bytes. -/
def alignment : ClauseBody → Nat
  | .alu _ => 8
  | .tex _ | .vtx _ => 16

/-- The clause address an owner holds. -/
def addrOf (c : ClauseBody) (owner : CfInstr) : Nat :=
  match c with
  | .alu _ => owner.aluAddr
  | .tex _ | .vtx _ => owner.addr

/-- The first byte of the clause and the first byte after it, as its owner has them. -/
def area (c : ClauseBody) (owner : CfInstr) : Nat × Nat :=
  (c.addrOf owner * Program.clauseUnit, c.addrOf owner * Program.clauseUnit + c.bytes.length)

/-- The clause is what the program holds where its owner says. -/
def ReadBy (c : ClauseBody) (p : Program) (owner : CfInstr) : Prop :=
  match c with
  | .alu slots => p.aluClause owner.aluAddr owner.aluCount = .ok slots
  | .tex fetches => p.texClause owner.addr owner.count = .ok fetches
  | .vtx fetches => p.vtxClause owner.addr owner.count = .ok fetches

/-- The fields of an owner's first word that its clause decides. -/
def fields0 : ClauseBody → List BitField
  | .alu _ => [CfAluWord0.addr]
  | .tex _ | .vtx _ => [CfWord0.addr]

/-- The fields of an owner's second word that its clause decides. -/
def fields1 : ClauseBody → List BitField
  | .alu _ => [CfAluWord1.count]
  | .tex _ | .vtx _ => [CfWord1.count, CfWord1.count3]

/-- `owner`, made from the instruction `cf`, owns the clause in a program. -/
structure Owned (c : ClauseBody) (p : Program) (cf owner : CfInstr) : Prop where
  word0 : SameOutside c.fields0 cf.word0 owner.word0
  word1 : SameOutside c.fields1 cf.word1 owner.word1
  aligned : (c.area owner).1 % c.alignment = 0
  read : c.ReadBy p owner

/-- An address of 22 bits fits in every owner. -/
theorem addrOf_link (c : ClauseBody) (cf : CfInstr) {addr : Nat} (h : addr < 2 ^ 22) :
    c.addrOf (c.link cf addr) = addr := by
  cases c with
  | alu slots => exact value_put (f := CfAluWord0.addr) (by decide) _ h
  | tex fetches | vtx fetches =>
    exact value_put (f := CfWord0.addr) (by decide) _
      (Nat.lt_of_lt_of_le h (Nat.pow_le_pow_right (by decide) (by decide)))

theorem sameOutside_link (c : ClauseBody) (cf : CfInstr) (addr : Nat) :
    SameOutside c.fields0 cf.word0 (c.link cf addr).word0 ∧
      SameOutside c.fields1 cf.word1 (c.link cf addr).word1 := by
  cases c with
  | alu slots =>
    exact ⟨(SameOutside.refl _ _).put (by decide) (List.mem_singleton_self _) _,
      (SameOutside.refl _ _).put (by decide) (List.mem_singleton_self _) _⟩
  | tex fetches | vtx fetches =>
    exact ⟨(SameOutside.refl _ _).put (by decide) (List.mem_singleton_self _) _,
      ((SameOutside.refl _ _).put (by decide) List.mem_cons_self _).put (by decide)
        (List.mem_cons_of_mem _ (List.mem_singleton_self _)) _⟩

/-- A clause is read through the owner that was given its address. -/
theorem readBy_link {c : ClauseBody} (hfits : c.Fits) {p : Program}
    (hsize : p.size < Program.positionLimit) (cf : CfInstr) {addr : Nat} (haddr : addr < 2 ^ 22)
    (hat : StandsAt p.bytes (addr * Program.clauseUnit) c.bytes) :
    c.ReadBy p (c.link cf addr) := by
  have hlink := addrOf_link c cf haddr
  cases c with
  | alu slots =>
    obtain ⟨hpos, hle⟩ := hfits
    have hcount : (link (.alu slots) cf addr).aluCount = slots.length := by
      have hput : CfAluWord1.count.value (CfAluWord1.count.put cf.word1 (slots.length - 1)) =
          slots.length - 1 :=
        value_put (by decide) _ (show slots.length - 1 < 128 by omega)
      show CfAluWord1.count.value (CfAluWord1.count.put cf.word1 (slots.length - 1)) + 1 = _
      omega
    show p.aluClause (addrOf (.alu slots) (link (.alu slots) cf addr)) _ = _
    rw [hlink, hcount]
    exact Program.clause_of_standsAt AluInstr.encodes hsize hat
  | tex fetches =>
    obtain ⟨hpos, hle⟩ := hfits
    have hcount : (link (.tex fetches) cf addr).count = fetches.length :=
      CfInstr.count_setCount _ hpos hle
    show p.texClause (addrOf (.tex fetches) (link (.tex fetches) cf addr)) _ = _
    rw [hlink, hcount]
    exact Program.clause_of_standsAt TexInstr.encodes hsize hat
  | vtx fetches =>
    obtain ⟨hpos, hle⟩ := hfits
    have hcount : (link (.vtx fetches) cf addr).count = fetches.length :=
      CfInstr.count_setCount _ hpos hle
    show p.vtxClause (addrOf (.vtx fetches) (link (.vtx fetches) cf addr)) _ = _
    rw [hlink, hcount]
    exact Program.clause_of_standsAt VtxInstr.encodes hsize hat

theorem area_link (c : ClauseBody) (cf : CfInstr) {addr start : Nat} (haddr : addr < 2 ^ 22)
    (hstart : addr * Program.clauseUnit = start) :
    c.area (c.link cf addr) = (start, start + c.bytes.length) := by
  rw [area, addrOf_link c cf haddr, hstart]

/-- The owner of a clause, once it has been given the address at which the clause stands. -/
theorem owned_link {c : ClauseBody} (hfits : c.Fits) {p : Program}
    (hsize : p.size < Program.positionLimit) (cf : CfInstr) {addr start : Nat}
    (haddr : addr < 2 ^ 22) (hstart : addr * Program.clauseUnit = start)
    (halign : start % c.alignment = 0) (hat : StandsAt p.bytes start c.bytes) :
    c.Owned p cf (c.link cf addr) where
  word0 := (c.sameOutside_link cf addr).1
  word1 := (c.sameOutside_link cf addr).2
  aligned := by
    rw [area_link c cf haddr hstart]
    exact halign
  read := by
    rw [← hstart] at hat
    exact readBy_link hfits hsize cf haddr hat

/-! ## Positions -/

/-- Every clause fills whole units. -/
theorem length_bytes_mod (c : ClauseBody) : c.bytes.length % Program.clauseUnit = 0 := by
  cases c with
  | alu slots =>
    rw [bytes, AluInstr.encodes.length_flatMap]
    exact Nat.mul_mod_left _ 8
  | tex fetches =>
    rw [bytes, TexInstr.encodes.length_flatMap]
    show _ * 16 % 8 = 0
    omega
  | vtx fetches =>
    rw [bytes, VtxInstr.encodes.length_flatMap]
    show _ * 16 % 8 = 0
    omega

/-- The padding before a clause brings it to its alignment, and to a whole unit in any case. -/
theorem add_padding_mod (c : ClauseBody) {pos : Nat} (h : pos % Program.clauseUnit = 0) :
    (pos + c.padding pos) % c.alignment = 0 ∧
      (pos + c.padding pos) % Program.clauseUnit = 0 := by
  change pos % 8 = 0 at h
  show _ ∧ _ % 8 = 0
  cases c with
  | alu slots => exact ⟨h, h⟩
  | tex fetches | vtx fetches =>
    show (pos + if pos % 16 = 0 then 0 else 8) % 16 = 0 ∧
      (pos + if pos % 16 = 0 then 0 else 8) % 8 = 0
    split <;> omega

end ClauseBody

/-! ## Layouts -/

namespace AssemblyItem

/-- An instruction alone, or one with a clause whose length it can hold. -/
def Fits (item : AssemblyItem) : Prop := ∀ c ∈ item.clause, c.Fits

instance (item : AssemblyItem) : Decidable item.Fits :=
  inferInstanceAs (Decidable (∀ c ∈ item.clause, c.Fits))

/-- What the program of an assembly has in place of an item's instruction. -/
def Linked (p : Program) (item : AssemblyItem) (cf : CfInstr) : Prop :=
  match item.clause with
  | none => cf = item.cf
  | some c => c.Owned p item.cf cf

end AssemblyItem

namespace Assembly

/-- The areas of the clauses of `items`, as their owners have them. -/
def areas (items : List AssemblyItem) (owners : List CfInstr) : List (Nat × Nat) :=
  (items.zip owners).filterMap fun x => x.1.clause.map fun c => c.area x.2

/-- `owners` own the clauses of `items` in a program. The clauses stand one after the other, behind
the first `pos` bytes. -/
structure Placed (p : Program) (pos : Nat) (items : List AssemblyItem) (owners : List CfInstr) :
    Prop where
  linked : List.Forall₂ (AssemblyItem.Linked p) items owners
  ordered : ((0, pos) :: areas items owners).Pairwise fun a b => a.2 ≤ b.1
  inside : ∀ a ∈ areas items owners, a.2 ≤ p.size

theorem place_none (pos : Nat) (cf : CfInstr) (items : List AssemblyItem) :
    place pos (⟨cf, none⟩ :: items) = (cf :: (place pos items).1, (place pos items).2) := rfl

theorem place_some {pos start : Nat} {c : ClauseBody} (hstart : pos + c.padding pos = start)
    (cf : CfInstr) (items : List AssemblyItem) :
    place pos (⟨cf, some c⟩ :: items) =
      (c.link cf (start / Program.clauseUnit) :: (place (start + c.bytes.length) items).1,
        List.replicate (c.padding pos) 0 ++
          (c.bytes ++ (place (start + c.bytes.length) items).2)) := by
  subst hstart
  rw [← List.append_assoc]
  rfl

/-- One clause is laid out: behind `pos` bytes stands the clause, at its alignment, and the rest is
laid out behind it. -/
theorem Placed.cons_clause {p : Program} {pos start : Nat} {cf owner : CfInstr} {c : ClauseBody}
    {items : List AssemblyItem} {owners : List CfInstr} (hpos : pos ≤ start)
    (harea : c.area owner = (start, start + c.bytes.length))
    (hend : start + c.bytes.length ≤ p.size) (howned : c.Owned p cf owner)
    (hrest : Placed p (start + c.bytes.length) items owners) :
    Placed p pos (⟨cf, some c⟩ :: items) (owner :: owners) := by
  have hcons : areas (⟨cf, some c⟩ :: items) (owner :: owners) =
      (start, start + c.bytes.length) :: areas items owners := by
    rw [← harea]
    rfl
  obtain ⟨hafter, hordered⟩ := List.pairwise_cons.mp hrest.ordered
  refine ⟨.cons howned hrest.linked, ?_, ?_⟩
  · rw [hcons]
    refine List.pairwise_cons.mpr ⟨?_, List.pairwise_cons.mpr ⟨hafter, hordered⟩⟩
    intro a ha
    cases ha with
    | head => exact hpos
    | tail _ ha =>
      have hle : start + c.bytes.length ≤ a.1 := hafter a ha
      show pos ≤ a.1
      omega
  · rw [hcons]
    exact List.forall_mem_cons.mpr ⟨hend, hrest.inside⟩

/-- All clauses are laid out: the bytes that `place` gives, standing where they were placed, hold
the clauses of the items. -/
theorem placed_place {p : Program} (hsize : p.size < 2 ^ 25) {items : List AssemblyItem}
    (hfits : ∀ item ∈ items, item.Fits) {pos : Nat} (hpos : pos % Program.clauseUnit = 0)
    (hat : StandsAt p.bytes pos (place pos items).2) :
    Placed p pos items (place pos items).1 := by
  have hlimit : p.size < Program.positionLimit := Nat.lt_trans hsize (by decide)
  induction items generalizing pos with
  | nil => exact ⟨.nil, List.pairwise_singleton _ _, List.forall_mem_nil _⟩
  | cons item items ih =>
    obtain ⟨hitem, hitems⟩ := List.forall_mem_cons.mp hfits
    obtain ⟨cf, clause⟩ := item
    cases clause with
    | none =>
      rw [place_none] at hat ⊢
      have hrest := ih hitems hpos hat
      exact ⟨.cons rfl hrest.linked, hrest.ordered, hrest.inside⟩
    | some c =>
      obtain ⟨start, hstart⟩ : ∃ start, pos + c.padding pos = start := ⟨_, rfl⟩
      obtain ⟨halign, hunit⟩ := c.add_padding_mod hpos
      rw [hstart] at halign hunit
      rw [place_some hstart] at hat ⊢
      -- The clause stands after the padding, and the remaining clauses right behind it.
      have hbody := hat.right
      rw [List.length_replicate, hstart] at hbody
      have hend : start + c.bytes.length ≤ p.size := hbody.left.le_size
      have hback : start / Program.clauseUnit * Program.clauseUnit = start :=
        Nat.div_mul_cancel (Nat.dvd_of_mod_eq_zero hunit)
      have haddr : start / Program.clauseUnit < 2 ^ 22 := by
        rw [Nat.div_lt_iff_lt_mul (by decide)]
        exact Nat.lt_of_le_of_lt (Nat.le_trans (Nat.le_add_right _ _) hend) hsize
      have howned : c.Owned p cf (c.link cf (start / Program.clauseUnit)) :=
        ClauseBody.owned_link (hitem c rfl) hlimit cf haddr hback halign hbody.left
      have hnext : (start + c.bytes.length) % Program.clauseUnit = 0 := by
        rw [Nat.add_mod, hunit, c.length_bytes_mod]
        rfl
      exact .cons_clause (by omega) (c.area_link cf haddr hback) hend howned
        (ih hitems hnext hbody.right)

/-- Linking changes instructions but not their number. -/
theorem length_place (pos : Nat) (items : List AssemblyItem) :
    (place pos items).1.length = items.length := by
  induction items generalizing pos with
  | nil => rfl
  | cons item items ih =>
    obtain ⟨cf, clause⟩ := item
    cases clause with
    | none => exact congrArg (· + 1) (ih pos)
    | some c => exact congrArg (· + 1) (ih _)

/-! ## Programs -/

/-- A program that holds an assembly: its control flow instructions are `owners`, at the start, and
they own the clauses of `items`. -/
structure Decodes (p : Program) (items : List AssemblyItem) (owners : List CfInstr) : Prop
    extends Placed p (items.length * CfInstr.byteSize) items owners where
  cfAt : ∀ i < items.length, ∃ cf, owners[i]? = some cf ∧ p.cfAt i = .ok cf

/-- Everything that went into an assembly is read back from its program. -/
theorem exists_decodes_build (items : List AssemblyItem) (hfits : ∀ item ∈ items, item.Fits)
    (hsize : (build items).size < 2 ^ 25) : ∃ owners, Decodes (build items) items owners := by
  have hlimit : (build items).size < Program.positionLimit := Nat.lt_trans hsize (by decide)
  let pos := items.length * CfInstr.byteSize
  have hstand : StandsAt (build items).bytes 0
      ((place pos items).1.flatMap CfInstr.toBytes ++ (place pos items).2) := StandsAt.zero _
  have hlength : ((place pos items).1.flatMap CfInstr.toBytes).length = pos := by
    rw [CfInstr.encodes.length_flatMap, length_place]
  have hclauses := hstand.right
  rw [Nat.zero_add, hlength] at hclauses
  refine ⟨(place pos items).1, placed_place hsize hfits (Nat.mul_mod_left _ 8) hclauses, ?_⟩
  intro i hi
  rw [← length_place pos items] at hi
  have hcf := CfInstr.encodes.standsAt_of_getElem? hstand.left (List.getElem?_eq_getElem hi)
  rw [Nat.zero_add] at hcf
  exact ⟨_, List.getElem?_eq_getElem hi, Program.cfAt_of_standsAt hlimit hcf⟩

/-- An instruction alone and one clause of each kind. The texture fetch stands behind padding, and
the count of the vertex fetches needs its high bit. -/
def mixed : List AssemblyItem :=
  [⟨.ofOp .nop, none⟩,
    ⟨.ofAluOp .alu, some (.alu [(AluInstr.ofOp2 .mov).edit .last])⟩,
    ⟨.ofOp .tex, some (.tex [.ofOp .sample 3 5])⟩,
    ⟨(CfInstr.ofOp .vtx).edit .endOfProgram,
      some (.vtx ((List.range 9).map (VtxInstr.ofSemantic 1)))⟩]

theorem exists_decodes_build_mixed :
    (∀ item ∈ mixed, item.Fits) ∧ (build mixed).size = 208 ∧
      ∃ owners, Decodes (build mixed) mixed owners :=
  have hfits : ∀ item ∈ mixed, item.Fits := by decide +kernel
  have hsize : (build mixed).size = 208 := by decide +kernel
  ⟨hfits, hsize, exists_decodes_build mixed hfits (by rw [hsize]; decide)⟩

example : areas mixed (place 32 mixed).1 = [(32, 40), (48, 64), (64, 208)] := by decide +kernel

end Assembly

end LatteHlsl
