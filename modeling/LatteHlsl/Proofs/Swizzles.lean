import LatteHlsl.Proofs.Registers
import LatteHlsl.Proofs.StatementText

/-!
# Swizzled moves

A move is written as the shortest assignment that carries it out: to the whole target or to a
swizzle of it, from the whole source, from a swizzle of it, from one scalar or from a vector built of
scalars. Whichever form is taken, the assignment stores what the selectors say.

* `Builds.value_tree`: what the components of the right side are worth.
* `CarriesOut`, `Performs`: a statement does what selectors say.
* `assignment?_performs`: the statement of a move.
-/

namespace LatteHlsl.Hlsl

open Isa Grammar

/-! ## What the right side is worth -/

variable {α : Type}

/-- What a component of the variable with value `q` is worth. -/
def Component.read (mem : Memory α) (q : Quad α) : Component → α
  | .chan c => q.get c
  | .zero => mem.number "0.0f"
  | .one => mem.number "1.0f"

section Memory

variable {mem : Memory α} {s : Tree} {q : Quad α}

theorem operand_number (mem : Memory α) (n : String) :
    mem.operand (.number n) = some [mem.number n] := by
  have hnone : mem.vars (.number n) = none := by
    cases hvars : mem.vars (.number n) with
    | none => rfl
    | some q => cases mem.isPlace _ _ hvars
  simp [Memory.operand, hnone]

theorem operand_swizzle (hs : mem.vars s = some q) (cs : List Chan) :
    mem.operand (.member s (swizzleText cs)) = some (cs.map q.get) := by
  simp [Memory.operand, mem.flat s q _ hs, hs, swizzle?_swizzleText]

theorem operand_component (hs : mem.vars s = some q) (c : Component) :
    mem.operand (c.tree s) = some [c.read mem q] := by
  cases c with
  | chan c =>
    rw [Component.tree, memberOf, ← swizzleText_singleton]
    exact operand_swizzle hs [c]
  | zero | one => exact operand_number mem _

theorem arguments_argumentsTree {cs : List Component} (hne : cs ≠ []) :
    (argumentsTree (cs.map (Component.tree s))).arguments = cs.map (Component.tree s) := by
  cases cs with
  | nil => exact absurd rfl hne
  | cons c cs =>
    have hc : (c.tree s).arguments = [c.tree s] := by
      cases c <;> rfl
    rw [List.map_cons, argumentsTree, arguments_foldl, hc, List.singleton_append]

theorem mapM_operand (hs : mem.vars s = some q) (cs : List Component) :
    (cs.map (Component.tree s)).mapM mem.operand = some (cs.map fun c => [c.read mem q]) := by
  induction cs with
  | nil => rfl
  | cons c cs ih => simp [operand_component hs, ih]

theorem value_of_not_call {t : Tree} (h : ∀ f args, t ≠ .call f args) :
    mem.value t = mem.operand t := by
  cases t <;> first | rfl | exact absurd rfl (h _ _)

theorem Builds.value_tree {v : Value} {cs : List Component} (h : Builds v cs)
    (hs : mem.vars s = some q) : mem.value (v.tree s) = some (cs.map (Component.read mem q)) := by
  cases h with
  | scalar c =>
    rw [Value.tree, value_of_not_call (by cases c <;> exact fun _ _ => Tree.noConfusion)]
    exact operand_component hs c
  | whole =>
    have hplace := mem.isPlace s q hs
    rw [Value.tree, value_of_not_call (by rintro f args rfl; cases hplace)]
    simp only [Memory.operand, hs]
    rfl
  | @swizzle cs _ =>
    rw [Value.tree, value_of_not_call (fun _ _ => Tree.noConfusion), operand_swizzle hs,
      List.map_map]
    rfl
  | vector hne hlength =>
    rw [Value.tree, callOf, Memory.value, arguments_argumentsTree hne, mapM_operand hs]
    have hflatten : (cs.map fun c => [c.read mem q]).flatten = cs.map (Component.read mem q) := by
      rw [← List.flatMap_def, List.map_eq_flatMap]
    simp only [Option.bind_some, hflatten, List.length_map, hlength, and_self, if_true]

end Memory

/-! ## The left side -/

theorem target?_targetTree {mem : Memory α} {t : Tree} {p : Quad α} (ht : mem.vars t = some p)
    {cs : List Chan} (hnodup : cs.Nodup) : mem.target? (targetTree t cs) = some (t, cs) := by
  unfold targetTree
  split
  · rename_i hall
    simp [Memory.target?, ht, hall]
  · simp [Memory.target?, mem.flat t p _ ht, ht, swizzle?_swizzleText, hnodup]

/-! ## Storing -/

theorem Quad.get_set_self (q : Quad α) (c : Chan) (a : α) : (q.set c a).get c = a := by
  cases c <;> rfl

theorem Quad.get_set_of_ne (q : Quad α) {c d : Chan} (h : d ≠ c) (a : α) :
    (q.set c a).get d = q.get d := by
  cases c <;> cases d <;> first | rfl | exact absurd rfl h

theorem get_setAll_of_not_mem {ps : List (Chan × α)} {c : Chan} :
    ∀ {q : Quad α}, c ∉ ps.map Prod.fst → (Memory.setAll q ps).get c = q.get c := by
  induction ps with
  | nil => exact fun _ => rfl
  | cons p ps ih =>
    intro q h
    rw [List.map_cons, List.mem_cons, not_or] at h
    have hrest : (Memory.setAll (q.set p.1 p.2) ps).get c = (q.set p.1 p.2).get c := ih h.2
    exact hrest.trans (Quad.get_set_of_ne q h.1 p.2)

theorem get_setAll_of_mem {ps : List (Chan × α)} {c : Chan} {a : α} :
    ∀ {q : Quad α}, (ps.map Prod.fst).Nodup → (c, a) ∈ ps → (Memory.setAll q ps).get c = a := by
  induction ps with
  | nil => exact fun _ h => absurd h List.not_mem_nil
  | cons p ps ih =>
    intro q hnodup h
    obtain ⟨hp, hnodup⟩ := List.nodup_cons.mp hnodup
    rcases List.mem_cons.mp h with rfl | hmem
    · have hrest : (Memory.setAll (q.set c a) ps).get c = (q.set c a).get c :=
        get_setAll_of_not_mem hp
      exact hrest.trans (Quad.get_set_self q c a)
    · exact ih hnodup hmem

/-! ## Moves -/

/-- The value that a selector leaves in a component: it picks a channel of the source, a constant,
or keeps the old value. -/
def leaves (mem : Memory α) (source : Quad α) (old : α) : Sel → α
  | .x => source.x
  | .y => source.y
  | .z => source.z
  | .w => source.w
  | .zero => mem.number "0.0f"
  | .one => mem.number "1.0f"
  | .reserved | .mask => old

/-- Assigning `e` to `l` carries the selectors out, between any variables `t` and `s`: there are as
many components on either side, those on the left are the ones that are not masked, each component
of `t` is left as its selector says, and no other variable changes. -/
def CarriesOut (sels : Quad Sel) (t s l e : Tree) : Prop :=
  ∀ (α : Type) (mem : Memory α) (p q : Quad α), mem.vars t = some p → mem.vars s = some q →
    ∃ cs xs mem' p', mem.target? l = some (t, cs) ∧ mem.value e = some xs ∧
      cs.length = xs.length ∧ (∀ c, c ∈ cs ↔ (sels.get c).isMasked = false) ∧
      mem.assign l e = some mem' ∧ mem'.vars t = some p' ∧
      (∀ c, p'.get c = leaves mem q (p.get c) (sels.get c)) ∧
      ∀ v, v ≠ t → mem'.vars v = mem.vars v

/-- The text is one assignment, however it is read, and it carries the selectors out. -/
def Performs (text : String) (sels : Quad Sel) (t s : Tree) : Prop :=
  ∃ l e, (∀ l' e', Assigns text l' e' ↔ l' = l ∧ e' = e) ∧ CarriesOut sels t s l e

theorem leaves_eq {mem : Memory α} {source : Quad α} {old : α} (sel : Sel) :
    leaves mem source old sel =
      ((Component.ofSel? sel).map (Component.read mem source)).getD old := by
  cases sel <;> rfl

namespace Move

variable {m : Move}

theorem nodup_stores (m : Move) : (m.stores.map Prod.fst).Nodup := by
  rw [map_fst_stores]
  exact List.Nodup.sublist List.filter_sublist (by decide)

theorem mem_fst_stores (c : Chan) :
    c ∈ m.stores.map Prod.fst ↔ (m.sels.get c).isMasked = false := by
  rw [map_fst_stores, List.mem_filter, Bool.not_eq_true']
  exact and_iff_right (Compile.mem_chanAll c)

/-- Storing the components that are stored leaves what the selectors say. -/
theorem get_setAll_stores (mem : Memory α) (p q : Quad α) (c : Chan) :
    (Memory.setAll p (m.stores.map fun st => (st.1, st.2.read mem q))).get c =
      leaves mem q (p.get c) (m.sels.get c) := by
  have hfst : (m.stores.map fun st => (st.1, st.2.read mem q)).map Prod.fst =
      m.stores.map Prod.fst := by
    rw [List.map_map]
    rfl
  rw [leaves_eq]
  cases hsel : Component.ofSel? (m.sels.get c) with
  | none =>
    apply get_setAll_of_not_mem
    rw [hfst, mem_fst_stores]
    have hsome := Compile.isSome_ofSel? (m.sels.get c)
    rw [hsel] at hsome
    simpa using hsome.symm
  | some v =>
    apply get_setAll_of_mem (hfst ▸ m.nodup_stores)
    exact List.mem_map.mpr ⟨(c, v), Compile.mem_stores.mpr hsel, rfl⟩

theorem carriesOut (hstores : m.stores ≠ []) (t s : Tree) :
    CarriesOut m.sels t s (targetTree t (m.stores.map Prod.fst))
      ((value (m.stores.map Prod.snd)).tree s) := by
  intro α mem p q ht hs
  have htarget := target?_targetTree ht m.nodup_stores
  have hvalue := (builds_stores hstores).value_tree hs
  have hzip : (m.stores.map Prod.fst).zip ((m.stores.map Prod.snd).map (Component.read mem q)) =
      m.stores.map fun st => (st.1, st.2.read mem q) := by
    rw [List.map_map, List.zip_map']
    rfl
  refine ⟨_, _, mem.store t (m.stores.map fun st => (st.1, st.2.read mem q)), _, htarget, hvalue,
    by simp, mem_fst_stores, ?_, ?_, get_setAll_stores mem p q, fun v hv => if_neg hv⟩
  · simp only [Memory.assign, htarget, hvalue, Option.bind_some, List.length_map, if_true, hzip]
  · simp only [Memory.store, if_true, ht, Option.map_some]

theorem assignment?_eq_none_iff (m : Move) :
    m.assignment? = none ↔ ∀ c, (m.sels.get c).isMasked = true := by
  have hstores : m.stores = [] ↔ ¬ m.Stores := by
    rw [← Compile.stores_ne_nil_iff, not_not]
  have hnone : m.assignment? = none ↔ m.stores = [] := by
    rw [Compile.assignment?_eq]
    simp
  rw [hnone, hstores, Stores, not_exists]
  simp

theorem performs {a : Assignment} (ha : m.assignment? = some a) {target source : String}
    {t s : Tree} (ht : Names target t) (hs : Names source s) :
    Performs (a.textBetween target source) m.sels t s := by
  rw [Compile.assignment?_eq] at ha
  split at ha
  · cases ha
  · rename_i hstores
    obtain rfl := Option.some.inj ha
    have hne : m.stores.map Prod.fst ≠ [] := by simpa using hstores
    have hleft := spells_target ht hne
    have hright := ((builds_stores hstores).spells hs).mono (show 1 ≤ 13 by omega)
    refine ⟨_, _, fun l' e' => ?_, carriesOut hstores t s⟩
    rw [← assigns_iff hleft hright]
    simp [Assignment.textBetween]

/-- A move through four selectors is no statement exactly if all are masked or reserved. Otherwise
its statement, whatever its variables are called, is read as one assignment that does what the
selectors say; so it is for the places of the move itself. -/
theorem assignment?_performs (m : Move) :
    (m.assignment? = none ↔ ∀ c, (m.sels.get c).isMasked = true) ∧
      ∀ a, m.assignment? = some a →
        (∀ target source t s, Names target t → Names source s →
          Performs (a.textBetween target source) m.sels t s) ∧
        Performs a.text m.sels m.target.tree m.source.tree := by
  refine ⟨m.assignment?_eq_none_iff, fun a ha => ⟨fun _ _ _ _ => performs ha, ?_⟩⟩
  have htext : a.text = a.textBetween m.target.text m.source.text := by
    rw [Compile.assignment?_eq] at ha
    split at ha
    · cases ha
    · obtain rfl := Option.some.inj ha
      rfl
  rw [htext]
  exact performs ha m.target.names m.source.names

/-- A move that has to build a vector, carried out on two variables with plain names. The number of
a text is its length here. -/
theorem assignment?_performs_vector :
    ∃ a, (⟨.tmp, .gpr ⟨1, []⟩, ⟨.z, .mask, .one, .x⟩⟩ : Move).assignment? = some a ∧
      a.textBetween "dst" "src" = "dst.xzw = float3(src.z, 1.0f, src.x);" ∧
      ∃ l e mem p, Assigns (a.textBetween "dst" "src") l e ∧
        (Memory.ofLocals (fun s => if s = "dst" then some ⟨1, 2, 3, 4⟩
          else if s = "src" then some ⟨5, 6, 7, 8⟩ else none) String.length).assign l e = some mem ∧
        mem.vars (.name "dst") = some p ∧ ∀ c, p.get c = (⟨7, 2, 4, 5⟩ : Quad Nat).get c := by
  have hdst : Names "dst" (.name "dst") :=
    ⟨spells_iff_parses.mp (.name (by decide) (by decide)), rfl⟩
  have hsrc : Names "src" (.name "src") :=
    ⟨spells_iff_parses.mp (.name (by decide) (by decide)), rfl⟩
  have hperforms := (assignment?_performs ⟨.tmp, .gpr ⟨1, []⟩, ⟨.z, .mask, .one, .x⟩⟩).2 _ rfl
  obtain ⟨l, e, hreads, hcarries⟩ := hperforms.1 _ _ _ _ hdst hsrc
  obtain ⟨cs, xs, mem, p, -, -, -, -, hassign, hp, hget, -⟩ := hcarries Nat
    (Memory.ofLocals (fun s => if s = "dst" then some ⟨1, 2, 3, 4⟩
      else if s = "src" then some ⟨5, 6, 7, 8⟩ else none) String.length) _ _ rfl rfl
  refine ⟨_, rfl, by decide, l, e, mem, p, (hreads l e).mpr ⟨rfl, rfl⟩, hassign, hp, fun c => ?_⟩
  rw [hget]
  cases c <;> rfl

end Move

end LatteHlsl.Hlsl
