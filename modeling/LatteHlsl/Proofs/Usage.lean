import Mathlib.Data.List.FinRange
import LatteHlsl.Compile.Shader

/-!
# Laws of resource usage

A usage is known from the set of accesses it records: slots by membership, and sizes by their upper
bounds, so that neither the order of the accesses nor how often they occur matters.

* `Records`: a usage records exactly the accesses with some property.
* `Records.foldl`, `Records.merge`: recording accesses, and joining two programs.
* `arraySize`, `eq_arraySize`: the size of an array from the indices into it.
* `countP_resourceDecls`: the declarations of a usage.
-/

namespace LatteHlsl

open Hlsl Compile

/-! ## Accesses -/

namespace Access

/-- The access is not to uniform block `b`, or to one of its first `n` vectors. -/
def FitsBlock (b : Slot) (n : Nat) : Access → Prop
  | .uniform b' i => b' = b → i < n
  | .uniformBlock b' => b' ≠ b
  | _ => True

/-- The access is not to the uniform register file, or to one of its first `n` vectors. -/
def FitsCfile (n : Nat) : Access → Prop
  | .cfile i => i < n
  | .cfileAll => False
  | _ => True

end Access

namespace Usage

/-- The usage records exactly the accesses with the property `P`. Sizes are given by the bounds
below their capacity. -/
structure Records (u : Usage) (P : Access → Prop) : Prop where
  textures : ∀ s : Slot, u.textures[s] = true ↔ P (.texture s)
  samplers : ∀ s : Slot, u.samplers[s] = true ↔ P (.sampler s)
  block_le : ∀ b : Slot, u.uniformBlocks[b] ≤ uniformBlockCapacity
  block_le_iff : ∀ (b : Slot) (n : Nat), n < uniformBlockCapacity →
    (u.uniformBlocks[b] ≤ n ↔ ∀ a, P a → a.FitsBlock b n)
  cfile_le : u.cfile ≤ cfileCapacity
  cfile_le_iff : ∀ n, n < cfileCapacity → (u.cfile ≤ n ↔ ∀ a, P a → a.FitsCfile n)

theorem cover_le (capacity size index : Nat) : cover capacity size index ≤ capacity :=
  Nat.min_le_right _ _

theorem cover_le_iff {capacity size index n : Nat} (hn : n < capacity) :
    cover capacity size index ≤ n ↔ size ≤ n ∧ index < n := by
  show min (max size (index + 1)) capacity ≤ n ↔ _
  omega

namespace Records

variable {u v : Usage} {P Q : Access → Prop}

theorem congr (h : u.Records P) (heq : ∀ a, P a ↔ Q a) : u.Records Q := by
  obtain rfl : P = Q := funext fun a => propext (heq a)
  exact h

theorem empty : Records {} fun _ => False where
  textures s := by simp
  samplers s := by simp
  block_le b := by simp
  block_le_iff b n _ := by simp
  cfile_le := Nat.zero_le _
  cfile_le_iff n _ := by simp

/-- One access more. -/
theorem record (h : u.Records P) (a : Access) : (u.record a).Records fun x => P x ∨ x = a where
  textures s := by
    rw [← h.textures s]
    cases a with
    | texture s' =>
      rw [Usage.record, getElem_setSlot]
      by_cases hs : s = s' <;> simp [hs]
    | _ => simp [Usage.record]
  samplers s := by
    rw [← h.samplers s]
    cases a with
    | sampler s' =>
      rw [Usage.record, getElem_setSlot]
      by_cases hs : s = s' <;> simp [hs]
    | _ => simp [Usage.record]
  block_le b := by
    have hb := h.block_le b
    cases a with
    | uniform b' i =>
      rw [Usage.record, getElem_setSlot]
      split
      · exact cover_le _ _ _
      · exact hb
    | uniformBlock b' =>
      rw [Usage.record, getElem_setSlot]
      split
      · exact Nat.le_refl _
      · exact hb
    | _ => exact hb
  block_le_iff b n hn := by
    have hsplit : (∀ x, P x ∨ x = a → x.FitsBlock b n) ↔
        (∀ x, P x → x.FitsBlock b n) ∧ a.FitsBlock b n := by
      simp only [or_imp, forall_and, forall_eq]
    rw [hsplit, ← h.block_le_iff b n hn]
    cases a with
    | uniform b' i =>
      rw [Usage.record, getElem_setSlot]
      by_cases hb : b = b'
      · subst hb
        simp [cover_le_iff hn, Access.FitsBlock]
      · simp [hb, Ne.symm hb, Access.FitsBlock]
    | uniformBlock b' =>
      rw [Usage.record, getElem_setSlot]
      by_cases hb : b = b'
      · simp [hb, Access.FitsBlock, hn]
      · simp [hb, Ne.symm hb, Access.FitsBlock]
    | _ => simp [Usage.record, Access.FitsBlock]
  cfile_le := by
    cases a with
    | cfile i => exact cover_le _ _ _
    | cfileAll => exact Nat.le_refl _
    | _ => exact h.cfile_le
  cfile_le_iff n hn := by
    have hsplit : (∀ x, P x ∨ x = a → x.FitsCfile n) ↔
        (∀ x, P x → x.FitsCfile n) ∧ a.FitsCfile n := by
      simp only [or_imp, forall_and, forall_eq]
    rw [hsplit, ← h.cfile_le_iff n hn]
    cases a with
    | cfile i => exact cover_le_iff hn
    | cfileAll => simp [Usage.record, Access.FitsCfile, hn]
    | _ => simp [Usage.record, Access.FitsCfile]

theorem foldl (h : u.Records P) (as : List Access) :
    (as.foldl Usage.record u).Records fun a => P a ∨ a ∈ as := by
  induction as generalizing u P with
  | nil => exact h.congr fun a => by simp
  | cons a as ih => exact (ih (h.record a)).congr fun x => by simp [or_assoc]

/-- The accesses of two programs together. -/
theorem merge (h : u.Records P) (h' : v.Records Q) : (u.merge v).Records fun a => P a ∨ Q a where
  textures s := by
    rw [← h.textures s, ← h'.textures s]
    simp [Usage.merge]
  samplers s := by
    rw [← h.samplers s, ← h'.samplers s]
    simp [Usage.merge]
  block_le b := by
    have hu := h.block_le b
    have hv := h'.block_le b
    simpa [Usage.merge] using And.intro hu hv
  block_le_iff b n hn := by
    have hmax : (u.merge v).uniformBlocks[b] ≤ n ↔
        u.uniformBlocks[b] ≤ n ∧ v.uniformBlocks[b] ≤ n := by
      simp [Usage.merge]
    rw [hmax, h.block_le_iff b n hn, h'.block_le_iff b n hn]
    simp only [or_imp, forall_and]
  cfile_le := Nat.max_le.mpr ⟨h.cfile_le, h'.cfile_le⟩
  cfile_le_iff n hn := by
    have hmax : (u.merge v).cfile ≤ n ↔ u.cfile ≤ n ∧ v.cfile ≤ n := Nat.max_le
    rw [hmax, h.cfile_le_iff n hn, h'.cfile_le_iff n hn]
    simp only [or_imp, forall_and]

end Records

end Usage

/-! ## Sizes -/

/-- The size of an array with the given indices into it: a computed index may reach the whole
capacity, constant ones reach as far as the largest does. -/
def arraySize (capacity : Nat) (ks : List Index) : Nat :=
  if ks = [] then 0
  else if ks.all Index.isStatic then min capacity (1 + (ks.map Index.base).foldl max 0)
  else capacity

theorem foldl_max_le_iff {xs : List Nat} {m n : Nat} :
    xs.foldl max m ≤ n ↔ m ≤ n ∧ ∀ x ∈ xs, x ≤ n := by
  induction xs generalizing m with
  | nil => simp
  | cons x xs ih => rw [List.foldl_cons, ih, Nat.max_le, List.forall_mem_cons, and_assoc]

theorem arraySize_le (capacity : Nat) (ks : List Index) : arraySize capacity ks ≤ capacity := by
  unfold arraySize
  split
  · exact Nat.zero_le _
  · split
    · exact Nat.min_le_left _ _
    · exact Nat.le_refl _

/-- The bounds of an array size below its capacity. -/
theorem arraySize_le_iff {capacity n : Nat} {ks : List Index} (hn : n < capacity) :
    arraySize capacity ks ≤ n ↔ ∀ k ∈ ks, k.isStatic = true ∧ k.base < n := by
  unfold arraySize
  by_cases hnil : ks = []
  · simp [hnil]
  rw [if_neg hnil]
  by_cases hstatic : ks.all Index.isStatic = true
  · rw [if_pos hstatic]
    obtain ⟨k₀, hk₀⟩ := List.exists_mem_of_ne_nil ks hnil
    have hmin : ∀ x, min capacity (1 + x) ≤ n ↔ x < n := by
      intro x
      omega
    have hall := List.all_eq_true.mp hstatic
    rw [hmin]
    constructor
    · intro hlt k hk
      have hle : (ks.map Index.base).foldl max 0 ≤ n - 1 := by omega
      have hbase := (foldl_max_le_iff.mp hle).2 k.base (List.mem_map_of_mem hk)
      exact ⟨hall k hk, by omega⟩
    · intro hfit
      have hpos : 0 < n := Nat.lt_of_le_of_lt (Nat.zero_le _) (hfit k₀ hk₀).2
      have hle : (ks.map Index.base).foldl max 0 ≤ n - 1 := by
        refine foldl_max_le_iff.mpr ⟨Nat.zero_le _, ?_⟩
        intro x hx
        obtain ⟨k, hk, rfl⟩ := List.mem_map.mp hx
        have hbase := (hfit k hk).2
        omega
      omega
  · rw [if_neg hstatic]
    constructor
    · intro hle
      omega
    · intro hfit
      exact absurd (List.all_eq_true.mpr fun k hk => (hfit k hk).1) hstatic

/-- Two sizes within a capacity with the same bounds below it are equal. -/
theorem eq_arraySize {capacity size : Nat} {ks : List Index} (hle : size ≤ capacity)
    (hiff : ∀ n, n < capacity → (size ≤ n ↔ ∀ k ∈ ks, k.isStatic = true ∧ k.base < n)) :
    size = arraySize capacity ks := by
  have hle' := arraySize_le capacity ks
  have hbounds : ∀ n, n < capacity → (size ≤ n ↔ arraySize capacity ks ≤ n) := by
    intro n hn
    rw [hiff n hn, arraySize_le_iff hn]
  rcases Nat.lt_trichotomy size (arraySize capacity ks) with hlt | heq | hgt
  · have h := hbounds size (by omega)
    omega
  · exact heq
  · have h := hbounds (arraySize capacity ks) (by omega)
    omega

/-! ## Declarations -/

/-- A resource that can be declared. -/
inductive Resource where
  | texture (slot : Slot)
  | sampler (slot : Slot)
  | uniformBlock (block : Slot)
  | cfile
deriving DecidableEq

/-- The resource that a declaration declares. -/
def Hlsl.Decl.resource : Decl → Resource
  | .texture slot _ => .texture slot
  | .sampler slot => .sampler slot
  | .uniformBlock block _ => .uniformBlock block
  | .cfile _ => .cfile

/-- Whether a resource is in use. -/
def Usage.uses (u : Usage) : Resource → Bool
  | .texture s => u.textures[s]
  | .sampler s => u.samplers[s]
  | .uniformBlock b => 0 < u.uniformBlocks[b]
  | .cfile => 0 < u.cfile

/-- Every slot occurs once in the list of slots. -/
theorem countP_allSlots (s : Slot) (q : Slot → Bool) :
    allSlots.countP (fun t => decide (t = s) && q t) = if q s then 1 else 0 := by
  have hcount : allSlots.countP (fun t => decide (t = s) && q t) =
      if q s then allSlots.count s else 0 := by
    cases hq : q s with
    | true =>
      rw [if_pos rfl, List.count_eq_countP]
      refine List.countP_congr fun t _ => ?_
      by_cases ht : t = s <;> simp [ht, hq]
    | false =>
      refine List.countP_eq_zero.mpr fun t _ => ?_
      by_cases ht : t = s <;> simp [ht, hq]
  rw [hcount, allSlots, List.count_eq_one_of_mem (List.nodup_finRange _) (List.mem_finRange s)]

section

variable {f : Slot → Option Decl}

/-- Declarations made slot by slot declare a slot at most once. -/
theorem countP_filterMap_allSlots (kind : Slot → Resource)
    (hkind : ∀ s t, kind t = kind s → t = s)
    (hf : ∀ t d, f t = some d → d.resource = kind t) (s : Slot) :
    (allSlots.filterMap f).countP (fun d => decide (d.resource = kind s)) =
      if (f s).isSome then 1 else 0 := by
  rw [List.countP_filterMap, ← countP_allSlots s fun t => (f t).isSome]
  refine List.countP_congr fun t _ => ?_
  cases hd : f t with
  | none => simp
  | some d =>
    have hiff : kind t = kind s ↔ t = s := ⟨hkind s t, fun h => h ▸ rfl⟩
    simp [hf t d hd, hiff]

theorem countP_filterMap_eq_zero {kind : Slot → Resource} {x : Resource}
    (hf : ∀ t d, f t = some d → d.resource = kind t) (hx : ∀ t, kind t ≠ x) :
    (allSlots.filterMap f).countP (fun d => decide (d.resource = x)) = 0 := by
  refine List.countP_eq_zero.mpr fun d hd => ?_
  obtain ⟨t, -, ht⟩ := List.mem_filterMap.mp hd
  simp [hf t d ht, hx t]

end

/-- The declaration of a texture slot, if it is in use. -/
def textureDecl? (u : Usage) (dims : TextureDims) (s : Slot) : Option Decl :=
  if u.textures[s] then dims[s].map (Decl.texture s) else none

/-- The declaration of a sampler slot, if it is in use. -/
def samplerDecl? (u : Usage) (s : Slot) : Option Decl :=
  if u.samplers[s] then some (.sampler s) else none

/-- The declaration of a uniform block, if it is in use. -/
def blockDecl? (u : Usage) (b : Slot) : Option Decl :=
  if 0 < u.uniformBlocks[b] then some (.uniformBlock b u.uniformBlocks[b]) else none

/-- The declarations, slot by slot. -/
theorem resourceDecls_eq (u : Usage) (dims : TextureDims) :
    resourceDecls u dims =
      allSlots.filterMap (textureDecl? u dims) ++ allSlots.filterMap (samplerDecl? u) ++
        allSlots.filterMap (blockDecl? u) ++ (if 0 < u.cfile then [.cfile u.cfile] else []) := by
  have htextures : u.usedTextures.filterMap (fun s => dims[s].map fun dim => Decl.texture s dim) =
      allSlots.filterMap (textureDecl? u dims) := by
    rw [Usage.usedTextures, List.filterMap_filter]
    rfl
  have hsamplers : u.usedSamplers.map Decl.sampler = allSlots.filterMap (samplerDecl? u) := by
    rw [Usage.usedSamplers, ← List.filterMap_eq_map, List.filterMap_filter]
    rfl
  have hblocks : u.usedBlocks.map (fun p => Decl.uniformBlock p.1 p.2) =
      allSlots.filterMap (blockDecl? u) := by
    rw [Usage.usedBlocks, ← List.filterMap_eq_map, List.filterMap_filter, List.filterMap_map]
    refine List.filterMap_congr fun b _ => ?_
    simp [blockDecl?]
  rw [← htextures, ← hsamplers, ← hblocks]
  rfl

theorem resource_of_textureDecl? {u : Usage} {dims : TextureDims} (s : Slot) (d : Decl)
    (h : textureDecl? u dims s = some d) : d.resource = .texture s := by
  unfold textureDecl? at h
  split at h
  · obtain ⟨dim, -, rfl⟩ := Option.map_eq_some_iff.mp h
    rfl
  · cases h

theorem resource_of_samplerDecl? {u : Usage} (s : Slot) (d : Decl)
    (h : samplerDecl? u s = some d) : d.resource = .sampler s := by
  unfold samplerDecl? at h
  split at h <;> cases h
  rfl

theorem resource_of_blockDecl? {u : Usage} (b : Slot) (d : Decl) (h : blockDecl? u b = some d) :
    d.resource = .uniformBlock b := by
  unfold blockDecl? at h
  split at h <;> cases h
  rfl

/-- Exactly the resources in use are declared, each once. A texture in use has a known shape. -/
theorem countP_resourceDecls {u : Usage} {dims : TextureDims}
    (hdims : ∀ s : Slot, u.textures[s] = true → dims[s].isSome = true) (x : Resource) :
    (resourceDecls u dims).countP (fun d => decide (d.resource = x)) =
      if u.uses x then 1 else 0 := by
  have hcfile : ∀ y, (if 0 < u.cfile then [Decl.cfile u.cfile] else []).countP
      (fun d => decide (d.resource = y)) = if y = .cfile ∧ 0 < u.cfile then 1 else 0 := by
    intro y
    split <;> rename_i hpos <;> cases y <;> simp [hpos, Decl.resource]
  simp only [resourceDecls_eq, List.countP_append, hcfile]
  cases x with
  | texture s =>
    rw [countP_filterMap_allSlots .texture (by simp) resource_of_textureDecl?,
      countP_filterMap_eq_zero resource_of_samplerDecl? (by simp),
      countP_filterMap_eq_zero resource_of_blockDecl? (by simp)]
    have huses : u.uses (.texture s) = (textureDecl? u dims s).isSome := by
      show u.textures[s] = (textureDecl? u dims s).isSome
      unfold textureDecl?
      cases hu : u.textures[s] with
      | false => rfl
      | true => simpa using (hdims s hu).symm
    rw [huses]
    simp
  | sampler s =>
    rw [countP_filterMap_eq_zero resource_of_textureDecl? (by simp),
      countP_filterMap_allSlots .sampler (by simp) resource_of_samplerDecl?,
      countP_filterMap_eq_zero resource_of_blockDecl? (by simp)]
    have huses : u.uses (.sampler s) = (samplerDecl? u s).isSome := by
      show u.samplers[s] = (samplerDecl? u s).isSome
      unfold samplerDecl?
      cases u.samplers[s] <;> rfl
    rw [huses]
    simp
  | uniformBlock b =>
    rw [countP_filterMap_eq_zero resource_of_textureDecl? (by simp),
      countP_filterMap_eq_zero resource_of_samplerDecl? (by simp),
      countP_filterMap_allSlots .uniformBlock (by simp) resource_of_blockDecl?]
    have huses : u.uses (.uniformBlock b) = (blockDecl? u b).isSome := by
      unfold blockDecl?
      by_cases hpos : 0 < u.uniformBlocks[b]
      · rw [if_pos hpos]
        exact decide_eq_true hpos
      · rw [if_neg hpos]
        exact decide_eq_false hpos
    rw [huses]
    simp
  | cfile =>
    rw [countP_filterMap_eq_zero resource_of_textureDecl? (by simp),
      countP_filterMap_eq_zero resource_of_samplerDecl? (by simp),
      countP_filterMap_eq_zero resource_of_blockDecl? (by simp)]
    simp [Usage.uses]

/-- A constant array is declared with the size that the usage records. -/
def Hlsl.Decl.HasSizeIn (u : Usage) : Decl → Prop
  | .uniformBlock b size => size = u.uniformBlocks[b]
  | .cfile size => size = u.cfile
  | .texture _ _ | .sampler _ => True

theorem hasSizeIn_of_mem_resourceDecls {u : Usage} {dims : TextureDims} {d : Decl}
    (h : d ∈ resourceDecls u dims) : d.HasSizeIn u := by
  simp only [resourceDecls, List.mem_append, List.mem_filterMap, List.mem_map] at h
  rcases h with ((⟨s, -, hd⟩ | ⟨s, -, rfl⟩) | ⟨⟨b, size⟩, hb, rfl⟩) | hd
  · obtain ⟨dim, -, rfl⟩ := Option.map_eq_some_iff.mp hd
    trivial
  · trivial
  · obtain ⟨b', -, heq⟩ := List.mem_map.mp (List.mem_of_mem_filter hb)
    cases heq
    rfl
  · split at hd
    · obtain rfl := List.mem_singleton.mp hd
      rfl
    · cases hd

end LatteHlsl
