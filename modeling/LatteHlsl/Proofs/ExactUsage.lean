import LatteHlsl.Proofs.CodeReading
import LatteHlsl.Proofs.DeclarationText

/-!
# Usage is exact

Accesses are recorded while operands are compiled, and the statements are written elsewhere. Still
the usage of a compiled shader is the usage of the statements in its source, and the declarations
are those of the usage.

* `Listing.blockIndices`, `Listing.cfileIndices`: the indices into constant arrays in a source.
* `Request.records_of_compile`: the usage records the accesses of the source.
* `Request.usage_eq`: what the usage and the declarations of a shader say about its source.
* `Request.block_index_lt_iff`: which constant indices lie inside the declared arrays.
-/

namespace LatteHlsl

open Isa Hlsl Compile Grammar

/-! ## Constants in a source -/

namespace Hlsl

/-- The index of an atom that refers to uniform block `b`. -/
def Atom.blockIndex? (b : Slot) : Atom → Option Index
  | .uniform b' k _ => if b' = b then some k else none
  | _ => none

/-- The index of an atom that refers to the uniform register file. -/
def Atom.cfileIndex? : Atom → Option Index
  | .cfile k _ => some k
  | _ => none

namespace Listing

/-- The operands in a source. -/
def sources (m : Listing) : List Source := m.stmts.flatMap Stmt.sources

/-- The indices into uniform block `b` in a source. -/
def blockIndices (m : Listing) (b : Slot) : List Index :=
  m.sources.filterMap fun s => s.atom.blockIndex? b

/-- The indices into the uniform register file in a source. -/
def cfileIndices (m : Listing) : List Index := m.sources.filterMap fun s => s.atom.cfileIndex?

/-- The indices into a uniform block that the text of a source has. -/
theorem codeIndices_block {m : Listing} (h : m.IsReadable) (b : Slot) :
    codeIndices m.text s!"CB{b.val}" = (m.blockIndices b).map Index.tree := by
  have hname : ∀ b : Slot, "R" ≠ s!"CB{b.val}" ∧ "C" ≠ s!"CB{b.val}" := by decide
  have hindex : ∀ atom : Atom, atom.indexIn? s!"CB{b.val}" = atom.blockIndex? b := by
    intro atom
    cases atom with
    | gpr k c =>
      simp only [Atom.indexIn?, Atom.element?, Atom.blockIndex?, Option.bind_some,
        if_neg (hname b).1]
    | uniform d k c =>
      have hiff : s!"CB{d.val}" = s!"CB{b.val}" ↔ d = b :=
        ⟨fun heq => Fin.ext (numbered_injective "CB" heq), fun heq => by rw [heq]⟩
      simp only [Atom.indexIn?, Atom.element?, Atom.blockIndex?, Option.bind_some, hiff]
    | cfile k c =>
      simp only [Atom.indexIn?, Atom.element?, Atom.blockIndex?, Option.bind_some,
        if_neg (hname b).2]
    | _ => rfl
  rw [codeIndices_text h (hname b).1]
  simp only [hindex]
  rfl

/-- The indices into the uniform register file that the text of a source has. -/
theorem codeIndices_cfile {m : Listing} (h : m.IsReadable) :
    codeIndices m.text "C" = m.cfileIndices.map Index.tree := by
  have hname : ∀ b : Slot, s!"CB{b.val}" ≠ "C" := by decide
  have hindex : ∀ atom : Atom, atom.indexIn? "C" = atom.cfileIndex? := by
    intro atom
    cases atom with
    | uniform b k c =>
      simp only [Atom.indexIn?, Atom.element?, Atom.cfileIndex?, Option.bind_some, if_neg (hname b)]
    | _ => rfl
  rw [codeIndices_text h (by decide)]
  simp only [hindex]
  rfl

end Listing

/-- The size of an array with the given indices into it, as a code has them. -/
def codeSize (capacity : Nat) (ts : List Tree) : Nat :=
  if ts = [] then 0
  else if ts.all fun t => t.constant?.isSome then
    min capacity (1 + (ts.filterMap Tree.constant?).foldl max 0)
  else capacity

theorem codeSize_map_tree (capacity : Nat) (ks : List Index) :
    codeSize capacity (ks.map Index.tree) = arraySize capacity ks := by
  have hstatic : ∀ k : Index, k.tree.constant?.isSome = k.isStatic := by
    intro k
    rw [k.constant?_tree, Index.const?]
    cases k.isStatic <;> rfl
  have hall : ((ks.map Index.tree).all fun t => t.constant?.isSome) = ks.all Index.isStatic := by
    rw [List.all_map]
    exact congrArg ks.all (funext hstatic)
  unfold codeSize arraySize
  rw [hall]
  by_cases hks : ks = []
  · rw [if_pos (by rw [hks]; rfl), if_pos hks]
  rw [if_neg (by simpa using hks), if_neg hks]
  split
  · rename_i hconst
    have hvalues : (ks.map Index.tree).filterMap Tree.constant? = ks.map Index.base := by
      rw [List.filterMap_map, ← List.filterMap_eq_map]
      refine List.filterMap_congr fun k hk => ?_
      have hk := List.all_eq_true.mp hconst k hk
      simp [k.constant?_tree, Index.const?, hk]
    rw [hvalues]
  · rfl

end Hlsl

namespace Compile

/-- Operands access neither textures nor samplers. -/
theorem mem_accesses_iff {s : Stmt} {a : Access} :
    a ∈ s.accesses ↔
      (∃ x, s = .sample x ∧ (a = .texture x.texture ∨ a = .sampler x.sampler)) ∨
        ∃ x ∈ s.sources, x.atom.access? = some a := by
  cases s <;> simp [Stmt.accesses, Stmt.sources, sourceAccesses]

theorem access?_ne_slot (atom : Atom) (s : Slot) :
    atom.access? ≠ some (.texture s) ∧ atom.access? ≠ some (.sampler s) := by
  cases atom with
  | uniform b k chan => cases hk : k.isStatic <;> simp [Atom.access?, hk]
  | cfile k chan => cases hk : k.isStatic <;> simp [Atom.access?, hk]
  | _ => simp [Atom.access?]

theorem texture_mem_accesses {s : Stmt} {t : Slot} :
    .texture t ∈ s.accesses ↔ ∃ x, s = .sample x ∧ x.texture = t := by
  rw [mem_accesses_iff]
  simp [access?_ne_slot, eq_comm (a := t)]

theorem sampler_mem_accesses {s : Stmt} {t : Slot} :
    .sampler t ∈ s.accesses ↔ ∃ x, s = .sample x ∧ x.sampler = t := by
  rw [mem_accesses_iff]
  simp [access?_ne_slot, eq_comm (a := t)]

/-- An access that only samples make, in some statement. -/
theorem exists_sample_iff {ss : List Stmt} {a : Access} {Q : Sample → Prop}
    (h : ∀ s : Stmt, a ∈ s.accesses ↔ ∃ x, s = .sample x ∧ Q x) :
    (∃ s ∈ ss, a ∈ s.accesses) ↔ ∃ x, .sample x ∈ ss ∧ Q x := by
  constructor
  · rintro ⟨s, hs, ha⟩
    obtain ⟨x, rfl, hx⟩ := (h s).mp ha
    exact ⟨x, hs, hx⟩
  · rintro ⟨x, hs, hx⟩
    exact ⟨.sample x, hs, (h _).mpr ⟨x, rfl, hx⟩⟩

/-- Where the access of an atom lies in a uniform block. -/
theorem fitsBlock_iff {atom : Atom} {b : Slot} {n : Nat} :
    (∀ a, atom.access? = some a → a.FitsBlock b n) ↔
      ∀ k, atom.blockIndex? b = some k → k.isStatic = true ∧ k.base < n := by
  cases atom with
  | uniform b' k chan =>
    by_cases hb : b' = b <;> cases hk : k.isStatic <;>
      simp [Atom.access?, Atom.blockIndex?, Access.FitsBlock, hb, hk]
  | cfile k chan =>
    cases hk : k.isStatic <;> simp [Atom.access?, Atom.blockIndex?, Access.FitsBlock, hk]
  | _ => simp [Atom.access?, Atom.blockIndex?]

/-- Where the access of an atom lies in the uniform register file. -/
theorem fitsCfile_iff {atom : Atom} {n : Nat} :
    (∀ a, atom.access? = some a → a.FitsCfile n) ↔
      ∀ k, atom.cfileIndex? = some k → k.isStatic = true ∧ k.base < n := by
  cases atom with
  | cfile k chan =>
    cases hk : k.isStatic <;> simp [Atom.access?, Atom.cfileIndex?, Access.FitsCfile, hk]
  | uniform b k chan =>
    cases hk : k.isStatic <;> simp [Atom.access?, Atom.cfileIndex?, Access.FitsCfile, hk]
  | _ => simp [Atom.access?, Atom.cfileIndex?]

/-! ## What a run records -/

/-- The usage of an output that a run has made is that of its statements. -/
theorem Runs.records {c : Context} {ts : List Task} {o : Output} (h : Runs c ts {} o) :
    o.usage.Records fun a => ∃ s ∈ o.stmts, a ∈ s.accesses := by
  have hadd : ∀ (o : Output) (p : Piece), p.Exact →
      (o.usage.Records fun a => ∃ s ∈ o.stmts, a ∈ s.accesses) →
        (o.add p).usage.Records fun a => ∃ s ∈ (o.add p).stmts, a ∈ s.accesses := by
    intro o p hp ho
    refine (ho.foldl p.accesses).congr fun a => ?_
    rw [hp a, Output.stmts_add]
    simp only [List.mem_append, or_and_right, exists_or]
  refine h.invariant (P := fun o => o.usage.Records fun a => ∃ s ∈ o.stmts, a ∈ s.accesses) ?_ ?_ ?_
  · exact Usage.Records.empty.congr fun a => by simp [Output.stmts]
  · intro o ls hls ho
    have hstmts : Piece.stmts { lines := ls } = [] := hls
    exact hadd o _ (fun a => by simp [hstmts]) ho
  · intro o t p hp ho
    exact hadd o p hp.exact ho

/-- Only samples are compiled to samples. -/
theorem Task.Adds.sampleOf_eq {c : Context} {o : Output} {t : Task} {p : Piece} {x : Sample}
    (h : Task.Adds c o t p) (hx : .sample x ∈ p.stmts) : ∃ i, sampleOf c.texDims i = .ok x := by
  have hmove : ∀ m, .sample x ∉ (moveLines m).filterMap Line.stmt? := by
    intro m hm
    obtain ⟨a, -, ha⟩ := mem_stmts_moveLines.mp hm
    cases ha
  cases h with
  | call | ret | unused => simp [Piece.stmts, Line.stmt?] at hx
  | group hls hp => cases (groupShape_of_group hls hp).stmts _ hx
  | fetch | output => exact absurd hx (hmove _)
  | @sample i y hy =>
    simp only [Piece.stmts, List.filterMap_append, List.mem_append, hmove, or_false,
      false_or] at hx
    simp only [Line.stmt?, List.filterMap_cons, List.filterMap_nil, List.mem_singleton,
      Stmt.sample.injEq] at hx
    exact ⟨i, hx ▸ hy⟩

theorem texDims_of_sampleOf {dims : TextureDims} {i : TexInstr} {x : Sample}
    (h : sampleOf dims i = .ok x) : dims[x.texture].isSome = true := by
  obtain ⟨dim, hdim, -⟩ := sampleOf_eq_ok h
  rw [hdim]
  rfl

/-! ## Compiled shaders -/

/-- The usage of a shader records the accesses of its source. -/
theorem Request.records_of_compile {r : Request} {o : Options} {shader : Shader}
    (h : r.compile o = .ok shader) :
    shader.usage.Records fun a => ∃ s ∈ shader.source.stmts, a ∈ s.accesses := by
  obtain ⟨main, fetch, hmain, hfetch, hshader⟩ := r.runs_of_compile h
  rw [hshader.usage]
  refine (hmain.records.merge hfetch.records).congr fun a => ?_
  have hpreload : ¬ ∃ s ∈ (r.preloads o).map Stmt.assign, a ∈ s.accesses := by
    rintro ⟨s, hs, ha⟩
    obtain ⟨x, -, rfl⟩ := List.mem_map.mp hs
    simp [Stmt.accesses, Stmt.sources] at ha
  rw [hshader.stmts]
  simp only [List.mem_append (t := main.stmts), List.mem_append (s := fetch.stmts), or_and_right,
    exists_or, hpreload, or_false]
  exact or_comm

/-- The sampled textures of a shader have a known shape. -/
theorem Request.texDims_isSome {r : Request} {o : Options} {shader : Shader} {s : Slot}
    (h : r.compile o = .ok shader) (hs : shader.usage.textures[s] = true) :
    (r.context o).texDims[s].isSome = true := by
  obtain ⟨st, hst, hacc⟩ := ((Request.records_of_compile h).textures s).mp hs
  obtain ⟨x, rfl, rfl⟩ := texture_mem_accesses.mp hacc
  rcases Request.exists_adds h hst with ⟨a, -, ha⟩ | ⟨t, -, o₁, p, hp, hx⟩
  · cases ha
  · obtain ⟨i, hi⟩ := hp.sampleOf_eq hx
    exact texDims_of_sampleOf hi

/-- Bounds on the accesses of a source to one constant array are bounds on the indices into it. -/
theorem forall_indices_iff {m : Listing} {n : Nat} {Fits : Access → Prop}
    {index? : Atom → Option Index} (hslot : ∀ s, Fits (.texture s) ∧ Fits (.sampler s))
    (hatom : ∀ atom : Atom, (∀ a, atom.access? = some a → Fits a) ↔
      ∀ k, index? atom = some k → k.isStatic = true ∧ k.base < n) :
    (∀ a, (∃ s ∈ m.stmts, a ∈ s.accesses) → Fits a) ↔
      ∀ k ∈ m.sources.filterMap fun s => index? s.atom, k.isStatic = true ∧ k.base < n := by
  constructor
  · intro h k hk
    obtain ⟨x, hx, hxk⟩ := List.mem_filterMap.mp hk
    obtain ⟨s, hs, hxs⟩ := List.mem_flatMap.mp hx
    refine (hatom x.atom).mp (fun a ha => ?_) k hxk
    exact h a ⟨s, hs, mem_accesses_iff.mpr (.inr ⟨x, hxs, ha⟩)⟩
  · rintro h a ⟨s, hs, ha⟩
    rcases mem_accesses_iff.mp ha with ⟨x, -, rfl | rfl⟩ | ⟨x, hx, hxa⟩
    · exact (hslot _).1
    · exact (hslot _).2
    · refine (hatom x.atom).mpr (fun k hk => ?_) a hxa
      exact h k (List.mem_filterMap.mpr ⟨x, List.mem_flatMap.mpr ⟨s, hs, hx⟩, hk⟩)

namespace Request

variable {r : Request} {o : Options} {shader : Shader}

/-- The line declares a resource, with the type of a texture and the size of an array in use. -/
def DeclaredAs (u : Usage) (dims : TextureDims) (line : String) : Resource → Prop
  | .texture s => ∃ dim, dims[s] = some dim ∧
    line = s!"{textureType dim} texture{s.val} : register(t{s.val});"
  | .sampler s => line = s!"SamplerState sampler{s.val} : register(s{s.val});"
  | .uniformBlock b => ∃ size, size = u.uniformBlocks[b] ∧
    line = s!"cbuffer UniformBlock{b.val} : register(b{b.val}) \x7b float4 CB{b.val}[{size}]; \x7d;"
  | .cfile => line = s!"cbuffer Registers \x7b float4 C[{u.cfile}]; \x7d;"

/-- The bounds of a block's recorded size below its capacity. -/
theorem uniformBlocks_le_iff (h : r.compile o = .ok shader) {b : Slot} {n : Nat}
    (hn : n < uniformBlockCapacity) :
    shader.usage.uniformBlocks[b] ≤ n ↔
      ∀ k ∈ shader.source.blockIndices b, k.isStatic = true ∧ k.base < n := by
  rw [(records_of_compile h).block_le_iff b n hn]
  exact forall_indices_iff (fun _ => ⟨trivial, trivial⟩) fun _ => fitsBlock_iff

/-- The bounds of the recorded size of the uniform register file below its capacity. -/
theorem cfile_le_iff (h : r.compile o = .ok shader) {n : Nat} (hn : n < cfileCapacity) :
    shader.usage.cfile ≤ n ↔
      ∀ k ∈ shader.source.cfileIndices, k.isStatic = true ∧ k.base < n := by
  rw [(records_of_compile h).cfile_le_iff n hn]
  exact forall_indices_iff (fun _ => ⟨trivial, trivial⟩) fun _ => fitsCfile_iff

/-- The code of a shader, as text, and the usage of the shader. -/
structure CodeUses (dims : TextureDims) (shader : Shader) : Prop where
  textures : ∀ s : Slot, shader.usage.textures[s] = true ↔
    ∃ x ∈ codeSamples shader.code, x.1 = s!"texture{s.val}"
  samplers : ∀ s : Slot, shader.usage.samplers[s] = true ↔
    ∃ x ∈ codeSamples shader.code, x.2 = .name s!"sampler{s.val}"
  blocks : ∀ b : Slot, shader.usage.uniformBlocks[b] =
    codeSize uniformBlockCapacity (codeIndices shader.code s!"CB{b.val}")
  cfile : shader.usage.cfile = codeSize cfileCapacity (codeIndices shader.code "C")
  /-- One line declares each resource in use, and none declares another. -/
  declared : ∀ x : Resource,
    (codeLines shader.code).countP (fun line => decide (declaredName? line = some x.name)) =
      if shader.usage.uses x then 1 else 0
  /-- A line that declares a resource binds it to its slot, and has the size in use. -/
  lines : ∀ x : Resource, ∀ line ∈ codeLines shader.code, declaredName? line = some x.name →
    DeclaredAs shader.usage dims line x

theorem texture_iff (h : r.compile o = .ok shader) (s : Slot) :
    shader.usage.textures[s] = true ↔
      ∃ x, .sample x ∈ shader.source.stmts ∧ x.texture = s := by
  rw [(records_of_compile h).textures s]
  exact exists_sample_iff fun _ => texture_mem_accesses

theorem sampler_iff (h : r.compile o = .ok shader) (s : Slot) :
    shader.usage.samplers[s] = true ↔
      ∃ x, .sample x ∈ shader.source.stmts ∧ x.sampler = s := by
  rw [(records_of_compile h).samplers s]
  exact exists_sample_iff fun _ => sampler_mem_accesses

theorem uniformBlocks_eq (h : r.compile o = .ok shader) (b : Slot) :
    shader.usage.uniformBlocks[b] = arraySize uniformBlockCapacity (shader.source.blockIndices b) :=
  eq_arraySize ((records_of_compile h).block_le b) fun _ => uniformBlocks_le_iff h

theorem cfile_eq (h : r.compile o = .ok shader) :
    shader.usage.cfile = arraySize cfileCapacity shader.source.cfileIndices :=
  eq_arraySize (records_of_compile h).cfile_le fun _ => cfile_le_iff h

theorem decls_eq (h : r.compile o = .ok shader) :
    shader.source.decls = resourceDecls shader.usage (r.context o).texDims := by
  obtain ⟨_, _, -, -, hshader⟩ := r.runs_of_compile h
  exact hshader.decls

theorem countP_decls (h : r.compile o = .ok shader) (x : Resource) :
    shader.source.decls.countP (fun d => decide (d.resource = x)) =
      if shader.usage.uses x then 1 else 0 := by
  rw [decls_eq h]
  exact countP_resourceDecls (fun _ => texDims_isSome h) x

/-- What the samples of a code name is what the samples of the source have. -/
theorem mem_codeSamples (h : r.compile o = .ok shader) {y : String × Tree} :
    y ∈ codeSamples shader.code ↔ ∃ x, .sample x ∈ shader.source.stmts ∧
      y = (s!"texture{x.texture.val}", .name s!"sampler{x.sampler.val}") := by
  rw [Shader.code, Listing.codeSamples_text (isReadable_of_compile h), List.mem_filterMap]
  constructor
  · rintro ⟨s, hs, hy⟩
    cases s with
    | sample x => exact ⟨x, hs, (Option.some.inj hy).symm⟩
    | _ => cases hy
  · rintro ⟨x, hx, rfl⟩
    exact ⟨.sample x, hx, rfl⟩

theorem declaredAs_of_mem {u : Usage} {dims : TextureDims} {d : Decl}
    (h : d ∈ resourceDecls u dims) : DeclaredAs u dims d.text d.resource := by
  have hsize := hasSizeIn_of_mem_resourceDecls h
  simp only [resourceDecls, List.mem_append, List.mem_filterMap, List.mem_map] at h
  rcases h with ((⟨s, -, hd⟩ | ⟨s, -, rfl⟩) | ⟨⟨b, size⟩, -, rfl⟩) | hd
  · obtain ⟨dim, hdim, rfl⟩ := Option.map_eq_some_iff.mp hd
    exact ⟨dim, hdim, rfl⟩
  · rfl
  · exact ⟨size, hsize, rfl⟩
  · split at hd
    · obtain rfl := List.mem_singleton.mp hd
      rfl
    · cases hd

theorem codeUses_of_compile (h : r.compile o = .ok shader) :
    CodeUses (r.context o).texDims shader := by
  have hreadable := isReadable_of_compile h
  constructor
  case textures =>
    intro s
    rw [texture_iff h]
    constructor
    · rintro ⟨x, hx, rfl⟩
      exact ⟨_, (mem_codeSamples h).mpr ⟨x, hx, rfl⟩, rfl⟩
    · rintro ⟨y, hy, hname⟩
      obtain ⟨x, hx, rfl⟩ := (mem_codeSamples h).mp hy
      exact ⟨x, hx, Fin.ext (numbered_injective "texture" hname)⟩
  case samplers =>
    intro s
    rw [sampler_iff h]
    constructor
    · rintro ⟨x, hx, rfl⟩
      exact ⟨_, (mem_codeSamples h).mpr ⟨x, hx, rfl⟩, rfl⟩
    · rintro ⟨y, hy, hname⟩
      obtain ⟨x, hx, rfl⟩ := (mem_codeSamples h).mp hy
      exact ⟨x, hx, Fin.ext (numbered_injective "sampler" (Tree.name.inj hname))⟩
  case blocks =>
    intro b
    rw [Shader.code, Listing.codeIndices_block hreadable, codeSize_map_tree, uniformBlocks_eq h]
  case cfile =>
    rw [Shader.code, Listing.codeIndices_cfile hreadable, codeSize_map_tree, cfile_eq h]
  case declared =>
    intro x
    rw [Shader.code, Listing.countP_declaredName?, countP_decls h]
  case lines =>
    intro x line hline hname
    obtain ⟨d, hd, rfl, rfl⟩ := Listing.exists_decl_of_declaredName? hline hname
    rw [decls_eq h] at hd
    exact declaredAs_of_mem hd

/-- A shader uses the textures, samplers and constants that its source names, and declares each of
them once, constant arrays with the sizes in use. The same can be read off the text of its code. -/
theorem usage_eq (h : r.compile o = .ok shader) :
    (∀ s : Slot, shader.usage.textures[s] = true ↔
      ∃ x, .sample x ∈ shader.source.stmts ∧ x.texture = s) ∧
    (∀ s : Slot, shader.usage.samplers[s] = true ↔
      ∃ x, .sample x ∈ shader.source.stmts ∧ x.sampler = s) ∧
    (∀ b : Slot, shader.usage.uniformBlocks[b] =
      arraySize uniformBlockCapacity (shader.source.blockIndices b)) ∧
    shader.usage.cfile = arraySize cfileCapacity shader.source.cfileIndices ∧
    (∀ x, shader.source.decls.countP (fun d => decide (d.resource = x)) =
      if shader.usage.uses x then 1 else 0) ∧
    (∀ d ∈ shader.source.decls, d.HasSizeIn shader.usage) ∧
    CodeUses (r.context o).texDims shader := by
  refine ⟨texture_iff h, sampler_iff h, uniformBlocks_eq h, cfile_eq h, countP_decls h, ?_,
    codeUses_of_compile h⟩
  rw [decls_eq h]
  exact fun d hd => hasSizeIn_of_mem_resourceDecls hd

/-- A pixel program that reads one constant of a uniform block and one of the register file, and
samples a texture. -/
def tinted : Request :=
  .pixel
    { program := ⟨(Word.listToBytes
        [0x40000002, 0x20040000, 4, 0xA00000, 0x85, 0xC90, 0x80000107, 0x20000C90, 0x310,
          0xF00D1001, 0x68810000, 0]).toArray⟩
      resources := StageResources.withTexture {} ⟨3, by decide⟩ ⟨.dim2D, 7⟩ }

theorem usage_eq_tinted :
    ∃ shader, tinted.compile {} = .ok shader ∧
      shader.source.decls =
        [.texture ⟨3, by decide⟩ .dim2D, .sampler ⟨2, by decide⟩, .uniformBlock ⟨0, by decide⟩ 6,
          .cfile 8] ∧
      shader.source.cfileIndices = [⟨7, []⟩] ∧
      shader.usage.uses .cfile = true ∧
      shader.usage.cfile = arraySize cfileCapacity shader.source.cfileIndices ∧
      ((codeLines shader.code).countP fun line => decide (declaredName? line = some "C")) = 1 ∧
      CodeUses (tinted.context {}).texDims shader := by
  have hrun : (tinted.compile {}).toOption.any (fun shader => decide (
      shader.source.decls =
        [.texture ⟨3, by decide⟩ .dim2D, .sampler ⟨2, by decide⟩, .uniformBlock ⟨0, by decide⟩ 6,
          .cfile 8] ∧
      shader.source.cfileIndices = [⟨7, []⟩] ∧
      shader.usage.uses .cfile = true)) = true := by
    decide +kernel
  obtain ⟨shader, h, htest⟩ := Checked.exists_ok_of_any hrun
  obtain ⟨hdecls, hindices, huses⟩ := of_decide_eq_true htest
  obtain ⟨-, -, -, hcfile, -, -, hcode⟩ := usage_eq h
  have hone := hcode.declared .cfile
  rw [huses] at hone
  exact ⟨shader, h, hdecls, hindices, huses, hcfile, hone, hcode⟩

/-! ## Constant indices -/

/-- The operands in the source of a shader are those of groups among its tasks, and lie in the
ranges that these can name. -/
theorem atomInRange_of_mem_sources (h : r.compile o = .ok shader) {x : Source}
    (hx : x ∈ shader.source.sources) :
    ∃ cf g, Task.group cf g ∈ r.tasks ∧ AtomInRange cf x.atom := by
  obtain ⟨s, hs, hxs⟩ := List.mem_flatMap.mp hx
  rcases exists_adds h hs with ⟨a, -, rfl⟩ | ⟨t, ht, o₁, p, hp, hsp⟩
  · simp [Stmt.sources] at hxs
  · obtain ⟨cf, g, rfl, i, n, hsource⟩ := hp.operandOf hsp hxs
    exact ⟨cf, g, ht, atomInRange_of_sourceAtom hsource.atom⟩

theorem windowIndex_of_mem_blockIndices (h : r.compile o = .ok shader) {b : Slot} {k : Index}
    (hk : k ∈ shader.source.blockIndices b) :
    ∃ cf g bank n, Task.group cf g ∈ r.tasks ∧ cf.kcacheBlock bank = b ∧ n < 32 ∧
      k.base = windowUnit * cf.kcacheAddr bank + n := by
  obtain ⟨x, hx, hxk⟩ := List.mem_filterMap.mp hk
  obtain ⟨cf, g, hg, hrange⟩ := atomInRange_of_mem_sources h hx
  unfold Atom.blockIndex? at hxk
  split at hxk
  · rename_i b' k' chan hatom
    split at hxk
    · rename_i hb
      subst hb
      cases hxk
      rw [hatom] at hrange
      obtain ⟨bank, n, hblock, hn, hbase⟩ := hrange
      exact ⟨cf, g, bank, n, hg, hblock, hn, hbase⟩
    · cases hxk
  · cases hxk

theorem lt_of_mem_cfileIndices (h : r.compile o = .ok shader) {k : Index}
    (hk : k ∈ shader.source.cfileIndices) : k.base < cfileCapacity := by
  obtain ⟨x, hx, hxk⟩ := List.mem_filterMap.mp hk
  obtain ⟨cf, g, -, hrange⟩ := atomInRange_of_mem_sources h hx
  unfold Atom.cfileIndex? at hxk
  split at hxk
  · rename_i k' chan hatom
    cases hxk
    rwa [hatom] at hrange
  · cases hxk

theorem block_index_lt (h : r.compile o = .ok shader) {b : Slot} {k : Index}
    (hk : k ∈ shader.source.blockIndices b) :
    k.base < shader.usage.uniformBlocks[b] ↔ k.base < uniformBlockCapacity := by
  constructor
  · intro hlt
    exact Nat.lt_of_lt_of_le hlt ((records_of_compile h).block_le b)
  · intro hcapacity
    by_contra hnot
    have hfit := (uniformBlocks_le_iff h hcapacity).mp (Nat.le_of_not_lt hnot)
    exact Nat.lt_irrefl _ (hfit k hk).2

theorem cfile_index_lt (h : r.compile o = .ok shader) {k : Index}
    (hk : k ∈ shader.source.cfileIndices) : k.base < shader.usage.cfile := by
  by_contra hnot
  have hfit := (cfile_le_iff h (lt_of_mem_cfileIndices h hk)).mp (Nat.le_of_not_lt hnot)
  exact Nat.lt_irrefl _ (hfit k hk).2

/-- A constant index in a code is one in the source. -/
theorem exists_index_of_constant? {ks : List Index} {t : Tree} {n : Nat}
    (ht : t ∈ ks.map Index.tree) (hn : t.constant? = some n) : ∃ k ∈ ks, k.base = n := by
  obtain ⟨k, hk, rfl⟩ := List.mem_map.mp ht
  rw [k.constant?_tree] at hn
  exact ⟨k, hk, Index.base_of_const? hn⟩

/-- A constant index into a uniform block lies inside the declared array exactly if it is below the
capacity of a block. Windows start at multiples of sixteen and have thirty-two constants, so the
second half of the last window does not. Indices into the register file all lie inside. The same
holds of the indices that stand in the text of the code. -/
theorem block_index_lt_iff (h : r.compile o = .ok shader) :
    (∀ b : Slot, ∀ k ∈ shader.source.blockIndices b, k.isStatic = true →
      (k.base < shader.usage.uniformBlocks[b] ↔ k.base < uniformBlockCapacity) ∧
        ∃ cf g bank n, Task.group cf g ∈ r.tasks ∧ cf.kcacheBlock bank = b ∧ n < 32 ∧
          k.base = windowUnit * cf.kcacheAddr bank + n) ∧
    (∀ k ∈ shader.source.cfileIndices, k.isStatic = true → k.base < shader.usage.cfile) ∧
    (∀ b : Slot, ∀ t ∈ codeIndices shader.code s!"CB{b.val}", ∀ n, t.constant? = some n →
      (n < shader.usage.uniformBlocks[b] ↔ n < uniformBlockCapacity)) ∧
    ∀ t ∈ codeIndices shader.code "C", ∀ n, t.constant? = some n → n < shader.usage.cfile := by
  have hreadable := isReadable_of_compile h
  refine ⟨?_, fun k hk _ => cfile_index_lt h hk, ?_, ?_⟩
  · intro b k hk _
    exact ⟨block_index_lt h hk, windowIndex_of_mem_blockIndices h hk⟩
  · intro b t ht n hn
    rw [Shader.code, Listing.codeIndices_block hreadable] at ht
    obtain ⟨k, hk, rfl⟩ := exists_index_of_constant? ht hn
    exact block_index_lt h hk
  · intro t ht n hn
    rw [Shader.code, Listing.codeIndices_cfile hreadable] at ht
    obtain ⟨k, hk, rfl⟩ := exists_index_of_constant? ht hn
    exact cfile_index_lt h hk

theorem block_index_lt_iff_tinted :
    ∃ shader, tinted.compile {} = .ok shader ∧
      shader.source.blockIndices ⟨0, by decide⟩ = [⟨5, []⟩] ∧
      (5 < shader.usage.uniformBlocks[(⟨0, by decide⟩ : Slot)] ↔ 5 < uniformBlockCapacity) := by
  have hrun : (tinted.compile {}).toOption.any (fun shader => decide (
      shader.source.blockIndices ⟨0, by decide⟩ = [⟨5, []⟩])) = true := by
    decide +kernel
  obtain ⟨shader, h, htest⟩ := Checked.exists_ok_of_any hrun
  have hindices := of_decide_eq_true htest
  refine ⟨shader, h, hindices, ?_⟩
  exact ((block_index_lt_iff h).1 ⟨0, by decide⟩ ⟨5, []⟩ (by rw [hindices]; simp) rfl).1

/-- A pixel program that reads constant 16 of the last window of a uniform block. -/
def lastWindow : Request :=
  .pixel
    { program := ⟨(Word.listToBytes
        [0x40000002, 0x200003FC, 0, 0x200000, 0x80000090, 0x200C90]).toArray⟩ }

/-- Constant 4096 of a uniform block is read, and the block is declared with 4096 constants. -/
theorem block_index_lastWindow :
    ∃ shader, lastWindow.compile { comments := false } = .ok shader ∧
      shader.source.blockIndices ⟨0, by decide⟩ = [⟨4096, []⟩] ∧
      shader.usage.uniformBlocks[(⟨0, by decide⟩ : Slot)] = 4096 ∧
      shader.source.decls = [.uniformBlock ⟨0, by decide⟩ 4096] := by
  have hrun : (lastWindow.compile { comments := false }).toOption.any (fun shader => decide (
      shader.source.blockIndices ⟨0, by decide⟩ = [⟨4096, []⟩] ∧
      shader.usage.uniformBlocks[(⟨0, by decide⟩ : Slot)] = 4096 ∧
      shader.source.decls = [.uniformBlock ⟨0, by decide⟩ 4096])) = true := by
    decide +kernel
  obtain ⟨shader, h, htest⟩ := Checked.exists_ok_of_any hrun
  exact ⟨shader, h, of_decide_eq_true htest⟩

end Request

end Compile

end LatteHlsl
