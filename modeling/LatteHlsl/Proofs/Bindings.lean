import LatteHlsl.Proofs.Agreement
import LatteHlsl.Proofs.ExactUsage

/-!
# Bindings that a shader depends on

A shader depends on the resources it is compiled with through the shapes of the textures it samples
and through nothing else. So resources that agree on these, such as those cut down to what the shader
uses, give the same shader.

* `Request.compile_eq`, `Request.compile_eq_ok`: a request as the jobs of its programs.
* `Runs.sample_used`: a run that samples a texture records it.
* `compile_withDims`: a job with other texture shapes.
* `Request.compile_withResources`: a request with other resources.
-/

namespace LatteHlsl.Compile

open Isa Hlsl Effect

/-! ## Requests as jobs -/

namespace Request

/-- The fetch program of a request, if its main program calls for one. -/
def fetchProgram? (calls : Bool) : Request → Option Program
  | .vertex d => if calls then some d.fetchProgram else none
  | .geometry _ | .pixel _ | .program _ _ _ _ => none

/-- A request compiles its main program, then the fetch program if it is called, and puts the two
together. -/
theorem compile_eq (r : Request) (o : Options) :
    r.compile o = (do
      let j ← (Job.start (r.context o) r.mainProgram r.stage r.isFunction).compile
      let f? ← (r.fetchProgram? j.walk.callsFetch).mapM fun p =>
        (Job.start (r.context o) p .fetch true).compile
      (j.finishWith f?).mapError .fault) := by
  cases r with
  | geometry | pixel | program => rfl
  | vertex d =>
    show VertexDesc.compile d o = _
    unfold VertexDesc.compile
    refine bind_congr fun j => ?_
    simp only [fetchProgram?]
    cases j.walk.callsFetch <;> rfl

/-- The jobs of a request that compiles. -/
theorem compile_eq_ok {r : Request} {o : Options} {shader : Shader} :
    r.compile o = .ok shader ↔
      ∃ j f?, (Job.start (r.context o) r.mainProgram r.stage r.isFunction).compile = .ok j ∧
        ((r.fetchProgram? j.walk.callsFetch).mapM fun p =>
          (Job.start (r.context o) p .fetch true).compile) = .ok f? ∧
        j.finishWith f? = .ok shader := by
  simp only [compile_eq, Checked.bind_eq_ok, Checked.mapError_eq_ok, exists_and_left]

/-- What a request is bound to. -/
def resources : Request → StageResources
  | .vertex d => d.resources
  | .geometry d => d.resources
  | .pixel d => d.resources
  | .program _ _ _ r => r

/-- The request bound to other resources. -/
def withResources (res : StageResources) : Request → Request
  | .vertex d => .vertex { d with resources := res }
  | .geometry d => .geometry { d with resources := res }
  | .pixel d => .pixel { d with resources := res }
  | .program p stage isFunction _ => .program p stage isFunction res

/-- The request with only the bindings that a usage needs. -/
def clean (u : Usage) : Request → Request
  | .vertex d => .vertex (d.clean u)
  | .geometry d => .geometry (d.clean u)
  | .pixel d => .pixel (d.clean u)
  | .program p stage isFunction r => .program p stage isFunction (r.clean u)

theorem clean_eq (r : Request) (u : Usage) : r.clean u = r.withResources (r.resources.clean u) := by
  cases r <;> rfl

@[simp] theorem mainProgram_withResources (r : Request) (res : StageResources) :
    (r.withResources res).mainProgram = r.mainProgram := by
  cases r <;> rfl

@[simp] theorem stage_withResources (r : Request) (res : StageResources) :
    (r.withResources res).stage = r.stage := by
  cases r <;> rfl

@[simp] theorem isFunction_withResources (r : Request) (res : StageResources) :
    (r.withResources res).isFunction = r.isFunction := by
  cases r <;> rfl

@[simp] theorem fetchProgram?_withResources (r : Request) (res : StageResources) (calls : Bool) :
    (r.withResources res).fetchProgram? calls = r.fetchProgram? calls := by
  cases r <;> rfl

theorem texDims_context (r : Request) (o : Options) :
    (r.context o).texDims = r.resources.textureDims := by
  cases r <;> rfl

theorem context_withResources (r : Request) (o : Options) (res : StageResources) :
    (r.withResources res).context o = { r.context o with texDims := res.textureDims } := by
  cases r <;> rfl

end Request

/-! ## Textures in use -/

/-- A sample is the same for all shapes that agree on its texture. -/
theorem sampleOf_congr {dims dims' : TextureDims} {i : TexInstr} {x : Sample}
    (h : sampleOf dims i = .ok x) (heq : dims'[x.texture] = dims[x.texture]) :
    sampleOf dims' i = .ok x := by
  unfold sampleOf at h ⊢
  split at h
  · cases h
  · rename_i hfraction
    rw [if_neg hfraction]
    split at h
    · cases h
    · simp only [Checked.bind_eq_ok] at h ⊢
      obtain ⟨texture, htexture, sampler, hsampler, h⟩ := h
      refine ⟨texture, htexture, sampler, hsampler, ?_⟩
      have hx : x.texture = texture := by
        split at h
        · cases h
        · simp only [Checked.bind_eq_ok, Checked.pure_eq_ok] at h
          obtain ⟨offsets, -, rfl⟩ := h
          rfl
      subst hx
      rw [heq]
      exact h

theorem Runs.mem_stmts {c : Context} {ts : List Task} {o o' : Output} {s : Stmt}
    (h : Runs c ts o o') (hs : s ∈ o.stmts) : s ∈ o'.stmts := by
  refine h.invariant (P := fun o => s ∈ o.stmts) hs (fun o ls _ hs => ?_) fun o t p _ hs => ?_
  · rw [Output.stmts_add]
    exact List.mem_append_left _ hs
  · rw [Output.stmts_add]
    exact List.mem_append_left _ hs

/-- A texture that a run samples has a known shape and is recorded. -/
theorem Runs.sample_used {c : Context} {ts : List Task} {o o' : Output} {i : TexInstr}
    (h : Runs c ts o o') (hi : Task.sample i ∈ ts) :
    ∃ x, sampleOf c.texDims i = .ok x ∧ .sample x ∈ o'.stmts := by
  induction h with
  | nil => cases hi
  | note _ _ ih => exact ih hi
  | cons hp hrest ih =>
    rcases List.mem_cons.mp hi with rfl | hi
    · cases hp with
      | sample hx =>
        refine ⟨_, hx, hrest.mem_stmts ?_⟩
        rw [Output.stmts_add]
        refine List.mem_append_right _ ?_
        simp [Piece.stmts, Line.stmt?]
    · exact ih hi

/-- The declarations of a usage depend on the shapes of the textures in use only. -/
theorem resourceDecls_congr {u : Usage} {dims dims' : TextureDims}
    (h : ∀ s : Slot, u.textures[s] = true → dims'[s] = dims[s]) :
    resourceDecls u dims' = resourceDecls u dims := by
  have htextures : u.usedTextures.filterMap (fun s => dims'[s].map fun dim => Decl.texture s dim) =
      u.usedTextures.filterMap fun s => dims[s].map fun dim => Decl.texture s dim := by
    refine List.filterMap_congr fun s hs => ?_
    rw [h s (List.mem_filter.mp hs).2]
  unfold resourceDecls
  rw [htextures]

/-! ## Jobs -/

/-- A job that knows other texture shapes. -/
def Job.withDims (j : Job) (dims : TextureDims) : Job :=
  { j with context := { j.context with texDims := dims } }

/-- The handlers look at texture shapes for samples only. -/
theorem alike_withDims (c : Context) (dims : TextureDims) :
    Alike c (fun i => sampleOf dims i = sampleOf c.texDims i)
      (handlers { c with texDims := dims }) where
  find v _ hfetch := by
    cases v with
    | cf | exp | cfAlu | alu | vtx => rfl
    | tex op owner i =>
      simp only [Handlers.find, handlers]
      split
      · have hsample : sampleOf dims i = sampleOf c.texDims i := hfetch
        simp only [Option.map_some, compileSample, hsample]
      · rfl
  beginGroup := rfl
  endGroup := rfl

theorem compile_withDims {c : Context} {p : Program} {stage : Stage} {isFunction : Bool} {j : Job}
    {dims : TextureDims} (h : (Job.start c p stage isFunction).compile = .ok j)
    (hdims : ∀ i, Task.sample i ∈ p.tasks → sampleOf dims i = sampleOf c.texDims i) :
    (Job.start { c with texDims := dims } p stage isFunction).compile = .ok (j.withDims dims) := by
  have hwalk : walkProgram (handlers { c with texDims := dims })
      (Job.start { c with texDims := dims } p stage isFunction).machine =
        walkProgram (handlers c) (Job.start c p stage isFunction).machine :=
    walkProgram_alike (alike_withDims c dims) hdims
  unfold Job.compile Job.call at h ⊢
  simp only [Call.action, walkToEnd, Job.start] at h hwalk ⊢
  rw [hwalk]
  generalize walkProgram (handlers c) _ = r at h
  cases r with
  | ok u m =>
    cases h
    rfl
  | error halt m => cases h

/-- A job samples the textures that it records, so shapes that agree on these give the same
samples. -/
theorem sampleOf_eq_of_compile {c : Context} {p : Program} {stage : Stage} {isFunction : Bool}
    {j : Job} {dims : TextureDims} (h : (Job.start c p stage isFunction).compile = .ok j)
    (hdims : ∀ s : Slot, j.output.usage.textures[s] = true → dims[s] = c.texDims[s]) :
    ∀ i, Task.sample i ∈ p.tasks → sampleOf dims i = sampleOf c.texDims i := by
  intro i hi
  obtain ⟨-, -, -, -, -, hruns⟩ := runs_of_compile h
  obtain ⟨x, hx, hmem⟩ := hruns.sample_used hi
  have hused : j.output.usage.textures[x.texture] = true := by
    refine (hruns.records.textures x.texture).mpr ⟨_, hmem, ?_⟩
    exact texture_mem_accesses.mpr ⟨x, rfl, rfl⟩
  rw [hx]
  exact sampleOf_congr hx (hdims x.texture hused)

/-! ## Shaders -/

/-- A shader uses the textures that its programs use. -/
theorem textures_shader (j : Job) (f? : Option Job) (s : Slot) :
    (j.shader f?).usage.textures[s] = true ↔
      j.output.usage.textures[s] = true ∨ ∃ f, f? = some f ∧ f.output.usage.textures[s] = true := by
  cases f? with
  | none => simp [Job.shader]
  | some f => simp [Job.shader, Usage.merge]

theorem eq_shader_of_finishWith {j : Job} {f? : Option Job} {shader : Shader}
    (h : j.finishWith f? = .ok shader) : shader = j.shader f? := by
  unfold Job.finishWith at h
  split at h
  · exact (Except.ok.inj h).symm
  · cases h

/-- Of a shader, only the declarations look at texture shapes. -/
theorem shader_withDims (j : Job) (f? : Option Job) (dims : TextureDims) :
    (j.withDims dims).shader (f?.map (·.withDims dims)) =
      { j.shader f? with
        source :=
          { (j.shader f?).source with decls := resourceDecls (j.shader f?).usage dims } } := by
  cases f? <;> rfl

theorem finishWith_withDims {j : Job} {f? : Option Job} {shader : Shader} {dims : TextureDims}
    (h : j.finishWith f? = .ok shader)
    (hdims : ∀ s : Slot, shader.usage.textures[s] = true → dims[s] = j.context.texDims[s]) :
    (j.withDims dims).finishWith (f?.map (·.withDims dims)) = .ok shader := by
  obtain rfl := eq_shader_of_finishWith h
  have hcomplete : (j.isComplete && f?.all Job.isComplete) = true := by
    unfold Job.finishWith at h
    split at h
    · assumption
    · cases h
  unfold Job.finishWith
  rw [if_pos (by cases f? <;> exact hcomplete), shader_withDims, resourceDecls_congr hdims]
  rfl

namespace Request

variable {r : Request} {o : Options} {shader : Shader}

/-- A request depends on its resources only through the shapes of the textures that the shader
uses. -/
theorem compile_of_dims (h : r.compile o = .ok shader) {res : StageResources}
    (hdims : ∀ s : Slot, shader.usage.textures[s] = true →
      res.textureDims[s] = r.resources.textureDims[s]) :
    (r.withResources res).compile o = .ok shader := by
  obtain ⟨j, f?, hj, hf, hfinish⟩ := compile_eq_ok.mp h
  have hcontext : j.context = r.context o := (Compile.runs_of_compile hj).1
  have hused := fun s => (textures_shader j f? s).mpr
  rw [← eq_shader_of_finishWith hfinish] at hused
  rw [← texDims_context r o] at hdims
  refine compile_eq_ok.mpr ⟨j.withDims res.textureDims, f?.map (·.withDims res.textureDims), ?_, ?_,
    finishWith_withDims hfinish (by rw [hcontext]; exact hdims)⟩
  · rw [context_withResources, mainProgram_withResources, stage_withResources,
      isFunction_withResources]
    exact compile_withDims hj (sampleOf_eq_of_compile hj fun s hs => hdims s (hused s (.inl hs)))
  · rw [context_withResources, fetchProgram?_withResources]
    show (r.fetchProgram? j.walk.callsFetch).mapM _ = _
    cases hp : r.fetchProgram? j.walk.callsFetch with
    | none =>
      rw [hp] at hf
      obtain rfl := Checked.pure_eq_ok.mp hf
      rfl
    | some p =>
      rw [hp] at hf
      obtain ⟨f, hfetch, rfl⟩ := Checked.map_eq_ok.mp hf
      refine Checked.map_eq_ok.mpr ⟨f.withDims res.textureDims, ?_, rfl⟩
      exact compile_withDims hfetch
        (sampleOf_eq_of_compile hfetch fun s hs => hdims s (hused s (.inr ⟨f, rfl, hs⟩)))

/-- Cutting resources down to a usage keeps the shapes of the textures in use. -/
theorem textureDims_clean (res : StageResources) (u : Usage) {s : Slot}
    (hs : u.textures[s] = true) : (res.clean u).textureDims[s] = res.textureDims[s] := by
  unfold StageResources.textureDims StageResources.clean
  rw [getElem_map_slot, getElem_map_slot, getElem_zipWith_slot, hs]
  rfl

/-- Any resources that agree on the shapes of the textures a shader uses give the same shader, and
so do its own resources cut down to what it uses. -/
theorem compile_withResources (h : r.compile o = .ok shader) :
    (∀ res : StageResources, (∀ s : Slot, shader.usage.textures[s] = true →
        res.textureDims[s] = r.resources.textureDims[s]) →
      (r.withResources res).compile o = .ok shader) ∧
    (r.clean shader.usage).compile o = .ok shader := by
  refine ⟨fun res hdims => compile_of_dims h hdims, ?_⟩
  rw [clean_eq]
  exact compile_of_dims h fun s hs => textureDims_clean _ _ hs

/-- A vertex program that calls a fetch program, which samples texture 5. -/
def sampledFetch : Request :=
  .vertex
    { program := ⟨(Word.listToBytes [0, 0x9800000, 0, 0x200000]).toArray⟩
      fetchProgram := ⟨(Word.listToBytes
        [2, 0x800000, 0, 0xA000000, 0x510, 0xF00D1001, 0x68808000, 0]).toArray⟩
      resources :=
        (StageResources.withTexture {} ⟨5, by decide⟩ ⟨.dim2D, 7⟩).withTexture ⟨6, by decide⟩
          ⟨.dim3D, 8⟩ }

/-- Resources that share nothing with those but the shape of texture 5. -/
def otherResources : StageResources :=
  ((StageResources.withTexture {} ⟨5, by decide⟩ ⟨.dim2D, 70⟩).withTexture ⟨7, by decide⟩
    ⟨.cubemap, 9⟩).withUniformBlock ⟨1, by decide⟩ ⟨1, 2⟩

theorem compile_withResources_sampledFetch :
    ∃ shader, sampledFetch.compile {} = .ok shader ∧ shader.callsFetch = true ∧
      shader.source.decls = [.texture ⟨5, by decide⟩ .dim2D, .sampler ⟨1, by decide⟩] ∧
      (sampledFetch.withResources otherResources).compile {} = .ok shader ∧
      (sampledFetch.clean shader.usage).compile {} = .ok shader := by
  have hrun : (sampledFetch.compile {}).toOption.any (fun shader => decide (
      shader.callsFetch = true ∧
      shader.source.decls = [.texture ⟨5, by decide⟩ .dim2D, .sampler ⟨1, by decide⟩] ∧
      ∀ s : Slot, shader.usage.textures[s] = true →
        otherResources.textureDims[s] = sampledFetch.resources.textureDims[s])) = true := by
    decide +kernel
  obtain ⟨shader, h, htest⟩ := Checked.exists_ok_of_any hrun
  obtain ⟨hcalls, hdecls, hdims⟩ := of_decide_eq_true htest
  obtain ⟨hother, hclean⟩ := compile_withResources h
  exact ⟨shader, h, hcalls, hdecls, hother otherResources hdims, hclean⟩

end Request

end LatteHlsl.Compile
