import LatteHlsl.Compile.Descriptor
import LatteHlsl.Proofs.Run

/-!
# Compiled requests

A shader is compiled from the descriptor of a stage or from a single program. `Request` is any of
these, so that what holds of every compiled shader is said once.

* `Request.compile`, `Request.tasks`: the shader, and the tasks of all programs that go into it.
* `Listing.stmts`: the statements of a source.
* `Request.runs_of_compile`: a compiled shader is made of the outputs of two runs, of which the
  second is that of the fetch program and is empty if none is called.
-/

namespace LatteHlsl

open Isa Hlsl Compile

/-! ## Sources -/

/-- The statements of a function, the preloads of its registers first. -/
def Hlsl.FuncDecl.stmts (f : FuncDecl) : List Stmt :=
  f.preloads.map .assign ++ f.body.filterMap Line.stmt?

/-- Nothing is filled in before the body of a function that is called. -/
def Hlsl.FuncDecl.IsPrinted (f : FuncDecl) : Prop :=
  ∀ stage, f.signature = .callee stage → f.preloads = []

/-- The functions of a source, in their order. -/
def Hlsl.Listing.functions (m : Listing) : List FuncDecl := m.fetch.toList ++ [m.main]

/-- The statements of a source. -/
def Hlsl.Listing.stmts (m : Listing) : List Stmt :=
  (m.fetch.map FuncDecl.stmts).getD [] ++ m.main.stmts

theorem Usage.merge_empty (u : Usage) : u.merge {} = u := by
  cases u with
  | mk textures samplers blocks cfile =>
    simp only [merge, Usage.mk.injEq]
    refine ⟨?_, ?_, ?_, Nat.max_zero cfile⟩
    · ext i hi
      simp
    · ext i hi
      simp
    · ext i hi
      simp

namespace Compile

@[simp] theorem Output.stmts_released (o : Output) : o.released.stmts = o.stmts := rfl

/-! ## Requests -/

/-- What a shader is compiled from. -/
inductive Request where
  | vertex (d : VertexDesc)
  | geometry (d : GeometryDesc)
  | pixel (d : PixelDesc)
  | program (p : Program) (stage : Stage) (isFunction : Bool) (r : StageResources)

namespace Request

/-- Compile a request. -/
def compile (o : Options) : Request → Except Halt Shader
  | .vertex d => d.compile o
  | .geometry d => d.compile o
  | .pixel d => d.compile o
  | .program p stage isFunction r => compileProgram p stage isFunction r o

/-- What is known of the programs of a request. -/
def context (o : Options) : Request → Context
  | .vertex d => d.context o
  | .geometry d => o.context d.resources
  | .pixel d => { o.context d.resources with pixelInputs := d.inputCount }
  | .program _ _ _ r => o.context r

/-- The program whose function is the main one. -/
def mainProgram : Request → Program
  | .vertex d => d.program
  | .geometry d => d.program
  | .pixel d => d.program
  | .program p _ _ _ => p

def stage : Request → Stage
  | .vertex _ => .vertex
  | .geometry _ => .geometry
  | .pixel _ => .pixel
  | .program _ stage _ _ => stage

/-- Whether the main function is one that other code calls. -/
def isFunction : Request → Bool
  | .vertex _ | .geometry _ | .pixel _ => false
  | .program _ _ isFunction _ => isFunction

/-- The tasks of the fetch program, if it is compiled too. -/
def fetchTasks : Request → List Task
  | .vertex d => if Task.call ∈ d.program.tasks then d.fetchProgram.tasks else []
  | .geometry _ | .pixel _ | .program _ _ _ _ => []

/-- The tasks of a request. -/
def tasks (r : Request) : List Task := r.fetchTasks ++ r.mainProgram.tasks

/-- The registers filled before the main function runs. -/
def preloads (o : Options) (r : Request) : List Assignment :=
  if r.isFunction then [] else pixelPreloads r.stage (r.context o).pixelInputs

/-- The shader of a main output and the output of the fetch program. -/
structure ShaderOf (r : Request) (o : Options) (main fetch : Output) (shader : Shader) : Prop where
  usage : shader.usage = main.usage.merge fetch.usage
  inputs : shader.inputs = fetch.inputs ++ main.inputs
  exports : shader.exports = main.exports
  callsFetch : shader.callsFetch = decide (Task.call ∈ r.mainProgram.tasks)
  decls : shader.source.decls = resourceDecls shader.usage (r.context o).texDims
  stmts : shader.source.stmts = fetch.stmts ++ (r.preloads o).map .assign ++ main.stmts
  printed : ∀ f ∈ shader.source.functions, f.IsPrinted

/-- The shader of completed jobs. -/
theorem shaderOf_shader {r : Request} {o : Options} {j : Job} (f? : Option Job)
    (hcontext : j.context = r.context o) (hstage : j.walk.stage = r.stage)
    (hfunction : j.walk.isFunction = r.isFunction)
    (hcalls : j.walk.callsFetch = decide (Task.call ∈ r.mainProgram.tasks)) :
    ShaderOf r o j.output.released ((f?.map fun f => f.output.released).getD {}) (j.shader f?) where
  usage := by
    cases f? with
    | none => exact (Usage.merge_empty _).symm
    | some f => rfl
  inputs := by cases f? <;> rfl
  exports := rfl
  callsFetch := hcalls
  decls := by
    rw [← hcontext]
    rfl
  stmts := by
    have hmain : j.mainDecl.stmts = (r.preloads o).map .assign ++ j.output.stmts := by
      unfold Job.mainDecl preloads
      rw [hfunction, hstage, hcontext]
      cases r.isFunction <;> rfl
    have hfetch : ((f?.map fun f : Job =>
        (⟨.callee .fetch, [], f.output.body.toList⟩ : FuncDecl)).map FuncDecl.stmts).getD [] =
          ((f?.map fun f : Job => f.output.released).getD {}).stmts := by
      cases f? <;> rfl
    rw [List.append_assoc, Output.stmts_released, ← hmain, ← hfetch]
    rfl
  printed := by
    have hmain : j.mainDecl.IsPrinted := by
      unfold Job.mainDecl
      split
      · exact fun _ _ => rfl
      · intro stage hstage
        cases hstage
    refine List.forall_mem_append.mpr ⟨?_, List.forall_mem_singleton.mpr hmain⟩
    intro f hf stage _
    obtain ⟨f', -, rfl⟩ := Option.map_eq_some_iff.mp (Option.mem_toList.mp hf)
    rfl

/-- A single program of a request that is compiled on its own. -/
theorem runs_of_compileAlone {r : Request} {o : Options} {shader : Shader}
    (h : (Job.start (r.context o) r.mainProgram r.stage r.isFunction).compileAlone = .ok shader) :
    ∃ main, Runs (r.context o) r.mainProgram.tasks {} main ∧ ShaderOf r o main {} shader := by
  simp only [Job.compileAlone, Checked.bind_eq_ok, Checked.mapError_eq_ok, Job.finish] at h
  obtain ⟨j, hj, hfinish⟩ := h
  obtain ⟨hcontext, hstage, hfunction, hcomplete, hcalls, hruns⟩ := Compile.runs_of_compile hj
  simp only [Job.finishWith, hcomplete, Option.all_none, Bool.and_self, if_true,
    Except.ok.injEq] at hfinish
  subst hfinish
  exact ⟨_, hruns, shaderOf_shader none hcontext hstage hfunction hcalls⟩

/-- A shader that was compiled is made of the outputs of two runs. -/
theorem runs_of_compile {r : Request} {o : Options} {shader : Shader}
    (h : r.compile o = .ok shader) :
    ∃ main fetch, Runs (r.context o) r.mainProgram.tasks {} main ∧
      Runs (r.context o) r.fetchTasks {} fetch ∧ ShaderOf r o main fetch shader := by
  cases r with
  | geometry d =>
    obtain ⟨main, hmain, hshader⟩ := runs_of_compileAlone (r := .geometry d) h
    exact ⟨main, {}, hmain, .nil, hshader⟩
  | pixel d =>
    obtain ⟨main, hmain, hshader⟩ := runs_of_compileAlone (r := .pixel d) h
    exact ⟨main, {}, hmain, .nil, hshader⟩
  | program p stage isFunction res =>
    obtain ⟨main, hmain, hshader⟩ := runs_of_compileAlone (r := .program p stage isFunction res) h
    exact ⟨main, {}, hmain, .nil, hshader⟩
  | vertex d =>
    simp only [compile, VertexDesc.compile, Checked.bind_eq_ok] at h
    obtain ⟨j, hj, h⟩ := h
    obtain ⟨hcontext, hstage, hfunction, hcomplete, hcalls, hruns⟩ := Compile.runs_of_compile hj
    have hshader : ∀ f?, ShaderOf (.vertex d) o j.output.released
        ((f?.map fun f : Job => f.output.released).getD {}) (j.shader f?) :=
      fun f? => shaderOf_shader f? hcontext hstage hfunction hcalls
    -- the fetch program is compiled exactly if the vertex program calls it
    by_cases hcall : Task.call ∈ d.program.tasks
    · simp only [hcalls, hcall, decide_true, if_true, Checked.bind_eq_ok, Checked.map_eq_ok,
        Checked.mapError_eq_ok] at h
      obtain ⟨_, ⟨f, hf, rfl⟩, hfinish⟩ := h
      obtain ⟨-, -, -, hfcomplete, -, hfruns⟩ := Compile.runs_of_compile hf
      simp only [Job.finishWith, hcomplete, Option.all_some, hfcomplete, Bool.and_self, if_true,
        Except.ok.injEq] at hfinish
      subst hfinish
      refine ⟨_, _, hruns, ?_, hshader (some f)⟩
      rw [fetchTasks, if_pos hcall]
      exact hfruns
    · simp only [hcalls, hcall, decide_false, Bool.false_eq_true, if_false, Checked.bind_eq_ok,
        Checked.pure_eq_ok, Checked.mapError_eq_ok] at h
      obtain ⟨_, rfl, hfinish⟩ := h
      simp only [Job.finishWith, hcomplete, Option.all_none, Bool.and_self, if_true,
        Except.ok.injEq] at hfinish
      subst hfinish
      refine ⟨_, _, hruns, ?_, hshader none⟩
      rw [fetchTasks, if_neg hcall]
      exact .nil

/-- The statement of a source that is compiled from a task of its request, or a preload. -/
theorem exists_adds {r : Request} {o : Options} {shader : Shader} {s : Stmt}
    (h : r.compile o = .ok shader) (hs : s ∈ shader.source.stmts) :
    (∃ a ∈ r.preloads o, s = .assign a) ∨
      ∃ t ∈ r.tasks, ∃ o₁ p, Task.Adds (r.context o) o₁ t p ∧ s ∈ p.stmts := by
  obtain ⟨main, fetch, hmain, hfetch, hshader⟩ := r.runs_of_compile h
  have hempty : s ∉ ({} : Output).stmts := by simp [Output.stmts]
  rw [hshader.stmts, List.append_assoc, List.mem_append, List.mem_append] at hs
  rcases hs with hs | hs | hs
  · obtain ⟨t, ht, hadds⟩ := (hfetch.exists_adds hs).resolve_left hempty
    exact .inr ⟨t, List.mem_append_left _ ht, hadds⟩
  · obtain ⟨a, ha, rfl⟩ := List.mem_map.mp hs
    exact .inl ⟨a, ha, rfl⟩
  · obtain ⟨t, ht, hadds⟩ := (hmain.exists_adds hs).resolve_left hempty
    exact .inr ⟨t, List.mem_append_right _ ht, hadds⟩

end Request

end Compile

end LatteHlsl
