import LatteHlsl.Proofs.FetchDefinition
import LatteHlsl.Proofs.InputInterface

/-!
# Where vertex inputs come from

A fetch program loads the inputs of the vertex program that calls it. Its fetches are compiled by a
handler that does not look at the stage, so that a vertex program may hold fetches of its own. They
are the only inputs that a shader has without a call.

* `Task.LoadsNothing`: a task that loads no input.
* `Runs.inputs_eq_nil_iff`: a run records no input exactly if none of its tasks loads one.
* `Request.inputs_fetched_iff`: when inputs come only with a call.
* `Request.inputs_ownFetch`: a vertex program that loads an input without a call.
-/

namespace LatteHlsl

open Isa Hlsl Effect Compile

/-- The task is no fetch, or one of a semantic that the table marks as unused. -/
def Task.LoadsNothing (semantics : Semantics) (t : Task) : Prop :=
  ∀ i, t = .fetch i → semanticGpr semantics i.semanticId = .ok Semantics.unused

namespace Compile

/-- A task that was carried out records an input unless it loads nothing. -/
theorem Task.Adds.input?_eq_none_iff {c : Context} {o : Output} {t : Task} {p : Piece}
    (h : Task.Adds c o t p) : t.input? c = none ↔ t.LoadsNothing c.semantics := by
  cases h with
  | call | ret | group | sample | output =>
    refine iff_of_true rfl ?_
    intro i hi
    cases hi
  | @unused i hi =>
    have hnone : Task.input? c (.fetch i) = none := by
      rw [Task.input?, hi]
      rfl
    obtain ⟨gpr, hgpr, ⟨-, rfl⟩ | ⟨-, input, hsome⟩⟩ := semanticGpr_of_attributeOf hi
    · refine iff_of_true hnone ?_
      rintro _ ⟨⟩
      exact hgpr
    · cases hsome
  | @fetch i input gpr hi =>
    have hsome : Task.input? c (.fetch i) = some input := by
      rw [Task.input?, hi]
      rfl
    obtain ⟨entry, hentry, ⟨hnone, -⟩ | ⟨hused, -⟩⟩ := semanticGpr_of_attributeOf hi
    · cases hnone
    · refine iff_of_false (by rw [hsome]; exact Option.some_ne_none input) ?_
      intro hloads
      have hunused := hloads i rfl
      rw [hentry] at hunused
      exact hused (Except.ok.inj hunused)

/-- Every task of a run was carried out. -/
theorem Runs.adds_of_mem {c : Context} {ts : List Task} {o o' : Output} {t : Task}
    (h : Runs c ts o o') (ht : t ∈ ts) : ∃ o₁ p, Task.Adds c o₁ t p := by
  induction h with
  | nil => cases ht
  | note _ _ ih => exact ih ht
  | cons hp _ ih =>
    rcases List.mem_cons.mp ht with rfl | ht
    · exact ⟨_, _, hp⟩
    · exact ih ht

theorem Runs.inputs_eq_nil_iff {c : Context} {ts : List Task} {o : Output} (h : Runs c ts {} o) :
    o.inputs = [] ↔ ∀ t ∈ ts, t.LoadsNothing c.semantics := by
  have hinputs : o.inputs = ts.filterMap (Task.input? c) := h.inputs_eq
  rw [hinputs, List.filterMap_eq_nil_iff]
  refine forall₂_congr fun t ht => ?_
  obtain ⟨o₁, p, hp⟩ := h.adds_of_mem ht
  exact hp.input?_eq_none_iff

namespace Request

theorem stage_of_compile {r : Request} {o : Options} {shader : Shader}
    (h : r.compile o = .ok shader) : shader.stage = r.stage := by
  obtain ⟨j, f?, hj, rfl, -⟩ := jobs_of_compile h
  obtain ⟨-, hstage, -⟩ := Compile.runs_of_compile hj
  exact hstage

/-- Requests for other shaders than those of vertex descriptors have no inputs. -/
theorem stage_of_inputs {r : Request} {o : Options} {shader : Shader}
    (h : r.compile o = .ok shader) (hinputs : shader.inputs ≠ []) : shader.stage = .vertex := by
  rw [stage_of_compile h]
  cases r with
  | vertex d => rfl
  | geometry | pixel | program =>
    have hnone := (inputs_eq_nil_of_compile (by rintro d ⟨⟩) h).1
    exact absurd hnone hinputs

/-- Without a call, the inputs of a shader are those that its own program loads. -/
theorem inputs_eq_nil_iff_of_no_call {r : Request} {o : Options} {shader : Shader}
    (h : r.compile o = .ok shader) (hcall : shader.callsFetch = false) :
    shader.inputs = [] ↔
      ∀ t ∈ r.mainProgram.tasks, t.LoadsNothing (r.context o).semantics := by
  obtain ⟨main, fetch, hmain, hfetch, hshader⟩ := runs_of_compile h
  have hno : Task.call ∉ r.mainProgram.tasks := by
    rw [hshader.callsFetch] at hcall
    exact of_decide_eq_false hcall
  have hempty : r.fetchTasks = [] := by
    cases r with
    | vertex d => exact if_neg hno
    | geometry | pixel | program => rfl
  have hnone : fetch.inputs = [] := by
    rw [hfetch.inputs_eq, hempty]
    rfl
  rw [hshader.inputs, hnone, List.nil_append]
  exact hmain.inputs_eq_nil_iff

/-- All shaders with inputs are vertex shaders. That they also call a fetch program holds exactly
if they do call one or their own program loads nothing. -/
theorem inputs_fetched_iff {r : Request} {o : Options} {shader : Shader}
    (h : r.compile o = .ok shader) :
    (shader.inputs ≠ [] → shader.stage = .vertex) ∧
      ((shader.inputs ≠ [] → shader.stage = .vertex ∧ shader.callsFetch = true) ↔
        shader.callsFetch = true ∨
          ∀ t ∈ r.mainProgram.tasks, t.LoadsNothing (r.context o).semantics) := by
  refine ⟨stage_of_inputs h, ?_⟩
  cases hcall : shader.callsFetch with
  | true =>
    refine iff_of_true ?_ (.inl rfl)
    intro hinputs
    exact ⟨stage_of_inputs h hinputs, rfl⟩
  | false =>
    have hown := inputs_eq_nil_iff_of_no_call h hcall
    constructor
    · intro hfetched
      right
      rw [← hown]
      by_contra hinputs
      cases (hfetched hinputs).2
    · rintro (hcalls | hnothing) hinputs
      · cases hcalls
      · exact absurd (hown.mpr hnothing) hinputs

/-- A vertex program that loads attribute 0 and ends. -/
def ownFetch : VertexDesc where
  program := ⟨(Word.listToBytes
    [2, 0x01000000, 0, 0x00200000, 0xA001, 0x08CD1000, 0, 0]).toArray⟩
  semantics := .ofFn fun i => if i.val = 0 then 1 else Semantics.unused

/-- The same program as the fetch program of one that calls it. -/
def calledFetch : VertexDesc :=
  { ownFetch with program := callOnly, fetchProgram := ownFetch.program }

/-- Where the fetch is in the program that is called, the input comes with a call. -/
theorem inputs_fetched_iff_calledFetch :
    ∃ shader, (Request.vertex calledFetch).compile {} = .ok shader ∧
      shader.inputs.map (·.location) = [0] ∧
      (shader.inputs ≠ [] → shader.stage = .vertex ∧ shader.callsFetch = true) := by
  have hrun : ((Request.vertex calledFetch).compile {}).toOption.any (fun shader => decide (
      shader.inputs.map (·.location) = [0] ∧ shader.callsFetch = true)) = true := by
    decide +kernel
  obtain ⟨shader, h, htest⟩ := Checked.exists_ok_of_any hrun
  obtain ⟨hinputs, hcalls⟩ := of_decide_eq_true htest
  exact ⟨shader, h, hinputs, (inputs_fetched_iff h).2.mpr (.inl hcalls)⟩

/-- Where it is in the vertex program, there is an input and no call. -/
theorem inputs_ownFetch :
    ∃ shader, (Request.vertex ownFetch).compile { comments := false } = .ok shader ∧
      shader.inputs.map (·.location) = [0] ∧ shader.callsFetch = false ∧
      ¬ (shader.inputs ≠ [] → shader.stage = .vertex ∧ shader.callsFetch = true) := by
  have hrun : ((Request.vertex ownFetch).compile { comments := false }).toOption.any
      (fun shader => decide (
        shader.inputs.map (·.location) = [0] ∧ shader.callsFetch = false)) = true := by
    decide +kernel
  obtain ⟨shader, h, htest⟩ := Checked.exists_ok_of_any hrun
  obtain ⟨hinputs, hcalls⟩ := of_decide_eq_true htest
  refine ⟨shader, h, hinputs, hcalls, ?_⟩
  intro hfetched
  have hsome : shader.inputs ≠ [] := by
    intro hnil
    rw [hnil] at hinputs
    cases hinputs
  have hcalled := (hfetched hsome).2
  rw [hcalls] at hcalled
  cases hcalled

end Request

end Compile

end LatteHlsl
