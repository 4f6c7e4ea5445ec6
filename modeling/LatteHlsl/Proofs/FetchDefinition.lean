import Mathlib.Algebra.Ring.Nat
import Mathlib.Data.List.Count
import LatteHlsl.Proofs.Bindings
import LatteHlsl.Proofs.CallsAndReturns

/-!
# The definition of the fetch function

The shader of a vertex descriptor whose program calls the fetch function holds its definition, once
and before the entry point. A single program is compiled without a fetch program: if it calls the
fetch function, it calls a function that its source does not define.

* `Listing.count_text`: the functions of a source are where calls and definitions stand.
* `FuncDecl.count_fetchCall`, `FuncDecl.count_fetchDefinition`: calls and definitions of a function.
* `Listing.codeLines_of_fetch`: the order of the two functions of a source.
* `Request.fetchDefined_of_compile`: all of it for compiled requests.
-/

namespace LatteHlsl

open Isa Hlsl

namespace Hlsl

/-- The line that calls the fetch function. -/
def fetchCallLine : String := "    FSMain(input, R);"

/-- The first line of the definition of the fetch function. -/
def fetchDefinition : String := "void FSMain(VSInput input, inout float4 R[128])"

/-! ## Functions -/

/-- Without its indentation, a line is its text again. -/
theorem TextLine.shown_injective : Function.Injective fun t => (TextLine.mk 1 t).shown := by
  have hdrop : ∀ t : String, (TextLine.mk 1 t).shown.toList.drop 4 = t.toList := by
    intro t
    unfold shown
    split
    · rename_i hempty
      rw [show t = "" from String.isEmpty_iff.mp hempty]
      rfl
    · simp [indentUnit]
  intro t t' h
  have hlists := congrArg (fun s : String => s.toList.drop 4) h
  dsimp only at hlists
  rw [hdrop, hdrop] at hlists
  exact String.toList_injective hlists

theorem count_bodyLines (body : List Line) :
    ((bodyLines body).map TextLine.shown).count fetchCallLine =
      (body.map Line.text).count "FSMain(input, R);" := by
  have hline : fetchCallLine = (TextLine.mk 1 "FSMain(input, R);").shown := by decide +kernel
  rw [hline, bodyLines, TextLine.atDepth, List.map_map]
  exact List.count_map_of_injective _ _ TextLine.shown_injective _

theorem Signature.text_eq_fetchDefinition {s : Signature} :
    s.text = fetchDefinition ↔ s = .callee .fetch := by
  cases s with
  | callee stage => cases stage <;> decide +kernel
  | entry stage => cases stage <;> decide +kernel

namespace FuncDecl

/-- A function calls the fetch function where its body does. -/
theorem count_fetchCall (f : FuncDecl) :
    (f.lines.map TextLine.shown).count fetchCallLine =
      (f.body.map Line.text).count "FSMain(input, R);" := by
  have hcall : (fetchCallLine.toList.dropWhile (· = ' ')).head? = some 'F' := by decide +kernel
  have hplain : ∀ ls, EachText (Opens plainInitials) ls →
      (ls.map TextLine.shown).count fetchCallLine = 0 :=
    fun ls hls => count_shown_eq_zero hls hcall (by decide) (by decide)
  have hsignature :
      ((TextLine.atDepth 0 [f.signature.text]).map TextLine.shown).count fetchCallLine = 0 := by
    have hopens : EachText (Opens ('v' :: plainInitials))
        (TextLine.atDepth 0 [f.signature.text]) := by
      simpa using f.signature.opens
    exact count_shown_eq_zero hopens hcall (by decide) (by decide)
  rw [lines_eq]
  simp only [List.map_append, List.count_append]
  rw [hsignature, hplain _ f.opens_preamble, hplain _ f.opens_closing, count_bodyLines]
  omega

/-- A function defines the fetch function if it is the fetch function. -/
theorem count_fetchDefinition (f : FuncDecl) :
    (f.lines.map TextLine.shown).count fetchDefinition =
      if f.signature = .callee .fetch then 1 else 0 := by
  have hdefinition : (fetchDefinition.toList.dropWhile (· = ' ')).head? = some 'v' := by
    decide +kernel
  have hplain : ∀ ls, EachText (Opens plainInitials) ls →
      (ls.map TextLine.shown).count fetchDefinition = 0 :=
    fun ls hls => count_shown_eq_zero hls hdefinition (by decide) (by decide)
  have hbody : ((bodyLines f.body).map TextLine.shown).count fetchDefinition = 0 := by
    have hopens : EachText (Opens bodyInitials) (bodyLines f.body) := by
      simp [bodyLines, Line.opens]
    exact count_shown_eq_zero hopens hdefinition (by decide) (by decide)
  have hsignature :
      ((TextLine.atDepth 0 [f.signature.text]).map TextLine.shown).count fetchDefinition =
        if f.signature = .callee .fetch then 1 else 0 := by
    simp only [TextLine.atDepth, List.map_cons, List.map_nil, TextLine.shown_zero,
      List.count_singleton, beq_iff_eq, Signature.text_eq_fetchDefinition]
  rw [lines_eq]
  simp only [List.map_append, List.count_append]
  rw [hsignature, hplain _ f.opens_preamble, hplain _ f.opens_closing, hbody]
  rfl

end FuncDecl

/-! ## Listings -/

namespace Listing

/-- A line that starts like none outside of functions stands in functions only. -/
theorem count_text (m : Listing) {t : String} {c : Char}
    (ht : (t.toList.dropWhile (· = ' ')).head? = some c) (hslash : c ≠ '/')
    (hplain : c ∉ plainInitials) :
    (codeLines m.text).count t =
      (m.functions.map fun f => (f.lines.map TextLine.shown).count t).sum := by
  have hzero : ∀ ls, EachText (Opens plainInitials) ls → (ls.map TextLine.shown).count t = 0 :=
    fun ls hls => count_shown_eq_zero hls ht (by decide) hplain
  have hblank : ((TextLine.atDepth 0 [""]).map TextLine.shown).count t = 0 :=
    hzero _ (by simp [opens_plain])
  have hheader : ((TextLine.atDepth 0 [s!"// Latte {m.stage.name} shader", ""]).map
      TextLine.shown).count t = 0 := by
    have hopens : EachText (Opens ['/'])
        (TextLine.atDepth 0 [s!"// Latte {m.stage.name} shader", ""]) := by
      simp [Opens]
    exact count_shown_eq_zero hopens ht (by decide) (by simpa using hslash)
  have hfetch : (m.fetchLines.map TextLine.shown).count t =
      (m.fetch.toList.map fun f => (f.lines.map TextLine.shown).count t).sum := by
    unfold fetchLines
    cases m.fetch with
    | none => rfl
    | some f => simp [hblank]
  rw [codeLines_text, lines_eq, functions]
  simp only [List.map_append, List.count_append, List.sum_append]
  have hlast : [""].count t = 0 := hblank
  rw [hheader, hzero _ m.opens_declLines, hfetch, hlast]
  simp

theorem count_fetchCall (m : Listing) :
    (codeLines m.text).count fetchCallLine =
      (m.functions.map fun f => (f.body.map Line.text).count "FSMain(input, R);").sum := by
  simp only [m.count_text (t := fetchCallLine) (c := 'F') (by decide +kernel) (by decide)
    (by decide), FuncDecl.count_fetchCall]

theorem count_fetchDefinition (m : Listing) :
    (codeLines m.text).count fetchDefinition =
      (m.functions.map fun f => if f.signature = .callee .fetch then 1 else 0).sum := by
  simp only [m.count_text (t := fetchDefinition) (c := 'v') (by decide +kernel) (by decide)
    (by decide), FuncDecl.count_fetchDefinition]

/-- The fetch function stands before the main function, whose lines end the source. -/
theorem codeLines_of_fetch {m : Listing} {f : FuncDecl} (hf : m.fetch = some f) :
    ∃ before between, codeLines m.text =
      before ++ f.signature.text :: (between ++ m.main.signature.text ::
        ((m.main.preamble ++ (bodyLines m.main.body ++ m.main.closing)).map TextLine.shown ++
          [""])) := by
  refine ⟨(TextLine.atDepth 0 [s!"// Latte {m.stage.name} shader", ""] ++ m.declLines).map
    TextLine.shown, (f.preamble ++ (bodyLines f.body ++ f.closing) ++
      TextLine.atDepth 0 [""]).map TextLine.shown, ?_⟩
  rw [codeLines_text, lines_eq, fetchLines, hf, m.main.lines_eq]
  simp [f.lines_eq, TextLine.atDepth, TextLine.shown_zero]

end Listing

end Hlsl

/-! ## Compiled requests -/

namespace Compile

/-- A compiled program calls the fetch function as it says, and only if it is a vertex program. -/
theorem fetchCalls_of_compile {c : Context} {p : Program} {stage : Stage} {isFunction : Bool}
    {j : Job} (h : (Job.start c p stage isFunction).compile = .ok j) :
    j.bodyTexts.count "FSMain(input, R);" = (if j.walk.callsFetch then 1 else 0) ∧
      (j.walk.callsFetch = true → stage = .vertex) := by
  obtain ⟨xs, hw⟩ :=
    exists_walksThrough (onlyFault_handlers c) (Job.start c p stage isFunction).machine
  have hplace := jumpsInPlace_of_compile h hw
  obtain ⟨-, hstage, -⟩ := runs_of_compile h
  refine ⟨hplace.calls, fun hcalls => ?_⟩
  rw [← hstage]
  exact (hplace.callsFetch.mp hcalls).1

theorem body_mainDecl (j : Job) : j.mainDecl.body.map Line.text = j.bodyTexts := by
  unfold Job.mainDecl
  split <;> rfl

/-- The calls in a shader are those of its two bodies. -/
theorem count_fetchCall_shader (j : Job) (f? : Option Job) :
    (codeLines (j.shader f?).code).count fetchCallLine =
      (f?.toList.map fun f => f.bodyTexts.count "FSMain(input, R);").sum +
        j.bodyTexts.count "FSMain(input, R);" := by
  refine (Listing.count_fetchCall _).trans ?_
  rw [← body_mainDecl]
  cases f? <;> simp [Listing.functions, Job.shader, Job.bodyTexts]

/-- The definitions in a shader are its fetch function, and its main function if that is one. -/
theorem count_fetchDefinition_shader (j : Job) (f? : Option Job) :
    (codeLines (j.shader f?).code).count fetchDefinition =
      f?.toList.length + if j.mainDecl.signature = .callee .fetch then 1 else 0 := by
  refine (Listing.count_fetchDefinition _).trans ?_
  cases f? <;> simp [Listing.functions, Job.shader]

/-- An entry point that calls the fetch function stands after it. -/
theorem definedBefore_shader {j : Job} (hsignature : j.mainDecl.signature = .entry .vertex)
    (f : Job) (hcall : 0 < j.bodyTexts.count "FSMain(input, R);") :
    ∃ before between after,
      codeLines (j.shader (some f)).code =
        before ++ fetchDefinition :: (between ++ "VSOutput VSMain(VSInput input)" :: after) ∧
      fetchCallLine ∈ after := by
  obtain ⟨before, between, hlines⟩ :=
    Listing.codeLines_of_fetch (m := (j.shader (some f)).source) rfl
  have hmain : (j.shader (some f)).source.main.signature.text =
      "VSOutput VSMain(VSInput input)" := by
    show j.mainDecl.signature.text = _
    rw [hsignature]
    decide +kernel
  rw [Signature.text_eq_fetchDefinition.mpr rfl, hmain] at hlines
  refine ⟨before, between, _, hlines, ?_⟩
  rw [← body_mainDecl, ← count_bodyLines, List.count_pos_iff] at hcall
  simp only [List.map_append, List.mem_append]
  exact .inl (.inr (.inl hcall))

/-- The jobs that the shader of a request is put together from. The fetch program is compiled for
vertex descriptors that call it. -/
theorem Request.jobs_of_compile {r : Request} {o : Options} {shader : Shader}
    (h : r.compile o = .ok shader) :
    ∃ j f?, (Job.start (r.context o) r.mainProgram r.stage r.isFunction).compile = .ok j ∧
      shader = j.shader f? ∧
        ((f? = none ∧ r.fetchProgram? j.walk.callsFetch = none) ∨
          ∃ f p, f? = some f ∧ r.fetchProgram? j.walk.callsFetch = some p ∧
            (Job.start (r.context o) p .fetch true).compile = .ok f) := by
  obtain ⟨j, f?, hj, hf, hfinish⟩ := compile_eq_ok.mp h
  refine ⟨j, f?, hj, eq_shader_of_finishWith hfinish, ?_⟩
  cases hp : r.fetchProgram? j.walk.callsFetch with
  | none =>
    rw [hp] at hf
    exact .inl ⟨(Checked.pure_eq_ok.mp hf).symm, rfl⟩
  | some p =>
    rw [hp] at hf
    obtain ⟨f, hfetch, rfl⟩ := Checked.map_eq_ok.mp hf
    exact .inr ⟨f, p, rfl, rfl, hfetch⟩

/-- Whether a request is for a single program, with which no fetch program is compiled. -/
def Request.isSingle : Request → Bool
  | .program _ _ _ _ => true
  | .vertex _ | .geometry _ | .pixel _ => false

/-- The calls and definitions of the fetch function in the shader of a request. -/
structure FetchDefined (r : Request) (shader : Shader) : Prop where
  calls : (codeLines shader.code).count fetchCallLine = if shader.callsFetch then 1 else 0
  /-- The definition is there for a call, but not in single programs. The source of a fetch program
  that is compiled as a function is the definition itself. -/
  definitions : (codeLines shader.code).count fetchDefinition =
    if shader.stage = .fetch then if r.isFunction then 1 else 0
    else if shader.callsFetch && !r.isSingle then 1 else 0
  /-- The call stands in the entry point, after the definition. -/
  definedBefore : shader.callsFetch = true → r.isSingle = false →
    ∃ before between after,
      codeLines shader.code =
        before ++ fetchDefinition :: (between ++ "VSOutput VSMain(VSInput input)" :: after) ∧
      fetchCallLine ∈ after

namespace Request

theorem fetchProgram?_eq_some {r : Request} {calls : Bool} {p : Program}
    (h : r.fetchProgram? calls = some p) :
    calls = true ∧ r.stage = .vertex ∧ r.isFunction = false ∧ r.isSingle = false := by
  cases r with
  | vertex d =>
    cases calls with
    | true => exact ⟨rfl, rfl, rfl, rfl⟩
    | false => cases h
  | geometry | pixel | program => cases h

theorem isSingle_of_fetchProgram?_eq_none {r : Request} (h : r.fetchProgram? true = none)
    (hstage : r.stage = .vertex) : r.isSingle = true := by
  cases r with
  | vertex => cases h
  | geometry | pixel => cases hstage
  | program => rfl

theorem signature_mainDecl {r : Request} {o : Options} {j : Job}
    (h : (Job.start (r.context o) r.mainProgram r.stage r.isFunction).compile = .ok j) :
    j.mainDecl.signature = if r.isFunction then .callee r.stage else .entry r.stage := by
  obtain ⟨-, hstage, hfunction, -⟩ := Compile.runs_of_compile h
  unfold Job.mainDecl
  rw [hstage, hfunction]
  cases r.isFunction <;> rfl

/-- A program that is compiled without a fetch program does not call one, or is a single one. -/
theorem fetchDefined_alone {r : Request} {o : Options} {j : Job}
    (hj : (Job.start (r.context o) r.mainProgram r.stage r.isFunction).compile = .ok j)
    (hnone : r.fetchProgram? j.walk.callsFetch = none) : FetchDefined r (j.shader none) := by
  obtain ⟨hcalls, hvertex⟩ := fetchCalls_of_compile hj
  obtain ⟨-, hstage, -⟩ := Compile.runs_of_compile hj
  have hsingle : j.walk.callsFetch = true → r.isSingle = true := fun hcall =>
    isSingle_of_fetchProgram?_eq_none (hcall ▸ hnone) (hvertex hcall)
  refine ⟨?_, ?_, ?_⟩
  · rw [count_fetchCall_shader, hcalls]
    exact Nat.zero_add _
  · have hno : (j.walk.callsFetch && !r.isSingle) = false := by
      cases hcall : j.walk.callsFetch with
      | false => rfl
      | true => rw [hsingle hcall]; rfl
    rw [count_fetchDefinition_shader, signature_mainDecl hj]
    show 0 + _ = if j.walk.stage = .fetch then _
      else if j.walk.callsFetch && !r.isSingle then 1 else 0
    rw [hstage, hno]
    by_cases hfetch : r.stage = .fetch <;> cases r.isFunction <;> simp [hfetch]
  · intro hcall hmany
    rw [hsingle hcall] at hmany
    cases hmany

/-- A vertex program that is compiled with the fetch program it calls. -/
theorem fetchDefined_withFetch {r : Request} {o : Options} {j f : Job} {p : Program}
    (hj : (Job.start (r.context o) r.mainProgram r.stage r.isFunction).compile = .ok j)
    (hsome : r.fetchProgram? j.walk.callsFetch = some p)
    (hf : (Job.start (r.context o) p .fetch true).compile = .ok f) :
    FetchDefined r (j.shader (some f)) := by
  obtain ⟨hcalls, -⟩ := fetchCalls_of_compile hj
  obtain ⟨hfcalls, hfvertex⟩ := fetchCalls_of_compile hf
  obtain ⟨-, hstage, -⟩ := Compile.runs_of_compile hj
  obtain ⟨hcall, hvertex, hentry, hmany⟩ := fetchProgram?_eq_some hsome
  have hsignature := signature_mainDecl hj
  rw [hentry, hvertex, if_neg (by decide)] at hsignature
  have hfcall : f.walk.callsFetch = false := by
    rw [← Bool.not_eq_true]
    exact fun hfcall => absurd (hfvertex hfcall) (by decide)
  refine ⟨?_, ?_, ?_⟩
  · rw [count_fetchCall_shader, hcalls]
    show [f.bodyTexts.count _].sum + _ = _
    rw [hfcalls, hfcall]
    exact Nat.zero_add _
  · rw [count_fetchDefinition_shader, hsignature]
    show _ = if j.walk.stage = .fetch then _
      else if j.walk.callsFetch && !r.isSingle then 1 else 0
    rw [hstage, hvertex, hcall, hmany]
    rfl
  · exact fun _ _ => definedBefore_shader hsignature f (by rw [hcalls, hcall]; decide)

/-- What is called is defined before, except in single programs. -/
theorem fetchDefined_of_compile {r : Request} {o : Options} {shader : Shader}
    (h : r.compile o = .ok shader) : FetchDefined r shader := by
  obtain ⟨j, f?, hj, rfl, hfetch⟩ := jobs_of_compile h
  rcases hfetch with ⟨rfl, hnone⟩ | ⟨f, p, rfl, hsome, hf⟩
  · exact fetchDefined_alone hj hnone
  · exact fetchDefined_withFetch hj hsome hf

/-- A program that calls the fetch program and ends. -/
def callOnly : Program := ⟨#[0, 0, 0, 0, 0, 0, 0xA0, 0x09]⟩

/-- A program that returns. -/
def returnOnly : Program := ⟨#[0, 0, 0, 0, 0, 0, 0, 0x0A]⟩

/-- The shader of a vertex descriptor with these two programs. -/
theorem fetchDefined_of_compile_callOnly :
    ∃ shader, (Request.vertex { program := callOnly, fetchProgram := returnOnly }).compile {} =
        .ok shader ∧
      shader.callsFetch = true ∧
        FetchDefined (.vertex { program := callOnly, fetchProgram := returnOnly }) shader := by
  have hrun : ((Request.vertex { program := callOnly, fetchProgram := returnOnly }).compile
      {}).toOption.map Shader.callsFetch = some true := by
    decide +kernel
  cases h : (Request.vertex { program := callOnly, fetchProgram := returnOnly }).compile {} with
  | error halt =>
    rw [h] at hrun
    cases hrun
  | ok shader =>
    rw [h] at hrun
    exact ⟨shader, rfl, Option.some.inj hrun, fetchDefined_of_compile h⟩

/-- The first of them on its own calls a function that is not defined. -/
theorem fetch_undefined_callOnly :
    ∃ shader, (Request.program callOnly .vertex false {}).compile { comments := false } =
        .ok shader ∧
      shader.callsFetch = true ∧ fetchCallLine ∈ codeLines shader.code ∧
        fetchDefinition ∉ codeLines shader.code := by
  have hrun : ((Request.program callOnly .vertex false {}).compile
      { comments := false }).toOption.map (fun shader => (shader.callsFetch,
        shader.source.functions)) =
          some (true, [⟨.entry .vertex, [], [.stmt .fetchCall]⟩]) := by
    decide +kernel
  cases h : (Request.program callOnly .vertex false {}).compile { comments := false } with
  | error halt =>
    rw [h] at hrun
    cases hrun
  | ok shader =>
    rw [h] at hrun
    obtain ⟨hcalls, hfunctions⟩ := Prod.mk.inj (Option.some.inj hrun)
    have hcall := shader.source.count_fetchCall
    have hdefinition := shader.source.count_fetchDefinition
    rw [hfunctions] at hcall hdefinition
    refine ⟨shader, rfl, hcalls, ?_, List.count_eq_zero.mp hdefinition⟩
    exact List.count_pos_iff.mp (hcall ▸ by decide +kernel)

end Request

end Compile

end LatteHlsl
