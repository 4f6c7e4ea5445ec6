import LatteHlsl.Proofs.AttributeText
import LatteHlsl.Proofs.Bindings
import LatteHlsl.Proofs.CallsAndReturns
import LatteHlsl.Proofs.DeclarationText
import LatteHlsl.Proofs.Outputs

/-!
# The input interface of a shader

Vertex attributes are recorded by the handler of attribute fetches, in the vertex program and in the
fetch program that it may call. The structure that declares them is made afterwards from all of
them. What the bodies read is declared, and nothing else in the text of the source has the name of
an attribute.

* `mem_attrLocations`, `pairwise_attrLocations`: the locations declared, in ascending order.
* `Program.attributes`: the attributes that a program records, read off its tasks.
* `Runs.inputs_eq`, `Runs.attr_mem`: what a run records, and what its statements read.
* `inputs_declared`: the interface of compiled shaders.
-/

namespace LatteHlsl

open Isa Hlsl Effect Compile

/-! ## Locations -/

theorem eraseReps_loop_eq (a : Nat) (as kept : List Nat) :
    List.eraseRepsBy.loop (· == ·) a as kept =
      kept.reverse ++ List.eraseRepsBy.loop (· == ·) a as [] := by
  induction as generalizing a kept with
  | nil => simp [List.eraseRepsBy.loop]
  | cons b as ih =>
    unfold List.eraseRepsBy.loop
    split
    · exact ih a kept
    · rw [ih b (a :: kept), ih b [a], List.reverse_cons, List.append_assoc]
      rfl

/-- Of two neighbours that are the same, one is left out. -/
theorem eraseReps_cons_cons (a b : Nat) (as : List Nat) :
    (a :: b :: as).eraseReps =
      if a = b then (b :: as).eraseReps else a :: (b :: as).eraseReps := by
  show List.eraseRepsBy.loop (· == ·) a (b :: as) [] = _
  unfold List.eraseRepsBy.loop
  split
  · rename_i heq
    obtain rfl : a = b := by simpa using heq
    rw [if_pos rfl]
    rfl
  · rename_i hne
    rw [if_neg (by simpa using hne), eraseReps_loop_eq]
    rfl

theorem mem_eraseReps {x : Nat} {as : List Nat} : x ∈ as.eraseReps ↔ x ∈ as := by
  induction as with
  | nil => exact Iff.rfl
  | cons a as ih =>
    cases as with
    | nil => exact Iff.rfl
    | cons b as =>
      rw [eraseReps_cons_cons]
      split
      · rename_i heq
        rw [ih, heq, List.mem_cons (a := x) (b := b) (l := b :: as)]
        exact ⟨.inr, fun h => h.elim (fun hx => hx ▸ List.mem_cons_self) id⟩
      · rw [List.mem_cons, ih, List.mem_cons (b := a)]

/-- What was in ascending order is in strictly ascending order after that. -/
theorem pairwise_eraseReps {as : List Nat} (h : as.Pairwise (· ≤ ·)) :
    as.eraseReps.Pairwise (· < ·) := by
  induction as with
  | nil => exact .nil
  | cons a as ih =>
    obtain ⟨hle, hrest⟩ := List.pairwise_cons.mp h
    cases as with
    | nil => exact List.pairwise_singleton _ _
    | cons b as =>
      rw [eraseReps_cons_cons]
      split
      · exact ih hrest
      · rename_i hne
        refine List.pairwise_cons.mpr ⟨fun x hx => ?_, ih hrest⟩
        have hab := hle b List.mem_cons_self
        have hbx : b ≤ x := by
          rcases List.mem_cons.mp (mem_eraseReps.mp hx) with rfl | hmem
          · exact Nat.le_refl _
          · exact (List.pairwise_cons.mp hrest).1 x hmem
        omega

namespace Compile

theorem mem_attrLocations {inputs : List VertexInput} {n : Nat} :
    n ∈ attrLocations inputs ↔ ∃ input ∈ inputs, input.location = n := by
  rw [attrLocations, mem_eraseReps, List.mem_mergeSort, List.mem_map]

/-- The locations are in ascending order, each of them once. -/
theorem pairwise_attrLocations (inputs : List VertexInput) :
    (attrLocations inputs).Pairwise (· < ·) := by
  have htrans : ∀ a b c : Nat, decide (a ≤ b) = true → decide (b ≤ c) = true →
      decide (a ≤ c) = true := by
    intro a b c
    simp only [decide_eq_true_eq]
    omega
  have htotal : ∀ a b : Nat, (decide (a ≤ b) || decide (b ≤ a)) = true := by
    intro a b
    simp only [Bool.or_eq_true, decide_eq_true_eq]
    omega
  exact pairwise_eraseReps ((List.pairwise_mergeSort htrans htotal _).imp of_decide_eq_true)

end Compile

/-- The declarations of the structure that vertex attributes are in. -/
def Hlsl.Listing.inputStructs (m : Listing) : List StructDecl :=
  m.structs.filter fun d => d.name = .vertexInput

/-- The text of that structure. -/
theorem Hlsl.Listing.structBodies_inputs {m : Listing} {locations : List Nat}
    (h : m.inputStructs = [⟨.vertexInput, [.vertexId, .instanceId] ++ locations.map .attr⟩]) :
    structBodies "VSInput" (codeLines m.text) =
      [["    uint vid : SV_VertexID;", "    uint iid : SV_InstanceID;"] ++
        locations.map fun n => s!"    float4 attr{n} : ATTR{n};"] := by
  have hattr : ∀ n : Nat, "    " ++ (Member.attr n).text = s!"    float4 attr{n} : ATTR{n};" := by
    intro n
    refine String.toList_inj.mp ?_
    simp [Member.text, Member.typeName, Member.name, Member.semantic]
  refine (m.structBodies_text .vertexInput).trans ?_
  rw [show m.structs.filter (fun d => d.name = .vertexInput) = m.inputStructs from rfl, h]
  simp only [List.map_cons, List.map_nil, StructDecl.memberLines, List.map_append, List.map_map,
    Function.comp_def, hattr]
  rfl

/-! ## Attributes that are recorded -/

/-- The attribute that a task records. -/
def Task.input? (c : Context) : Task → Option VertexInput
  | .fetch i => (attributeOf c i).toOption.bind fun a? => a?.map Prod.fst
  | .call | .ret | .group _ _ | .sample _ | .output _ _ _ => none

/-- The attributes that a program records, in order. -/
def Program.attributes (c : Context) (p : Program) : List VertexInput :=
  p.tasks.filterMap (Task.input? c)

namespace Compile

theorem inputs_of_lanesPiece {cf : CfInstr} {g : AluGroup} {ls : List Lane} {p : Piece}
    (h : LanesPiece cf g ls p) : p.inputs = [] := by
  induction h with
  | nil => rfl
  | skip _ _ ih => exact ih
  | cons _ hp _ ih =>
    rw [Piece.inputs_append, ih]
    cases hp <;> rfl

theorem inputs_of_groupPiece {cf : CfInstr} {g : AluGroup} {p : Piece} (h : GroupPiece cf g p) :
    p.inputs = [] := by
  cases h with
  | lanes hp => exact inputs_of_lanesPiece hp
  | reduction hp hq =>
    rw [Piece.inputs_append, inputs_of_lanesPiece hq]
    cases hp <;> rfl

theorem Task.Adds.inputs_eq {c : Context} {o : Output} {t : Task} {p : Piece}
    (h : Task.Adds c o t p) : p.inputs = (t.input? c).toList := by
  cases h with
  | call | ret | sample | output => rfl
  | unused hi | fetch hi =>
    rw [Task.input?, hi]
    rfl
  | group hls hp =>
    show [] ++ _ = []
    rw [inputs_of_groupPiece hp]
    rfl

/-- A run records the attributes of its tasks. -/
theorem Runs.inputs_eq {c : Context} {ts : List Task} {o o' : Output} (h : Runs c ts o o') :
    o'.inputs = o.inputs ++ ts.filterMap (Task.input? c) := by
  induction h with
  | nil => simp
  | note _ _ ih =>
    rw [ih]
    show _ ++ [] ++ _ = _
    rw [List.append_nil]
  | @cons t _ o _ p hp _ ih =>
    have hadd : (o.add p).inputs = o.inputs ++ (t.input? c).toList := by
      rw [← hp.inputs_eq]
      rfl
    rw [ih, hadd, List.append_assoc, List.filterMap_cons]
    cases t.input? c <;> rfl

theorem attrs_of_groupStmt {cf : CfInstr} {g : AluGroup} {s : Stmt} (h : GroupStmt cf g s) :
    s.attrs = [] := by
  cases h <;> rfl

theorem attrs_of_move {m : Move} {s : Stmt} (h : s ∈ (moveLines m).filterMap Line.stmt?) :
    s.attrs = m.target.attr?.toList ++ m.source.attr?.toList := by
  obtain ⟨a, ha, rfl⟩ := mem_stmts_moveLines.mp h
  unfold Move.assignment? at ha
  split at ha
  · cases ha
  · cases ha
    rfl

/-- A task reads no attribute but the one that it records. -/
theorem Task.Adds.attr_eq {c : Context} {o : Output} {t : Task} {p : Piece} {s : Stmt} {n : Nat}
    (h : Task.Adds c o t p) (hs : s ∈ p.stmts) (hn : n ∈ s.attrs) :
    ∃ input, t.input? c = some input ∧ input.location = n := by
  cases h with
  | call | ret =>
    obtain rfl := List.mem_singleton.mp hs
    cases hn
  | group hls hp =>
    rw [attrs_of_groupStmt ((groupShape_of_group hls hp).stmts s hs)] at hn
    cases hn
  | sample _ =>
    rw [Piece.stmts, List.filterMap_append, List.filterMap_append, List.mem_append,
      List.mem_append] at hs
    rcases hs with (hs | hs) | hs
    · rw [attrs_of_move hs] at hn
      cases hn
    · obtain rfl := List.mem_singleton.mp hs
      cases hn
    · rw [attrs_of_move hs] at hn
      cases hn
  | unused _ => cases hs
  | @fetch i input gpr hi =>
    rw [attrs_of_move hs] at hn
    refine ⟨input, ?_, (List.mem_singleton.mp hn).symm⟩
    rw [Task.input?, hi]
    rfl
  | output =>
    rw [attrs_of_move hs] at hn
    cases hn

/-- A run reads no attributes but those that its tasks record. -/
theorem Runs.attr_mem {c : Context} {ts : List Task} {o : Output} (h : Runs c ts {} o) {n : Nat}
    (hn : n ∈ o.stmts.flatMap Stmt.attrs) :
    ∃ input ∈ ts.filterMap (Task.input? c), input.location = n := by
  obtain ⟨s, hs, hn⟩ := List.mem_flatMap.mp hn
  rcases h.exists_adds hs with hs | ⟨t, ht, o₁, p, hp, hs⟩
  · cases hs
  · obtain ⟨input, hinput, hlocation⟩ := hp.attr_eq hs hn
    exact ⟨input, List.mem_filterMap.mpr ⟨t, ht, hinput⟩, hlocation⟩

/-! ## Compiled shaders -/

/-- The attributes of a compiled program are those of its tasks. -/
theorem inputs_of_compile {c : Context} {p : Program} {stage : Stage} {isFunction : Bool} {j : Job}
    (h : (Job.start c p stage isFunction).compile = .ok j) : j.output.inputs = p.attributes c := by
  obtain ⟨-, -, -, -, -, hruns⟩ := runs_of_compile h
  exact hruns.inputs_eq

/-- Without a table of semantics, all attributes are unused. -/
theorem attributeOf_of_unused {c : Context} (hc : c.semantics = .none) (i : VtxInstr)
    {a : VertexInput × Nat} : attributeOf c i ≠ .ok (some a) := by
  intro hi
  obtain ⟨gpr, hgpr, ⟨hnone, -⟩ | ⟨hused, -⟩⟩ := semanticGpr_of_attributeOf hi
  · cases hnone
  · unfold semanticGpr at hgpr
    split at hgpr
    · refine hused ?_
      rw [← Except.ok.inj hgpr, hc]
      exact Vector.getElem_replicate _
    · cases hgpr

theorem attributes_of_unused {c : Context} (hc : c.semantics = .none) (p : Program) :
    p.attributes c = [] := by
  refine List.filterMap_eq_nil_iff.mpr fun t _ => ?_
  cases t with
  | call | ret | group | sample | output => rfl
  | fetch i =>
    rw [Task.input?]
    cases hi : attributeOf c i with
    | error fault => rfl
    | ok a? =>
      cases a? with
      | none => rfl
      | some a => exact absurd hi (attributeOf_of_unused hc i)

namespace Request

theorem attrs_preloads (r : Request) (o : Options) :
    ((r.preloads o).map Stmt.assign).flatMap Stmt.attrs = [] := by
  unfold preloads pixelPreloads
  split
  · rfl
  · split
    · rw [List.map_map, List.flatMap_map]
      exact List.flatMap_eq_nil_iff.mpr fun _ _ => rfl
    · rfl

/-- The attributes of a shader are those that its programs record, and it reads no others. -/
theorem inputs_eq_of_compile {r : Request} {o : Options} {shader : Shader}
    (h : r.compile o = .ok shader) :
    shader.inputs = r.fetchTasks.filterMap (Task.input? (r.context o)) ++
        r.mainProgram.attributes (r.context o) ∧
      ∀ n ∈ shader.source.attrs, ∃ input ∈ shader.inputs, input.location = n := by
  obtain ⟨main, fetch, hmain, hfetch, hshader⟩ := runs_of_compile h
  have hinputs : shader.inputs = r.fetchTasks.filterMap (Task.input? (r.context o)) ++
      r.mainProgram.attributes (r.context o) := by
    rw [hshader.inputs, hfetch.inputs_eq, hmain.inputs_eq]
    rfl
  refine ⟨hinputs, fun n hn => ?_⟩
  rw [Listing.attrs, hshader.stmts, List.flatMap_append, List.flatMap_append, attrs_preloads,
    List.append_nil] at hn
  rw [hinputs]
  rcases List.mem_append.mp hn with hn | hn
  · obtain ⟨input, hmem, hlocation⟩ := hfetch.attr_mem hn
    exact ⟨input, List.mem_append_left _ hmem, hlocation⟩
  · obtain ⟨input, hmem, hlocation⟩ := hmain.attr_mem hn
    exact ⟨input, List.mem_append_right _ hmem, hlocation⟩

/-- Only vertex shaders have attributes. -/
theorem inputs_eq_nil_of_compile {r : Request} {o : Options} {shader : Shader}
    (hr : ∀ d, r ≠ .vertex d) (h : r.compile o = .ok shader) :
    shader.inputs = [] ∧ shader.source.attrs = [] ∧
      ¬ attrStem <:+: shader.source.text.toList := by
  obtain ⟨hinputs, hattrs⟩ := inputs_eq_of_compile h
  have hnil : shader.inputs = [] := by
    rw [hinputs]
    cases r with
    | vertex d => exact absurd rfl (hr d)
    | geometry | pixel | program => exact attributes_of_unused rfl _
  have hnone : ∀ n ∈ shader.source.attrs, False := by
    intro n hn
    obtain ⟨input, hmem, -⟩ := hattrs n hn
    rw [hnil] at hmem
    cases hmem
  exact ⟨hnil, List.eq_nil_iff_forall_not_mem.mpr hnone,
    namesOnly_false_iff.mp (Listing.namesOnly_text hnone)⟩

end Request

namespace VertexDesc

/-- The job of the vertex program. -/
def vertexJob (d : VertexDesc) (o : Options) : Job :=
  Job.start (d.context o) d.program .vertex false

/-- The job of the fetch program. -/
def fetchJob (d : VertexDesc) (o : Options) : Job :=
  Job.start (d.context o) d.fetchProgram .fetch true

/-- The attributes of the shader of a vertex descriptor, as they are recorded, declared and read. -/
structure InputsFit (d : VertexDesc) (o : Options) (shader : Shader) : Prop where
  recorded : ∃ vertex fetched, (d.vertexJob o).compile = .ok vertex ∧
    shader.inputs = fetched ++ vertex.output.inputs ∧
    if shader.callsFetch then
      ∃ fetch, (d.fetchJob o).compile = .ok fetch ∧ fetched = fetch.output.inputs
    else fetched = []
  attributes : shader.inputs =
    (if shader.callsFetch then d.fetchProgram.attributes (d.context o) else []) ++
      d.program.attributes (d.context o)
  declared : ∃ locations : List Nat,
    shader.source.inputStructs =
        [⟨.vertexInput, [.vertexId, .instanceId] ++ locations.map .attr⟩] ∧
      structBodies "VSInput" (codeLines shader.code) =
        [["    uint vid : SV_VertexID;", "    uint iid : SV_InstanceID;"] ++
          locations.map fun n => s!"    float4 attr{n} : ATTR{n};"] ∧
      locations.Pairwise (· < ·) ∧
      (∀ n, n ∈ locations ↔ ∃ input ∈ shader.inputs, input.location = n) ∧
      (∀ n ∈ shader.source.attrs, n ∈ locations) ∧
      NamesOnly (· ∈ locations) shader.source.text.toList

/-- The jobs of a vertex descriptor that compiles. -/
theorem jobs_of_compile {d : VertexDesc} {o : Options} {shader : Shader}
    (h : d.compile o = .ok shader) :
    ∃ j f?, (d.vertexJob o).compile = .ok j ∧ shader = j.shader f? ∧
      (j.walk.callsFetch = false ∧ f? = none ∨
        j.walk.callsFetch = true ∧ ∃ f, (d.fetchJob o).compile = .ok f ∧ f? = some f) := by
  obtain ⟨j, f?, hj, hf, hfinish⟩ := Request.compile_eq_ok (r := .vertex d).mp h
  refine ⟨j, f?, hj, eq_shader_of_finishWith hfinish, ?_⟩
  cases hcalls : j.walk.callsFetch with
  | false =>
    rw [hcalls] at hf
    exact .inl ⟨rfl, (Checked.pure_eq_ok.mp hf).symm⟩
  | true =>
    rw [hcalls] at hf
    obtain ⟨f, hfetch, hsome⟩ := Checked.map_eq_ok.mp hf
    exact .inr ⟨rfl, f, hfetch, hsome.symm⟩

theorem inputsFit_of_compile {d : VertexDesc} {o : Options} {shader : Shader}
    (h : d.compile o = .ok shader) : InputsFit d o shader := by
  obtain ⟨-, hattrs⟩ := Request.inputs_eq_of_compile (r := .vertex d) h
  obtain ⟨j, f?, hj, rfl, hjobs⟩ := jobs_of_compile h
  obtain ⟨-, hstage, -⟩ := runs_of_compile hj
  have hcalls : (j.shader f?).callsFetch = j.walk.callsFetch := rfl
  have hinputs : (j.shader f?).inputs =
      (f?.map fun f => f.output.inputs).getD [] ++ j.output.inputs := rfl
  constructor
  case recorded =>
    refine ⟨j, _, hj, hinputs, ?_⟩
    rw [hcalls]
    rcases hjobs with ⟨hfalse, rfl⟩ | ⟨htrue, f, hf, rfl⟩
    · rw [if_neg (by simp [hfalse])]
      rfl
    · rw [if_pos htrue]
      exact ⟨f, hf, rfl⟩
  case attributes =>
    rw [hcalls, hinputs, inputs_of_compile hj]
    rcases hjobs with ⟨hfalse, rfl⟩ | ⟨htrue, f, hf, rfl⟩
    · rw [if_neg (by simp [hfalse])]
      rfl
    · rw [if_pos htrue, ← inputs_of_compile hf]
      rfl
  case declared =>
    have hdeclared : ∀ n ∈ (j.shader f?).source.attrs,
        n ∈ attrLocations (j.shader f?).inputs := fun n hn => mem_attrLocations.mpr (hattrs n hn)
    have hstructs : (j.shader f?).source.inputStructs =
        [⟨.vertexInput, [.vertexId, .instanceId] ++
          (attrLocations (j.shader f?).inputs).map .attr⟩] := by
      show (interfaceDecls j.walk.stage _ _ _).filter _ = _
      rw [hstage]
      rfl
    exact ⟨attrLocations (j.shader f?).inputs, hstructs, Listing.structBodies_inputs hstructs,
      pairwise_attrLocations _, fun n => mem_attrLocations, hdeclared,
      Listing.namesOnly_text hdeclared⟩

/-! ### The part of the fetch program -/

/-- A program that does not call the fetch program first does not call it at all. -/
theorem callsFetch_eq_false {d : VertexDesc} {o : Options} {j : Job}
    (hfirst : d.program.jumpAt? 0 ≠ some .call) (hj : (d.vertexJob o).compile = .ok j) :
    j.walk.callsFetch = false := by
  obtain ⟨xs, hw⟩ := exists_walksThrough (onlyFault_handlers (d.context o)) (d.vertexJob o).machine
  rw [Bool.eq_false_iff]
  intro hcalls
  exact hfirst ((callsFetch_of_compile hj hw).mp hcalls).2

/-- If the vertex program fails, the fetch program is not looked at. -/
theorem compile_of_error {d : VertexDesc} {o : Options} {halt : Halt}
    (hj : (d.vertexJob o).compile = .error halt) (p : Program) :
    { d with fetchProgram := p }.compile o = .error halt :=
  congrArg (· >>= _) hj

theorem compile_of_ok {d : VertexDesc} {o : Options} {j : Job}
    (hj : (d.vertexJob o).compile = .ok j) (hcalls : j.walk.callsFetch = false) (p : Program) :
    { d with fetchProgram := p }.compile o = (j.finishWith none).mapError .fault := by
  refine (congrArg (· >>= _) hj).trans ?_
  show (if j.walk.callsFetch then _ else _ : Except Halt Shader) = _
  rw [hcalls]
  rfl

theorem compile_of_not_called {d : VertexDesc} {o : Options}
    (hfirst : d.program.jumpAt? 0 ≠ some .call) (p : Program) :
    { d with fetchProgram := p }.compile o = d.compile o := by
  cases hj : (d.vertexJob o).compile with
  | error halt => exact (compile_of_error hj p).trans (compile_of_error hj d.fetchProgram).symm
  | ok j =>
    have hcalls := callsFetch_eq_false hfirst hj
    exact (compile_of_ok hj hcalls p).trans (compile_of_ok hj hcalls d.fetchProgram).symm

end VertexDesc

/-- The attributes of a vertex shader are recorded, declared and read as they should be, and its
fetch program counts only where it is called. Other shaders have no attributes. -/
theorem inputs_declared (o : Options) :
    (∀ (d : VertexDesc) (shader : Shader), d.compile o = .ok shader → d.InputsFit o shader) ∧
    (∀ (d : VertexDesc) (p : Program), d.program.jumpAt? 0 ≠ some .call →
      { d with fetchProgram := p }.compile o = d.compile o) ∧
    (∀ (d : VertexDesc) (p : Program) (halt : Halt), (d.vertexJob o).compile = .error halt →
      { d with fetchProgram := p }.compile o = .error halt) ∧
    ∀ (r : Request) (shader : Shader), (∀ d, r ≠ .vertex d) → r.compile o = .ok shader →
      shader.inputs = [] ∧ shader.source.attrs = [] ∧
        ¬ attrStem <:+: shader.source.text.toList :=
  ⟨fun _ _ => VertexDesc.inputsFit_of_compile,
    fun _ p hfirst => VertexDesc.compile_of_not_called hfirst p,
    fun _ p _ hj => VertexDesc.compile_of_error hj p,
    fun _ _ => Request.inputs_eq_nil_of_compile⟩

/-- A vertex program that calls its fetch program and fetches attribute 5. The fetch program fetches
attributes 7, 5 and 9, of which the last is not used. -/
def sharedAttribute : VertexDesc where
  program := ⟨(Word.listToBytes
    [0, 0x09800000, 2, 0x01200000, 0xA001, 0x08CD1005, 0, 0]).toArray⟩
  fetchProgram := ⟨(Word.listToBytes
    [2, 0x01000800, 0, 0x00200000, 0xA001, 0x08CD1007, 0, 0, 0xA001, 0x08CD1005, 0, 0,
      0xA001, 0x08CD1009, 0, 0]).toArray⟩
  semantics := .ofFn fun i => if i.val = 5 then 3 else if i.val = 7 then 1 else Semantics.unused

/-- The attribute that both programs fetch is recorded twice. -/
theorem inputs_declared_sharedAttribute :
    ∃ shader, sharedAttribute.compile {} = .ok shader ∧
      shader.inputs.map (·.location) = [7, 5, 5] ∧ shader.source.attrs = [7, 5, 5] ∧
      sharedAttribute.InputsFit {} shader := by
  have hrun : (sharedAttribute.compile {}).toOption.any (fun shader => decide (
      shader.inputs.map (·.location) = [7, 5, 5] ∧ shader.source.attrs = [7, 5, 5])) = true := by
    decide +kernel
  obtain ⟨shader, h, htest⟩ := Checked.exists_ok_of_any hrun
  obtain ⟨hinputs, hattrs⟩ := of_decide_eq_true htest
  exact ⟨shader, h, hinputs, hattrs, (inputs_declared {}).1 _ _ h⟩

end Compile

end LatteHlsl
