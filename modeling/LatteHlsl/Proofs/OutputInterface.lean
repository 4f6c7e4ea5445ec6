import LatteHlsl.Proofs.Bindings
import LatteHlsl.Proofs.CodeReading
import LatteHlsl.Proofs.DeclarationText
import LatteHlsl.Proofs.Outputs

/-!
# The output interface of a shader

The body of a shader is written while its program is walked, and the structure that it fills in is
declared afterwards, from the export map. The two fit, in the source and in its text: what the body
assigns is declared, under one name and once.

* `outputName_injective`: members of different kinds or slots have different names.
* `names_outputDecl?`: the names that a structure declares, whichever loop declares them.
* `Listing.codeOutputs_text`: the members that a code assigns.
* `OutputsPrinted`, `OutputsFit`, `Request.outputs_declared`: the interface of compiled shaders.
-/

namespace LatteHlsl

open Isa Hlsl Effect Grammar

/-! ## Output structures -/

namespace Hlsl

/-- The name of an output member. -/
def outputName : ExportKind × Nat → String
  | (.pos, slot) => s!"pos{slot}"
  | (.param, slot) => s!"param{slot}"
  | (.pixel, slot) => s!"color{slot}"

theorem outputName_eq (kind : ExportKind) (slot : Nat) :
    outputName (kind, slot) = outputStem kind ++ toString slot := by
  cases kind <;> rfl

theorem Place.text_output (kind : ExportKind) (slot : Nat) :
    (Place.output kind slot).text = "output." ++ outputName (kind, slot) := by
  rw [outputName_eq]
  exact String.append_assoc

theorem outputName_injective : Function.Injective outputName := by
  rintro ⟨kind, slot⟩ ⟨kind', slot'⟩ h
  rw [outputName_eq, outputName_eq] at h
  have hkind : kind = kind' := by
    -- the stems differ in their first two letters
    have hchars := congrArg String.toList h
    cases kind <;> cases kind' <;> simp [outputStem] at hchars ⊢
  subst hkind
  rw [numbered_injective _ h]

/-- A statement assigns the output member that stands on its left side. -/
theorem Stmt.bind_output? (s : Stmt) :
    (s.sides?.bind fun p => p.1.output?) = s.output?.map outputName := by
  cases s with
  | lane out x => cases out <;> rfl
  | assign a =>
    simp only [sides?, Option.bind_some, targetTree, output?]
    split <;> cases a.target <;>
      simp [Place.tree, Place.output?, Tree.output?, outputName_eq]
  | reduction | address | regWrite | latchVector | latchScalar | sample | fetchCall | ret => rfl

/-- The output members that the text of a source assigns. -/
theorem Listing.codeOutputs_text {m : Listing} (h : m.IsReadable) :
    codeOutputs m.text = m.outputs.map outputName := by
  have hclear : clearing.1.output? = none := rfl
  rw [codeOutputs, filterMap_codeAssignments h hclear, outputs, List.map_filterMap]
  exact congrArg (List.filterMap · m.stmts) (funext Stmt.bind_output?)

/-- The render target that a member goes to. -/
def Member.target? : Member → Option Nat
  | .color _ target => some target
  | .vertexId | .instanceId | .attr _ | .pixelPosition | .position _ | .param _ => none

namespace Listing

/-- The declarations of the structure that the functions fill in. -/
def outputStructs (m : Listing) : List StructDecl :=
  m.structs.filter fun d => d.name = .outputOf m.stage

/-- The members of the structure that the functions fill in. -/
def outputMembers (m : Listing) : List Member := m.outputStructs.flatMap (·.members)

end Listing

end Hlsl

namespace Compile

/-- The output structure of a stage; fetch programs have none. -/
def outputDecl? (stage : Stage) (exports : ExportMap) : Option StructDecl :=
  match stage with
  | .fetch => none
  | .vertex => some (vertexOutputDecl .vertexOutput exports)
  | .geometry => some (vertexOutputDecl .geometryOutput exports)
  | .pixel => some (pixelOutputDecl exports)

theorem filter_interfaceDecls (stage : Stage) (pixelInputs : Nat) (inputs : List VertexInput)
    (exports : ExportMap) :
    ((interfaceDecls stage pixelInputs inputs exports).filter fun d => d.name = .outputOf stage) =
      (outputDecl? stage exports).toList := by
  cases stage <;> rfl

/-- The slots that are declared, with their kinds. The first position is always there. -/
def declaredOutputs (stage : Stage) (exports : ExportMap) : List (ExportKind × Nat) :=
  match stage with
  | .fetch => []
  | .vertex | .geometry =>
    (List.range ((exports.count .pos).toNat - 1 + 1)).map (.pos, ·) ++
      (List.range (exports.ofKind .param).length).map (.param, ·)
  | .pixel => (List.range (exports.ofKind .pixel).length).map (.pixel, ·)

theorem nodup_declaredOutputs (stage : Stage) (exports : ExportMap) :
    (declaredOutputs stage exports).Nodup := by
  have hkind : ∀ (kind : ExportKind) (n : Nat), ((List.range n).map (kind, ·)).Nodup :=
    fun kind n => List.nodup_range.map (Prod.mk_right_injective kind)
  cases stage with
  | fetch => exact List.nodup_nil
  | vertex | geometry =>
    refine (hkind _ _).append (hkind _ _) ?_
    simp [List.disjoint_left]
  | pixel => exact hkind _ _

/-- What a stage may export is declared. -/
theorem mem_declaredOutputs {stage : Stage} {exports : ExportMap} {kind : ExportKind} {slot : Nat}
    (hmay : mayExport kind stage = true) (hslot : slot < (exports.ofKind kind).length)
    (hcount : (exports.count .pos).toNat = (exports.ofKind .pos).length) :
    (kind, slot) ∈ declaredOutputs stage exports := by
  cases stage <;> cases kind <;> simp [declaredOutputs, mayExport, hcount] at hmay ⊢ <;> omega

/-- What the walked instructions store to is declared. -/
theorem mem_declaredOutputs_of_stored {stage : Stage} {exports : ExportMap} {cfs : List CfInstr}
    {xs : List (ExportKind × Nat)} (hn : exports.Numbered)
    (htargets : exports.targets = (cfs.flatMap CfInstr.exportTargets).eraseDups)
    (hlegal : ∀ t ∈ cfs.flatMap CfInstr.exportTargets, LegalTarget stage t)
    (houtputs : xs.map (fun x => (x.1, some x.2)) =
      (cfs.flatMap CfInstr.storedTargets).map fun t =>
        (t.1, (exports.slot? t.1 t.2).map BitVec.toNat)) :
    ∀ x ∈ xs, x ∈ declaredOutputs stage exports := by
  -- an array base has fewer than 32 bits, so that the positions do not use up their counter
  have hfree : (ExportKind.pos, BitVec.allOnes 32) ∉ exports.targets := by
    intro hmem
    rw [htargets, List.mem_eraseDups] at hmem
    exact absurd (lt_of_mem_exportTargets hmem) (by decide)
  have hcount := ExportMap.toNat_count_of_not_mem hn.nodup hfree
  intro x hx
  have hmem := List.mem_map_of_mem (f := fun x : ExportKind × Nat => (x.1, some x.2)) hx
  rw [houtputs] at hmem
  obtain ⟨t, ht, heq⟩ := List.mem_map.mp hmem
  obtain ⟨hkind, hslot⟩ := Prod.mk.inj heq
  have hmay := (hlegal t (mem_exportTargets_of_stored ht)).1
  rw [hkind] at hmay hslot
  obtain ⟨slot, hslot, heq⟩ := Option.map_eq_some_iff.mp hslot
  rw [show x = (x.1, slot.toNat) by rw [heq]]
  exact mem_declaredOutputs hmay (hn.slot_lt hslot) hcount

/-- Members that are declared entry by entry are named by their slots. -/
theorem names_ofKind {exports : ExportMap} (hn : exports.Numbered) {kind : ExportKind}
    {member : ExportEntry → Member}
    (hname : ∀ e, (member e).name = outputName (kind, e.slot.toNat)) :
    ((exports.ofKind kind).map member).map Member.name =
      ((List.range (exports.ofKind kind).length).map (kind, ·)).map outputName := by
  rw [← hn.slots kind, List.map_map, List.map_map, List.map_map]
  exact List.map_congr_left fun e _ => hname e

/-- Positions are declared by their number. -/
theorem names_positions (n : Nat) :
    (Member.position 0 :: (List.range' 1 n).map .position).map Member.name =
      ((List.range (n + 1)).map (ExportKind.pos, ·)).map outputName := by
  rw [List.range_eq_range', List.range'_succ, List.map_cons, List.map_map, List.map_cons,
    List.map_cons, List.map_map]
  rfl

theorem names_vertexOutputDecl {exports : ExportMap} (hn : exports.Numbered) (name : StructName) :
    (vertexOutputDecl name exports).members.map Member.name =
      (declaredOutputs .vertex exports).map outputName := by
  simp only [vertexOutputDecl, declaredOutputs, List.map_append]
  rw [names_positions, names_ofKind hn fun _ => rfl]

theorem names_outputDecl? {exports : ExportMap} (hn : exports.Numbered) (stage : Stage) :
    ((outputDecl? stage exports).toList.flatMap (·.members)).map Member.name =
      (declaredOutputs stage exports).map outputName := by
  cases stage with
  | fetch => rfl
  | vertex | geometry =>
    rw [outputDecl?, Option.toList_some, List.flatMap_singleton]
    exact names_vertexOutputDecl hn _
  | pixel =>
    rw [outputDecl?, Option.toList_some, List.flatMap_singleton]
    exact names_ofKind hn fun _ => rfl

/-! ## Shaders -/

/-- The name of the structure that the functions of a stage fill in. -/
def outputStruct : Stage → String
  | .fetch | .vertex => "VSOutput"
  | .geometry => "GSOutput"
  | .pixel => "PSOutput"

/-- The lines between the braces of that structure. -/
def codeMembers (stage : Stage) (code : String) : List String :=
  (structBodies (outputStruct stage) (codeLines code)).flatten

/-- The output interface in the code of a shader. -/
structure OutputsPrinted (shader : Shader) : Prop where
  assigned : codeOutputs shader.code = shader.source.outputs.map outputName
  /-- Fetch programs have no output structure, all others have one. -/
  structs : (structBodies (outputStruct shader.stage) (codeLines shader.code)).length =
    if shader.stage = .fetch then 0 else 1
  members : (codeMembers shader.stage shader.code).map memberName? =
    (declaredOutputs shader.stage shader.exports).map fun x => some (outputName x)
  /-- What is assigned is declared once. -/
  declared : ∀ name ∈ codeOutputs shader.code,
    ((codeMembers shader.stage shader.code).filterMap memberName?).count name = 1
  names : ((codeMembers shader.stage shader.code).filterMap memberName?).Nodup
  /-- The members of a pixel shader are its render targets, in the order of their slots. -/
  renderTargets : shader.stage = .pixel → ∃ targets : List Nat,
    codeMembers .pixel shader.code =
        targets.mapIdx (fun slot target => s!"    float4 color{slot} : SV_Target{target};") ∧
      targets.Nodup ∧ (∀ target ∈ targets, target < 8) ∧
      ∀ slot base, shader.exports.slot? .pixel base = some slot ↔
        targets[slot.toNat]? = some base.toNat

/-- The output interface of a shader fits the control flow instructions that were walked. -/
structure OutputsFit (cfs : List CfInstr) (shader : Shader) : Prop where
  /-- The export map has the targets of the exports, each where it is first used. -/
  exports : shader.exports.targets = (cfs.flatMap CfInstr.exportTargets).eraseDups
  nodup : shader.exports.targets.Nodup
  /-- The assigned members are those of the targets that are stored to, in this order. -/
  outputs : shader.source.outputs.map (fun x => (x.1, some x.2)) =
    (cfs.flatMap CfInstr.storedTargets).map fun t =>
      (t.1, (shader.exports.slot? t.1 t.2).map BitVec.toNat)
  /-- What is assigned is declared once. -/
  declared : ∀ x ∈ shader.source.outputs,
    (shader.source.outputMembers.countP fun m =>
      "output." ++ m.name = (Place.output x.1 x.2).text) = 1
  structs : shader.source.outputStructs.length ≤ 1
  names : (shader.source.outputMembers.map Member.name).Nodup
  /-- A render target has one member, which takes the exports that address it and no others. -/
  renderTargets : shader.stage = .pixel →
    (shader.source.outputMembers.filterMap Member.target?).Nodup ∧
      ∀ slot target, .color slot target ∈ shader.source.outputMembers →
        target < 8 ∧ ∀ base, (shader.exports.slot? .pixel base).map BitVec.toNat = some slot ↔
          base.toNat = target
  printed : OutputsPrinted shader

/-- A slot that is declared has one member. -/
theorem countP_outputDecl? {exports : ExportMap} (hn : exports.Numbered) {stage : Stage}
    {x : ExportKind × Nat} (hx : x ∈ declaredOutputs stage exports) :
    (((outputDecl? stage exports).toList.flatMap (·.members)).countP fun m =>
      "output." ++ m.name = (Place.output x.1 x.2).text) = 1 := by
  have hcount : (((declaredOutputs stage exports).map outputName).count (outputName x)) = 1 :=
    List.count_eq_one_of_mem ((nodup_declaredOutputs stage exports).map outputName_injective)
      (List.mem_map_of_mem hx)
  rw [← names_outputDecl? hn, List.count, List.countP_map] at hcount
  rw [← hcount]
  refine List.countP_congr fun m _ => ?_
  rw [Place.text_output, decide_eq_true_iff, String.append_right_inj]
  simp

/-- The render targets of a pixel shader. -/
theorem renderTargets_outputDecl? {exports : ExportMap} (hn : exports.Numbered)
    (hlegal : ∀ t ∈ exports.targets, LegalTarget .pixel t) {ms : List Member}
    (hms : ms = (outputDecl? .pixel exports).toList.flatMap (·.members)) :
    (ms.filterMap Member.target?).Nodup ∧
      ∀ slot target, .color slot target ∈ ms →
        target < 8 ∧ ∀ base, (exports.slot? .pixel base).map BitVec.toNat = some slot ↔
          base.toNat = target := by
  rw [outputDecl?, Option.toList_some, List.flatMap_singleton, pixelOutputDecl] at hms
  subst hms
  constructor
  · have htargets : ((exports.ofKind .pixel).map fun e =>
        Member.color e.slot.toNat e.arrayBase.toNat).filterMap Member.target? =
          ((exports.ofKind .pixel).map (·.arrayBase)).map BitVec.toNat := by
      rw [List.filterMap_map, List.map_map]
      exact congrFun List.filterMap_eq_map _
    rw [htargets]
    exact (ExportMap.nodup_ofKind hn.nodup .pixel).map fun _ _ => BitVec.eq_of_toNat_eq
  · intro slot target hmem
    obtain ⟨⟨kind, base, slot⟩, he, heq⟩ := List.mem_map.mp hmem
    obtain ⟨he, hkind⟩ := List.mem_filter.mp he
    obtain rfl : kind = .pixel := by simpa using hkind
    cases heq
    have hslot := hn.slot?_eq_some_iff.mpr he
    refine ⟨(hlegal _ (List.mem_map_of_mem he)).2 rfl, fun base' => ⟨fun hbase => ?_, ?_⟩⟩
    · obtain ⟨slot', hslot', heq⟩ := Option.map_eq_some_iff.mp hbase
      rw [BitVec.eq_of_toNat_eq heq] at hslot'
      rw [hn.target_unique hslot' hslot]
    · intro hbase
      rw [BitVec.eq_of_toNat_eq hbase, hslot]
      rfl

/-! ### The text of the interface -/

theorem structBodies_outputStruct (m : Listing) :
    structBodies (outputStruct m.stage) (codeLines m.text) =
      m.outputStructs.map StructDecl.memberLines := by
  have hname : outputStruct m.stage = (StructName.outputOf m.stage).text := by
    cases m.stage <;> rfl
  rw [hname]
  exact m.structBodies_text _

/-- The lines of a pixel shader's structure, from the targets of the entries. -/
theorem memberLines_pixelOutputDecl {exports : ExportMap} (hn : exports.Numbered) :
    (pixelOutputDecl exports).memberLines =
      ((exports.ofKind .pixel).map (·.arrayBase.toNat)).mapIdx
        fun slot target => s!"    float4 color{slot} : SV_Target{target};" := by
  have hline : ∀ slot target : Nat, "    " ++ (Member.color slot target).text =
      s!"    float4 color{slot} : SV_Target{target};" := by
    intro slot target
    refine String.toList_inj.mp ?_
    simp [Member.text, Member.typeName, Member.name, Member.semantic]
  refine List.ext_getElem? fun i => ?_
  rw [List.getElem?_mapIdx, StructDecl.memberLines, pixelOutputDecl]
  simp only [List.getElem?_map]
  cases he : (exports.ofKind .pixel)[i]? with
  | none => rfl
  | some e =>
    obtain ⟨-, rfl⟩ := hn.getElem?_ofKind.mp he
    simp [hline]

/-- The render targets of the entries, by their slots. -/
theorem slot?_iff_getElem? {exports : ExportMap} (hn : exports.Numbered) {slot base : Word} :
    exports.slot? .pixel base = some slot ↔
      ((exports.ofKind .pixel).map (·.arrayBase.toNat))[slot.toNat]? = some base.toNat := by
  rw [hn.slot?_eq_some_iff, List.getElem?_map, Option.map_eq_some_iff]
  constructor
  · intro hmem
    have hentry : ⟨.pixel, base, slot⟩ ∈ exports.ofKind .pixel :=
      List.mem_filter.mpr ⟨hmem, by simp⟩
    exact ⟨_, hn.getElem?_ofKind.mpr ⟨hentry, rfl⟩, rfl⟩
  · rintro ⟨⟨kind, base', slot'⟩, he, hbase⟩
    obtain ⟨hentry, hslot⟩ := hn.getElem?_ofKind.mp he
    obtain ⟨hmem, hkind⟩ := List.mem_filter.mp hentry
    obtain rfl : kind = .pixel := by simpa using hkind
    obtain rfl : base' = base := BitVec.eq_of_toNat_eq hbase
    obtain rfl : slot' = slot := BitVec.eq_of_toNat_eq hslot
    exact hmem

/-- The render targets in the text of a pixel shader's structure. -/
theorem renderTargets_memberLines {exports : ExportMap} (hn : exports.Numbered)
    (hlegal : ∀ t ∈ exports.targets, LegalTarget .pixel t) :
    ∃ targets : List Nat,
      (pixelOutputDecl exports).memberLines =
          targets.mapIdx (fun slot target => s!"    float4 color{slot} : SV_Target{target};") ∧
        targets.Nodup ∧ (∀ target ∈ targets, target < 8) ∧
        ∀ slot base, exports.slot? .pixel base = some slot ↔
          targets[slot.toNat]? = some base.toNat := by
  refine ⟨(exports.ofKind .pixel).map (·.arrayBase.toNat), memberLines_pixelOutputDecl hn, ?_, ?_,
    fun slot base => slot?_iff_getElem? hn⟩
  · have hbases := (ExportMap.nodup_ofKind hn.nodup .pixel).map fun _ _ => BitVec.eq_of_toNat_eq
    rwa [List.map_map] at hbases
  · intro target htarget
    obtain ⟨e, he, rfl⟩ := List.mem_map.mp htarget
    obtain ⟨hmem, hkind⟩ := List.mem_filter.mp he
    exact (hlegal _ (List.mem_map_of_mem hmem)).2 (by simpa using hkind)

/-- The lines of the output structure declare the members, in order. -/
theorem map_memberName?_outputDecl? {exports : ExportMap} (hn : exports.Numbered) (stage : Stage) :
    ((outputDecl? stage exports).toList.map StructDecl.memberLines).flatten.map memberName? =
      (declaredOutputs stage exports).map fun x => some (outputName x) := by
  have hlines : ∀ d : StructDecl, d.memberLines.map memberName? =
      (d.members.map Member.name).map some := by
    intro d
    rw [StructDecl.memberLines, List.map_map, List.map_map]
    exact List.map_congr_left fun m _ => m.memberName?_text
  have hnames := congrArg (List.map some) (names_outputDecl? hn stage)
  rw [List.map_map (f := outputName)] at hnames
  refine Eq.trans ?_ hnames
  cases outputDecl? stage exports <;> simp [hlines]

/-- A source that declares its members as it should prints them so. -/
theorem outputsPrinted {shader : Shader} (hread : shader.source.IsReadable)
    (hstage : shader.source.stage = shader.stage) (hn : shader.exports.Numbered)
    (hstructs : shader.source.outputStructs =
      (outputDecl? shader.stage shader.exports).toList)
    (hdeclared : ∀ x ∈ shader.source.outputs, x ∈ declaredOutputs shader.stage shader.exports)
    (hlegal : shader.stage = .pixel → ∀ t ∈ shader.exports.targets, LegalTarget .pixel t) :
    OutputsPrinted shader := by
  have hassigned : codeOutputs shader.code = shader.source.outputs.map outputName :=
    Listing.codeOutputs_text hread
  have hbodies : structBodies (outputStruct shader.stage) (codeLines shader.code) =
      (outputDecl? shader.stage shader.exports).toList.map StructDecl.memberLines := by
    rw [← hstructs, ← hstage]
    exact structBodies_outputStruct _
  have hmembers : (codeMembers shader.stage shader.code).map memberName? =
      (declaredOutputs shader.stage shader.exports).map fun x => some (outputName x) := by
    rw [codeMembers, hbodies]
    exact map_memberName?_outputDecl? hn _
  have hnames : (codeMembers shader.stage shader.code).filterMap memberName? =
      (declaredOutputs shader.stage shader.exports).map outputName := by
    simpa [List.filterMap_map, Function.comp_def] using congrArg (List.filterMap id) hmembers
  have hnodup : ((declaredOutputs shader.stage shader.exports).map outputName).Nodup :=
    (nodup_declaredOutputs _ _).map outputName_injective
  refine ⟨hassigned, ?_, hmembers, ?_, by rwa [hnames], ?_⟩
  · rw [hbodies]
    cases shader.stage <;> rfl
  · intro name hname
    rw [hassigned] at hname
    obtain ⟨x, hx, rfl⟩ := List.mem_map.mp hname
    rw [hnames]
    exact List.count_eq_one_of_mem hnodup (List.mem_map_of_mem (hdeclared x hx))
  · intro hpixel
    obtain ⟨targets, hlines, htargets⟩ := renderTargets_memberLines hn (hlegal hpixel)
    refine ⟨targets, ?_, htargets⟩
    rw [← hlines, codeMembers, ← hpixel, hbodies, hpixel]
    exact List.append_nil _

namespace Request

theorem outputs_preloads (r : Request) (o : Options) :
    ((r.preloads o).map Stmt.assign).filterMap Stmt.output? = [] := by
  unfold preloads pixelPreloads
  split
  · rfl
  · split
    · rw [List.filterMap_map, List.filterMap_map]
      exact List.filterMap_eq_nil_iff.mpr fun _ _ => rfl
    · rfl

theorem outputs_fetchProgram? {r : Request} {o : Options} {calls : Bool} {f? : Option Job}
    (h : ((r.fetchProgram? calls).mapM fun p =>
      (Job.start (r.context o) p .fetch true).compile) = .ok f?) :
    ((f?.map fun f : Job => f.output.released).getD {}).stmts.filterMap Stmt.output? = [] := by
  cases hp : r.fetchProgram? calls with
  | none =>
    rw [hp] at h
    obtain rfl := Checked.pure_eq_ok.mp h
    rfl
  | some p =>
    rw [hp] at h
    obtain ⟨f, hfetch, rfl⟩ := Checked.map_eq_ok.mp h
    exact outputs_fetch hfetch

/-- What a shader assigns to its output is what its main program does. -/
theorem outputs_shader {r : Request} {o : Options} {j : Job} {f? : Option Job}
    (hj : (Job.start (r.context o) r.mainProgram r.stage r.isFunction).compile = .ok j)
    (hf : ((r.fetchProgram? j.walk.callsFetch).mapM fun p =>
      (Job.start (r.context o) p .fetch true).compile) = .ok f?) :
    (j.shader f?).source.outputs = j.output.stmts.filterMap Stmt.output? := by
  obtain ⟨hcontext, hstage, hfunction, -, hcalls, -⟩ := Compile.runs_of_compile hj
  have hstmts := (shaderOf_shader f? hcontext hstage hfunction hcalls).stmts
  rw [Listing.outputs, hstmts, List.filterMap_append, List.filterMap_append,
    outputs_fetchProgram? hf, outputs_preloads]
  rfl

/-- The shader of a request fills in the output structure that it declares, from the exports that
were walked. -/
theorem outputs_declared {r : Request} {o : Options} {shader : Shader}
    (h : r.compile o = .ok shader) :
    ∃ xs, WalksThrough (handlers (r.context o)) xs
        (Job.start (r.context o) r.mainProgram r.stage r.isFunction).machine
        (walkProgram (handlers (r.context o))
          (Job.start (r.context o) r.mainProgram r.stage r.isFunction).machine) ∧
      OutputsFit (xs.map Prod.snd) shader := by
  obtain ⟨j, f?, hj, hf, hfinish⟩ := compile_eq_ok.mp h
  obtain rfl := eq_shader_of_finishWith hfinish
  obtain ⟨-, hstage, -⟩ := Compile.runs_of_compile hj
  obtain ⟨xs, hw, hexports, houtputs, hlegal⟩ := outputs_of_compile hj
  refine ⟨xs, hw, ?_⟩
  generalize xs.map Prod.snd = cfs at hexports houtputs hlegal
  have hn : j.output.exports.Numbered := hexports ▸ ExportMap.numbered_empty.assignAll _
  have htargets : j.output.exports.targets = (cfs.flatMap CfInstr.exportTargets).eraseDups := by
    rw [hexports, ExportMap.targets_assignAll ExportMap.numbered_empty.nodup]
    rfl
  have hsource := outputs_shader hj hf
  have hstructs : (j.shader f?).source.outputStructs =
      (outputDecl? j.walk.stage j.output.exports).toList := filter_interfaceDecls _ _ _ _
  have hdeclared : ∀ x ∈ j.output.stmts.filterMap Stmt.output?,
      x ∈ declaredOutputs j.walk.stage j.output.exports := by
    rw [hstage]
    exact mem_declaredOutputs_of_stored hn htargets hlegal houtputs
  have hpixels : j.walk.stage = .pixel → ∀ t ∈ j.output.exports.targets, LegalTarget .pixel t := by
    intro hpixel t ht
    rw [htargets, List.mem_eraseDups] at ht
    rw [← hpixel, hstage]
    exact hlegal t ht
  exact
    { exports := htargets
      nodup := hn.nodup
      outputs := by rw [hsource]; exact houtputs
      declared := by
        rw [hsource, Listing.outputMembers, hstructs]
        exact fun x hx => countP_outputDecl? hn (hdeclared x hx)
      structs := by
        rw [hstructs]
        cases outputDecl? j.walk.stage j.output.exports <;> simp
      names := by
        rw [Listing.outputMembers, hstructs, names_outputDecl? hn]
        exact (nodup_declaredOutputs _ _).map outputName_injective
      renderTargets := by
        intro hpixel
        have hpixel : j.walk.stage = .pixel := hpixel
        refine renderTargets_outputDecl? hn (hpixels hpixel) ?_
        rw [Listing.outputMembers, hstructs, hpixel]
      printed := outputsPrinted (isReadable_of_compile h) rfl hn hstructs (hsource ▸ hdeclared)
        hpixels }

/-- A pixel program with three exports: render targets 3 and 4, then 0 with all channels masked, and
then 4 again. -/
def repeatedTargets : Request :=
  .pixel
    { program := ⟨(Word.listToBytes
        [3, 0x13820688, 0, 0x13800FFF, 0x8004, 0x14200688]).toArray⟩
      inputCount := 1 }

/-- The masked target has a member that is not assigned, and the repeated one is declared once. -/
theorem outputs_declared_repeatedTargets :
    ∃ shader, repeatedTargets.compile {} = .ok shader ∧
      shader.exports.targets = [(.pixel, 3), (.pixel, 4), (.pixel, 0)] ∧
      shader.source.outputs = [(.pixel, 0), (.pixel, 1), (.pixel, 1)] ∧
      shader.source.outputMembers = [.color 0 3, .color 1 4, .color 2 0] ∧
      codeOutputs shader.code = ["color0", "color1", "color1"] ∧
      ∃ xs, WalksThrough (handlers (repeatedTargets.context {})) xs
          (Job.start (repeatedTargets.context {}) repeatedTargets.mainProgram .pixel false).machine
          (walkProgram (handlers (repeatedTargets.context {}))
            (Job.start (repeatedTargets.context {}) repeatedTargets.mainProgram .pixel
              false).machine) ∧
        OutputsFit (xs.map Prod.snd) shader := by
  have hrun : (repeatedTargets.compile {}).toOption.any (fun shader => decide (
      shader.exports.targets = [(.pixel, 3), (.pixel, 4), (.pixel, 0)] ∧
      shader.source.outputs = [(.pixel, 0), (.pixel, 1), (.pixel, 1)] ∧
      shader.source.outputMembers = [.color 0 3, .color 1 4, .color 2 0])) = true := by
    decide +kernel
  obtain ⟨shader, h, htest⟩ := Checked.exists_ok_of_any hrun
  obtain ⟨htargets, houtputs, hmembers⟩ := of_decide_eq_true htest
  obtain ⟨xs, hw, hfit⟩ := outputs_declared h
  refine ⟨shader, h, htargets, houtputs, hmembers, ?_, xs, hw, hfit⟩
  rw [hfit.printed.assigned, houtputs]
  decide

end Request

end Compile

end LatteHlsl
