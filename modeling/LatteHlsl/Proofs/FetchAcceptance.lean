import LatteHlsl.Proofs.Halt
import LatteHlsl.Proofs.Run

/-!
# Fetches are compiled whole or not at all

A texture sample and a semantic fetch are checked in full before anything is written. Which fetches
pass the checks is said here by the fields of the instruction and the tables of the context. A
fetch that does not pass leaves no trace.

* `TexInstr.Samplable`, `VtxInstr.Loadable`: the fetches that can be compiled.
* `sampleOf_ok_iff`, `attributeOf_ok_iff`: the checks let exactly these through.
* `AllOrNothing`: a handler does all of a task, or nothing.
* `fetches_all_or_nothing`: both handlers of fetches.
-/

namespace LatteHlsl

open Isa Hlsl Effect Compile

/-! ## Fetches that can be compiled -/

/-- The texture fetch can be compiled as a sample. -/
structure Isa.TexInstr.Samplable (dims : TextureDims) (i : TexInstr) : Prop where
  wholeTexels : i.fractionMode = false
  normalized : ∀ c, i.coordTypes.get c = .normalized
  texture : i.resourceId < 16
  sampler : i.samplerId < 16
  /-- The texture has a declared shape; a cube map takes no texel offsets. -/
  shape : ∃ dim, dims[i.resourceId]? = some (some dim) ∧
    ¬ (dim = .cubemap ∧ ¬ (i.offsetX = 0 ∧ i.offsetY = 0 ∧ i.offsetZ = 0))

/-- The number is that of a format with a layout: components of one width, in whole bytes. -/
def Isa.UniformFormat (n : Nat) : Prop :=
  ∃ (format : DataFormat) (bits count : Nat), format.index = n ∧ format.layout? = some (bits, count)

/-- The vertex fetch can be compiled as a semantic fetch. -/
structure Isa.VtxInstr.Loadable (i : VtxInstr) : Prop where
  buffer : 160 ≤ i.bufferId ∧ i.bufferId ≤ 175
  step : FetchType.ofNat? i.fetchType = some .vertexData ∨
    FetchType.ofNat? i.fetchType = some .instanceData ∧
      (i.srcSelX = .y ∨ i.srcSelX = .z ∨ i.srcSelX = .w)
  format : UniformFormat i.dataFormat
  semantic : i.semanticId < 32

namespace Compile

/-! ## The checks of samples -/

theorem unnormalizedChan?_eq_none {i : TexInstr} :
    unnormalizedChan? i = none ↔ ∀ c, i.coordTypes.get c = .normalized := by
  unfold unnormalizedChan?
  rw [List.find?_eq_none]
  constructor
  · intro h c
    have hc : c ∈ Chan.all := by cases c <;> decide
    have hne : i.coordTypes.get c ≠ .unnormalized := by simpa using h c hc
    cases htype : i.coordTypes.get c with
    | normalized => rfl
    | unnormalized => exact absurd htype hne
  · intro h c _
    simp [h c]

theorem slotOf_eq_ok {kind : SampleResource} {n : Nat} {s : Slot} :
    slotOf kind n = .ok s ↔ s.val = n := by
  unfold slotOf slot?
  by_cases hn : n < slotCount
  · simp [hn, Fin.ext_iff, eq_comm]
  · have hne : s.val ≠ n := fun h => hn (h ▸ s.isLt)
    simp [hn, hne]

theorem offsetsOf_ok_iff {dim : TexDim} {x y z : Int} :
    (∃ offsets, offsetsOf dim x y z = .ok offsets) ↔
      ¬ (dim = .cubemap ∧ ¬ (x = 0 ∧ y = 0 ∧ z = 0)) := by
  unfold offsetsOf
  by_cases hzero : x = 0 ∧ y = 0 ∧ z = 0
  · simp [hzero]
  · cases dim <;> simp [hzero]

/-- The entry of a slot, by the number of the slot. -/
theorem getElem?_of_val {α : Type} (v : Vector α slotCount) {s : Slot} {n : Nat} (h : s.val = n) :
    v[n]? = some v[s] := by
  subst h
  rw [getElem_slot]
  exact Vector.getElem?_eq_getElem s.isLt

theorem sampleOf_ok_iff {dims : TextureDims} {i : TexInstr} :
    (∃ s, sampleOf dims i = .ok s) ↔ i.Samplable dims := by
  constructor
  · rintro ⟨s, hs⟩
    unfold sampleOf at hs
    split at hs
    · cases hs
    rename_i hfraction
    split at hs
    · cases hs
    rename_i hnormalized
    simp only [Checked.bind_eq_ok] at hs
    obtain ⟨texture, htexture, sampler, hsampler, hs⟩ := hs
    rw [slotOf_eq_ok] at htexture hsampler
    cases hdim : dims[texture] with
    | none =>
      simp only [hdim] at hs
      cases hs
    | some dim =>
      simp only [hdim, Checked.bind_eq_ok] at hs
      obtain ⟨offsets, hoffsets, -⟩ := hs
      refine ⟨by simpa using hfraction, unnormalizedChan?_eq_none.mp hnormalized,
        htexture ▸ texture.isLt, hsampler ▸ sampler.isLt, dim, ?_, ?_⟩
      · rw [getElem?_of_val dims htexture, hdim]
      · exact offsetsOf_ok_iff.mp ⟨offsets, hoffsets⟩
  · rintro ⟨hfraction, hnormalized, htexture, hsampler, dim, hdim, hcube⟩
    obtain ⟨offsets, hoffsets⟩ := offsetsOf_ok_iff.mpr hcube
    have hslot : slotOf .texture i.resourceId = .ok ⟨i.resourceId, htexture⟩ :=
      slotOf_eq_ok.mpr rfl
    have hslot' : slotOf .sampler i.samplerId = .ok ⟨i.samplerId, hsampler⟩ := slotOf_eq_ok.mpr rfl
    have hshape : dims[(⟨i.resourceId, htexture⟩ : Slot)] = some dim :=
      Option.some.inj ((getElem?_of_val dims rfl).symm.trans hdim)
    refine ⟨⟨⟨i.resourceId, htexture⟩, ⟨i.samplerId, hsampler⟩, coordChans dim, offsets⟩, ?_⟩
    unfold sampleOf
    rw [hfraction, if_neg Bool.false_ne_true, unnormalizedChan?_eq_none.mpr hnormalized]
    simp only [Checked.bind_eq_ok]
    refine ⟨_, hslot, _, hslot', ?_⟩
    rw [hshape]
    exact Checked.bind_eq_ok.mpr ⟨offsets, hoffsets, rfl⟩

/-! ## The checks of semantic fetches -/

theorem bufferIndex_ok_iff {buffer : Nat} :
    (∃ index, bufferIndex buffer = .ok index) ↔ 160 ≤ buffer ∧ buffer ≤ 175 := by
  unfold bufferIndex firstAttributeBuffer attributeBufferCount
  by_cases h : 160 ≤ buffer ∧ buffer < 160 + 16
  · rw [if_pos h]
    exact iff_of_true ⟨_, rfl⟩ (by omega)
  · rw [if_neg h]
    exact iff_of_false (by simp) (by omega)

theorem stepOf_ok_iff {rates : StepRates} {i : VtxInstr} :
    (∃ step, stepOf rates i = .ok step) ↔
      (FetchType.ofNat? i.fetchType = some .vertexData ∨
        FetchType.ofNat? i.fetchType = some .instanceData ∧
          (i.srcSelX = .y ∨ i.srcSelX = .z ∨ i.srcSelX = .w)) := by
  unfold stepOf
  cases FetchType.ofNat? i.fetchType with
  | none => simp
  | some kind =>
    cases kind with
    | vertexData => simp
    | instanceData => cases i.srcSelX <;> simp
    | noIndexOffset => simp

/-- A format is found by its number. -/
theorem dataFormat_ofNat?_eq_some {n : Nat} {format : DataFormat} :
    DataFormat.ofNat? n = some format ↔ format.index = n := by
  constructor
  · intro h
    simpa using List.find?_some h
  · rintro rfl
    cases format <;> rfl

theorem elementLayout_ok_iff {n : Nat} :
    (∃ layout, elementLayout n = .ok layout) ↔ UniformFormat n := by
  unfold elementLayout UniformFormat
  constructor
  · rintro ⟨⟨bits, count⟩, h⟩
    split at h
    · rename_i layout hlayout
      obtain ⟨format, hformat, hsome⟩ := Option.bind_eq_some_iff.mp hlayout
      exact ⟨format, _, _, dataFormat_ofNat?_eq_some.mp hformat, hsome⟩
    · cases h
  · rintro ⟨format, bits, count, hindex, hlayout⟩
    refine ⟨(bits, count), ?_⟩
    rw [dataFormat_ofNat?_eq_some.mpr hindex, Option.bind_some, hlayout]

theorem semanticGpr_eq_ok {semantics : Semantics} {id : Nat} {gpr : UInt8} :
    semanticGpr semantics id = .ok gpr ↔ semantics[id]? = some gpr := by
  unfold semanticGpr
  by_cases h : id < semanticCount
  · simp [h]
  · simp [h]

theorem attributeOf_ok_iff {c : Context} {i : VtxInstr} :
    (∃ r, attributeOf c i = .ok r) ↔ i.Loadable := by
  constructor
  · rintro ⟨r, hr⟩
    simp only [attributeOf, Checked.bind_eq_ok] at hr
    obtain ⟨buffer, hbuffer, step, hstep, layout, hlayout, gpr, hgpr, -⟩ := hr
    refine ⟨bufferIndex_ok_iff.mp ⟨_, hbuffer⟩, stepOf_ok_iff.mp ⟨_, hstep⟩,
      elementLayout_ok_iff.mp ⟨_, hlayout⟩, ?_⟩
    exact (Vector.getElem?_eq_some_iff.mp (semanticGpr_eq_ok.mp hgpr)).1
  · rintro ⟨hbuffer, hstep, hformat, hsemantic⟩
    obtain ⟨buffer, hbuffer⟩ := bufferIndex_ok_iff.mpr hbuffer
    obtain ⟨step, hstep⟩ := (@stepOf_ok_iff c.stepRates i).mpr hstep
    obtain ⟨layout, hlayout⟩ := elementLayout_ok_iff.mpr hformat
    have hgpr : semanticGpr c.semantics i.semanticId = .ok (c.semantics.get ⟨_, hsemantic⟩) :=
      semanticGpr_eq_ok.mpr (Vector.getElem?_eq_getElem hsemantic)
    simp only [attributeOf, Checked.bind_eq_ok]
    by_cases hunused : c.semantics.get ⟨_, hsemantic⟩ = Semantics.unused
    · exact ⟨none, buffer, hbuffer, step, hstep, layout, hlayout, _, hgpr,
        by rw [if_pos hunused]; rfl⟩
    · exact ⟨some _, buffer, hbuffer, step, hstep, layout, hlayout, _, hgpr,
        by rw [if_neg hunused]; rfl⟩

/-- A semantic that is marked as unused loads nothing. -/
theorem attributeOf_of_entry_unused {c : Context} {i : VtxInstr} (hi : i.Loadable)
    (hentry : c.semantics[i.semanticId]? = some Semantics.unused) : attributeOf c i = .ok none := by
  obtain ⟨r, hr⟩ := (attributeOf_ok_iff (c := c)).mpr hi
  rw [hr]
  simp only [attributeOf, Checked.bind_eq_ok] at hr
  obtain ⟨buffer, -, step, -, layout, -, gpr, hgpr, hr⟩ := hr
  obtain rfl : gpr = Semantics.unused :=
    Option.some.inj ((semanticGpr_eq_ok.mp hgpr).symm.trans hentry)
  rw [if_pos rfl] at hr
  exact congrArg Except.ok (Checked.pure_eq_ok.mp hr).symm

/-! ## Handlers -/

/-- The action carries out the whole task if the task is accepted, and otherwise halts by a fault in
the state it found. -/
structure AllOrNothing (c : Context) (t : Task) (accepted : Prop)
    (x : Effect (Machine Output) Unit) : Prop where
  ok_iff : ∀ m, (∃ m', x m = .ok () m') ↔ accepted
  all : ∀ m m', x m = .ok () m' →
    ∃ p, Task.Adds c m.out t p ∧ m' = { m with out := m.out.add p }
  nothing : ∀ m halt m', x m = .error halt m' → m' = m ∧ halt.IsFault

/-- A handler that checks all it needs before it does anything. -/
theorem AllOrNothing.of_check {c : Context} {t : Task} {α : Type} {r : Except CompileFault α}
    {f : α → Emit Unit} {handle : Walk → Emit Unit} (hhandle : ∀ w, handle w = check r >>= f)
    (hall : ∀ w o o', handle w o = .ok () o' → ∃ p, Task.Adds c o t p ∧ o' = o.add p)
    (htotal : ∀ a o, ∃ o', f a o = .ok () o') :
    AllOrNothing c t (∃ a, r = .ok a) (Machine.act handle) where
  ok_iff m := by
    simp only [Machine.act_eq_ok, hhandle]
    constructor
    · rintro ⟨m', out, hout, -⟩
      obtain ⟨a, _, ha, -⟩ := bind_eq_ok.mp hout
      exact ⟨a, (check_eq_ok.mp ha).1⟩
    · rintro ⟨a, ha⟩
      obtain ⟨out, hout⟩ := htotal a m.out
      exact ⟨_, out, bind_eq_ok.mpr ⟨a, m.out, check_eq_ok.mpr ⟨ha, rfl⟩, hout⟩, rfl⟩
  all m m' hm := by
    obtain ⟨out, hout, rfl⟩ := Machine.act_eq_ok.mp hm
    obtain ⟨p, hp, rfl⟩ := hall _ _ _ hout
    exact ⟨p, hp, rfl⟩
  nothing m halt m' hm := by
    obtain ⟨out, hout, rfl⟩ := Machine.act_eq_error.mp hm
    rw [hhandle] at hout
    rcases bind_eq_error.mp hout with hcheck | ⟨a, o, -, hrest⟩
    · obtain ⟨fault, -, rfl, rfl⟩ := check_eq_error.mp hcheck
      exact ⟨rfl, fault, rfl⟩
    · -- after the checks nothing can fail
      obtain ⟨o', ho'⟩ := htotal a o
      rw [ho'] at hrest
      cases hrest

theorem compileSample_allOrNothing (c : Context) (cf : CfInstr) (i : TexInstr) :
    AllOrNothing c (.sample i) (i.Samplable c.texDims)
      (Machine.act fun w => compileSample c w cf i) := by
  rw [← propext (@sampleOf_ok_iff c.texDims i)]
  refine .of_check (fun _ => rfl) (fun w o _ hrun => ?_) fun s o => ?_
  · obtain ⟨p, hp, rfl⟩ := compileSample_eq_ok w cf hrun
    exact ⟨p, hp o, rfl⟩
  simp only [bind_eq_ok, emitMove_eq_ok, emit_eq_ok, record_eq_ok]
  exact ⟨_, (), _, rfl, (), _, rfl, (), _, rfl, (), _, rfl, rfl⟩

theorem compileAttribute_allOrNothing (c : Context) (cf : CfInstr) (i : VtxInstr) :
    AllOrNothing c (.fetch i) i.Loadable (Machine.act fun w => compileAttribute c w cf i) := by
  rw [← propext (@attributeOf_ok_iff c i)]
  refine .of_check (fun _ => rfl) (fun w o _ hrun => ?_) fun r o => ?_
  · obtain ⟨p, hp, rfl⟩ := compileAttribute_eq_ok w cf hrun
    exact ⟨p, hp o, rfl⟩
  cases r with
  | none => exact ⟨o, rfl⟩
  | some attr =>
    simp only [bind_eq_ok, addInput_eq_ok, emitMove_eq_ok]
    exact ⟨_, (), _, rfl, rfl⟩

/-- Samples and semantic fetches are compiled exactly if they can be, and leave the whole state as
it was if not. A fetch of a semantic that is marked as unused succeeds and changes nothing. -/
theorem fetches_all_or_nothing (c : Context) :
    (∀ (cf : CfInstr) (i : TexInstr), AllOrNothing c (.sample i) (i.Samplable c.texDims)
      (Machine.act fun w => compileSample c w cf i)) ∧
    (∀ (cf : CfInstr) (i : VtxInstr), AllOrNothing c (.fetch i) i.Loadable
      (Machine.act fun w => compileAttribute c w cf i)) ∧
    ∀ (cf : CfInstr) (i : VtxInstr), i.Loadable →
      c.semantics[i.semanticId]? = some Semantics.unused →
        ∀ m, Machine.act (fun w => compileAttribute c w cf i) m = .ok () m := by
  refine ⟨compileSample_allOrNothing c, compileAttribute_allOrNothing c, ?_⟩
  intro cf i hi hentry m
  refine Machine.act_eq_ok.mpr ⟨m.out, ?_, rfl⟩
  exact bind_eq_ok.mpr
    ⟨none, m.out, check_eq_ok.mpr ⟨attributeOf_of_entry_unused hi hentry, rfl⟩, rfl⟩

/-- Where all textures are cube maps a sample without texel offsets is compiled and one with an
offset is not. No semantic is bound, so that the fetch of a semantic changes nothing. -/
theorem fetches_all_or_nothing_of_cubemaps :
    let c : Context := { texDims := .replicate slotCount (some .cubemap) }
    let m : Machine Output := ⟨{ program := ⟨#[]⟩, stage := .vertex }, {}⟩
    let flat : TexInstr := ⟨0x310, 0xF0000000, 0x18000, 0⟩
    let shifted : TexInstr := ⟨0x310, 0xF0000000, 0x18001, 0⟩
    let owner : CfInstr := ⟨0, 0⟩
    (∃ m', Machine.act (fun w => compileSample c w owner flat) m = .ok () m') ∧
    (¬ ∃ m', Machine.act (fun w => compileSample c w owner shifted) m = .ok () m') ∧
    Machine.act (fun w => compileAttribute c w owner ⟨0xA000, 0xC000000, 0, 0⟩) m = .ok () m := by
  intro c m flat shifted owner
  obtain ⟨hsample, -, hunused⟩ := fetches_all_or_nothing c
  refine ⟨((hsample _ _).ok_iff m).mpr ?_, fun h => ?_, hunused _ _ ?_ (by decide) m⟩
  · exact ⟨by decide, fun ch => by cases ch <;> decide, by decide, by decide,
      .cubemap, by decide, by decide⟩
  · obtain ⟨dim, hdim, hflat⟩ := (((hsample _ _).ok_iff m).mp h).shape
    have hslot : c.texDims[shifted.resourceId]? = some (some .cubemap) := by decide
    have hcube : dim = .cubemap := Option.some.inj (Option.some.inj (hdim.symm.trans hslot))
    exact hflat ⟨hcube, by decide⟩
  · exact ⟨by decide, .inl (by decide), ⟨.fmt32_32_32Float, 32, 3, by decide, by decide⟩, by decide⟩

end Compile

end LatteHlsl
