import LatteHlsl.Proofs.Request
import LatteHlsl.Proofs.SourceText

/-!
# Vertex attributes in the text of a source

A vertex attribute is read under the name `input.attr` and its location. These names stand nowhere
in the text of a source but where a statement reads the attribute.

* `Stmt.attrs`, `Listing.attrs`: the locations that statements read.
* `NamesOnly`: texts that name no attributes but given ones, with one lemma for each way in which
  texts are put together.
* `Assignment.namesOnly_text`, `Line.namesOnly_text`, …: the lines of a source.
* `Listing.namesOnly_text`: whole sources.
-/

namespace LatteHlsl.Hlsl

open Isa

/-! ## Attributes of statements -/

/-- The location of the vertex attribute that a variable is. -/
def Place.attr? : Place → Option Nat
  | .attr location => some location
  | .tmp | .gpr _ | .output _ _ | .param _ => none

/-- The locations of the vertex attributes on either side of an assignment. -/
def Assignment.attrs (a : Assignment) : List Nat := a.target.attr?.toList ++ a.source.attr?.toList

/-- The locations of the vertex attributes in a statement. -/
def Stmt.attrs : Stmt → List Nat
  | .assign a => a.attrs
  | .lane _ _ | .reduction _ | .address _ _ | .regWrite _ | .latchVector | .latchScalar | .sample _
  | .fetchCall | .ret => []

/-! ## Names in a text -/

/-- What the names of vertex attributes start with. -/
def attrStem : List Char := ['i', 'n', 'p', 'u', 't', '.', 'a', 't', 't', 'r']

example : String.ofList attrStem = "input.attr" := rfl

/-- A text that starts with a number for which `P` holds. -/
def Numbered (P : Nat → Prop) (t : List Char) : Prop :=
  ∃ n, P n ∧ ∃ after, t = Nat.toDigits 10 n ++ after ∧ ∀ c ∈ after.head?, c.isDigit = false

/-- A text in which the attributes named are those for which `P` holds. -/
def NamesOnly (P : Nat → Prop) (t : List Char) : Prop :=
  ∀ before rest, t = before ++ (attrStem ++ rest) → Numbered P rest

section

variable {P : Nat → Prop} {c : Char} {t u : List Char}

/-- Nothing is named exactly if the stem does not occur. -/
theorem namesOnly_false_iff : NamesOnly (fun _ => False) t ↔ ¬ attrStem <:+: t := by
  constructor
  · rintro h ⟨before, rest, ht⟩
    obtain ⟨n, hn, -⟩ := h before rest (by rw [← ht, List.append_assoc])
    exact hn
  · intro h before rest ht
    exact absurd ⟨before, rest, by rw [ht, List.append_assoc]⟩ h

theorem namesOnly_nil : NamesOnly P [] := by
  intro before rest ht
  simp [attrStem] at ht

/-- A text names what its first name and the rest of it name. -/
theorem namesOnly_cons :
    NamesOnly P (c :: t) ↔
      (∀ rest, c :: t = attrStem ++ rest → Numbered P rest) ∧ NamesOnly P t := by
  constructor
  · intro h
    refine ⟨fun rest ht => h [] rest ht, fun before rest ht => h (c :: before) rest ?_⟩
    rw [ht, List.cons_append]
  · rintro ⟨hhead, htail⟩ before rest ht
    cases before with
    | nil => exact hhead rest ht
    | cons d before =>
      rw [List.cons_append] at ht
      exact htail before rest (List.cons.inj ht).2

/-- A character at which no name starts. -/
theorem namesOnly_cons_of_mismatch (h : ¬ attrStem <+: c :: t) :
    NamesOnly P (c :: t) ↔ NamesOnly P t := by
  rw [namesOnly_cons, and_iff_right]
  intro rest ht
  exact absurd ⟨rest, ht.symm⟩ h

/-- Names start with an i. -/
theorem namesOnly_append_of_not_mem (h : 'i' ∉ u) : NamesOnly P (u ++ t) ↔ NamesOnly P t := by
  induction u with
  | nil => rfl
  | cons c u ih =>
    rw [List.mem_cons, not_or] at h
    rw [List.cons_append, namesOnly_cons_of_mismatch, ih h.2]
    rw [attrStem, List.cons_prefix_cons]
    exact fun hprefix => h.1 hprefix.1

/-- A text without one of the characters of the stem. -/
theorem namesOnly_of_not_mem (hc : c ∈ attrStem) (h : c ∉ t) : NamesOnly P t := by
  intro before rest ht
  rw [ht] at h
  exact absurd (List.mem_append_right _ (List.mem_append_left _ hc)) h

theorem Numbered.append_cons (h : Numbered P u) (hc : c.isDigit = false) :
    Numbered P (u ++ c :: t) := by
  obtain ⟨n, hn, after, rfl, hafter⟩ := h
  refine ⟨n, hn, after ++ c :: t, List.append_assoc _ _ _, ?_⟩
  cases after with
  | nil =>
    intro d hd
    cases hd
    exact hc
  | cons d after => exact hafter

/-- Texts with a character between them that is in no name. -/
theorem NamesOnly.append_cons (hu : NamesOnly P u) (ht : NamesOnly P t) (hc : c ∉ attrStem)
    (hdigit : c.isDigit = false) : NamesOnly P (u ++ c :: t) := by
  induction u with
  | nil =>
    refine (namesOnly_cons_of_mismatch fun hprefix => hc ?_).mpr ht
    exact (List.cons_prefix_cons.mp hprefix).1 ▸ List.mem_cons_self
  | cons d u ih =>
    obtain ⟨hhead, htail⟩ := namesOnly_cons.mp hu
    refine namesOnly_cons.mpr ⟨fun rest heq => ?_, ih htail⟩
    change (d :: u) ++ c :: t = attrStem ++ rest at heq
    rcases List.append_eq_append_iff.mp heq with ⟨stem', hstem, hrest⟩ | ⟨rest', hu', hrest⟩
    · cases stem' with
      | nil =>
        obtain rfl : c :: t = rest := hrest
        have hnumbered := hhead [] (by rw [hstem, List.append_nil, List.append_nil])
        exact hnumbered.append_cons hdigit
      | cons e stem' =>
        -- `c` would be in the stem
        obtain ⟨rfl, -⟩ := List.cons.inj hrest
        exact absurd (hstem ▸ List.mem_append_right _ List.mem_cons_self) hc
    · rw [hrest]
      exact (hhead rest' hu').append_cons hdigit

/-- A name, and a text after it that does not go on with a digit. -/
theorem NamesOnly.attr {n : Nat} (hn : P n) (ht : NamesOnly P t)
    (hhead : ∀ c ∈ t.head?, c.isDigit = false) :
    NamesOnly P (attrStem ++ (Nat.toDigits 10 n ++ t)) := by
  have hrest : NamesOnly P (attrStem.tail ++ (Nat.toDigits 10 n ++ t)) := by
    rw [namesOnly_append_of_not_mem (by decide), namesOnly_append_of_not_mem (by simp)]
    exact ht
  refine namesOnly_cons.mpr ⟨fun rest heq => ?_, hrest⟩
  have hdigits : attrStem ++ (Nat.toDigits 10 n ++ t) = attrStem ++ rest := heq
  exact ⟨n, hn, t, (List.append_cancel_left hdigits).symm, hhead⟩

end

/-! ## Variables and values -/

section

variable {P : Nat → Prop} {t : List Char}

theorem i_not_mem_swizzleText (cs : List Chan) : 'i' ∉ (swizzleText cs).toList := by
  have hletter : ∀ c : Chan, ¬ c.letter = 'i' := by
    intro c
    cases c <;> decide
  simp [swizzleText, hletter]

/-- A point is not part of a name if channels come after it. -/
theorem NamesOnly.swizzle (ht : NamesOnly P t) (cs : List Chan) :
    NamesOnly P ('.' :: ((swizzleText cs).toList ++ t)) := by
  rw [namesOnly_cons_of_mismatch (by simp [attrStem]),
    namesOnly_append_of_not_mem (i_not_mem_swizzleText cs)]
  exact ht

/-- The text of a variable, and a text after it that does not go on with a digit, which would make
another attribute of it. -/
theorem Place.namesOnly_append {p : Place} (hp : ∀ n ∈ p.attr?, P n) (ht : NamesOnly P t)
    (hhead : ∀ c ∈ t.head?, c.isDigit = false) : NamesOnly P (p.text.toList ++ t) := by
  unfold text
  cases p with
  | tmp => exact (namesOnly_append_of_not_mem (by simp)).mpr ht
  | gpr index =>
    have hindex : NamesOnly P index.text.toList :=
      namesOnly_of_not_mem (c := 'p') (by decide) (by simp)
    have htext := hindex.append_cons ht (c := ']') (by decide) (by decide)
    simp [namesOnly_cons_of_mismatch, attrStem, htext]
  | output kind slot =>
    have hstem : 'i' ∉ (outputStem kind).toList := by
      cases kind <;> exact not_mem_ofList (by decide)
    exact (namesOnly_append_of_not_mem (by simp [hstem])).mpr ht
  | attr n =>
    have htext := NamesOnly.attr (hp n rfl) ht hhead
    simpa [attrStem] using htext
  | param slot =>
    have hslot : NamesOnly P (Nat.toDigits 10 slot ++ t) :=
      (namesOnly_append_of_not_mem (by simp)).mpr ht
    simp [namesOnly_cons_of_mismatch, attrStem, hslot]

/-- A text that names the right attributes whatever stands after it. -/
def Passes (P : Nat → Prop) (u : List Char) : Prop := ∀ t, NamesOnly P t → NamesOnly P (u ++ t)

theorem Passes.of_not_mem {u : List Char} (h : 'i' ∉ u) : Passes P u := fun _ ht =>
  (namesOnly_append_of_not_mem h).mpr ht

theorem Passes.append {u v : List Char} (hu : Passes P u) (hv : Passes P v) :
    Passes P (u ++ v) := by
  intro t ht
  rw [List.append_assoc]
  exact hu _ (hv t ht)

theorem Passes.intercalate {sep : List Char} {us : List (List Char)} (hsep : Passes P sep)
    (hus : ∀ u ∈ us, Passes P u) : Passes P (sep.intercalate us) := by
  induction us with
  | nil => exact fun t ht => ht
  | cons u us ih =>
    obtain ⟨hu, hus⟩ := List.forall_mem_cons.mp hus
    by_cases hnil : us = []
    · rw [hnil, List.intercalate_singleton]
      exact hu
    · rw [List.intercalate_cons_of_ne_nil hnil]
      exact (hu.append hsep).append (ih hus)

theorem Passes.namesOnly {u : List Char} (hu : Passes P u) : NamesOnly P u := by
  have h := hu [] namesOnly_nil
  rwa [List.append_nil] at h

theorem Component.passes_text {source : Place} (hp : ∀ n ∈ source.attr?, P n) (k : Component) :
    Passes P (k.text source.text).toList := by
  unfold text
  cases k with
  | zero | one => exact .of_not_mem (by simp)
  | chan c =>
    intro t ht
    have htext := source.namesOnly_append hp (ht.swizzle [c]) (by simp)
    simpa [swizzleText] using htext

theorem Value.namesOnly_append {source : Place} (hp : ∀ n ∈ source.attr?, P n) (v : Value)
    (ht : NamesOnly P t) (hhead : ∀ c ∈ t.head?, c.isDigit = false) :
    NamesOnly P ((v.text source.text).toList ++ t) := by
  unfold text
  cases v with
  | scalar k => exact k.passes_text hp t ht
  | whole => exact source.namesOnly_append hp ht hhead
  | swizzle cs =>
    have htext := source.namesOnly_append hp (ht.swizzle cs) (by simp)
    simpa using htext
  | vector ks =>
    have hparts : Passes P (", ".intercalate (ks.map (Component.text source.text))).toList := by
      rw [String.toList_intercalate, List.map_map]
      refine .intercalate (.of_not_mem (by simp)) fun u hu => ?_
      obtain ⟨k, -, rfl⟩ := List.mem_map.mp hu
      exact k.passes_text hp
    have hopen : Passes P ("float" ++ toString ks.length ++ "(").toList := .of_not_mem (by simp)
    have hclose : Passes P [')'] := .of_not_mem (by simp)
    have htext := (hopen.append (hparts.append hclose)) t ht
    simpa using htext

theorem Assignment.namesOnly_text {a : Assignment} (ha : ∀ n ∈ a.attrs, P n) :
    NamesOnly P a.text.toList := by
  have htarget : ∀ n ∈ a.target.attr?, P n := fun n hn =>
    ha n (List.mem_append_left _ (Option.mem_toList.mpr hn))
  have hsource : ∀ n ∈ a.source.attr?, P n := fun n hn =>
    ha n (List.mem_append_right _ (Option.mem_toList.mpr hn))
  have hend : NamesOnly P [';'] := namesOnly_of_not_mem (c := 'i') (by decide) (by simp)
  have hvalue : NamesOnly P (' ' :: '=' :: ' ' :: ((a.value.text a.source.text).toList ++ [';'])) := by
    have h := a.value.namesOnly_append hsource hend (by simp)
    simpa [namesOnly_cons_of_mismatch, attrStem] using h
  unfold text textBetween
  split
  · have htext := a.target.namesOnly_append htarget hvalue (by simp)
    simpa using htext
  · have htext := a.target.namesOnly_append htarget (hvalue.swizzle a.chans) (by simp)
    simpa using htext

/-! ## Lines -/

theorem Sample.passes_offsetText {xs : List Int} {t : String} (h : offsetText? xs = some t) :
    Passes P t.toList := by
  unfold offsetText? at h
  split at h
  · cases h
  · cases h
    exact .of_not_mem (by simp)
  · cases h
    intro u hu
    have hrest : Passes P (toString xs.length ++ "(" ++ ", ".intercalate (xs.map toString) ++
        ")").toList := .of_not_mem (by simp)
    have htext := hrest u hu
    simpa [namesOnly_cons_of_mismatch, attrStem] using htext

theorem Sample.namesOnly_text (s : Sample) : NamesOnly P s.text.toList := by
  have hargs : Passes P (", ".intercalate ([s!"sampler{s.sampler.val}",
      s!"tmp.{swizzleText s.coords}"] ++ (offsetText? s.offsets).toList)).toList := by
    rw [String.toList_intercalate]
    refine .intercalate (.of_not_mem (by simp)) fun u hu => ?_
    obtain ⟨t, ht, rfl⟩ := List.mem_map.mp hu
    rcases List.mem_append.mp ht with ht | ht
    · have hletters := i_not_mem_swizzleText s.coords
      have hnames : ∀ t ∈ [s!"sampler{s.sampler.val}", s!"tmp.{swizzleText s.coords}"],
          'i' ∉ t.toList := by simp [hletters]
      exact .of_not_mem (hnames t ht)
    · exact passes_offsetText (Option.mem_toList.mp ht)
  have hopen : Passes P ("tmp = texture" ++ toString s.texture.val ++ ".Sample(").toList :=
    .of_not_mem (by simp)
  have hclose : Passes P ");".toList := .of_not_mem (by simp)
  have htext := (hopen.append (hargs.append hclose)).namesOnly
  unfold text
  simpa using htext

theorem Stmt.namesOnly_text {s : Stmt} (hs : ∀ n ∈ s.attrs, P n) : NamesOnly P s.text.toList := by
  unfold text
  cases s with
  | lane | reduction | regWrite | latchVector | latchScalar | ret =>
    -- expressions are over registers and constants, whose names have no p
    exact namesOnly_of_not_mem (c := 'p') (by decide) (by simp)
  | address chan source =>
    have hsource : NamesOnly P (source.text.toList ++ "), -256, 255);".toList) :=
      namesOnly_of_not_mem (c := 'p') (by decide) (by simp)
    cases chan <;> simpa [namesOnly_cons_of_mismatch, attrStem, Chan.letter] using hsource
  | assign a => exact a.namesOnly_text hs
  | sample s => exact s.namesOnly_text
  | fetchCall => exact namesOnly_of_not_mem (c := '.') (by decide) (by simp)

theorem Line.namesOnly_text {l : Line} (hl : ∀ s ∈ l.stmt?, ∀ n ∈ s.attrs, P n) :
    NamesOnly P l.text.toList := by
  unfold text
  cases l with
  | stmt s => exact s.namesOnly_text (hl s rfl)
  | controlNote pc op =>
    have hname : 'i' ∉ op.name.toList := not_mem_opcodeName (by decide) op
    exact namesOnly_of_not_mem (c := 'i') (by decide) (by simp [hname])
  | groupNote pc => exact namesOnly_of_not_mem (c := 'i') (by decide) (by simp)

/-- Lines in which the attributes named are those for which `P` holds. -/
abbrev LinesNameOnly (P : Nat → Prop) (ls : List TextLine) : Prop :=
  EachText (fun t => NamesOnly P t.toList) ls

/-- Lines without a point name no attributes. -/
theorem linesNameOnly_of_point {ls : List TextLine} (h : EachText (fun t => '.' ∉ t.toList) ls) :
    LinesNameOnly P ls := fun l hl => namesOnly_of_not_mem (by decide) (h l hl)

theorem FuncDecl.namesOnly_lines {f : FuncDecl} (hf : ∀ s ∈ f.stmts, ∀ n ∈ s.attrs, P n) :
    LinesNameOnly P f.lines := by
  have hpreloads : LinesNameOnly P (TextLine.atDepth 1 (f.preloads.map Assignment.text)) :=
    EachText.atDepth_iff.mpr <| List.forall_mem_map.mpr fun a ha =>
      a.namesOnly_text (hf (.assign a) (List.mem_append_left _ (List.mem_map_of_mem ha)))
  have hbody : LinesNameOnly P (bodyLines f.body) :=
    EachText.atDepth_iff.mpr <| List.forall_mem_map.mpr fun l hl =>
      l.namesOnly_text fun s hs =>
        hf s (List.mem_append_right _ (List.mem_filterMap.mpr ⟨l, hl, hs⟩))
  have hsignature : LinesNameOnly P (TextLine.atDepth 0 [f.signature.text]) :=
    linesNameOnly_of_point (by simp)
  have hlocals : LinesNameOnly P localLines := linesNameOnly_of_point (by simp [localLines])
  have hregisters : LinesNameOnly P registerLines :=
    linesNameOnly_of_point (by simp [registerLines])
  have hclosing : LinesNameOnly P f.closing :=
    linesNameOnly_of_point (by unfold closing; split <;> simp)
  have hpreamble : LinesNameOnly P f.preamble := by
    have hbrace : LinesNameOnly P (TextLine.atDepth 0 ["\x7b"]) :=
      linesNameOnly_of_point (by simp)
    have hout : ∀ n : StructName,
        LinesNameOnly P (TextLine.atDepth 1 [s!"{n.text} output = ({n.text})0;"]) :=
      fun n => linesNameOnly_of_point (by simp)
    unfold preamble
    split
    · exact EachText.append_iff.mpr ⟨hbrace, hlocals⟩
    · simp only [EachText.append_iff]
      exact ⟨hbrace, ⟨⟨hout _, hregisters⟩, hpreloads⟩, hlocals⟩
  rw [lines_eq]
  simp only [EachText.append_iff]
  exact ⟨hsignature, hpreamble, hbody, hclosing⟩

theorem TextLine.namesOnly_shown {l : TextLine} (h : NamesOnly P l.text.toList) :
    NamesOnly P l.shown.toList := by
  unfold shown
  split
  · exact namesOnly_nil
  · rw [String.toList_append, namesOnly_append_of_not_mem (by simp [indentUnit])]
    exact h

/-- No name goes over the end of a line. -/
theorem namesOnly_renderAll {ls : List TextLine} (h : LinesNameOnly P ls) :
    NamesOnly P (TextLine.renderAll ls).toList := by
  unfold TextLine.renderAll
  rw [String.toList_join]
  induction ls with
  | nil => exact namesOnly_nil
  | cons l ls ih =>
    obtain ⟨hl, hls⟩ := List.forall_mem_cons.mp h
    have hlines := (TextLine.namesOnly_shown hl).append_cons (ih hls) (c := '\n') (by decide)
      (by decide)
    rw [List.map_cons, List.flatMap_cons, TextLine.render_eq l]
    simpa using hlines

/-- The locations of the vertex attributes in a source, in order. -/
def Listing.attrs (m : Listing) : List Nat := m.stmts.flatMap Stmt.attrs

/-- The text of a source names no vertex attributes but those in its statements. -/
theorem Listing.namesOnly_text {m : Listing} (hm : ∀ n ∈ m.attrs, P n) :
    NamesOnly P m.text.toList := by
  have hstmts : ∀ s ∈ m.stmts, ∀ n ∈ s.attrs, P n := fun s hs n hn =>
    hm n (List.mem_flatMap.mpr ⟨s, hs, hn⟩)
  have hmain : LinesNameOnly P m.main.lines :=
    FuncDecl.namesOnly_lines fun s hs => hstmts s (List.mem_append_right _ hs)
  have hfetch : LinesNameOnly P m.fetchLines := by
    unfold fetchLines
    cases hf : m.fetch with
    | none => exact .nil
    | some f =>
      have hlines : LinesNameOnly P f.lines := FuncDecl.namesOnly_lines fun s hs =>
        hstmts s (List.mem_append_left _ (by rw [hf]; exact hs))
      exact EachText.append_iff.mpr ⟨hlines, linesNameOnly_of_point (by simp)⟩
  have hdecls : LinesNameOnly P m.declLines := by
    have hstructs : EachText (fun t => '.' ∉ t.toList) (m.structs.flatMap StructDecl.lines) :=
      .flatMap fun d => by simp [StructDecl.lines, TextLine.block]
    refine linesNameOnly_of_point ?_
    unfold declLines
    split <;> simp [hstructs]
  have htitle : LinesNameOnly P (TextLine.atDepth 0 [s!"// Latte {m.stage.name} shader", ""]) := by
    have hstage : '.' ∉ m.stage.name.toList := by cases m.stage <;> simp [Stage.name]
    exact linesNameOnly_of_point (by simp [hstage])
  refine namesOnly_renderAll ?_
  rw [lines_eq]
  simp only [EachText.append_iff]
  exact ⟨htitle, hdecls, hfetch, hmain⟩

end

end LatteHlsl.Hlsl
