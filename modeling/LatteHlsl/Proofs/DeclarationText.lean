import LatteHlsl.Proofs.SourceText
import LatteHlsl.Proofs.Usage

/-!
# Declarations in the code of a shader

What a code declares is read off its lines. A resource is declared by a line of its own, which is
not indented and names the resource by its second word, or in the braces of a constant buffer. The
members of a structure are the lines between its braces.

* `declaredName?`, `Listing.codeLines_eq_decls`: the lines that declare resources.
* `structBodies`, `Listing.structBodies_text`: the lines of a structure.
* `memberName?`: the name that a line of a structure declares.
-/

namespace LatteHlsl

open Isa Hlsl Compile

namespace Hlsl

/-! ## Words -/

/-- The words of a line, which blanks separate. -/
def words (line : String) : List String := (line.toList.splitOn ' ').map String.ofList

theorem words_intercalate {ws : List String} (hne : ws ≠ []) (h : ∀ w ∈ ws, ' ' ∉ w.toList) :
    words (" ".intercalate ws) = ws := by
  have hsplit : ([' '].intercalate (ws.map String.toList)).splitOn ' ' = ws.map String.toList :=
    List.splitOn_intercalate ' ' (List.forall_mem_map.mpr h) (by simpa using hne)
  have hblank : " ".toList = [' '] := rfl
  rw [words, String.toList_intercalate, hblank, hsplit, List.map_map]
  have hid : String.ofList ∘ String.toList = id := funext fun _ => String.ofList_toList
  rw [hid, List.map_id]

/-- The first two words can be joined to one. -/
theorem intercalate_pair (a b : String) (ws : List String) :
    " ".intercalate (a :: b :: ws) = " ".intercalate ((a ++ " " ++ b) :: ws) := rfl

theorem intercalate_one (a : String) : " ".intercalate [a] = a := rfl

/-- The name of an array in front of its length. -/
def arrayName (w : String) : String := String.ofList (w.toList.takeWhile (· ≠ '['))

/-- The name of the resource that words declare, if they declare one. -/
def declaredBy? : List String → Option String
  | [_, name, ":", _] => some name
  | ["cbuffer", _, ":", _, "\x7b", _, array, "\x7d;"]
  | ["cbuffer", _, "\x7b", _, array, "\x7d;"] => some (arrayName array)
  | _ => none

/-- The name of the resource that a line declares, if it declares one. -/
def declaredName? (line : String) : Option String :=
  if line.toList.head? = some ' ' then none else declaredBy? (words line)

/-- The name that a line of a structure declares. -/
def memberName? (line : String) : Option String :=
  match words line with
  | ["", "", "", "", _, name, ":", _] => some name
  | _ => none

/-- The lines between the braces of the structures called `name`. -/
def structBodies (name : String) : List String → List (List String)
  | [] => []
  | l :: ls =>
    if l = "struct " ++ name ∧ ls.head? = some "\x7b" then
      ls.tail.takeWhile (· ≠ "\x7d;") :: structBodies name ls
    else structBodies name ls

example :
    structBodies "A"
        ["struct A", "\x7b", "    float4 b : C;", "\x7d;", "struct B", "\x7b", "\x7d;"] =
      [["    float4 b : C;"]] := by
  decide

end Hlsl

/-- The name under which a resource is declared. -/
def Resource.name : Resource → String
  | .texture s => s!"texture{s.val}"
  | .sampler s => s!"sampler{s.val}"
  | .uniformBlock b => s!"CB{b.val}"
  | .cfile => "C"

namespace Hlsl

theorem numbered_injective (stem : String) :
    Function.Injective fun n : Nat => stem ++ toString n := by
  intro n n' h
  have hchars := congrArg String.toList h
  have hdigits : Nat.toDigits 10 n = Nat.toDigits 10 n' := by
    simpa [Nat.toString_eq_ofList_toDigits] using hchars
  have hvalue := congrArg (Nat.ofDigitChars 10 · 0) hdigits
  simpa only [Nat.ofDigitChars_ten_toDigits] using hvalue

/-! ## Lines that are not indented -/

/-- Lines whose texts have a property unless they are indented. -/
def EachTop (P : String → Prop) (ls : List TextLine) : Prop := ∀ l ∈ ls, l.depth = 0 → P l.text

namespace EachTop

variable {P : String → Prop}

@[simp] theorem append_iff {ls ls' : List TextLine} :
    EachTop P (ls ++ ls') ↔ EachTop P ls ∧ EachTop P ls' := List.forall_mem_append

@[simp] theorem atDepth_zero {ts : List String} :
    EachTop P (TextLine.atDepth 0 ts) ↔ ∀ t ∈ ts, P t := by
  simp [EachTop, TextLine.atDepth]

@[simp] theorem atDepth_succ {depth : Nat} {ts : List String} :
    EachTop P (TextLine.atDepth (depth + 1) ts) := by
  simp [EachTop, TextLine.atDepth]

theorem flatMap {α : Type} {f : α → List TextLine} {as : List α} (h : ∀ a ∈ as, EachTop P (f a)) :
    EachTop P (as.flatMap f) := by
  intro l hl
  obtain ⟨a, ha, hl⟩ := List.mem_flatMap.mp hl
  exact h a ha l hl

/-- Of a function, the signature and the braces. -/
theorem lines_funcDecl (f : FuncDecl) (hsignature : P f.signature.text) (hopen : P "\x7b")
    (hclose : P "\x7d") : EachTop P f.lines := by
  have hpreamble : EachTop P f.preamble := by
    unfold FuncDecl.preamble
    cases f.signature <;> simp [hopen, localLines, registerLines]
  have hclosing : EachTop P f.closing := by
    unfold FuncDecl.closing
    cases f.signature <;> simp [hclose]
  rw [f.lines_eq]
  simp [bodyLines, hsignature, hpreamble, hclosing]

/-- The functions of a source, and the blank lines between them. -/
theorem lines_functions (m : Listing) (hsignature : ∀ s : Signature, P s.text) (hopen : P "\x7b")
    (hclose : P "\x7d") (hblank : P "") : EachTop P (m.fetchLines ++ m.main.lines) := by
  refine append_iff.mpr ⟨?_, lines_funcDecl _ (hsignature _) hopen hclose⟩
  unfold Listing.fetchLines
  cases m.fetch with
  | none => exact List.forall_mem_nil _
  | some f => simpa using ⟨lines_funcDecl f (hsignature _) hopen hclose, hblank⟩

end EachTop

/-- A line that is indented starts with a blank, unless it is empty. -/
theorem TextLine.head?_shown {l : TextLine} (h : l.depth ≠ 0) :
    l.shown = "" ∨ l.shown.toList.head? = some ' ' := by
  unfold shown
  split
  · exact .inl rfl
  · obtain ⟨depth, hdepth⟩ := Nat.exists_eq_succ_of_ne_zero h
    refine .inr ?_
    rw [hdepth, List.replicate_succ]
    simp [indentUnit]

/-! ## Resources -/

/-- Lines that are indented declare no resources. -/
theorem declaredName?_shown {ls : List TextLine} (h : EachTop (declaredName? · = none) ls) :
    ∀ line ∈ ls.map TextLine.shown, declaredName? line = none := by
  refine List.forall_mem_map.mpr fun l hl => ?_
  by_cases hdepth : l.depth = 0
  · have hshown : l.shown = l.text := by
      rw [show l = ⟨0, l.text⟩ from hdepth ▸ rfl, TextLine.shown_zero]
    rw [hshown]
    exact h l hl hdepth
  · rcases l.head?_shown hdepth with hempty | hblank
    · rw [hempty]
      decide
    · rw [declaredName?, if_pos hblank]

theorem arrayName_sized {a : String} (h : '[' ∉ a.toList) (n : Nat) :
    arrayName s!"{a}[{n}];" = a := by
  have hchars : (s!"{a}[{n}];").toList =
      a.toList ++ '[' :: ((toString n).toList ++ "];".toList) := by
    simp
  have hname : ∀ c ∈ a.toList, decide (c ≠ '[') = true :=
    fun c hc => decide_eq_true fun heq => h (heq ▸ hc)
  rw [arrayName, hchars, List.takeWhile_append_of_pos hname, List.takeWhile_cons_of_neg (by simp),
    List.append_nil, String.ofList_toList]

/-- The name that words joined by blanks declare. -/
theorem declaredName?_intercalate {w : String} {ws : List String} (hw : w ≠ "")
    (h : ∀ v ∈ w :: ws, ' ' ∉ v.toList) :
    declaredName? (" ".intercalate (w :: ws)) = declaredBy? (w :: ws) := by
  have hhead : (" ".intercalate (w :: ws)).toList.head? ≠ some ' ' := by
    obtain ⟨c, cs, hchars⟩ : ∃ c cs, w.toList = c :: cs :=
      List.exists_cons_of_ne_nil (by simpa using hw)
    have hc : c ≠ ' ' := by
      rintro rfl
      exact h w List.mem_cons_self (by rw [hchars]; exact List.mem_cons_self)
    rw [String.toList_intercalate, List.map_cons, hchars]
    cases ws <;> simp [List.intercalate_cons_of_ne_nil, hc]
  rw [declaredName?, if_neg hhead, words_intercalate (List.cons_ne_nil w ws) h]

/-- A declaration declares its resource. -/
theorem Decl.declaredName?_text (d : Decl) : declaredName? d.text = some d.resource.name := by
  cases d with
  | texture slot dim =>
    have htext : (Decl.texture slot dim).text = " ".intercalate
        [textureType dim, s!"texture{slot.val}", ":", s!"register(t{slot.val});"] := by
      refine String.toList_inj.mp ?_
      simp only [intercalate_pair, intercalate_one]
      unfold text
      simp
    have htype : textureType dim ≠ "" ∧ ' ' ∉ (textureType dim).toList := by
      cases dim <;> decide
    rw [htext, declaredName?_intercalate htype.1 (by simp [htype.2])]
    rfl
  | sampler slot =>
    have htext : (Decl.sampler slot).text = " ".intercalate
        ["SamplerState", s!"sampler{slot.val}", ":", s!"register(s{slot.val});"] := by
      refine String.toList_inj.mp ?_
      simp only [intercalate_pair, intercalate_one]
      unfold text
      simp
    rw [htext, declaredName?_intercalate (by decide) (by simp)]
    rfl
  | uniformBlock block size =>
    have htext : (Decl.uniformBlock block size).text = " ".intercalate
        ["cbuffer", s!"UniformBlock{block.val}", ":", s!"register(b{block.val})", "\x7b", "float4",
          s!"CB{block.val}[{size}];", "\x7d;"] := by
      refine String.toList_inj.mp ?_
      simp only [intercalate_pair, intercalate_one]
      unfold text
      simp
    have harray : arrayName s!"CB{block.val}[{size}];" = s!"CB{block.val}" :=
      arrayName_sized (a := s!"CB{block.val}") (by simp) size
    rw [htext, declaredName?_intercalate (by decide) (by simp), declaredBy?, harray]
    rfl
  | cfile size =>
    have htext : (Decl.cfile size).text = " ".intercalate
        ["cbuffer", "Registers", "\x7b", "float4", s!"C[{size}];", "\x7d;"] := by
      refine String.toList_inj.mp ?_
      simp only [intercalate_pair, intercalate_one]
      unfold text
      simp
    have harray : arrayName s!"C[{size}];" = "C" := arrayName_sized (a := "C") (by decide) size
    rw [htext, declaredName?_intercalate (by decide) (by simp), declaredBy?, harray]
    rfl

theorem declaredName?_signature (s : Signature) : declaredName? s.text = none := by
  cases s with
  | callee stage => cases stage <;> decide
  | entry stage => cases stage <;> decide

theorem declaredName?_struct (n : StructName) : declaredName? ("struct " ++ n.text) = none := by
  cases n <;> decide

theorem name_injective : Function.Injective Resource.name := by
  have hslot : ∀ (stem : String) (s s' : Slot), stem ++ toString s.val = stem ++ toString s'.val →
      s = s' := fun stem s s' h => Fin.ext (numbered_injective stem h)
  intro x y h
  have hchars := congrArg String.toList h
  cases x with
  | texture s =>
    cases y with
    | texture s' => rw [hslot "texture" s s' h]
    | sampler | uniformBlock | cfile => simp [Resource.name] at hchars
  | sampler s =>
    cases y with
    | sampler s' => rw [hslot "sampler" s s' h]
    | texture | uniformBlock | cfile => simp [Resource.name] at hchars
  | uniformBlock b =>
    cases y with
    | uniformBlock b' => rw [hslot "CB" b b' h]
    | texture | sampler | cfile => simp [Resource.name] at hchars
  | cfile =>
    cases y with
    | cfile => rfl
    | texture | sampler | uniformBlock => simp [Resource.name] at hchars

namespace Listing

/-- The lines of the declarations of a source stand together in its text, and no other lines declare
resources. -/
theorem codeLines_eq_decls (m : Listing) :
    ∃ before after, codeLines m.text = before ++ m.decls.map Decl.text ++ after ∧
      ∀ line ∈ before ++ after, declaredName? line = none := by
  have hblank : declaredName? "" = none := by decide
  have hopen : declaredName? "\x7b" = none := by decide
  have hclose : declaredName? "\x7d" = none := by decide
  have hend : declaredName? "\x7d;" = none := by decide
  have hheader : declaredName? s!"// Latte {m.stage.name} shader" = none := by
    cases m.stage <;> decide
  have hstructs : EachTop (declaredName? · = none) (m.structs.flatMap StructDecl.lines) :=
    .flatMap fun d _ => by
      simp [StructDecl.lines, TextLine.block, hopen, hend, hblank, declaredName?_struct]
  have hfunctions : EachTop (declaredName? · = none) (m.fetchLines ++ m.main.lines) :=
    .lines_functions m declaredName?_signature hopen hclose hblank
  have hmiddle : EachTop (declaredName? · = none)
      (TextLine.atDepth 0 (if m.decls.isEmpty then [] else [""])) := by
    split <;> simp [hblank]
  refine ⟨(TextLine.atDepth 0 [s!"// Latte {m.stage.name} shader", ""]).map TextLine.shown,
    (TextLine.atDepth 0 (if m.decls.isEmpty then [] else [""]) ++
      m.structs.flatMap StructDecl.lines ++ (m.fetchLines ++ m.main.lines)).map TextLine.shown ++
        [""], ?_, ?_⟩
  · rw [codeLines_text, lines_eq, declLines]
    simp [TextLine.atDepth, TextLine.shown_zero]
  · refine List.forall_mem_append.mpr ⟨declaredName?_shown ?_, ?_⟩
    · simpa using ⟨hheader, hblank⟩
    · refine List.forall_mem_append.mpr
        ⟨declaredName?_shown ?_, List.forall_mem_singleton.mpr hblank⟩
      exact EachTop.append_iff.mpr ⟨EachTop.append_iff.mpr ⟨hmiddle, hstructs⟩, hfunctions⟩

/-- The lines that declare a resource are those of its declarations. -/
theorem countP_declaredName? (m : Listing) (x : Resource) :
    (codeLines m.text).countP (fun line => decide (declaredName? line = some x.name)) =
      m.decls.countP fun d => decide (d.resource = x) := by
  obtain ⟨before, after, hlines, hnone⟩ := m.codeLines_eq_decls
  obtain ⟨hbefore, hafter⟩ := List.forall_mem_append.mp hnone
  have hzero : ∀ ls : List String, (∀ line ∈ ls, declaredName? line = none) →
      ls.countP (fun line => decide (declaredName? line = some x.name)) = 0 :=
    fun ls hls => List.countP_eq_zero.mpr fun line hline => by simp [hls line hline]
  rw [hlines, List.countP_append, List.countP_append, hzero before hbefore, hzero after hafter,
    Nat.zero_add, Nat.add_zero, List.countP_map]
  refine List.countP_congr fun d _ => ?_
  simp [d.declaredName?_text, name_injective.eq_iff]

theorem exists_decl_of_declaredName? {m : Listing} {line : String} (hline : line ∈ codeLines m.text)
    {x : Resource} (h : declaredName? line = some x.name) :
    ∃ d ∈ m.decls, line = d.text ∧ d.resource = x := by
  obtain ⟨before, after, hlines, hnone⟩ := m.codeLines_eq_decls
  obtain ⟨hbefore, hafter⟩ := List.forall_mem_append.mp hnone
  rw [hlines, List.mem_append, List.mem_append] at hline
  rcases hline with (hline | hline) | hline
  · rw [hbefore line hline] at h
    cases h
  · obtain ⟨d, hd, rfl⟩ := List.mem_map.mp hline
    rw [d.declaredName?_text] at h
    exact ⟨d, hd, rfl, name_injective (Option.some.inj h)⟩
  · rw [hafter line hline] at h
    cases h

end Listing

/-! ## Structures -/

/-- Lines among which no structure of the name starts. -/
theorem structBodies_append {name : String} {ls : List String} (h : "struct " ++ name ∉ ls)
    (ls' : List String) : structBodies name (ls ++ ls') = structBodies name ls' := by
  induction ls with
  | nil => rfl
  | cons l ls ih =>
    have hne : l ≠ "struct " ++ name := fun heq => h (heq ▸ List.mem_cons_self)
    rw [List.cons_append, structBodies, if_neg fun hl => hne hl.1,
      ih fun hmem => h (List.mem_cons_of_mem l hmem)]

/-- Only lines that are not indented start a structure. -/
theorem struct_not_mem {ls : List TextLine} (h : EachTop (·.toList.head? ≠ some 's') ls)
    (name : String) : "struct " ++ name ∉ ls.map TextLine.shown := by
  intro hmem
  obtain ⟨l, hl, heq⟩ := List.mem_map.mp hmem
  have hhead : l.shown.toList.head? = some 's' := by
    rw [heq]
    simp
  by_cases hdepth : l.depth = 0
  · have hshown : l.shown = l.text := by
      rw [show l = ⟨0, l.text⟩ from hdepth ▸ rfl, TextLine.shown_zero]
    exact h l hl hdepth (hshown ▸ hhead)
  · rcases l.head?_shown hdepth with hempty | hblank
    · rw [hempty] at hhead
      cases hhead
    · rw [hblank] at hhead
      cases hhead

/-- The line of a member declares its name. -/
theorem Member.memberName?_text (m : Member) : memberName? ("    " ++ m.text) = some m.name := by
  have htext : "    " ++ m.text =
      " ".intercalate ["", "", "", "", m.typeName, m.name, ":", m.semantic ++ ";"] := by
    refine String.toList_inj.mp ?_
    simp only [intercalate_pair, intercalate_one]
    unfold text
    simp
  have hblank : ' ' ∉ m.typeName.toList ∧ ' ' ∉ m.name.toList ∧ ' ' ∉ m.semantic.toList := by
    cases m with
    | position slot => cases slot <;> simp [typeName, name, semantic]
    | _ => simp [typeName, name, semantic]
  rw [memberName?, htext, words_intercalate (by simp) (by simp [hblank])]
  rfl

/-- The lines of the members of a structure. -/
def StructDecl.memberLines (d : StructDecl) : List String := d.members.map fun m => "    " ++ m.text

theorem StructDecl.shown_lines (d : StructDecl) :
    d.lines.map TextLine.shown =
      ["struct " ++ d.name.text, "\x7b"] ++ d.memberLines ++ ["\x7d;", ""] := by
  have hmember : ∀ m : Member, (TextLine.mk 1 m.text).shown = "    " ++ m.text := by
    intro m
    have hne : m.text ≠ "" := by simp [Member.text]
    simp [TextLine.shown, hne, indentUnit]
  simp [lines, TextLine.block, TextLine.atDepth, TextLine.shown_zero, memberLines, hmember]

theorem StructName.text_injective : Function.Injective StructName.text := by
  intro n n' h
  cases n <;> cases n' <;> first | rfl | (revert h; decide)

/-- The lines of a structure, and what follows them. -/
theorem StructDecl.structBodies_lines (d : StructDecl) (n : StructName) (ls : List String) :
    structBodies n.text (d.lines.map TextLine.shown ++ ls) =
      (if d.name = n then [d.memberLines] else []) ++ structBodies n.text ls := by
  have hindented : ∀ line ∈ d.memberLines, line.toList.head? = some ' ' :=
    List.forall_mem_map.mpr fun m _ => by simp
  have hmembers : "struct " ++ n.text ∉ d.memberLines := by
    intro hmem
    have hhead := hindented _ hmem
    simp at hhead
  have hends : "struct " ++ n.text ∉ ["\x7d;", ""] := by
    cases n <;> decide
  have hopen : "\x7b" ≠ "struct " ++ n.text := by
    cases n <;> decide
  have hrest : structBodies n.text ("\x7b" :: (d.memberLines ++ (["\x7d;", ""] ++ ls))) =
      structBodies n.text ls := by
    rw [structBodies, if_neg fun h => hopen h.1, structBodies_append hmembers,
      structBodies_append hends]
  have htake :
      (d.memberLines ++ (["\x7d;", ""] ++ ls)).takeWhile (· ≠ "\x7d;") = d.memberLines := by
    rw [List.takeWhile_append_of_pos, List.cons_append, List.takeWhile_cons_of_neg (by simp),
      List.append_nil]
    intro line hline
    refine decide_eq_true fun heq => ?_
    have hhead := hindented line hline
    rw [heq] at hhead
    cases hhead
  rw [d.shown_lines]
  simp only [List.cons_append, List.nil_append, List.append_assoc] at hrest htake ⊢
  rw [structBodies]
  by_cases hname : d.name = n
  · rw [if_pos ⟨by rw [hname], rfl⟩, if_pos hname, List.tail_cons, htake, hrest]
    rfl
  · have hne : "struct " ++ d.name.text ≠ "struct " ++ n.text := fun h =>
      hname (StructName.text_injective (by simpa using h))
    rw [if_neg fun h => hne h.1, if_neg hname, hrest]
    rfl

theorem structBodies_structs (n : StructName) (ds : List StructDecl) (ls : List String) :
    structBodies n.text ((ds.flatMap StructDecl.lines).map TextLine.shown ++ ls) =
      ((ds.filter fun d => d.name = n).map StructDecl.memberLines) ++ structBodies n.text ls := by
  induction ds with
  | nil => rfl
  | cons d ds ih =>
    rw [List.flatMap_cons, List.map_append, List.append_assoc, d.structBodies_lines, ih,
      List.filter_cons]
    by_cases hname : d.name = n <;> simp [hname]

/-- The structures in the text of a source. -/
theorem Listing.structBodies_text (m : Listing) (n : StructName) :
    structBodies n.text (codeLines m.text) =
      (m.structs.filter fun d => d.name = n).map StructDecl.memberLines := by
  have hdecl : ∀ d : Decl, d.text.toList.head? ≠ some 's' := by
    intro d
    unfold Decl.text
    cases d with
    | texture slot dim => cases dim <;> simp [textureType]
    | sampler | uniformBlock | cfile => simp
  have hsignature : ∀ s : Signature, s.text.toList.head? ≠ some 's' := by
    intro s
    cases s with
    | callee stage => cases stage <;> decide
    | entry stage => cases stage <;> decide
  have hbefore : EachTop (·.toList.head? ≠ some 's')
      (TextLine.atDepth 0 [s!"// Latte {m.stage.name} shader", ""] ++
        (TextLine.atDepth 0 (m.decls.map Decl.text) ++
          TextLine.atDepth 0 (if m.decls.isEmpty then [] else [""]))) := by
    split <;> simp [hdecl]
  have hafter : EachTop (·.toList.head? ≠ some 's')
      (m.fetchLines ++ m.main.lines ++ TextLine.atDepth 0 [""]) :=
    EachTop.append_iff.mpr
      ⟨.lines_functions m hsignature (by decide) (by decide) (by decide), by simp⟩
  have hlines : codeLines m.text =
      (TextLine.atDepth 0 [s!"// Latte {m.stage.name} shader", ""] ++
          (TextLine.atDepth 0 (m.decls.map Decl.text) ++
            TextLine.atDepth 0 (if m.decls.isEmpty then [] else [""]))).map TextLine.shown ++
        ((m.structs.flatMap StructDecl.lines).map TextLine.shown ++
          (m.fetchLines ++ m.main.lines ++ TextLine.atDepth 0 [""]).map TextLine.shown) := by
    rw [codeLines_text, lines_eq, declLines]
    simp [TextLine.atDepth, TextLine.shown_zero]
  have hend := structBodies_append (struct_not_mem hafter n.text) []
  rw [List.append_nil] at hend
  rw [hlines, structBodies_append (struct_not_mem hbefore n.text), structBodies_structs, hend]
  exact List.append_nil _

end Hlsl

end LatteHlsl
