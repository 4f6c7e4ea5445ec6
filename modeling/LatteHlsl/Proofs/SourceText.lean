import Mathlib.Algebra.Group.Nat.Defs
import LatteHlsl.Hlsl.Listing

/-!
# The lines of a source

A source is put together from texts that are meant to be one line each. They are: no number, name or
expression holds the end of a line. So the lines of the finished text are the lines it was put
together from, and a line of it tells what it stands for.

* `Foreign`, `Result.not_mem_text`, …: characters that are in no expression.
* `Stmt.newline_not_mem_text`, `Line.newline_not_mem_text`, …: texts of one line.
* `Stmt.head?_text`: what statements start with, and which statements can be told from that.
* `codeLines`, `Listing.codeLines_text`: the lines of a source.
-/

namespace LatteHlsl.Hlsl

open Isa

/-! ## Numbers, letters and names -/

@[simp] theorem toString_string (s : String) : toString s = s := rfl

@[simp] theorem toList_toString_char (c : Char) : (toString c).toList = [c] := by
  show (String.singleton c).toList = [c]
  simp

/-- The digits of a number are digits. -/
theorem exists_digit_of_mem_toDigits {b n : Nat} (hb : 1 < b) {c : Char}
    (h : c ∈ Nat.toDigits b n) : ∃ d < b, c = d.digitChar := by
  induction n using Nat.strongRecOn with
  | ind n ih =>
    rw [Nat.toDigits_eq_if hb] at h
    split at h
    · exact ⟨n, ‹n < b›, List.mem_singleton.mp h⟩
    · rcases List.mem_append.mp h with h | h
      · exact ih (n / b) (Nat.div_lt_self (by omega) hb) h
      · exact ⟨n % b, Nat.mod_lt n (by omega), List.mem_singleton.mp h⟩

@[simp] theorem not_mem_toDigits {c : Char} (hc : c.isDigit = false) (n : Nat) :
    c ∉ Nat.toDigits 10 n := by
  intro h
  obtain ⟨d, hd, rfl⟩ := exists_digit_of_mem_toDigits (by decide) h
  have hdigit : ∀ d < 10, (Nat.digitChar d).isDigit = true := by decide
  rw [hdigit d hd] at hc
  cases hc

@[simp] theorem not_mem_repr {c : Char} (hc : c.isDigit = false) (hminus : c ≠ '-') (n : Int) :
    c ∉ n.repr.toList := by
  cases n with
  | ofNat n =>
    show c ∉ n.repr.toList
    simp [hc]
  | negSucc n =>
    show c ∉ ("-" ++ (n + 1).repr).toList
    simp [hc, hminus]

@[simp] theorem not_mem_intercalate {c : Char} {sep : List Char} {ts : List (List Char)}
    (hsep : c ∉ sep) (hts : ∀ t ∈ ts, c ∉ t) : c ∉ sep.intercalate ts := by
  induction ts with
  | nil => simp
  | cons t ts ih =>
    obtain ⟨ht, hts⟩ := List.forall_mem_cons.mp hts
    by_cases hnil : ts = []
    · simpa [hnil] using ht
    · rw [List.intercalate_cons_of_ne_nil hnil]
      simp [ht, hsep, ih hts]

/-- A literal is its characters; this is faster to check than to decode it. -/
theorem not_mem_ofList {c : Char} {cs : List Char} (h : c ∉ cs) :
    c ∉ (String.ofList cs).toList := by
  rwa [String.toList_ofList]

theorem all_ofList {p : Char → Bool} {cs : List Char} (h : cs.all p = true) :
    (String.ofList cs).toList.all p = true := by
  rwa [String.toList_ofList]

/-- The characters of the names of operations. -/
def isCapital (c : Char) : Bool := c.isUpper || c.isDigit || c == '_'

theorem all_isCapital_opcodeName (op : Opcode) : op.name.toList.all isCapital = true := by
  cases op with
  | cf op | exp op | cfAlu op | op2 op | op3 op | tex op | vtx op =>
    cases op <;> exact all_ofList (by decide)

theorem not_mem_opcodeName {c : Char} (hc : isCapital c = false) (op : Opcode) :
    c ∉ op.name.toList := by
  intro h
  rw [List.all_eq_true.mp (all_isCapital_opcodeName op) c h] at hc
  cases hc

/-! ## Expressions -/

/-- Characters that are in no expression: the end of a line, and a letter of which the names of
variables are made. -/
def Foreign (c : Char) : Prop := c = '\n' ∨ c = 'p'

@[simp] theorem foreign_newline : Foreign '\n' := .inl rfl

@[simp] theorem foreign_p : Foreign 'p' := .inr rfl

section

variable {c : Char} (hc : Foreign c)
include hc

@[simp] theorem Foreign.ne_letter (chan : Chan) : ¬ c = chan.letter := by
  obtain rfl | rfl := hc <;> cases chan <;> decide

@[simp] theorem not_mem_swizzleText (cs : List Chan) : c ∉ (swizzleText cs).toList := by
  simp [swizzleText, eq_comm, hc]

@[simp] theorem IndexReg.not_mem_text (r : IndexReg) : c ∉ r.text.toList := by
  unfold text
  obtain rfl | rfl := hc <;> cases r <;> simp

@[simp] theorem Index.not_mem_text (i : Index) : c ∉ i.text.toList := by
  obtain rfl | rfl := hc <;> simp [text]

@[simp] theorem Atom.not_mem_hexWord (w : Word) : c ∉ (hexWord w).toList := by
  have hdigit : ∀ d < 16, c ≠ (Nat.digitChar d).toUpper := by obtain rfl | rfl := hc <;> decide
  have hzero : c ≠ '0' := by obtain rfl | rfl := hc <;> decide
  simp only [hexWord, String.toList_ofList, List.mem_append, List.mem_replicate, List.mem_map]
  rintro (⟨-, h⟩ | ⟨d, hd, h⟩)
  · exact hzero h
  · obtain ⟨d, hlt, rfl⟩ := exists_digit_of_mem_toDigits (by decide) hd
    exact hdigit d hlt h.symm

@[simp] theorem Atom.not_mem_text (a : Atom) : c ∉ a.text.toList := by
  unfold text
  obtain rfl | rfl := hc <;> cases a <;> simp

@[simp] theorem Source.not_mem_text (s : Source) : c ∉ s.text.toList := by
  obtain ⟨atom, abs, neg, view⟩ := s
  unfold text
  obtain rfl | rfl := hc <;> cases abs <;> cases neg <;> cases view <;> simp

@[simp] theorem Arith.not_mem_listText (ss : List Source) : c ∉ (listText ss).toList := by
  obtain rfl | rfl := hc <;> simp [listText]

@[simp] theorem UnaryFn.not_mem_name (f : UnaryFn) : c ∉ f.name.toList := by
  obtain rfl | rfl := hc <;> cases f <;> exact not_mem_ofList (by decide)

@[simp] theorem BinaryFn.not_mem_name (f : BinaryFn) : c ∉ f.name.toList := by
  obtain rfl | rfl := hc <;> cases f <;> exact not_mem_ofList (by decide)

@[simp] theorem BinaryOp.not_mem_sign (op : BinaryOp) : c ∉ op.sign.toList := by
  obtain rfl | rfl := hc <;> cases op <;> exact not_mem_ofList (by decide)

@[simp] theorem ZeroTest.not_mem_sign (t : ZeroTest) : c ∉ t.sign.toList := by
  obtain rfl | rfl := hc <;> cases t <;> exact not_mem_ofList (by decide)

@[simp] theorem Conversion.not_mem_typeName (k : Conversion) : c ∉ k.typeName.toList := by
  obtain rfl | rfl := hc <;> cases k <;> exact not_mem_ofList (by decide)

@[simp] theorem Arith.not_mem_text (a : Arith) : c ∉ a.text.toList := by
  unfold text
  obtain rfl | rfl := hc <;> cases a <;> simp

theorem Result.not_mem_scaleText {t : String} (h : c ∉ t.toList) (omod : OutputModifier) :
    c ∉ (scaleText t omod).toList := by
  unfold scaleText
  obtain rfl | rfl := hc <;> cases omod <;> simp [h]

@[simp] theorem Result.not_mem_text (r : Result) : c ∉ r.text.toList := by
  obtain ⟨value, finish⟩ := r
  unfold text
  cases finish with
  | reinterpret => obtain rfl | rfl := hc <;> simp
  | float omod clamp =>
    have hscale := not_mem_scaleText hc (value.not_mem_text hc) omod
    obtain rfl | rfl := hc <;> cases clamp <;> simp [hscale]

@[simp] theorem LaneOut.not_mem_text (o : LaneOut) : c ∉ o.text.toList := by
  unfold text
  obtain rfl | rfl := hc <;> cases o <;> simp

@[simp] theorem RegWrite.not_mem_text (w : RegWrite) : c ∉ w.text.toList := by
  obtain rfl | rfl := hc <;> simp [text]

end

/-! ## Statements -/

@[simp] theorem newline_not_mem_outputStem (kind : ExportKind) :
    '\n' ∉ (outputStem kind).toList := by
  cases kind <;> exact not_mem_ofList (by decide)

@[simp] theorem Place.newline_not_mem_text (p : Place) : '\n' ∉ p.text.toList := by
  unfold text
  cases p <;> simp

@[simp] theorem Component.newline_not_mem_text (source : Place) (c : Component) :
    '\n' ∉ (c.text source.text).toList := by
  unfold text
  cases c <;> simp

@[simp] theorem Value.newline_not_mem_text (source : Place) (v : Value) :
    '\n' ∉ (v.text source.text).toList := by
  unfold text
  cases v <;> simp

@[simp] theorem Assignment.newline_not_mem_text (a : Assignment) : '\n' ∉ a.text.toList := by
  unfold text textBetween
  split <;> simp

theorem Sample.newline_not_mem_offsetText {xs : List Int} {t : String}
    (h : offsetText? xs = some t) : '\n' ∉ t.toList := by
  unfold offsetText? at h
  split at h <;> cases h <;> simp

@[simp] theorem Sample.newline_not_mem_text (s : Sample) : '\n' ∉ s.text.toList := by
  unfold text
  cases hoffset : offsetText? s.offsets with
  | none => simp
  | some t => simp [newline_not_mem_offsetText hoffset]

@[simp] theorem Stmt.newline_not_mem_text (s : Stmt) : '\n' ∉ s.text.toList := by
  unfold text
  cases s <;> simp

@[simp] theorem Line.newline_not_mem_text (l : Line) : '\n' ∉ l.text.toList := by
  unfold text
  have hname : ∀ op : Opcode, '\n' ∉ op.name.toList := not_mem_opcodeName (by decide)
  cases l <;> simp [hname]

/-! ## What statements start with -/

/-- The first character of a variable. -/
def Place.initial : Place → Char
  | .tmp => 't'
  | .gpr _ => 'R'
  | .output _ _ => 'o'
  | .attr _ | .param _ => 'i'

/-- The first character of a statement. -/
def Stmt.initial : Stmt → Char
  | .lane _ _ | .reduction _ | .latchVector | .latchScalar => 'P'
  | .address _ _ => 'A'
  | .regWrite _ => 'R'
  | .assign a => a.target.initial
  | .sample _ => 't'
  | .fetchCall => 'F'
  | .ret => 'r'

theorem Place.head?_text (p : Place) : p.text.toList.head? = some p.initial := by
  unfold text
  cases p <;> simp [initial]

theorem Assignment.head?_text (a : Assignment) :
    a.text.toList.head? = some a.target.initial := by
  unfold text textBetween
  split <;> simp [Place.head?_text]

theorem LaneOut.head?_text (o : LaneOut) : o.text.toList.head? = some 'P' := by
  unfold text
  cases o <;> simp

theorem RegWrite.head?_text (w : RegWrite) : w.text.toList.head? = some 'R' := by
  unfold text
  simp

theorem Sample.head?_text (s : Sample) : s.text.toList.head? = some 't' := by
  unfold text
  simp

theorem Stmt.initial_ne (s : Stmt) : s.initial ≠ ' ' ∧ s.initial ≠ '/' := by
  cases s with
  | assign a => cases ht : a.target <;> simp [initial, ht, Place.initial]
  | _ => simp [initial]

theorem Stmt.head?_text (s : Stmt) : s.text.toList.head? = some s.initial := by
  unfold text
  cases s <;>
    simp [initial, LaneOut.head?_text, Assignment.head?_text, RegWrite.head?_text,
      Sample.head?_text]

theorem Stmt.eq_fetchCall_of_initial {s : Stmt} (h : s.initial = 'F') : s = .fetchCall := by
  cases s with
  | fetchCall => rfl
  | assign a => cases ht : a.target <;> simp [initial, ht, Place.initial] at h
  | _ => simp [initial] at h

theorem Stmt.eq_ret_of_initial {s : Stmt} (h : s.initial = 'r') : s = .ret := by
  cases s with
  | ret => rfl
  | assign a => cases ht : a.target <;> simp [initial, ht, Place.initial] at h
  | _ => simp [initial] at h

/-- The first character of a line; comments start alike. -/
def Line.initial : Line → Char
  | .stmt s => s.initial
  | .controlNote _ _ | .groupNote _ => '/'

theorem Line.head?_text (l : Line) : l.text.toList.head? = some l.initial := by
  unfold text
  cases l <;> simp [initial, Stmt.head?_text]

/-- The call of the fetch function is known by its text. -/
theorem Line.text_eq_fetchCall {l : Line} :
    l.text = "FSMain(input, R);" ↔ l = .stmt .fetchCall := by
  refine ⟨fun h => ?_, fun h => h ▸ rfl⟩
  have hinitial : l.initial = 'F' := by simpa [h] using l.head?_text.symm
  cases l with
  | stmt s => rw [Stmt.eq_fetchCall_of_initial hinitial]
  | controlNote | groupNote => simp [initial] at hinitial

/-- A return is known by its text. -/
theorem Line.text_eq_ret {l : Line} : l.text = "return;" ↔ l = .stmt .ret := by
  refine ⟨fun h => ?_, fun h => h ▸ rfl⟩
  have hinitial : l.initial = 'r' := by simpa [h] using l.head?_text.symm
  cases l with
  | stmt s => rw [Stmt.eq_ret_of_initial hinitial]
  | controlNote | groupNote => simp [initial] at hinitial

/-! ## Listings -/

/-- Characters that are in no declaration: the end of a line, the point before a component, and the
sign of an assignment. -/
def Undeclared (c : Char) : Prop := c = '\n' ∨ c = '.' ∨ c = '='

@[simp] theorem undeclared_newline : Undeclared '\n' := .inl rfl

@[simp] theorem undeclared_point : Undeclared '.' := .inr (.inl rfl)

@[simp] theorem undeclared_equals : Undeclared '=' := .inr (.inr rfl)

section

variable {c : Char} (hc : Undeclared c)
include hc

@[simp] theorem not_mem_textureType (dim : TexDim) : c ∉ (textureType dim).toList := by
  obtain rfl | rfl | rfl := hc <;> cases dim <;> exact not_mem_ofList (by decide)

@[simp] theorem Decl.not_mem_text (d : Decl) : c ∉ d.text.toList := by
  unfold text
  obtain rfl | rfl | rfl := hc <;> cases d <;> simp

theorem Member.not_mem_semantic (m : Member) : c ∉ m.semantic.toList := by
  unfold semantic
  obtain rfl | rfl | rfl := hc <;> split <;> simp

@[simp] theorem Member.not_mem_text (m : Member) : c ∉ m.text.toList := by
  have hname : c ∉ m.name.toList := by
    unfold name
    obtain rfl | rfl | rfl := hc <;> cases m <;> simp
  have htype : c ∉ m.typeName.toList := by
    unfold typeName
    obtain rfl | rfl | rfl := hc <;> split <;> simp
  have hsemantic := m.not_mem_semantic hc
  obtain rfl | rfl | rfl := hc <;> simp [text, hname, htype, hsemantic]

@[simp] theorem StructName.not_mem_text (n : StructName) : c ∉ n.text.toList := by
  obtain rfl | rfl | rfl := hc <;> cases n <;> exact not_mem_ofList (by decide)

@[simp] theorem Signature.not_mem_text (s : Signature) : c ∉ s.text.toList := by
  unfold text
  cases s with
  | callee stage => obtain rfl | rfl | rfl := hc <;> cases stage <;> simp
  | entry stage => obtain rfl | rfl | rfl := hc <;> cases stage <;> simp

end

namespace FuncDecl

/-- The lines of a function between its signature and its body. -/
def preamble (f : FuncDecl) : List TextLine :=
  TextLine.atDepth 0 ["\x7b"] ++
    match f.signature with
    | .callee _ => localLines
    | .entry stage =>
      let out := (StructName.outputOf stage).text
      TextLine.atDepth 1 [s!"{out} output = ({out})0;"] ++ registerLines ++
        TextLine.atDepth 1 (f.preloads.map Assignment.text) ++ localLines

/-- The lines of a function after its body. -/
def closing (f : FuncDecl) : List TextLine :=
  match f.signature with
  | .callee _ => TextLine.atDepth 0 ["\x7d"]
  | .entry _ => TextLine.atDepth 1 ["return output;"] ++ TextLine.atDepth 0 ["\x7d"]

theorem lines_eq (f : FuncDecl) :
    f.lines =
      TextLine.atDepth 0 [f.signature.text] ++ (f.preamble ++ (bodyLines f.body ++ f.closing)) := by
  obtain ⟨signature, preloads, body⟩ := f
  cases signature <;> simp [lines, preamble, closing, TextLine.block, TextLine.atDepth]

end FuncDecl

/-- Lines whose texts have a property. -/
def EachText (P : String → Prop) (ls : List TextLine) : Prop := ∀ l ∈ ls, P l.text

namespace EachText

variable {P : String → Prop}

@[simp] theorem append_iff {ls ls' : List TextLine} :
    EachText P (ls ++ ls') ↔ EachText P ls ∧ EachText P ls' := List.forall_mem_append

@[simp] theorem atDepth_iff {depth : Nat} {ts : List String} :
    EachText P (TextLine.atDepth depth ts) ↔ ∀ t ∈ ts, P t := by
  simp [EachText, TextLine.atDepth]

@[simp] theorem nil : EachText P [] := List.forall_mem_nil _

theorem flatMap {α : Type} {f : α → List TextLine} {as : List α} (h : ∀ a, EachText P (f a)) :
    EachText P (as.flatMap f) := by
  intro l hl
  obtain ⟨a, -, hl⟩ := List.mem_flatMap.mp hl
  exact h a l hl

end EachText

/-- Lines whose texts are one line each. -/
abbrev SingleLines (ls : List TextLine) : Prop := EachText (fun t => '\n' ∉ t.toList) ls

theorem StructDecl.singleLines (d : StructDecl) : SingleLines d.lines := by
  simp [lines, TextLine.block]

theorem FuncDecl.singleLines (f : FuncDecl) : SingleLines f.lines := by
  rw [lines_eq]
  obtain ⟨signature, preloads, body⟩ := f
  cases signature <;> simp [preamble, closing, localLines, bodyLines, registerLines]

namespace Listing

/-- The lines of a source that declare resources and structures. -/
def declLines (m : Listing) : List TextLine :=
  TextLine.atDepth 0 (m.decls.map Decl.text) ++
    TextLine.atDepth 0 (if m.decls.isEmpty then [] else [""]) ++ m.structs.flatMap StructDecl.lines

/-- The lines of the fetch function, if there is one. -/
def fetchLines (m : Listing) : List TextLine :=
  (m.fetch.map fun f => f.lines ++ TextLine.atDepth 0 [""]).getD []

theorem lines_eq (m : Listing) :
    m.lines = TextLine.atDepth 0 [s!"// Latte {m.stage.name} shader", ""] ++
      (m.declLines ++ (m.fetchLines ++ m.main.lines)) := by
  simp [lines, declLines, fetchLines]

theorem singleLines (m : Listing) : SingleLines m.lines := by
  have hstage : '\n' ∉ m.stage.name.toList := by cases m.stage <;> simp [Stage.name]
  have hstructs : SingleLines (m.structs.flatMap StructDecl.lines) := .flatMap (·.singleLines)
  have hdecls : SingleLines m.declLines := by
    unfold declLines
    split <;> simp [hstructs]
  have hfetch : SingleLines m.fetchLines := by
    unfold fetchLines
    cases m.fetch with
    | none => exact .nil
    | some f => simp [f.singleLines]
  simp [lines_eq, hstage, hdecls, hfetch, m.main.singleLines]

end Listing

/-! ## The lines of a text -/

/-- The lines of a text. What follows the last end of a line is a line too. -/
def codeLines (s : String) : List String := (s.toList.splitOn '\n').map String.ofList

/-- A line with its indentation. -/
def TextLine.shown (l : TextLine) : String :=
  if l.text.isEmpty then "" else String.join (List.replicate l.depth indentUnit) ++ l.text

/-- A line is its text behind some blanks. -/
theorem TextLine.shown_eq (l : TextLine) :
    ∃ n, l.shown = String.ofList (List.replicate n ' ') ++ l.text := by
  have hblanks : ∀ depth, (List.replicate depth indentUnit).flatMap String.toList =
      List.replicate (4 * depth) ' ' := by
    intro depth
    induction depth with
    | zero => rfl
    | succ depth ih =>
      rw [List.replicate_succ, List.flatMap_cons, ih, Nat.mul_succ, Nat.add_comm,
        ← List.replicate_append_replicate]
      rfl
  unfold shown
  split
  · rename_i hempty
    exact ⟨0, by simp [String.isEmpty_iff.mp hempty]⟩
  · refine ⟨4 * l.depth, String.toList_inj.mp ?_⟩
    rw [String.toList_append, String.toList_join, hblanks, String.toList_append,
      String.toList_ofList]

theorem TextLine.shown_zero (t : String) : (TextLine.mk 0 t).shown = t := by
  unfold shown
  split
  · rename_i hempty
    exact (String.isEmpty_iff.mp hempty).symm
  · simp

theorem TextLine.render_eq (l : TextLine) : l.render = l.shown ++ "\n" := by
  unfold render shown
  split <;> rfl

theorem TextLine.newline_not_mem_shown {l : TextLine} (h : '\n' ∉ l.text.toList) :
    '\n' ∉ l.shown.toList := by
  unfold shown
  split
  · simp
  · simp [h, indentUnit]

/-- The lines of a text that was rendered line by line. -/
theorem codeLines_renderAll {ls : List TextLine} (h : SingleLines ls) :
    codeLines (TextLine.renderAll ls) = ls.map TextLine.shown ++ [""] := by
  unfold codeLines TextLine.renderAll
  rw [String.toList_join]
  induction ls with
  | nil => rfl
  | cons l ls ih =>
    obtain ⟨hl, hls⟩ := List.forall_mem_cons.mp h
    have htext : ((l :: ls).map TextLine.render).flatMap String.toList =
        l.shown.toList ++ '\n' :: (ls.map TextLine.render).flatMap String.toList := by
      rw [List.map_cons, List.flatMap_cons, TextLine.render_eq l]
      simp
    rw [htext, List.splitOn_append_cons_self_of_not_mem (TextLine.newline_not_mem_shown hl),
      List.map_cons, ih hls, String.ofList_toList, List.map_cons, List.cons_append]

/-- A text is its lines with an end of line between them. -/
theorem intercalate_codeLines (s : String) : "\n".intercalate (codeLines s) = s := by
  rw [← String.toList_inj, String.toList_intercalate, codeLines, List.map_map]
  have hid : (String.toList ∘ String.ofList) = id := funext fun _ => String.toList_ofList
  rw [hid, List.map_id]
  exact List.intercalate_splitOn '\n'

theorem Listing.codeLines_text (m : Listing) :
    codeLines m.text = m.lines.map TextLine.shown ++ [""] :=
  codeLines_renderAll m.singleLines

/-! ## What the lines of a source start with -/

theorem TextLine.dropWhile_shown (l : TextLine) :
    l.shown.toList.dropWhile (· = ' ') = l.text.toList.dropWhile (· = ' ') := by
  unfold shown
  split
  · rename_i hempty
    rw [String.isEmpty_iff.mp hempty]
  · rw [String.toList_append, String.toList_join]
    refine List.dropWhile_append_of_pos ?_
    simp [indentUnit]

/-- A text that starts with one of the given characters, if with any. -/
def Opens (cs : List Char) (t : String) : Prop := ∀ c ∈ t.toList.head?, c ∈ cs

theorem Opens.of_head? {cs : List Char} {t : String} {c : Char} (h : t.toList.head? = some c)
    (hc : c ∈ cs) : Opens cs t := by
  intro c' hc'
  rw [h] at hc'
  rw [← Option.some.inj hc']
  exact hc

/-- What the lines of bodies start with. -/
def bodyInitials : List Char := ['P', 'A', 'R', 't', 'o', 'i', 'F', 'r', '/']

/-- What the other lines of a source start with, apart from its first line and the signatures of
functions that are called. -/
def plainInitials : List Char :=
  ['u', 'f', 'T', 'S', 'c', 's', '\x7b', '\x7d', 'i', 'R', 't', 'o', 'V', 'G', 'P', 'r']

theorem Place.initial_mem {cs : List Char} (p : Place)
    (h : 't' ∈ cs ∧ 'R' ∈ cs ∧ 'o' ∈ cs ∧ 'i' ∈ cs) : p.initial ∈ cs := by
  cases p <;> simp [initial, h]

theorem Line.opens (l : Line) : Opens bodyInitials l.text := by
  refine .of_head? l.head?_text ?_
  cases l with
  | stmt s =>
    cases s with
    | assign a => exact a.target.initial_mem (by decide)
    | _ => simp [initial, Stmt.initial, bodyInitials]
  | controlNote | groupNote => simp [initial, bodyInitials]

theorem Assignment.opens (a : Assignment) : Opens plainInitials a.text :=
  .of_head? a.head?_text (a.target.initial_mem (by decide))

theorem Member.opens (m : Member) : Opens plainInitials m.text := by
  have htype : m.typeName = "uint" ∨ m.typeName = "float4" := by
    unfold typeName
    split
    · exact .inl rfl
    · exact .inl rfl
    · exact .inr rfl
  unfold text
  rcases htype with htype | htype <;> simp [Opens, htype, plainInitials]

theorem Decl.opens (d : Decl) : Opens plainInitials d.text := by
  unfold text
  cases d with
  | texture slot dim => cases dim <;> simp [Opens, textureType, plainInitials]
  | sampler | uniformBlock | cfile => simp [Opens, plainInitials]

theorem StructName.opens (n : StructName) (rest : String) :
    Opens plainInitials (n.text ++ rest) := by
  cases n <;> simp [Opens, text, plainInitials]

theorem Signature.opens (s : Signature) : Opens ('v' :: plainInitials) s.text := by
  unfold text
  cases s with
  | callee stage => cases stage <;> simp [Opens]
  | entry stage =>
    cases stage <;> simp [Opens, StructName.outputOf, StructName.text, plainInitials]

theorem opens_plain :
    Opens plainInitials "" ∧ Opens plainInitials "\x7b" ∧ Opens plainInitials "\x7d" ∧
      Opens plainInitials "\x7d;" ∧ Opens plainInitials "return output;" := by
  simp [Opens, plainInitials]

theorem opens_localLines : EachText (Opens plainInitials) localLines := by
  simp only [localLines, EachText.atDepth_iff, List.forall_mem_cons]
  simp [Opens, plainInitials]

theorem opens_registerLines : EachText (Opens plainInitials) registerLines := by
  simp only [registerLines, EachText.append_iff, EachText.atDepth_iff, List.forall_mem_cons]
  simp [Opens, plainInitials]

theorem StructDecl.opens (d : StructDecl) : EachText (Opens plainInitials) d.lines := by
  have hhead : Opens plainInitials ("struct " ++ d.name.text) := by simp [Opens, plainInitials]
  simp [lines, TextLine.block, Member.opens, hhead, opens_plain]

namespace FuncDecl

theorem opens_preamble (f : FuncDecl) : EachText (Opens plainInitials) f.preamble := by
  unfold preamble
  cases f.signature <;>
    simp [opens_plain, opens_localLines, opens_registerLines, StructName.opens, Assignment.opens,
      String.append_assoc]

theorem opens_closing (f : FuncDecl) : EachText (Opens plainInitials) f.closing := by
  unfold closing
  cases f.signature <;> simp [opens_plain]

end FuncDecl

theorem Listing.opens_declLines (m : Listing) : EachText (Opens plainInitials) m.declLines := by
  have hstructs : EachText (Opens plainInitials) (m.structs.flatMap StructDecl.lines) :=
    .flatMap StructDecl.opens
  unfold declLines
  split <;> simp [hstructs, Decl.opens, opens_plain]

/-- Lines that start otherwise than a text are not that text. -/
theorem count_shown_eq_zero {cs : List Char} {ls : List TextLine} {t : String} {c : Char}
    (hls : EachText (Opens cs) ls) (ht : (t.toList.dropWhile (· = ' ')).head? = some c)
    (hblank : ' ' ∉ cs) (hc : c ∉ cs) : (ls.map TextLine.shown).count t = 0 := by
  rw [List.count_eq_zero, List.mem_map]
  rintro ⟨l, hl, rfl⟩
  rw [l.dropWhile_shown] at ht
  cases htext : l.text.toList with
  | nil =>
    rw [htext] at ht
    cases ht
  | cons d ds =>
    have hd : d ∈ cs := hls l hl d (by rw [htext]; rfl)
    have hne : d ≠ ' ' := fun h => hblank (h ▸ hd)
    rw [htext, List.dropWhile_cons_of_neg (by simpa using hne)] at ht
    exact hc (Option.some.inj ht ▸ hd)

end LatteHlsl.Hlsl
