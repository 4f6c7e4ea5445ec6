import LatteHlsl.Proofs.Bindings
import LatteHlsl.Proofs.Lockstep
import LatteHlsl.Proofs.SourceText

/-!
# Comments

Whether comments are written makes no difference but for the comments. The two compilations of a
program go in lockstep: the outputs of one are those of the other without its comments. In the text
of a shader the comments can be told from all other lines, so they can be removed there as well.

* `Output.quiet`, `Listing.quiet`, `Shader.quiet`: without the comments.
* `lockstep_handlers_quiet`, `compile_quiet`: compilation without comments.
* `withoutNotes`, `Listing.withoutNotes_text`: the text without the comments.
-/

namespace LatteHlsl

open Isa Hlsl Effect

/-! ## Leaving out comments -/

/-- Whether a line is a comment. -/
def Hlsl.Line.isNote : Line → Bool
  | .stmt _ => false
  | .controlNote _ _ | .groupNote _ => true

namespace Compile

/-- The output without its comments. -/
def Output.quiet (o : Output) : Output := { o with body := o.body.filter fun l => !l.isNote }

theorem Output.quiet_emit (o : Output) (s : Stmt) :
    ({ o with body := o.body.push (.stmt s) } : Output).quiet =
      { o.quiet with body := o.quiet.body.push (.stmt s) } := by
  simp [quiet, Line.isNote]

theorem Output.quiet_note (o : Output) {l : Line} (h : l.isNote = true) :
    ({ o with body := o.body.push l } : Output).quiet = o.quiet := by
  simp [quiet, h]

/-! ## Actions that write no comments -/

/-- Two outputs of which the second has no comments. -/
def Quieter (o o' : Output) : Prop := o' = o.quiet

theorem lockstep_emit (s : Stmt) : Lockstep (fun _ => False) Quieter (emit s) (emit s) :=
  .modify fun o o' (h : o' = o.quiet) => by rw [h]; exact (o.quiet_emit s).symm

theorem lockstep_emitMove (m : Move) :
    Lockstep (fun _ => False) Quieter (emitMove m) (emitMove m) := by
  unfold emitMove
  split
  · exact lockstep_emit _
  · exact .pure ()

theorem lockstep_exportSlot (kind : ExportKind) (target : Word) :
    Lockstep (fun _ => False) Quieter (exportSlot kind target) (exportSlot kind target) := by
  rintro o o' rfl
  exact .ok rfl

theorem lockstep_endGroup (w : Walk) (cf : CfInstr) (g : AluGroup) :
    Lockstep (fun _ => False) Quieter (endGroup w cf g) (endGroup w cf g) := by
  refine .get_bind fun o o' h => ?_
  obtain rfl : o' = o.quiet := h
  refine .bind (.set rfl) fun _ => ?_
  refine .bind (.forM _ fun write => lockstep_emit _) fun _ => ?_
  exact .bind (lockstep_emit _) fun _ => lockstep_emit _

/-! ## Handlers -/

/-- The context with comments switched on or off. -/
def Context.withComments (c : Context) (comments : Bool) : Context :=
  { c with comments := comments }

section

variable (c : Context)

/-- A comment that is written on one side only. -/
theorem lockstep_note {l : Line} (h : l.isNote = true) :
    Lockstep (fun _ => False) Quieter (note (c.withComments true) l)
      (note (c.withComments false) l) := by
  rintro o o' rfl
  exact .ok (o.quiet_note h).symm

/-- Handlers of the same walk. -/
theorem actLockstep_of_forall {σ τ : Type} {exempt : Halt → Prop} {R : σ → τ → Prop}
    {f : Walk → Effect σ Unit} {g : Walk → Effect τ Unit} (h : ∀ w, Lockstep exempt R (f w) (g w)) :
    ActLockstep exempt Eq R f g := by
  intro w w' hw
  rw [hw.eq]
  exact h w

theorem emitClosed_quieter :
    EmitClosed (c.withComments true) (c.withComments false) fun _ =>
      Lockstep (fun _ => False) Quieter where
  context := rfl
  pure := .pure
  fail := .fail
  bind := .bind
  emit := lockstep_emit
  note _ _ := lockstep_note c rfl
  record _ := .modify fun o o' (h : o' = o.quiet) => by rw [h]; rfl
  defer _ := .modify fun o o' (h : o' = o.quiet) => by rw [h]; rfl
  addInput _ := .modify fun o o' (h : o' = o.quiet) => by rw [h]; rfl
  store kind target _ := .bind (lockstep_exportSlot kind target) fun _ => lockstep_emitMove _

/-- The handlers that write comments and those that do not. -/
theorem lockstep_handlers_quiet :
    (handlers (c.withComments true)).Lockstep (fun _ => False) Eq Quieter
      (handlers (c.withComments false)) where
  call := (emitClosed_quieter c).handlersMatch
  beginGroup _ _ := actLockstep_of_forall fun w =>
    .bind (.modify fun o o' (h : o' = o.quiet) => by rw [h]; rfl) fun _ => lockstep_note c rfl
  endGroup cf g := actLockstep_of_forall fun w => lockstep_endGroup w cf g

end

/-! ## Jobs -/

/-- The job as it is without comments. -/
def Job.quiet (j : Job) : Job where
  context := j.context.withComments false
  machine := { j.machine with out := j.output.quiet }

/-- A compilation without comments does what one with comments does, and its output is the one
without the comments. -/
theorem compile_quiet (c : Context) (p : Program) (stage : Stage) (isFunction : Bool) :
    (Job.start (c.withComments false) p stage isFunction).compile =
      (Job.start (c.withComments true) p stage isFunction).compile.map Job.quiet := by
  have hstart : Machine.Like Eq Quieter
      (Job.start (c.withComments true) p stage isFunction).machine
      (Job.start (c.withComments false) p stage isFunction).machine := ⟨⟨rfl, rfl⟩, rfl⟩
  have hmatch := matches_walkToEnd <|
    matches_walkProgram (lockstep_handlers_quiet c) (fun p p' hp => hp ▸ .refl p)
      (onlyFault_handlers _) (onlyFault_handlers _) hstart
      (.inl fun p p' hp => by rw [hp])
  unfold Job.compile
  rw [call_compile_eq, call_compile_eq]
  dsimp only [Job.start] at hmatch ⊢
  generalize walkToEnd (handlers (c.withComments true)) _ = r at hmatch ⊢
  generalize walkToEnd (handlers (c.withComments false)) _ = r' at hmatch ⊢
  cases hmatch with
  | @ok _ m m' hm =>
    have hm' : m' = { m with out := m.out.quiet } := by
      rw [← hm.walk.eq, ← show m'.out = m.out.quiet from hm.out]
    rw [hm']
    rfl
  | error => rfl
  | exempt hfalse => exact hfalse.elim

/-! ## Shaders -/

end Compile

/-- The function without comments. -/
def Hlsl.FuncDecl.quiet (f : FuncDecl) : FuncDecl :=
  { f with body := f.body.filter fun l => !l.isNote }

/-- The source without comments. -/
def Hlsl.Listing.quiet (m : Listing) : Listing :=
  { m with fetch := m.fetch.map FuncDecl.quiet, main := m.main.quiet }

namespace Compile

/-- The shader without comments. -/
def Shader.quiet (s : Shader) : Shader := { s with source := s.source.quiet }

theorem mainDecl_quiet (j : Job) : j.quiet.mainDecl = j.mainDecl.quiet := by
  unfold Job.mainDecl
  rw [show j.quiet.walk = j.walk from rfl]
  split <;> simp [FuncDecl.quiet, Job.quiet, Job.output, Output.quiet, Context.withComments]

theorem shader_quiet (j : Job) (f? : Option Job) :
    j.quiet.shader (f?.map Job.quiet) = (j.shader f?).quiet := by
  unfold Job.shader
  rw [mainDecl_quiet]
  cases f? with
  | none => rfl
  | some f => simp [Shader.quiet, Listing.quiet, FuncDecl.quiet, Job.quiet, Job.output, Job.walk,
      Output.quiet, Context.withComments]

theorem finishWith_quiet (j : Job) (f? : Option Job) :
    j.quiet.finishWith (f?.map Job.quiet) = (j.finishWith f?).map Shader.quiet := by
  have hcomplete : (f?.map Job.quiet).all Job.isComplete = f?.all Job.isComplete := by
    cases f? <;> rfl
  unfold Job.finishWith
  rw [hcomplete, shader_quiet, show j.quiet.isComplete = j.isComplete from rfl]
  split <;> rfl

theorem Request.context_comments (r : Request) (o : Options) (b : Bool) :
    r.context { o with comments := b } = (r.context o).withComments b := by
  cases r <;> rfl

/-- Checks that are followed by checks, both with their values mapped. -/
theorem map_bind_eq {ε α α' β β' : Type} {f : α → α'} {k : β → β'} {g : α → Except ε β}
    {g' : α' → Except ε β'} (x : Except ε α) (h : ∀ a, g' (f a) = (g a).map k) :
    (x.map f >>= g') = (x >>= g).map k := by
  cases x with
  | error e => rfl
  | ok a => exact h a

theorem mapM_map_eq {ε α β β' : Type} {F : α → Except ε β} {F' : α → Except ε β'} {k : β → β'}
    (a? : Option α) (h : ∀ a, F' a = (F a).map k) :
    a?.mapM F' = (a?.mapM F).map (Option.map k) := by
  cases a? with
  | none => rfl
  | some a =>
    show some <$> F' a = Except.map (Option.map k) (some <$> F a)
    rw [h]
    cases F a <;> rfl

/-- A request that is compiled without comments gives the shader that it gives with comments,
without its comments. -/
theorem Request.compile_quiet (r : Request) (o : Options) :
    r.compile { o with comments := false } =
      (r.compile { o with comments := true }).map Shader.quiet := by
  rw [compile_eq, compile_eq, context_comments r o false, context_comments r o true,
    Compile.compile_quiet]
  refine map_bind_eq _ fun j => ?_
  rw [mapM_map_eq _ fun p => Compile.compile_quiet _ p .fetch true]
  refine map_bind_eq _ fun f? => ?_
  rw [finishWith_quiet]
  cases j.finishWith f? <;> rfl

end Compile

/-! ## The text without comments -/

namespace Hlsl

/-- Whether a line of a text is a comment about the program: what follows its indentation starts
like one. -/
def isNoteText (line : String) : Bool :=
  let rest := line.toList.dropWhile (· = ' ')
  "// CF ".toList.isPrefixOf rest || "// group ".toList.isPrefixOf rest

/-- A text without its lines that are comments about the program. -/
def withoutNotes (code : String) : String :=
  "\n".intercalate ((codeLines code).filter fun line => !isNoteText line)

example :
    withoutNotes "x = 0;\n    // CF 0 NOP\n    y = 1; // CF 1\n" =
      "x = 0;\n    y = 1; // CF 1\n" := by
  decide +kernel

/-- A line that does not start like a comment is none. -/
theorem isNoteText_of_opens {cs : List Char} {l : TextLine} (h : Opens cs l.text)
    (hcs : ∀ c ∈ cs, c ≠ ' ' ∧ c ≠ '/') : isNoteText l.shown = false := by
  unfold isNoteText
  rw [l.dropWhile_shown]
  cases ht : l.text.toList with
  | nil => rfl
  | cons c cs =>
    obtain ⟨hblank, hslash⟩ := hcs c (h c (by rw [ht]; rfl))
    simp [hblank, List.isPrefixOf, hslash.symm]

theorem isNoteText_line (l : Line) : isNoteText (TextLine.mk 1 l.text).shown = l.isNote := by
  cases l with
  | stmt s =>
    exact isNoteText_of_opens (.of_head? s.head?_text (List.mem_singleton_self _))
      (List.forall_mem_singleton.mpr s.initial_ne)
  | controlNote pc op =>
    unfold isNoteText
    rw [TextLine.dropWhile_shown]
    unfold Line.text
    simp [Line.isNote]
  | groupNote pc =>
    unfold isNoteText
    rw [TextLine.dropWhile_shown]
    unfold Line.text
    simp [Line.isNote]

/-! ## Sources -/

/-- Lines that are not comments about the program stay. -/
theorem filter_eq_self_of_notNote {ls : List TextLine} (h : ∀ l ∈ ls, isNoteText l.shown = false) :
    (ls.map TextLine.shown).filter (fun t => !isNoteText t) = ls.map TextLine.shown := by
  rw [List.filter_eq_self, List.forall_mem_map]
  intro l hl
  rw [h l hl]
  rfl

theorem filter_of_opens {cs : List Char} {ls : List TextLine} (h : EachText (Opens cs) ls)
    (hcs : ∀ c ∈ cs, c ≠ ' ' ∧ c ≠ '/') :
    (ls.map TextLine.shown).filter (fun t => !isNoteText t) = ls.map TextLine.shown :=
  filter_eq_self_of_notNote fun l hl => isNoteText_of_opens (h l hl) hcs

theorem plainInitials_notNote : ∀ c ∈ plainInitials, c ≠ ' ' ∧ c ≠ '/' := by
  simp [plainInitials]

theorem signature_notNote (s : Signature) :
    ∀ l ∈ TextLine.atDepth 0 [s.text], isNoteText l.shown = false := by
  refine List.forall_mem_singleton.mpr (isNoteText_of_opens s.opens ?_)
  exact List.forall_mem_cons.mpr ⟨by decide, plainInitials_notNote⟩

/-- Of a body its statements stay. -/
theorem filter_bodyLines (body : List Line) :
    ((bodyLines body).map TextLine.shown).filter (fun t => !isNoteText t) =
      (bodyLines (body.filter fun l => !l.isNote)).map TextLine.shown := by
  simp only [bodyLines, TextLine.atDepth, List.map_map, List.filter_map]
  congr 1
  refine List.filter_congr fun l _ => ?_
  simp [isNoteText_line]

theorem FuncDecl.filter_lines (f : FuncDecl) :
    (f.lines.map TextLine.shown).filter (fun t => !isNoteText t) =
      f.quiet.lines.map TextLine.shown := by
  rw [lines_eq, lines_eq, show f.quiet.preamble = f.preamble from rfl,
    show f.quiet.closing = f.closing from rfl]
  simp only [List.map_append, List.filter_append]
  rw [filter_eq_self_of_notNote (signature_notNote f.signature),
    filter_of_opens f.opens_preamble plainInitials_notNote,
    filter_of_opens f.opens_closing plainInitials_notNote, filter_bodyLines]
  rfl

theorem Listing.filter_fetchLines (m : Listing) :
    (m.fetchLines.map TextLine.shown).filter (fun t => !isNoteText t) =
      m.quiet.fetchLines.map TextLine.shown := by
  unfold fetchLines
  cases hfetch : m.fetch with
  | none => simp [quiet, hfetch]
  | some f =>
    have hblank : EachText (Opens plainInitials) (TextLine.atDepth 0 [""]) := by
      simp [opens_plain]
    simp only [quiet, hfetch, Option.map_some, Option.getD_some, List.map_append,
      List.filter_append]
    rw [f.filter_lines, filter_of_opens hblank plainInitials_notNote]

/-- The first line of a source is a comment of another kind. -/
theorem filter_headerLines (stage : Stage) :
    ((TextLine.atDepth 0 [s!"// Latte {stage.name} shader", ""]).map TextLine.shown).filter
        (fun t => !isNoteText t) =
      (TextLine.atDepth 0 [s!"// Latte {stage.name} shader", ""]).map TextLine.shown := by
  refine filter_eq_self_of_notNote ?_
  intro l hl
  unfold isNoteText
  rw [TextLine.dropWhile_shown]
  simp only [TextLine.atDepth, List.map_cons, List.map_nil, List.mem_cons, List.not_mem_nil,
    or_false] at hl
  rcases hl with rfl | rfl <;> simp [List.isPrefixOf]

/-- The text of a source without comments. -/
theorem Listing.withoutNotes_text (m : Listing) : withoutNotes m.text = m.quiet.text := by
  rw [← intercalate_codeLines m.quiet.text, withoutNotes]
  refine congrArg "\n".intercalate ?_
  rw [codeLines_text, codeLines_text, lines_eq, lines_eq]
  simp only [List.map_append, List.filter_append]
  rw [filter_headerLines, filter_of_opens m.opens_declLines plainInitials_notNote,
    filter_fetchLines, m.main.filter_lines]
  rfl

theorem Listing.quiet_quiet (m : Listing) : m.quiet.quiet = m.quiet := by
  have hfunc : ∀ f : FuncDecl, f.quiet.quiet = f.quiet := by
    intro f
    simp [FuncDecl.quiet]
  unfold quiet
  simp [hfunc, Function.comp_def]

end Hlsl

namespace Compile

/-- With and without comments, a request comes to the same halt or to shaders that differ in their
comments only: removing from the one text all lines that are comments about the program gives the
other one, which has none. Whether sources are logged does not matter at all. -/
theorem Request.compile_comments (r : Request) (o : Options) :
    (∀ log, r.compile { o with logSource := log } = r.compile o) ∧
      ((∃ halt, r.compile { o with comments := true } = .error halt ∧
          r.compile { o with comments := false } = .error halt) ∨
        ∃ loud quiet, r.compile { o with comments := true } = .ok loud ∧
          r.compile { o with comments := false } = .ok quiet ∧ quiet.stage = loud.stage ∧
          quiet.usage = loud.usage ∧ quiet.inputs = loud.inputs ∧ quiet.exports = loud.exports ∧
          quiet.callsFetch = loud.callsFetch ∧ withoutNotes loud.code = quiet.code ∧
          withoutNotes quiet.code = quiet.code) := by
  refine ⟨fun log => by cases r <;> rfl, ?_⟩
  have hquiet := r.compile_quiet o
  generalize r.compile { o with comments := true } = loud? at hquiet ⊢
  rw [hquiet]
  cases loud? with
  | error halt => exact .inl ⟨halt, rfl, rfl⟩
  | ok loud =>
    have hcode : withoutNotes loud.quiet.code = loud.quiet.source.quiet.text :=
      loud.quiet.source.withoutNotes_text
    rw [show loud.quiet.source = loud.source.quiet from rfl, Listing.quiet_quiet] at hcode
    exact .inr ⟨loud, loud.quiet, rfl, rfl, rfl, rfl, rfl, rfl, rfl,
      loud.source.withoutNotes_text, hcode⟩

end Compile

end LatteHlsl
