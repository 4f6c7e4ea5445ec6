import LatteHlsl.Proofs.Request
import LatteHlsl.Proofs.StatementText

/-!
# Reading the code of a shader

The assignments of a code are read off its lines, and what the code refers to is read off their two
sides: the elements of arrays, the textures that are sampled, the members of the output. In compiled
code these are what the statements of the source name.

* `codeAssignments`, `Listing.codeAssignments_text`: the assignments of a code.
* `Tree.elements`, `codeIndices`: the elements of arrays, and the indices into one array.
* `codeSamples`, `codeOutputs`: the samples and the outputs that are assigned.
* `Request.isReadable_of_compile`: compiled code can be read.
-/

namespace LatteHlsl

open Isa Hlsl Compile Grammar

/-! ## What a code refers to -/

namespace Grammar

/-- The elements of arrays in an expression, from left to right. -/
def Tree.elements : Tree → List (Tree × Tree)
  | .name _ | .number _ => []
  | .member a _ | .unary _ a | .cast _ a => a.elements
  | .binary _ a b | .call a b => a.elements ++ b.elements
  | .cond c a b => c.elements ++ a.elements ++ b.elements
  | .index a i => a.elements ++ (a, i) :: i.elements

/-- The index of an element of the array called `a`. -/
def indexIn? (a : String) (x : Tree × Tree) : Option Tree :=
  if x.1 = .name a then some x.2 else none

/-- The number that an index is, if it is a constant. -/
def Tree.constant? : Tree → Option Nat
  | .number n => decimal? n
  | _ => none

/-- The texture and the sampler of a sample. -/
def Tree.sample? : Tree → Option (String × Tree)
  | .call (.member (.name texture) method) args =>
    if method = "Sample" then args.arguments.head?.map fun sampler => (texture, sampler) else none
  | _ => none

/-- The member of the output that an expression on the left of an assignment is, or some of whose
components it is. -/
def Tree.output? : Tree → Option String
  | .member (.name v) m | .member (.member (.name v) m) _ => if v = "output" then some m else none
  | _ => none

/-- The assignments of a code. -/
def codeAssignments (code : String) : List (Tree × Tree) := (codeLines code).filterMap sides?

/-- The elements of arrays in an assignment. -/
def elementsOf (p : Tree × Tree) : List (Tree × Tree) := p.1.elements ++ p.2.elements

/-- The indices into the array called `a` in a code. -/
def codeIndices (code a : String) : List Tree :=
  (codeAssignments code).flatMap fun p => (elementsOf p).filterMap (indexIn? a)

/-- The samples in a code. -/
def codeSamples (code : String) : List (String × Tree) :=
  (codeAssignments code).filterMap fun p => p.2.sample?

/-- The members of the output that a code assigns. -/
def codeOutputs (code : String) : List String :=
  (codeAssignments code).filterMap fun p => p.1.output?

end Grammar

/-! ## The lines of a source -/

namespace Hlsl

/-- Lines without an equals sign are no assignments. -/
theorem filterMap_sides?_eq_nil {ls : List TextLine} (h : EachText (fun t => '=' ∉ t.toList) ls) :
    (ls.map TextLine.shown).filterMap sides? = [] := by
  rw [List.filterMap_map, List.filterMap_eq_nil_iff]
  intro l hl
  obtain ⟨n, hn⟩ := l.shown_eq
  refine sides?_eq_none ?_
  rw [hn]
  simpa using h l hl

theorem sides?_line {l : Line} (h : ∀ s ∈ l.stmt?, s.IsReadable) (depth : Nat) :
    Grammar.sides? (TextLine.mk depth l.text).shown = l.stmt?.bind Stmt.sides? := by
  cases l with
  | stmt s => exact s.sides?_shown (h s rfl) depth
  | controlNote pc op =>
    have hname : '=' ∉ op.name.toList := not_mem_opcodeName (by decide) op
    obtain ⟨n, hn⟩ := (TextLine.mk depth (Line.controlNote pc op).text).shown_eq
    refine sides?_eq_none ?_
    rw [hn]
    simp [Line.text, hname]
  | groupNote pc =>
    obtain ⟨n, hn⟩ := (TextLine.mk depth (Line.groupNote pc).text).shown_eq
    refine sides?_eq_none ?_
    rw [hn]
    simp [Line.text]

/-- The assignments of a body are its statements. -/
theorem filterMap_sides?_bodyLines {body : List Line}
    (h : ∀ s ∈ body.filterMap Line.stmt?, s.IsReadable) :
    ((bodyLines body).map TextLine.shown).filterMap sides? =
      (body.filterMap Line.stmt?).filterMap Stmt.sides? := by
  rw [bodyLines, TextLine.atDepth, List.map_map, List.map_map, List.filterMap_map,
    List.filterMap_filterMap]
  refine List.filterMap_congr fun l hl => ?_
  exact sides?_line (fun s hs => h s (List.mem_filterMap.mpr ⟨l, hl, hs⟩)) 1

/-- The assignments of lines that are printed on their own. -/
theorem codeAssignments_linesText {ls : List Line}
    (h : ∀ s ∈ ls.filterMap Line.stmt?, s.IsReadable) :
    codeAssignments (Output.linesText ls) = (ls.filterMap Line.stmt?).filterMap Stmt.sides? := by
  have hsingle : SingleLines (bodyLines ls) := by simp [bodyLines]
  have hend : sides? "" = none := rfl
  have htext : Output.linesText ls = TextLine.renderAll (bodyLines ls) := rfl
  rw [codeAssignments, htext, codeLines_renderAll hsingle, List.filterMap_append,
    filterMap_sides?_bodyLines h, List.filterMap_cons_none hend, List.filterMap_nil,
    List.append_nil]

theorem filterMap_sides?_preloads {as : List Assignment}
    (h : ∀ a ∈ as, (Stmt.assign a).IsReadable) :
    ((TextLine.atDepth 1 (as.map Assignment.text)).map TextLine.shown).filterMap sides? =
      (as.map Stmt.assign).filterMap Stmt.sides? := by
  rw [TextLine.atDepth, List.map_map, List.map_map, List.filterMap_map, List.filterMap_map]
  refine List.filterMap_congr fun a ha => ?_
  have hsides := (Stmt.assign a).sides?_shown (h a ha) 1
  unfold Stmt.text at hsides
  exact hsides

/-- A register is cleared before an entry point fills any. -/
def clearing : Tree × Tree := (.index (.name "R") (.name "i"), .number "0")

namespace FuncDecl

/-- What an entry point assigns before its statements. -/
def clears (f : FuncDecl) : List (Tree × Tree) :=
  match f.signature with
  | .callee _ => []
  | .entry _ => [clearing]

theorem filterMap_sides?_preamble {f : FuncDecl} (hf : f.IsPrinted)
    (h : ∀ a ∈ f.preloads, (Stmt.assign a).IsReadable) :
    (f.preamble.map TextLine.shown).filterMap sides? =
      f.clears ++ (f.preloads.map Stmt.assign).filterMap Stmt.sides? := by
  have hbrace : ((TextLine.atDepth 0 ["\x7b"]).map TextLine.shown).filterMap sides? = [] := by
    decide
  have hlocal : (localLines.map TextLine.shown).filterMap sides? = [] := by decide
  have hregister : (registerLines.map TextLine.shown).filterMap sides? = [clearing] := by decide
  have houtput : ∀ stage, ((TextLine.atDepth 1
      [s!"{(StructName.outputOf stage).text} output = ({(StructName.outputOf stage).text})0;"]).map
        TextLine.shown).filterMap sides? = [] := by
    intro stage
    cases stage <;> decide
  unfold preamble clears
  cases hsignature : f.signature with
  | callee stage =>
    rw [List.map_append, List.filterMap_append, hbrace, hlocal, hf stage hsignature]
    rfl
  | entry stage =>
    simp only [List.map_append, List.filterMap_append, hbrace, hlocal, hregister, houtput stage,
      filterMap_sides?_preloads h, List.nil_append, List.append_nil]

theorem filterMap_sides?_lines {f : FuncDecl} (hf : f.IsPrinted) (h : ∀ s ∈ f.stmts, s.IsReadable) :
    (f.lines.map TextLine.shown).filterMap sides? = f.clears ++ f.stmts.filterMap Stmt.sides? := by
  obtain ⟨hpreloads, hbody⟩ := List.forall_mem_append.mp h
  have hsignature : ((TextLine.atDepth 0 [f.signature.text]).map TextLine.shown).filterMap sides? =
      [] := filterMap_sides?_eq_nil (by simp)
  have hclosing : (f.closing.map TextLine.shown).filterMap sides? = [] := by
    unfold closing
    cases f.signature <;> exact filterMap_sides?_eq_nil (by simp)
  rw [lines_eq]
  simp only [List.map_append, List.filterMap_append, hsignature, hclosing,
    filterMap_sides?_bodyLines hbody, List.nil_append, List.append_nil]
  rw [filterMap_sides?_preamble hf (List.forall_mem_map.mp hpreloads), stmts, List.filterMap_append,
    List.append_assoc]

end FuncDecl

namespace Listing

/-- The statements of a source can be read in its text. -/
structure IsReadable (m : Listing) : Prop where
  printed : ∀ f ∈ m.functions, f.IsPrinted
  stmts : ∀ s ∈ m.stmts, s.IsReadable

theorem stmts_eq (m : Listing) : m.stmts = m.functions.flatMap FuncDecl.stmts := by
  unfold stmts functions
  cases m.fetch <;> simp

/-- The assignments of the text of a source are its statements, behind what its functions clear. -/
theorem codeAssignments_text {m : Listing} (h : m.IsReadable) :
    codeAssignments m.text =
      m.functions.flatMap fun f => f.clears ++ f.stmts.filterMap Stmt.sides? := by
  have hstage : '=' ∉ m.stage.name.toList := by cases m.stage <;> simp [Stage.name]
  have hheader : ((TextLine.atDepth 0 [s!"// Latte {m.stage.name} shader", ""]).map
      TextLine.shown).filterMap sides? = [] := filterMap_sides?_eq_nil (by simp [hstage])
  have hdecls : (m.declLines.map TextLine.shown).filterMap sides? = [] := by
    have hstructs : EachText (fun t => '=' ∉ t.toList) (m.structs.flatMap StructDecl.lines) :=
      .flatMap fun d => by simp [StructDecl.lines, TextLine.block]
    refine filterMap_sides?_eq_nil ?_
    unfold declLines
    split <;> simp [hstructs]
  have hlines : ∀ f ∈ m.functions, (f.lines.map TextLine.shown).filterMap sides? =
      f.clears ++ f.stmts.filterMap Stmt.sides? := by
    intro f hf
    refine f.filterMap_sides?_lines (h.printed f hf) fun s hs => h.stmts s ?_
    rw [stmts_eq]
    exact List.mem_flatMap.mpr ⟨f, hf, hs⟩
  have hend : sides? "" = none := rfl
  rw [codeAssignments, codeLines_text, lines_eq]
  simp only [List.map_append, List.filterMap_append, hheader, hdecls, List.nil_append,
    List.filterMap_cons_none hend, List.filterMap_nil, List.append_nil]
  rw [hlines m.main (by simp [functions])]
  unfold functions at hlines ⊢
  unfold fetchLines
  cases hfetch : m.fetch with
  | none => simp
  | some f =>
    have hblank : ((TextLine.atDepth 0 [""]).map TextLine.shown).filterMap sides? = [] := by decide
    have hf := hlines f (by simp [hfetch])
    simp [hf, hblank]

/-- What is read off the assignments one by one, and is not in those that clear, is read off the
statements. -/
theorem flatMap_codeAssignments {m : Listing} (h : m.IsReadable) {α : Type}
    {read : Tree × Tree → List α} (hread : read clearing = []) :
    (codeAssignments m.text).flatMap read = m.stmts.flatMap fun s => s.sides?.elim [] read := by
  have hclears : ∀ f : FuncDecl, f.clears.flatMap read = [] := by
    intro f
    unfold FuncDecl.clears
    cases f.signature <;> simp [hread]
  have hstmts : ∀ ss : List Stmt, (ss.filterMap Stmt.sides?).flatMap read =
      ss.flatMap fun s => s.sides?.elim [] read := by
    intro ss
    induction ss with
    | nil => rfl
    | cons s ss ih => cases hs : s.sides? <;> simp [hs, ih]
  rw [codeAssignments_text h, stmts_eq]
  simp only [List.flatMap_assoc, List.flatMap_append, hclears, hstmts, List.nil_append]

theorem filterMap_codeAssignments {m : Listing} (h : m.IsReadable) {α : Type}
    {read : Tree × Tree → Option α} (hread : read clearing = none) :
    (codeAssignments m.text).filterMap read = m.stmts.filterMap fun s => s.sides?.bind read := by
  rw [List.filterMap_eq_flatMap_toList, flatMap_codeAssignments h (by rw [hread]; rfl),
    List.filterMap_eq_flatMap_toList]
  refine congrArg (List.flatMap · m.stmts) (funext fun s => ?_)
  cases s.sides? <;> rfl

end Listing

/-! ## The elements of arrays in statements -/

theorem Index.elements_tree (k : Index) : k.tree.elements = [] := by
  have hadd : ∀ (xs : List IndexReg) (t : Tree), t.elements = [] →
      (xs.foldl (fun t x => .binary .plus t x.tree) t : Tree).elements = [] := by
    intro xs
    induction xs with
    | nil => exact fun t ht => ht
    | cons x xs ih =>
      intro t ht
      refine ih _ ?_
      rw [Tree.elements, ht]
      cases x <;> rfl
  exact hadd k.offsets _ rfl

/-- The number of a constant index. -/
def Index.const? (k : Index) : Option Nat := if k.isStatic then some k.base else none

theorem Index.base_of_const? {k : Index} {n : Nat} (h : k.const? = some n) : k.base = n := by
  unfold Index.const? at h
  split at h <;> cases h
  rfl

theorem Index.constant?_tree (k : Index) : k.tree.constant? = k.const? := by
  have hadd : ∀ (xs : List IndexReg) (t : Tree), xs ≠ [] →
      (xs.foldl (fun t x => .binary .plus t x.tree) t : Tree).constant? = none := by
    intro xs
    induction xs with
    | nil => exact fun t hne => absurd rfl hne
    | cons x xs ih =>
      intro t _
      cases xs with
      | nil => rfl
      | cons y ys => exact ih _ (List.cons_ne_nil y ys)
  unfold const? isStatic
  cases hoffsets : k.offsets with
  | nil =>
    rw [tree, hoffsets]
    exact decimal?_toString k.base
  | cons x xs =>
    rw [tree, hoffsets, hadd _ _ (List.cons_ne_nil x xs)]
    rfl

/-- The element of an array that an atom is. -/
def Atom.element? : Atom → Option (String × Index)
  | .gpr k _ => some ("R", k)
  | .uniform b k _ => some (s!"CB{b.val}", k)
  | .cfile k _ => some ("C", k)
  | _ => none

/-- An array and an index into it, as an expression has them. -/
def elementTree (x : String × Index) : Tree × Tree := (.name x.1, x.2.tree)

theorem Atom.elements_tree (a : Atom) : a.tree.elements = (a.element?.map elementTree).toList := by
  cases a with
  | gpr k c | uniform b k c | cfile k c =>
    simp [tree, memberOf, Tree.elements, k.elements_tree, element?, elementTree]
  | _ => rfl

theorem elements_callOf (f : String) (t : Tree) : (callOf f t).elements = t.elements := rfl

theorem elements_argumentsTree (ts : List Tree) :
    (argumentsTree ts).elements = ts.flatMap Tree.elements := by
  have hcommas : ∀ (ts : List Tree) (t : Tree),
      (ts.foldl (.binary .comma) t : Tree).elements = t.elements ++ ts.flatMap Tree.elements := by
    intro ts
    induction ts with
    | nil => intro t; simp
    | cons u ts ih =>
      intro t
      rw [List.foldl_cons, ih, List.flatMap_cons, Tree.elements, List.append_assoc]
  cases ts with
  | nil => rfl
  | cons t ts => exact hcommas ts t

theorem Source.elements_tree (s : Source) : s.tree.elements = s.atom.tree.elements := by
  unfold tree modifiedTree
  cases s.abs <;> cases s.neg <;> cases s.view <;> rfl

/-- The elements in an operation are those of its operands. -/
theorem Arith.elements_tree (a : Arith) :
    a.tree.elements = a.operands.flatMap fun s => s.atom.tree.elements := by
  have hvector : ∀ ss : List Source, (vectorTree (ss.map Source.tree)).elements =
      ss.flatMap fun s => s.atom.tree.elements := by
    intro ss
    rw [vectorTree, elements_callOf, elements_argumentsTree, List.flatMap_map]
    exact congrArg (List.flatMap · ss) (funext Source.elements_tree)
  cases a <;>
    simp [tree, maxTree, operands, elements_callOf, elements_argumentsTree, Tree.elements,
      Source.elements_tree, hvector]

theorem Result.elements_tree (x : Result) :
    x.tree.elements = x.value.operands.flatMap fun s => s.atom.tree.elements := by
  have hscale : ∀ omod, (scaleTree x.value.tree omod).elements = x.value.tree.elements := by
    intro omod
    cases omod <;> simp [scaleTree, Tree.elements]
  rw [← Arith.elements_tree]
  unfold tree
  cases x.finish with
  | reinterpret => rfl
  | float omod clamp => cases clamp <;> exact hscale omod

theorem Sample.elements_tree (s : Sample) : s.tree.elements = [] := by
  have hint : ∀ n, (intTree n).elements = [] := by
    intro n
    cases n <;> rfl
  have hoffset : ∀ t ∈ offsetTree? s.offsets, t.elements = [] := by
    intro t ht
    unfold offsetTree? at ht
    split at ht
    · cases ht
    · cases ht
      exact hint _
    · cases ht
      rw [elements_callOf, elements_argumentsTree, List.flatMap_map]
      exact List.flatMap_eq_nil_iff.mpr fun n _ => hint n
  rw [tree, Tree.elements, elements_argumentsTree]
  cases h : offsetTree? s.offsets with
  | none => rfl
  | some t => simp [Tree.elements, hoffset t h]

/-- The elements in the two sides of a statement. -/
def Stmt.elements (s : Stmt) : List (Tree × Tree) := s.sides?.elim [] elementsOf

theorem Stmt.elements_of_sources {s : Stmt} (h : ∀ a, s ≠ .assign a) (hw : ∀ w, s ≠ .regWrite w) :
    s.elements = s.sources.flatMap fun x => x.atom.tree.elements := by
  cases s with
  | assign a => exact absurd rfl (h a)
  | regWrite w => exact absurd rfl (hw w)
  | lane out x =>
    have hout : out.tree.elements = [] := by cases out <;> rfl
    simp [elements, sides?, elementsOf, hout, x.elements_tree, sources]
  | reduction x => simp [elements, sides?, elementsOf, Tree.elements, x.elements_tree, sources]
  | address c x =>
    simp [elements, sides?, elementsOf, memberOf, addressTree, elements_callOf,
      elements_argumentsTree, Tree.elements, x.elements_tree, sources]
  | sample x => simp [elements, sides?, elementsOf, Tree.elements, x.elements_tree, sources]
  | latchVector | latchScalar | fetchCall | ret => rfl

theorem Stmt.elements_regWrite (w : RegWrite) :
    (Stmt.regWrite w).elements = [elementTree ("R", w.index)] := by
  have hvalue : w.value.tree.elements = [] := by cases w.value <;> rfl
  simp [elements, sides?, elementsOf, registerTree, memberOf, Tree.elements, Index.elements_tree,
    hvalue, elementTree]

/-- The element that a variable is. -/
def Place.element? : Place → Option (String × Index)
  | .gpr k => some ("R", k)
  | _ => none

theorem Place.elements_tree (p : Place) :
    p.tree.elements = (p.element?.map elementTree).toList := by
  cases p with
  | gpr k => simp [tree, Tree.elements, k.elements_tree, element?, elementTree]
  | _ => rfl

/-- Whether the right side of an assignment names its source. -/
def Value.readsSource : Value → Bool
  | .scalar c => c.chan?.isSome
  | .whole | .swizzle _ => true
  | .vector cs => cs.any fun c => c.chan?.isSome

theorem Component.elements_tree (c : Component) (t : Tree) :
    (c.tree t).elements = if c.chan?.isSome then t.elements else [] := by
  cases c <;> rfl

theorem Value.mem_elements_tree {v : Value} {t : Tree} {x : Tree × Tree} :
    x ∈ (v.tree t).elements ↔ v.readsSource = true ∧ x ∈ t.elements := by
  cases v with
  | scalar c =>
    rw [tree, c.elements_tree, readsSource]
    split <;> simp [*]
  | whole => simp [tree, readsSource]
  | swizzle cs => simp [tree, readsSource, Tree.elements]
  | vector cs =>
    rw [tree, elements_callOf, elements_argumentsTree, readsSource, List.any_eq_true]
    simp only [List.flatMap_map, List.mem_flatMap, Component.elements_tree]
    constructor
    · rintro ⟨c, hc, hx⟩
      split at hx
      · exact ⟨⟨c, hc, ‹_›⟩, hx⟩
      · cases hx
    · rintro ⟨⟨c, hc, hchan⟩, hx⟩
      exact ⟨c, hc, by rwa [if_pos hchan]⟩

theorem elements_targetTree (t : Tree) (cs : List Chan) :
    (targetTree t cs).elements = t.elements := by
  unfold targetTree
  split <;> rfl

theorem Stmt.mem_elements_assign {a : Assignment} {x : Tree × Tree} :
    x ∈ (Stmt.assign a).elements ↔
      x ∈ a.target.tree.elements ∨ a.value.readsSource = true ∧ x ∈ a.source.tree.elements := by
  simp [elements, sides?, elementsOf, elements_targetTree, Value.mem_elements_tree]

/-! ## Constants -/

/-- The index of an atom that is an element of the array called `a`. -/
def Atom.indexIn? (a : String) (atom : Atom) : Option Index :=
  atom.element?.bind fun x => if x.1 = a then some x.2 else none

theorem indexIn?_elementTree (a : String) (x : String × Index) :
    Grammar.indexIn? a (elementTree x) = if x.1 = a then some x.2.tree else none := by
  simp [Grammar.indexIn?, elementTree]

/-- The indices into an array of constants in a statement are those of its operands. -/
theorem Stmt.filterMap_indexIn? {a : String} (ha : "R" ≠ a) (s : Stmt) :
    s.elements.filterMap (Grammar.indexIn? a) =
      (s.sources.filterMap fun x => x.atom.indexIn? a).map Index.tree := by
  have hregister : ∀ k, Grammar.indexIn? a (elementTree ("R", k)) = none := by
    intro k
    rw [indexIn?_elementTree, if_neg ha]
  have hplace : ∀ (p : Place), ∀ x ∈ p.tree.elements, Grammar.indexIn? a x = none := by
    intro p x hx
    cases p with
    | gpr k =>
      rw [Place.elements_tree] at hx
      obtain rfl := List.mem_singleton.mp hx
      exact hregister k
    | _ => cases hx
  by_cases hassign : ∃ b, s = .assign b
  · obtain ⟨b, rfl⟩ := hassign
    refine List.filterMap_eq_nil_iff.mpr fun x hx => ?_
    rcases mem_elements_assign.mp hx with hx | ⟨-, hx⟩
    · exact hplace _ x hx
    · exact hplace _ x hx
  by_cases hwrite : ∃ w, s = .regWrite w
  · obtain ⟨w, rfl⟩ := hwrite
    rw [elements_regWrite, List.filterMap_cons_none (hregister _)]
    rfl
  · rw [elements_of_sources (fun b hb => hassign ⟨b, hb⟩) fun w hw => hwrite ⟨w, hw⟩]
    induction s.sources with
    | nil => rfl
    | cons x xs ih =>
      rw [List.flatMap_cons, List.filterMap_append, ih, Atom.elements_tree]
      cases hx : x.atom.element? with
      | none => simp [Atom.indexIn?, hx]
      | some y =>
        by_cases hy : y.1 = a <;> simp [Atom.indexIn?, hx, indexIn?_elementTree, hy]

/-- The indices into an array of constants in the text of a source. -/
theorem Listing.codeIndices_text {m : Listing} (h : m.IsReadable) {a : String} (ha : "R" ≠ a) :
    codeIndices m.text a =
      ((m.stmts.flatMap Stmt.sources).filterMap fun x => x.atom.indexIn? a).map Index.tree := by
  have hclear : (elementsOf clearing).filterMap (Grammar.indexIn? a) = [] := by
    simp [elementsOf, clearing, Tree.elements, Grammar.indexIn?, ha]
  rw [codeIndices, flatMap_codeAssignments h hclear, List.filterMap_flatMap, List.map_flatMap]
  refine congrArg (List.flatMap · m.stmts) (funext fun s => ?_)
  rw [← s.filterMap_indexIn? ha]
  unfold Stmt.elements
  cases s.sides? <;> rfl

/-! ## Samples -/

/-- The texture and the sampler that a statement names. -/
def Stmt.sample? : Stmt → Option (String × Tree)
  | .sample x => some (s!"texture{x.texture.val}", .name s!"sampler{x.sampler.val}")
  | _ => none

theorem Result.sample?_tree (x : Result) : x.tree.sample? = none := by
  have hatom : ∀ a : Atom, a.tree.sample? = none := by
    intro a
    cases a <;> rfl
  have hsource : ∀ s : Source, s.tree.sample? = none := by
    intro s
    unfold Source.tree modifiedTree
    cases s.abs <;> cases s.neg <;> cases s.view <;> first | exact hatom s.atom | rfl
  have harith : x.value.tree.sample? = none := by
    cases x.value with
    | copy a => exact hsource a
    | _ => rfl
  unfold tree
  cases x.finish with
  | reinterpret => rfl
  | float omod clamp => cases clamp <;> cases omod <;> first | exact harith | rfl

theorem Value.sample?_tree (v : Value) (p : Place) : (v.tree p.tree).sample? = none := by
  cases v with
  | scalar c => cases c <;> rfl
  | whole => cases p <;> rfl
  | swizzle | vector => rfl

theorem Sample.sample?_tree (x : Sample) :
    x.tree.sample? = some (s!"texture{x.texture.val}", .name s!"sampler{x.sampler.val}") := by
  rw [tree, Tree.sample?, if_pos rfl, List.cons_append, argumentsTree, arguments_foldl]
  rfl

theorem Stmt.bind_sample? (s : Stmt) : (s.sides?.bind fun p => p.2.sample?) = s.sample? := by
  cases s with
  | lane out x => exact x.sample?_tree
  | assign a => exact a.value.sample?_tree a.source
  | sample x => exact x.sample?_tree
  | regWrite w =>
    cases hw : w.value <;> simp [sides?, hw, LaneOut.tree, memberOf, Tree.sample?, sample?]
  | _ => rfl

/-- The samples in the text of a source. -/
theorem Listing.codeSamples_text {m : Listing} (h : m.IsReadable) :
    codeSamples m.text = m.stmts.filterMap Stmt.sample? := by
  rw [codeSamples, filterMap_codeAssignments h rfl]
  exact congrArg (List.filterMap · m.stmts) (funext Stmt.bind_sample?)

end Hlsl

/-! ## Compiled code -/

namespace Compile

theorem isReadable_of_move {m : Move} {s : Stmt} (h : s ∈ (moveLines m).filterMap Line.stmt?) :
    s.IsReadable := by
  obtain ⟨a, ha, rfl⟩ := mem_stmts_moveLines.mp h
  rw [assignment?_eq] at ha
  split at ha
  · cases ha
  · rename_i hstores
    cases ha
    exact ⟨by simpa using hstores, _, Move.builds_stores hstores⟩

theorem sampleOf_eq_ok {dims : TextureDims} {i : TexInstr} {x : Sample}
    (h : sampleOf dims i = .ok x) :
    ∃ dim, dims[x.texture] = some dim ∧ x.coords = coordChans dim := by
  unfold sampleOf at h
  split at h
  · cases h
  · split at h
    · cases h
    · simp only [Checked.bind_eq_ok] at h
      obtain ⟨texture, -, sampler, -, h⟩ := h
      cases hdim : dims[texture] with
      | none =>
        simp only [hdim] at h
        cases h
      | some dim =>
        simp only [hdim, Checked.bind_eq_ok, Checked.pure_eq_ok] at h
        obtain ⟨offsets, -, rfl⟩ := h
        exact ⟨dim, hdim, rfl⟩

theorem Task.Adds.isReadable {c : Context} {o : Output} {t : Task} {p : Piece} {s : Stmt}
    (h : Task.Adds c o t p) (hs : s ∈ p.stmts) : s.IsReadable := by
  cases h with
  | call | ret =>
    obtain rfl := List.mem_singleton.mp hs
    trivial
  | group hls hp => exact isReadable_of_groupStmt ((groupShape_of_group hls hp).stmts s hs)
  | unused => cases hs
  | fetch | output => exact isReadable_of_move hs
  | @sample i x hx =>
    rw [Piece.stmts, List.filterMap_append, List.filterMap_append, List.mem_append,
      List.mem_append] at hs
    rcases hs with (hs | hs) | hs
    · exact isReadable_of_move hs
    · obtain rfl := List.mem_singleton.mp hs
      obtain ⟨dim, -, hcoords⟩ := sampleOf_eq_ok hx
      show x.coords ≠ []
      rw [hcoords]
      cases dim <;> decide
    · exact isReadable_of_move hs

namespace Request

theorem isReadable_of_mem_preloads {r : Request} {o : Options} {a : Assignment}
    (h : a ∈ r.preloads o) : (Stmt.assign a).IsReadable := by
  unfold preloads at h
  split at h
  · cases h
  · unfold pixelPreloads at h
    split at h
    · obtain ⟨n, -, rfl⟩ := List.mem_map.mp h
      exact ⟨List.cons_ne_nil _ _, _, .whole⟩
    · cases h

/-- The code of a shader can be read. -/
theorem isReadable_of_compile {r : Request} {o : Options} {shader : Shader}
    (h : r.compile o = .ok shader) : shader.source.IsReadable := by
  obtain ⟨_, _, -, -, hshader⟩ := r.runs_of_compile h
  refine ⟨hshader.printed, fun s hs => ?_⟩
  rcases exists_adds h hs with ⟨a, ha, rfl⟩ | ⟨t, -, o₁, p, hp, hsp⟩
  · exact isReadable_of_mem_preloads ha
  · exact hp.isReadable hsp

end Request

end Compile

end LatteHlsl
