import LatteHlsl.Proofs.Assignments
import LatteHlsl.Proofs.LaneExpressions

/-!
# The text of statements

A body is text. Its statements are assignments, apart from calls and returns, and the text of each
of them is read as one, in one way: by its two sides. So what a statement refers to and what it does
can be read off its text.

* `Place.names`: the texts of places name variables.
* `Builds`, `builds_value`: the components that the right side of a move stands for.
* `Stmt.sides?`: the two sides of a statement.
* `Stmt.assigns`, `Stmt.sides?_shown`: the text of a statement is read so.
-/

namespace LatteHlsl.Hlsl

open Isa Grammar

/-! ## Numbers -/

/-- The value of a number in decimal digits. -/
def decimal? (n : String) : Option Nat :=
  if n.toList.all Char.isDigit then some (Nat.ofDigitChars 10 n.toList 0) else none

theorem decimal?_toString (n : Nat) : decimal? (toString n) = some n := by
  have hdigits : (Nat.toDigits 10 n).all Char.isDigit = true :=
    List.all_eq_true.mpr fun _ => Nat.isDigit_of_mem_toDigits (by decide) (by decide)
  rw [show toString n = n.repr from rfl, decimal?, Nat.toList_repr, if_pos hdigits,
    Nat.ofDigitChars_ten_toDigits]

/-! ## Variables -/

theorem isName_numbered (stem : String) (h : isName stem.toList = true) (n : Nat) :
    isName (stem ++ toString n).toList = true := by
  have hdigits : ∀ c ∈ (toString n).toList, isWordChar c = true := by
    intro c hc
    rw [show toString n = n.repr from rfl, Nat.toList_repr] at hc
    exact isWordChar_of_isDigit (Nat.isDigit_of_mem_toDigits (by decide) (by decide) hc)
  rw [String.toList_append]
  cases hstem : stem.toList with
  | nil => simp [hstem, isName] at h
  | cons d ds =>
    rw [hstem] at h
    simp only [isName, Bool.and_eq_true] at h
    simp only [List.cons_append, isName, List.all_append, Bool.and_eq_true]
    exact ⟨h.1, h.2, List.all_eq_true.mpr hdigits⟩

theorem isName_outputStem (kind : ExportKind) : isName (outputStem kind).toList = true := by
  cases kind <;> decide

def Place.tree : Place → Tree
  | .tmp => .name "tmp"
  | .gpr k => .index (.name "R") k.tree
  | .output kind slot => .member (.name "output") s!"{outputStem kind}{slot}"
  | .attr location => .member (.name "input") s!"attr{location}"
  | .param slot => .member (.name "input") s!"param{slot}"

/-- The text of a member of a structure. -/
theorem names_member {text s m : String} (hs : isName s.toList = true) (htype : isType s = false)
    (hm : isName m.toList = true) (htext : text.toList = s.toList ++ '.' :: m.toList) :
    Names text (.member (.name s) m) := by
  refine ⟨spells_iff_parses.mp ?_, rfl⟩
  rw [htext]
  exact .name_member hs htype hm

theorem Place.names (p : Place) : Names p.text p.tree := by
  cases p with
  | tmp => exact ⟨spells_iff_parses.mp (.name (by decide) (by decide)), rfl⟩
  | gpr k =>
    have h : Spells 13 ("R".toList ++ '[' :: k.text.toList ++ [']']) (.index (.name "R") k.tree) :=
      .index (.name (by decide) (by decide)) (k.spells.mono (Nat.zero_le 10))
    exact ⟨spells_iff_parses.mp (by simpa [text, tree] using h), rfl⟩
  | output kind slot =>
    have hm := isName_numbered _ (isName_outputStem kind) slot
    exact names_member (by decide) (by decide) (by simpa using hm) (by simp [text])
  | attr location =>
    have hm := isName_numbered "attr" (by decide) location
    exact names_member (by decide) (by decide) (by simpa using hm) (by simp [text])
  | param slot =>
    have hm := isName_numbered "param" (by decide) slot
    exact names_member (by decide) (by decide) (by simpa using hm) (by simp [text])

/-! ## Swizzles -/

theorem chanOf?_letter (c : Chan) : chanOf? c.letter = some c := by
  cases c <;> rfl

theorem mapM_chanOf?_letter (cs : List Chan) : (cs.map Chan.letter).mapM chanOf? = some cs := by
  induction cs with
  | nil => rfl
  | cons c cs ih => simp [chanOf?_letter, ih]

theorem swizzle?_swizzleText (cs : List Chan) : swizzle? (swizzleText cs) = some cs := by
  rw [swizzle?, swizzleText, String.toList_ofList]
  exact mapM_chanOf?_letter cs

theorem swizzleText_singleton (c : Chan) : swizzleText [c] = toString c.letter := by
  cases c <;> rfl

theorem isName_swizzleText {cs : List Chan} (h : cs ≠ []) :
    isName (swizzleText cs).toList = true := by
  have hword : ∀ c : Chan, isWordChar c.letter = true := by
    intro c
    cases c <;> decide
  have hdigit : ∀ c : Chan, c.letter.isDigit = false := by
    intro c
    cases c <;> decide
  cases cs with
  | nil => exact absurd rfl h
  | cons c cs => simp [swizzleText, isName, hword, hdigit]

/-- A swizzle of a variable. -/
theorem spells_swizzle {s : String} {t : Tree} {cs : List Chan} (hs : Names s t) (hcs : cs ≠ []) :
    Spells 13 (s!"{s}.{swizzleText cs}").toList (.member t (swizzleText cs)) := by
  simpa using hs.spells_member (isName_swizzleText hcs)

/-! ## Moves -/

def Component.tree (s : Tree) : Component → Tree
  | .chan c => memberOf s c
  | .zero => .number "0.0f"
  | .one => .number "1.0f"

def Value.tree (s : Tree) : Value → Tree
  | .scalar c => c.tree s
  | .whole => s
  | .swizzle cs => .member s (swizzleText cs)
  | .vector cs => callOf s!"float{cs.length}" (argumentsTree (cs.map (Component.tree s)))

/-- The right side of an assignment has the components. -/
inductive Builds : Value → List Component → Prop where
  | scalar (c : Component) : Builds (.scalar c) [c]
  | whole : Builds .whole (Chan.all.map .chan)
  | swizzle {cs : List Chan} (hne : cs ≠ []) : Builds (.swizzle cs) (cs.map .chan)
  | vector {cs : List Component} (hne : cs ≠ []) (hlength : cs.length ≤ 4) : Builds (.vector cs) cs

/-- Components that are all channels are given back by these. -/
theorem map_filterMap_chan? {cs : List Component} (h : ∀ c ∈ cs, c.chan?.isSome = true) :
    (cs.filterMap Component.chan?).map .chan = cs := by
  induction cs with
  | nil => rfl
  | cons c cs ih =>
    obtain ⟨hc, hcs⟩ := List.forall_mem_cons.mp h
    cases c with
    | chan d => simp [Component.chan?, ih hcs]
    | zero => cases hc
    | one => cases hc

theorem builds_value {cs : List Component} (hne : cs ≠ []) (hlength : cs.length ≤ 4) :
    Builds (Move.value cs) cs := by
  unfold Move.value
  split
  · exact .scalar _
  · dsimp only
    split
    · rename_i hpicked
      have hle := List.length_filterMap_le Component.chan? cs
      rw [hpicked] at hle
      have hall := List.filterMap_length_eq_length.mp
        (show (cs.filterMap Component.chan?).length = cs.length by
          rw [hpicked]; exact Nat.le_antisymm hle hlength)
      have hcs := map_filterMap_chan? hall
      rw [hpicked] at hcs
      exact hcs ▸ .whole
    · split
      · rename_i hall
        have hcs := map_filterMap_chan? (List.all_eq_true.mp hall)
        have hbuilds : Builds _ ((cs.filterMap Component.chan?).map .chan) := .swizzle (by
          intro hnil
          rw [hnil] at hcs
          exact hne hcs.symm)
        rwa [hcs] at hbuilds
      · exact .vector hne hlength

theorem Component.spells {s : String} {t : Tree} (hs : Names s t) (c : Component) :
    Spells 13 (c.text s).toList (c.tree t) := by
  cases c with
  | chan c => simpa [text, tree, memberOf] using hs.spells_member (isName_letter c)
  | zero => exact Spells.number (s := "0.0f") (by decide)
  | one => exact Spells.number (s := "1.0f") (by decide)

theorem spells_vector {s : String} {t : Tree} (hs : Names s t) {cs : List Component}
    (hne : cs ≠ []) :
    Spells 13 ((Value.vector cs).text s).toList ((Value.vector cs).tree t) := by
  have hall : ∀ c ∈ cs, Spells 1 (c.text s).toList (c.tree t) :=
    fun c _ => (c.spells hs).mono (by omega)
  have hcall := spells_callOf (isName_numbered "float" (by decide) cs.length)
    (spells_arguments hne hall)
  simpa [Value.text, Value.tree] using hcall

namespace Builds

variable {v : Value} {cs : List Component}

theorem spells (h : Builds v cs) {s : String} {t : Tree} (hs : Names s t) :
    Spells 13 (v.text s).toList (v.tree t) := by
  cases h with
  | scalar c => exact c.spells hs
  | whole => exact hs.spells
  | swizzle hne => exact spells_swizzle hs hne
  | vector hne _ => exact spells_vector hs hne

end Builds

def targetTree (t : Tree) (cs : List Chan) : Tree :=
  if cs = Chan.all then t else .member t (swizzleText cs)

theorem spells_target {s : String} {t : Tree} {cs : List Chan} (hs : Names s t) (hcs : cs ≠ []) :
    Spells 13 (if cs = Chan.all then s else s!"{s}.{swizzleText cs}").toList (targetTree t cs) := by
  unfold targetTree
  split
  · exact hs.spells
  · exact spells_swizzle hs hcs

namespace Move

variable {m : Move}

theorem map_fst_stores (m : Move) :
    m.stores.map Prod.fst = Chan.all.filter fun c => !(m.sels.get c).isMasked := by
  rw [stores, List.map_filterMap, ← List.filterMap_eq_filter]
  refine congrArg (List.filterMap · Chan.all) (funext fun c => ?_)
  cases hsel : m.sels.get c <;> simp [Component.ofSel?, Sel.isMasked, Option.guard, hsel]

theorem length_stores_le (m : Move) : m.stores.length ≤ 4 := by
  rw [← List.length_map (f := Prod.fst), map_fst_stores]
  exact List.length_filter_le _ Chan.all

theorem builds_stores (hstores : m.stores ≠ []) :
    Builds (value (m.stores.map Prod.snd)) (m.stores.map Prod.snd) :=
  builds_value (by simpa using hstores) (by simpa using m.length_stores_le)

end Move

/-! ## Samples -/

theorem arguments_foldl (t : Tree) (ts : List Tree) :
    (ts.foldl (.binary .comma) t).arguments = t.arguments ++ ts := by
  induction ts generalizing t with
  | nil => simp
  | cons u us ih => simp [ih, Tree.arguments]

/-- A number; a negative one has a minus sign in front. -/
def intTree : Int → Tree
  | .ofNat n => .number (toString n)
  | .negSucc n => .unary .minus (.number (toString (n + 1)))

theorem spells_int (n : Int) : Spells 12 (toString n).toList (intTree n) := by
  cases n with
  | ofNat n => exact (Spells.number (isNumber_toString n)).mono (Nat.le_succ 12)
  | negSucc n =>
    have hnumber := (Spells.number (isNumber_toString (n + 1))).mono (Nat.le_succ 12)
    have hhead : (toString (n + 1)).toList.head? ≠ some '-' := by
      intro h
      have hmem := List.mem_of_mem_head? h
      rw [show toString (n + 1) = (n + 1).repr from rfl, Nat.toList_repr] at hmem
      exact not_mem_toDigits (by decide) (n + 1) hmem
    have htext : (toString (Int.negSucc n)).toList = '-' :: (toString (n + 1)).toList := by
      show ("-" ++ (n + 1).repr).toList = _
      simp
    rw [htext]
    exact hnumber.minus hhead

namespace Sample

/-- The argument for texel offsets, if there is one. -/
def offsetTree? : List Int → Option Tree
  | [] => none
  | [x] => some (intTree x)
  | xs => some (callOf s!"int{xs.length}" (argumentsTree (xs.map intTree)))

def tree (s : Sample) : Tree :=
  .call (.member (.name s!"texture{s.texture.val}") "Sample")
    (argumentsTree ([.name s!"sampler{s.sampler.val}",
        .member (.name "tmp") (swizzleText s.coords)] ++
      (offsetTree? s.offsets).toList))

theorem spells_offset (xs : List Int) :
    offsetText? xs = none ∧ offsetTree? xs = none ∨
      ∃ text t, offsetText? xs = some text ∧ offsetTree? xs = some t ∧ Spells 1 text.toList t := by
  cases xs with
  | nil => exact .inl ⟨rfl, rfl⟩
  | cons x xs =>
    refine .inr ?_
    cases xs with
    | nil => exact ⟨_, _, rfl, rfl, (spells_int x).mono (by omega)⟩
    | cons y xs =>
      refine ⟨_, _, rfl, rfl, ?_⟩
      have hall : ∀ n ∈ x :: y :: xs, Spells 1 (toString n).toList (intTree n) :=
        fun n _ => (spells_int n).mono (by omega)
      have hcall := spells_callOf (isName_numbered "int" (by decide) (x :: y :: xs).length)
        (spells_arguments (List.cons_ne_nil x (y :: xs)) hall)
      simpa using hcall.mono (show 1 ≤ 13 by omega)

theorem isName_texture : ∀ t : Slot,
    isName (s!"texture{t.val}").toList = true ∧ isType s!"texture{t.val}" = false := by decide

theorem isName_sampler : ∀ t : Slot,
    isName (s!"sampler{t.val}").toList = true ∧ isType s!"sampler{t.val}" = false := by decide

/-- The text of the arguments of a sample. -/
def argumentsText (s : Sample) : String :=
  ", ".intercalate
    ([s!"sampler{s.sampler.val}", s!"tmp.{swizzleText s.coords}"] ++ (offsetText? s.offsets).toList)

theorem spells_argumentsText {s : Sample} (h : s.coords ≠ []) :
    Spells 0 s.argumentsText.toList
      (argumentsTree ([.name s!"sampler{s.sampler.val}",
        .member (.name "tmp") (swizzleText s.coords)] ++
        (offsetTree? s.offsets).toList)) := by
  have hle : 1 ≤ 13 := by omega
  obtain ⟨hname, htype⟩ := isName_sampler s.sampler
  have hsampler := (Spells.name hname htype).mono hle
  have hcoords := (spells_swizzle Place.tmp.names h).mono hle
  -- a list of texts with their trees, from which both sides are made
  have hall : ∀ ps : List (String × Tree), ps ≠ [] → (∀ p ∈ ps, Spells 1 p.1.toList p.2) →
      Spells 0 (", ".intercalate (ps.map Prod.fst)).toList (argumentsTree (ps.map Prod.snd)) :=
    fun _ => spells_arguments
  unfold argumentsText
  rcases spells_offset s.offsets with ⟨htext, htree⟩ | ⟨text, t, htext, htree, hoffset⟩
  · rw [htext, htree]
    refine hall [(_, _), (_, _)] (List.cons_ne_nil _ _) ?_
    exact List.forall_mem_cons.mpr ⟨hsampler, List.forall_mem_singleton.mpr hcoords⟩
  · rw [htext, htree]
    refine hall [(_, _), (_, _), (_, _)] (List.cons_ne_nil _ _) ?_
    exact List.forall_mem_cons.mpr
      ⟨hsampler, List.forall_mem_cons.mpr ⟨hcoords, List.forall_mem_singleton.mpr hoffset⟩⟩

theorem spells_tree {s : Sample} (h : s.coords ≠ []) :
    Spells 1 (s!"texture{s.texture.val}.Sample({s.argumentsText})").toList s.tree := by
  obtain ⟨hname, htype⟩ := isName_texture s.texture
  have hfn := Spells.name_member hname htype (m := "Sample") (by decide)
  have hcall := (hfn.call (spells_argumentsText h)).mono (show 1 ≤ 13 by omega)
  simpa [tree] using hcall

end Sample

/-! ## Statements -/

def LaneOut.tree : LaneOut → Tree
  | .vector c => memberOf (.name "PVo") c
  | .scalar => .name "PSo"

/-- A channel of a register. -/
def registerTree (k : Index) (c : Chan) : Tree := memberOf (.index (.name "R") k.tree) c

/-- The address that a value stands for. -/
def addressTree (t : Tree) : Tree :=
  callOf "clamp" (argumentsTree
    [.cast "int" (callOf "floor" t), .unary .minus (.number "256"), .number "255"])

/-- The two sides of a statement. Calls and returns have none. -/
def Stmt.sides? : Stmt → Option (Tree × Tree)
  | .lane out x => some (out.tree, x.tree)
  | .reduction x => some (.name "PVo", .cast "float4" x.tree)
  | .address c s => some (memberOf (.name "AR") c, addressTree s.tree)
  | .regWrite w => some (registerTree w.index w.chan, w.value.tree)
  | .latchVector => some (.name "PV", .name "PVo")
  | .latchScalar => some (.name "PS", .name "PSo")
  | .assign a => some (targetTree a.target.tree a.chans, a.value.tree a.source.tree)
  | .sample s => some (.name "tmp", s.tree)
  | .fetchCall | .ret => none

/-- The parts of a statement are such that its text can be read. -/
def Stmt.IsReadable : Stmt → Prop
  | .lane _ x | .reduction x => x.value.IsSized
  | .assign a => a.chans ≠ [] ∧ ∃ cs, Builds a.value cs
  | .sample s => s.coords ≠ []
  | .address _ _ | .regWrite _ | .latchVector | .latchScalar | .fetchCall | .ret => True

theorem assigns_of_spells {s left right : String} {l e : Tree} (hl : Spells 13 left.toList l)
    (he : Spells 1 right.toList e)
    (hs : s.toList = left.toList ++ ' ' :: '=' :: ' ' :: (right.toList ++ [';'])) :
    Assigns s l e := by
  refine ⟨left, right, String.toList_inj.mp ?_, spells_iff_parses.mp hl, spells_iff_parses.mp he⟩
  simpa using hs

theorem LaneOut.spells (o : LaneOut) : Spells 13 o.text.toList o.tree := by
  cases o with
  | vector c =>
    have h := Spells.name_member (s := "PVo") (by decide) (by decide) (isName_letter c)
    simpa [text, tree, memberOf] using h
  | scalar => exact .name (by decide) (by decide)

theorem spells_address (s : Source) :
    Spells 1 (s!"clamp((int)floor({s.text}), -256, 255)").toList (addressTree s.tree) := by
  have hfloor := spells_callOf (f := "floor") (by decide) (s.spells.mono (Nat.zero_le 12))
  have hint := (hfloor.mono (Nat.le_succ 12)).cast (t := "int") (by decide) (by decide)
  have hlow := ((Spells.number (s := "256") (by decide)).mono (Nat.le_succ 12)).minus (by decide)
  have hhigh := (Spells.number (s := "255") (by decide)).mono (show 1 ≤ 13 by omega)
  have hargs := ((hint.mono (Nat.zero_le 12)).comma (hlow.mono (by omega))).comma hhigh
  have hcall := (spells_callOf (f := "clamp") (by decide) hargs).mono (show 1 ≤ 13 by omega)
  simpa [addressTree, argumentsTree] using hcall

theorem RegWrite.spells_register (w : RegWrite) :
    Spells 13 (s!"R[{w.index.text}].{w.chan.letter}").toList (registerTree w.index w.chan) := by
  have h := spells_element (s := "R") (k := w.index) (c := w.chan) (by decide) (by decide)
  simpa [registerTree] using h

theorem spells_reduction {x : Result} (h : x.value.IsSized) :
    Spells 1 (s!"(float4)({x.text})").toList (.cast "float4" x.tree) := by
  have hgroup := ((x.spells h).mono (Nat.zero_le 1)).group.mono (Nat.le_succ 12)
  have hcast := (hgroup.cast (t := "float4") (by decide) (by decide)).mono (show 1 ≤ 12 by omega)
  simpa using hcast

/-- The text of a statement is the assignment of its right side to its left side. -/
theorem Stmt.assigns {s : Stmt} {l e : Tree} (hs : s.IsReadable) (h : s.sides? = some (l, e)) :
    Assigns s.text l e := by
  have hname : ∀ t : String, isName t.toList = true → isType t = false → ∀ k ≤ 13,
      Spells k t.toList (.name t) := fun _ hname htype _ hk => (Spells.name hname htype).mono hk
  unfold text
  cases s with
  | lane out x =>
    cases h
    exact assigns_of_spells out.spells (x.spells hs) (by simp)
  | reduction x =>
    cases h
    exact assigns_of_spells (hname "PVo" (by decide) (by decide) 13 (by omega))
      (spells_reduction hs) (by simp)
  | address c s =>
    cases h
    have hleft : Spells 13 (s!"AR.{c.letter}").toList (memberOf (.name "AR") c) := by
      have hmember := Spells.name_member (s := "AR") (by decide) (by decide) (isName_letter c)
      simpa [memberOf] using hmember
    exact assigns_of_spells hleft (spells_address s) (by simp)
  | regWrite w =>
    cases h
    exact assigns_of_spells w.spells_register (w.value.spells.mono (by omega))
      (by simp [RegWrite.text])
  | latchVector =>
    cases h
    exact assigns_of_spells (hname "PV" (by decide) (by decide) 13 (by omega))
      (hname "PVo" (by decide) (by decide) 1 (by omega)) (by simp)
  | latchScalar =>
    cases h
    exact assigns_of_spells (hname "PS" (by decide) (by decide) 13 (by omega))
      (hname "PSo" (by decide) (by decide) 1 (by omega)) (by simp)
  | assign a =>
    cases h
    obtain ⟨hchans, cs, hbuilds⟩ := hs
    refine assigns_of_spells (spells_target a.target.names hchans)
      ((hbuilds.spells a.source.names).mono (by omega)) ?_
    simp [Assignment.text, Assignment.textBetween]
  | sample s =>
    cases h
    refine assigns_of_spells (hname "tmp" (by decide) (by decide) 13 (by omega))
      (Sample.spells_tree hs) ?_
    unfold Sample.text Sample.argumentsText
    simp
  | fetchCall | ret => cases h

/-- The two sides of a statement are read off its line. -/
theorem Stmt.sides?_shown {s : Stmt} (hs : s.IsReadable) (depth : Nat) :
    Grammar.sides? (TextLine.mk depth s.text).shown = s.sides? := by
  obtain ⟨n, hn⟩ := (TextLine.mk depth s.text).shown_eq
  rw [hn]
  cases h : s.sides? with
  | some p => exact ((s.assigns hs h).indent n).sides?_eq
  | none =>
    apply sides?_eq_none
    unfold text
    cases s with
    | fetchCall | ret => simp
    | _ => cases h

/-- The statements of groups can be read. -/
theorem isReadable_of_groupStmt {cf : CfInstr} {g : AluGroup} {s : Stmt}
    (h : Compile.GroupStmt cf g s) : s.IsReadable := by
  cases h with
  | lane _ hx | reduction _ hx => exact hx
  | address | regWrite | latchVector | latchScalar => trivial

end LatteHlsl.Hlsl
