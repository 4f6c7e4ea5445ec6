import LatteHlsl.Proofs.Lexemes
import LatteHlsl.Proofs.Parallel
import LatteHlsl.Proofs.SourceText
import LatteHlsl.Proofs.Statements

/-!
# The expressions of lanes

Operands are put into the texts of operations as they are, without parentheses around them. That is
right because an operand binds as tightly as a unary operator: its brackets match, and outside them
there is nothing but a name, a number or a member, with at most one minus sign in front. So the text
that a lane stores is read as the operation on its operands.

* `Source.tree`, `Arith.tree`, `Result.tree`: how operands, operations and results are to be read.
* `Atom.spells`, `Source.spells`, `Arith.spells`, `Result.spells`: the texts are read so.
* `fnTree`, `storedTree`: the trees of lanes, from the operation and the fields of an instruction.
* `outside`: the part of a text outside its brackets.
* `lane_text_parses`: operands, and what lanes store.
-/

namespace LatteHlsl

open Isa Grammar

namespace Hlsl

/-! ## Trees -/

/-- A channel as a member. -/
def memberOf (t : Tree) (c : Chan) : Tree := .member t (toString c.letter)

def IndexReg.tree : IndexReg → Tree
  | .ar c => memberOf (.name "AR") c
  | .al => .name "AL"

/-- The constant and the registers are added from left to right. -/
def Index.tree (k : Index) : Tree :=
  k.offsets.foldl (fun t r => .binary .plus t r.tree) (.number (toString k.base))

/-- A call of a function, or a value of a type. -/
def callOf (f : String) (t : Tree) : Tree := .call (.name f) t

/-- Arguments, joined by commas. -/
def argumentsTree : List Tree → Tree
  | [] => .name ""
  | t :: ts => ts.foldl (.binary .comma) t

def Atom.tree : Atom → Tree
  | .gpr k c => memberOf (.index (.name "R") k.tree) c
  | .uniform b k c => memberOf (.index (.name s!"CB{b.val}") k.tree) c
  | .cfile k c => memberOf (.index (.name "C") k.tree) c
  | .zero => .number "0.0f"
  | .one => .number "1.0f"
  | .half => .number "0.5f"
  | .intOne => callOf "asfloat" (.number "1")
  | .intMinusOne => callOf "asfloat" (.unary .minus (.number "1"))
  | .literal bits => callOf "asfloat" (.number s!"0x{Atom.hexWord bits}u")
  | .prevVector c => memberOf (.name "PV") c
  | .prevScalar => .name "PS"

/-- An operand under its modifiers: the absolute value, then the sign, then the domain it is read
in. -/
def modifiedTree (abs neg : Bool) (view : Domain) (t : Tree) : Tree :=
  let t := if abs then callOf "abs" t else t
  let t := if neg then .unary .minus t else t
  match view with
  | .float => t
  | .int => callOf "asint" t
  | .uint => callOf "asuint" t

def Source.tree (s : Source) : Tree := modifiedTree s.abs s.neg s.view s.atom.tree

def BinaryOp.token : BinaryOp → Sign
  | .add => .plus
  | .mul => .star
  | .and => .amp
  | .or => .bar
  | .xor => .caret
  | .shr => .shr
  | .shl => .shl

def ZeroTest.token : ZeroTest → Sign
  | .eq => .eq
  | .gt => .gt
  | .ge => .ge

/-- The greater of two values. -/
def maxTree (a b : Tree) : Tree := callOf "max" (argumentsTree [a, b])

/-- A vector of four components. -/
def vectorTree (ts : List Tree) : Tree := callOf "float4" (argumentsTree ts)

def Arith.tree : Arith → Tree
  | .copy a => a.tree
  | .call fn a => callOf fn.name a.tree
  | .convert kind a => .cast kind.typeName a.tree
  | .recip a => .binary .slash (.number "1.0f") a.tree
  | .binary op a b => .binary op.token a.tree b.tree
  | .call2 fn a b => callOf fn.name (argumentsTree [a.tree, b.tree])
  | .mulAdd a b c => .binary .plus (.binary .star a.tree b.tree) c.tree
  | .select test a b c => .cond (.binary test.token a.tree (.number "0.0f")) b.tree c.tree
  | .dot as bs =>
    callOf "dot" (argumentsTree [vectorTree (as.map Source.tree), vectorTree (bs.map Source.tree)])
  | .max4 a b c d => maxTree (maxTree a.tree b.tree) (maxTree c.tree d.tree)

/-- An operation of a single lane on its operands. -/
def fnTree : Meaning.Fn → List Tree → Option Tree
  | .copy, [a] => some a
  | .call fn, [a] => some (callOf fn.name a)
  | .convert kind, [a] => some (.cast kind.typeName a)
  | .recip, [a] => some (.binary .slash (.number "1.0f") a)
  | .binary op, [a, b] => some (.binary op.token a b)
  | .call2 fn, [a, b] => some (callOf fn.name (.binary .comma a b))
  | .mulAdd, [a, b, c] => some (.binary .plus (.binary .star a b) c)
  | .select test, [a, b, c] => some (.cond (.binary test.token a (.number "0.0f")) b c)
  | _, _ => none

def scaleTree (t : Tree) : OutputModifier → Tree
  | .off => t
  | .mul2 => .binary .star t (.number "2.0f")
  | .mul4 => .binary .star t (.number "4.0f")
  | .div2 => .binary .slash t (.number "2.0f")

def Result.tree (x : Result) : Tree :=
  match x.finish with
  | .reinterpret => callOf "asfloat" x.value.tree
  | .float omod clamp =>
    if clamp then callOf "saturate" (scaleTree x.value.tree omod) else scaleTree x.value.tree omod

/-- What an instruction stores: a float result is scaled and then clamped, an integer result is
reinterpreted. -/
def storedTree (writes : Domain) (i : AluInstr) (t : Tree) : Tree :=
  match writes with
  | .float => if i.clamp then callOf "saturate" (scaleTree t i.omod) else scaleTree t i.omod
  | .int | .uint => callOf "asfloat" t

/-! ## Names and numbers -/

theorem isName_letter (c : Chan) : isName (toString c.letter).toList = true := by
  cases c <;> decide

theorem isNumberChar_of_isDigit {c : Char} (h : c.isDigit = true) : isNumberChar c = true := by
  simp [isNumberChar, isWordChar_of_isDigit h]

theorem isNumber_toString (n : Nat) : isNumber (toString n).toList = true := by
  have hdigits : ∀ c ∈ Nat.toDigits 10 n, c.isDigit = true := fun _ =>
    Nat.isDigit_of_mem_toDigits (by decide) (by decide)
  show isNumber n.repr.toList = true
  rw [Nat.toList_repr]
  cases htd : Nat.toDigits 10 n with
  | nil => exact absurd htd Nat.toDigits_ne_nil
  | cons d ds =>
    rw [htd] at hdigits
    obtain ⟨hd, hds⟩ := List.forall_mem_cons.mp hdigits
    simp only [isNumber, hd, Bool.true_and, List.all_eq_true]
    exact fun c hc => isNumberChar_of_isDigit (hds c hc)

theorem isNumberChar_of_mem_hexWord {w : Word} {c : Char} (h : c ∈ (Atom.hexWord w).toList) :
    isNumberChar c = true := by
  simp only [Atom.hexWord, String.toList_ofList, List.mem_append, List.mem_replicate,
    List.mem_map] at h
  rcases h with ⟨-, rfl⟩ | ⟨d, hd, rfl⟩
  · decide
  · obtain ⟨n, hn, rfl⟩ := exists_digit_of_mem_toDigits (by decide) hd
    have hupper : ∀ n < 16, isNumberChar (Nat.digitChar n).toUpper = true := by decide
    exact hupper n hn

theorem isNumber_literal (w : Word) : isNumber (s!"0x{Atom.hexWord w}u").toList = true := by
  have hx : isNumberChar 'x' = true := by decide
  have hu : isNumberChar 'u' = true := by decide
  have hzero : Char.isDigit '0' = true := by decide
  have hall : isNumber (s!"0x{Atom.hexWord w}u").toList = true ↔
      ∀ c ∈ (Atom.hexWord w).toList, isNumberChar c = true := by
    simp [isNumber, hx, hu, hzero]
  exact hall.mpr fun _ => isNumberChar_of_mem_hexWord

/-! ## Operands -/

theorem spells_callOf {f : String} {cs : List Char} {t : Tree} (hf : isName f.toList = true)
    (h : Spells 0 cs t) : Spells 13 (f.toList ++ '(' :: cs ++ [')']) (callOf f t) := by
  cases htype : isType f with
  | false => exact .call (.name hf htype) h
  | true => exact .construct hf htype h

theorem IndexReg.spells (r : IndexReg) : Spells 13 r.text.toList r.tree := by
  cases r with
  | ar c =>
    have h := Spells.name_member (s := "AR") (by decide) (by decide) (isName_letter c)
    simpa [text, tree, memberOf] using h
  | al => exact .name (by decide) (by decide)

/-- Registers are added to the right of what is there. -/
theorem spells_offsets {rs : List IndexReg} :
    ∀ {cs : List Char} {t : Tree}, Spells 10 cs t →
      Spells 10 (cs ++ (rs.flatMap fun r => ' ' :: '+' :: ' ' :: r.text.toList))
        (rs.foldl (fun t r => .binary .plus t r.tree) t) := by
  induction rs with
  | nil =>
    intro cs t h
    simpa using h
  | cons r rs ih =>
    intro cs t h
    have hadd : Spells 10 _ (.binary .plus t r.tree) := .binary rfl h (r.spells.mono (by omega))
    simpa [Sign.chars] using ih hadd

theorem intercalate_cons_eq {sep t : List Char} {ts : List (List Char)} :
    sep.intercalate (t :: ts) = t ++ ts.flatMap (sep ++ ·) := by
  induction ts generalizing t with
  | nil => simp
  | cons u us ih =>
    rw [List.intercalate_cons_of_ne_nil (List.cons_ne_nil u us), ih]
    simp

theorem Index.toList_text (k : Index) :
    k.text.toList = (toString k.base).toList ++
      k.offsets.flatMap fun r => ' ' :: '+' :: ' ' :: r.text.toList := by
  rw [text, String.toList_intercalate, List.map_cons, intercalate_cons_eq]
  simp [List.flatMap_map]

theorem Index.spells (k : Index) : Spells 10 k.text.toList k.tree := by
  rw [toList_text]
  exact spells_offsets ((Spells.number (isNumber_toString k.base)).mono (by omega))

/-- A channel of an element of an array. -/
theorem spells_element {s : String} {k : Index} {c : Chan} (hs : isName s.toList = true)
    (htype : isType s = false) :
    Spells 13 (s.toList ++ '[' :: k.text.toList ++ [']'] ++ '.' :: (toString c.letter).toList)
      (memberOf (.index (.name s) k.tree) c) :=
  .index_member (.name hs htype) (k.spells.mono (Nat.zero_le 10)) (isName_letter c)

theorem isName_block : ∀ b : Slot, isName (s!"CB{b.val}").toList = true := by decide

theorem isType_block : ∀ b : Slot, isType s!"CB{b.val}" = false := by decide

theorem Atom.spells (a : Atom) : Spells 13 a.text.toList a.tree := by
  cases a with
  | gpr k c =>
    simpa [text, tree] using spells_element (s := "R") (k := k) (c := c) (by decide) (by decide)
  | uniform b k c =>
    simpa [text, tree] using spells_element (k := k) (c := c) (isName_block b) (isType_block b)
  | cfile k c =>
    simpa [text, tree] using spells_element (s := "C") (k := k) (c := c) (by decide) (by decide)
  | zero | one | half => exact .number (by decide)
  | intOne =>
    have h := (Spells.number (s := "1") (by decide)).mono (Nat.zero_le 13)
    exact spells_callOf (f := "asfloat") (by decide) h
  | intMinusOne =>
    have h := (Spells.number (s := "1") (by decide)).mono (show 12 ≤ 13 by omega)
    exact spells_callOf (f := "asfloat") (by decide) ((h.minus (by decide)).mono (Nat.zero_le 12))
  | literal bits =>
    have h := (Spells.number (isNumber_literal bits)).mono (Nat.zero_le 13)
    simpa [text, tree] using spells_callOf (f := "asfloat") (by decide) h
  | prevVector c =>
    have h := Spells.name_member (s := "PV") (by decide) (by decide) (isName_letter c)
    simpa [text, tree, memberOf] using h
  | prevScalar => exact .name (by decide) (by decide)

/-- No atom starts with a minus sign, so that a minus sign in front of it stays one. -/
theorem Atom.head_text (a : Atom) : a.text.toList.head? ≠ some '-' := by
  cases a <;> simp [text]

section

variable {s : String} {t : Tree}

theorem spells_abs (abs : Bool) (h : Spells 13 s.toList t) :
    Spells 13 (if abs then s!"abs({s})" else s).toList (if abs then callOf "abs" t else t) := by
  cases abs with
  | false => exact h
  | true =>
    simpa using spells_callOf (f := "abs") (by decide) (h.mono (Nat.zero_le 13))

theorem head_abs (abs : Bool) (h : s.toList.head? ≠ some '-') :
    (if abs then s!"abs({s})" else s).toList.head? ≠ some '-' := by
  cases abs with
  | false => exact h
  | true => simp

theorem spells_neg (neg : Bool) (h : Spells 12 s.toList t) (hhead : s.toList.head? ≠ some '-') :
    Spells 12 (if neg then s!"-{s}" else s).toList (if neg then .unary .minus t else t) := by
  cases neg with
  | false => exact h
  | true => simpa using h.minus hhead

end

theorem Source.spells (s : Source) : Spells 12 s.text.toList s.tree := by
  obtain ⟨atom, abs, neg, view⟩ := s
  have habs := spells_abs abs atom.spells
  have hneg := spells_neg neg (habs.mono (Nat.le_succ 12)) (head_abs abs atom.head_text)
  cases view with
  | float => exact hneg
  | int =>
    have h := spells_callOf (f := "asint") (by decide) (hneg.mono (Nat.zero_le 12))
    simpa [text, tree, modifiedTree] using h.mono (Nat.le_succ 12)
  | uint =>
    have h := spells_callOf (f := "asuint") (by decide) (hneg.mono (Nat.zero_le 12))
    simpa [text, tree, modifiedTree] using h.mono (Nat.le_succ 12)

/-! ## Operations -/

theorem BinaryOp.toList_sign (op : BinaryOp) : op.sign.toList = op.token.chars := by
  cases op <;> decide

theorem ZeroTest.toList_sign (test : ZeroTest) : test.sign.toList = test.token.chars := by
  cases test <;> decide

/-- An operand binds tighter than every binary operator. -/
theorem spells_binary {op : Sign} {k : Nat} {cs ds : List Char} {a b : Tree}
    (hop : op.level? = some k) (ha : Spells 12 cs a) (hb : Spells 12 ds b) :
    Spells k (cs ++ ' ' :: (op.chars ++ ' ' :: ds)) (.binary op a b) := by
  have hk := (level?_le hop).1
  exact .binary hop (ha.mono (by omega)) (hb.mono (by omega))

/-- Arguments with commas between them. -/
theorem spells_arguments {α : Type} {text : α → String} {tree : α → Tree} {as : List α}
    (hne : as ≠ []) (h : ∀ a ∈ as, Spells 1 (text a).toList (tree a)) :
    Spells 0 (", ".intercalate (as.map text)).toList (argumentsTree (as.map tree)) := by
  have hrest : ∀ (bs : List α) {cs : List Char} {t : Tree},
      (∀ b ∈ bs, Spells 1 (text b).toList (tree b)) → Spells 0 cs t →
        Spells 0 (cs ++ bs.flatMap fun b => ',' :: ' ' :: (text b).toList)
          ((bs.map tree).foldl (.binary .comma) t) := by
    intro bs
    induction bs with
    | nil =>
      intro cs t _ ht
      simpa using ht
    | cons b bs ih =>
      intro cs t hbs ht
      obtain ⟨hb, hbs⟩ := List.forall_mem_cons.mp hbs
      simpa using ih hbs (ht.comma hb)
  cases as with
  | nil => exact absurd rfl hne
  | cons a as =>
    obtain ⟨ha, has⟩ := List.forall_mem_cons.mp h
    rw [String.toList_intercalate, List.map_cons, List.map_cons, intercalate_cons_eq]
    simpa [argumentsTree, List.flatMap_map] using hrest as has (ha.mono (Nat.zero_le 1))

theorem spells_max {s t : String} {a b : Tree} (ha : Spells 1 s.toList a)
    (hb : Spells 1 t.toList b) : Spells 1 (s!"max({s}, {t})").toList (maxTree a b) := by
  have hcall := spells_callOf (f := "max") (by decide) ((ha.mono (Nat.zero_le 1)).comma hb)
  simpa [maxTree, argumentsTree] using hcall.mono (by omega)

theorem spells_vectorTree {ss : List Source} (h : ss.length = 4) :
    Spells 1 (s!"float4({Arith.listText ss})").toList (vectorTree (ss.map Source.tree)) := by
  have hne : ss ≠ [] := by
    rintro rfl
    cases h
  have hargs := spells_arguments hne fun s _ => s.spells.mono (show 1 ≤ 12 by omega)
  have hcall := spells_callOf (f := "float4") (by decide) hargs
  simpa [vectorTree, Arith.listText] using hcall.mono (by omega)

theorem Arith.spells (value : Arith) (h : value.IsSized) :
    Spells 1 value.text.toList value.tree := by
  -- the equations of `text` are slow to generate
  unfold text tree
  cases value with
  | copy a => exact a.spells.mono (by omega)
  | call fn a =>
    have hname : isName fn.name.toList = true := by cases fn <;> decide
    have hcall := spells_callOf hname (a.spells.mono (Nat.zero_le 12))
    simpa using hcall.mono (by omega)
  | convert kind a =>
    have hname : isName kind.typeName.toList = true ∧ isType kind.typeName = true := by
      cases kind <;> decide
    simpa using (a.spells.cast hname.1 hname.2).mono (by omega)
  | recip a =>
    have hone := (Spells.number (s := "1.0f") (by decide)).mono (Nat.le_succ 12)
    have hdiv : Spells 11 _ (.binary .slash _ _) := spells_binary rfl hone a.spells
    simpa [Sign.chars] using hdiv.mono (by omega)
  | binary op a b =>
    have hlevel : ∃ k, op.token.level? = some k ∧ 1 ≤ k := by
      cases op <;> exact ⟨_, rfl, by decide⟩
    obtain ⟨k, hk, hle⟩ := hlevel
    simpa [op.toList_sign] using (spells_binary hk a.spells b.spells).mono hle
  | call2 fn a b =>
    have hname : isName fn.name.toList = true := by cases fn <;> decide
    have hargs := (a.spells.mono (Nat.zero_le 12)).comma (b.spells.mono (show 1 ≤ 12 by omega))
    simpa [argumentsTree] using (spells_callOf hname hargs).mono (by omega)
  | mulAdd a b c =>
    have hmul : Spells 11 _ (.binary .star _ _) := spells_binary rfl a.spells b.spells
    have hadd : Spells 10 _ (.binary .plus _ _) :=
      .binary rfl (hmul.mono (by omega)) (c.spells.mono (by omega))
    simpa [Sign.chars] using hadd.mono (by omega)
  | select test a b c =>
    have hzero := (Spells.number (s := "0.0f") (by decide)).mono (Nat.le_succ 12)
    obtain ⟨k, hk⟩ : ∃ k, test.token.level? = some k := by cases test <;> exact ⟨_, rfl⟩
    have htest := (spells_binary hk a.spells hzero).mono (Nat.zero_le k)
    have hcond := (htest.group.mono (show 2 ≤ 13 by omega)).cond (b.spells.mono (Nat.zero_le 12))
      (c.spells.mono (show 1 ≤ 12 by omega))
    simpa [test.toList_sign] using hcond
  | dot as bs =>
    have hargs := ((spells_vectorTree h.1).mono (Nat.zero_le 1)).comma (spells_vectorTree h.2)
    simpa [argumentsTree] using (spells_callOf (f := "dot") (by decide) hargs).mono (by omega)
  | max4 a b c d =>
    have hle : 1 ≤ 12 := by omega
    have hfirst := spells_max (a.spells.mono hle) (b.spells.mono hle)
    have hsecond := spells_max (c.spells.mono hle) (d.spells.mono hle)
    simpa using spells_max hfirst hsecond

/-! ## Results -/

theorem spells_scale {s : String} {t : Tree} (omod : OutputModifier) (h : Spells 1 s.toList t) :
    Spells 1 (Result.scaleText s omod).toList (scaleTree t omod) := by
  have hgroup := (h.mono (Nat.zero_le 1)).group.mono (Nat.le_succ 12)
  have hscaled : ∀ (op : Sign) (f : String), op.level? = some 11 → isNumber f.toList = true →
      Spells 1 ('(' :: s.toList ++ [')'] ++ ' ' :: (op.chars ++ ' ' :: f.toList))
        (.binary op t (.number f)) :=
    fun _ _ hop hf =>
      (spells_binary hop hgroup ((Spells.number hf).mono (Nat.le_succ 12))).mono (by omega)
  cases omod with
  | off => exact h
  | mul2 =>
    have hmul := hscaled .star "2.0f" rfl (by decide)
    simpa [Result.scaleText, scaleTree, Sign.chars] using hmul
  | mul4 =>
    have hmul := hscaled .star "4.0f" rfl (by decide)
    simpa [Result.scaleText, scaleTree, Sign.chars] using hmul
  | div2 =>
    have hdiv := hscaled .slash "2.0f" rfl (by decide)
    simpa [Result.scaleText, scaleTree, Sign.chars] using hdiv

/-- What is stored is read as its operation, finished as it asks for. -/
theorem Result.spells (x : Result) (h : x.value.IsSized) : Spells 1 x.text.toList x.tree := by
  have hcall : ∀ f : String, isName f.toList = true → ∀ {s : String} {e : Tree},
      Spells 1 s.toList e → Spells 1 (s!"{f}({s})").toList (callOf f e) := by
    intro f hf s e he
    simpa using (spells_callOf hf (he.mono (Nat.zero_le 1))).mono (show 1 ≤ 13 by omega)
  have hvalue := x.value.spells h
  obtain ⟨value, finish⟩ := x
  cases finish with
  | reinterpret => exact hcall "asfloat" (by decide) hvalue
  | float omod clamp =>
    have hscale := spells_scale omod hvalue
    cases clamp with
    | false => exact hscale
    | true => exact hcall "saturate" (by decide) hscale

/-- The tree of what an instruction stores. -/
theorem tree_finishOf (value : Arith) (traits : AluTraits) (i : AluInstr) :
    Result.tree ⟨value, Compile.finishOf traits i⟩ = storedTree traits.writes i value.tree := by
  unfold Result.tree Compile.finishOf storedTree
  cases traits.writes <;> rfl

/-! ## Brackets -/

/-- The characters of a text outside all brackets, if the brackets match; the first argument holds
the brackets that are to be closed. -/
def outside : List Char → List Char → Option (List Char)
  | st, [] => if st = [] then some [] else none
  | st, c :: cs =>
    if c = '(' then outside (')' :: st) cs
    else if c = '[' then outside (']' :: st) cs
    else if c = ')' ∨ c = ']' then if st.head? = some c then outside st.tail cs else none
    else if st = [] then (outside [] cs).map (c :: ·)
    else outside st cs

example : outside [] "R[0 + AR.x].w".toList = some "R.w".toList := by decide

/-- The brackets of a text match, and `out` is outside them. -/
def Bracketed (cs out : List Char) : Prop :=
  ∀ st rest, outside st (cs ++ rest) =
    if st = [] then (outside [] rest).map (out ++ ·) else outside st rest

/-- Whether a character is no bracket. -/
def isPlain (c : Char) : Bool := c ∉ ['(', ')', '[', ']']

theorem isPlain_of_isNumberChar {c : Char} (h : isNumberChar c = true) : isPlain c = true := by
  cases hplain : isPlain c with
  | true => rfl
  | false =>
    simp only [isPlain, decide_eq_false_iff_not, not_not, List.mem_cons, List.not_mem_nil,
      or_false] at hplain
    rcases hplain with rfl | rfl | rfl | rfl <;> exact absurd h (by decide)

namespace Bracketed

variable {cs ds out out' : List Char}

theorem plain (h : cs.all isPlain = true) : Bracketed cs cs := by
  intro st rest
  induction cs with
  | nil =>
    by_cases hst : st = []
    · simp [hst]
    · simp [hst]
  | cons c cs ih =>
    obtain ⟨hc, hcs⟩ : isPlain c = true ∧ cs.all isPlain = true := by simpa using h
    simp only [isPlain, decide_eq_true_eq, List.mem_cons, List.not_mem_nil, or_false, not_or] at hc
    obtain ⟨hlp, hrp, hlb, hrb⟩ := hc
    by_cases hst : st = []
    · subst hst
      have hrest := ih hcs
      simp only [if_true] at hrest
      simp [outside, hlp, hrp, hlb, hrb, hrest, Function.comp_def]
    · have hrest := ih hcs
      simp only [hst, if_false] at hrest
      simp [outside, hlp, hrp, hlb, hrb, hrest, hst]

theorem append (h : Bracketed cs out) (h' : Bracketed ds out') :
    Bracketed (cs ++ ds) (out ++ out') := by
  intro st rest
  rw [List.append_assoc, h, h', h']
  by_cases hst : st = []
  · simp [hst, Function.comp_def]
  · simp [hst]

theorem enclosed {l r : Char} (hlr : l = '(' ∧ r = ')' ∨ l = '[' ∧ r = ']')
    (h : Bracketed cs out) : Bracketed (l :: cs ++ [r]) [] := by
  have hopen : ∀ st cs, outside st (l :: cs) = outside (r :: st) cs := by
    rcases hlr with ⟨rfl, rfl⟩ | ⟨rfl, rfl⟩ <;> simp [outside]
  have hclose : ∀ st cs, outside (r :: st) (r :: cs) = outside st cs := by
    rcases hlr with ⟨rfl, rfl⟩ | ⟨rfl, rfl⟩ <;> simp [outside]
  intro st rest
  rw [List.cons_append, List.cons_append, List.append_assoc, hopen, h,
    if_neg (List.cons_ne_nil r st), List.singleton_append, hclose]
  by_cases hst : st = []
  · simp [hst]
  · simp [hst]

theorem outside_eq (h : Bracketed cs out) : outside [] cs = some out := by
  have happend := h [] []
  simpa [outside] using happend

end Bracketed

/-- The brackets of the text match, and outside them there are only words, numbers and dots. -/
def Atomic (cs : List Char) : Prop := ∃ out, Bracketed cs out ∧ out.all isNumberChar = true

namespace Atomic

variable {cs ds out : List Char}

theorem word (h : cs.all isNumberChar = true) : Atomic cs := by
  refine ⟨cs, .plain (List.all_eq_true.mpr fun c hc => ?_), h⟩
  exact isPlain_of_isNumberChar (List.all_eq_true.mp h c hc)

theorem append (h : Atomic cs) (h' : Atomic ds) : Atomic (cs ++ ds) := by
  obtain ⟨out, hout, hchars⟩ := h
  obtain ⟨out', hout', hchars'⟩ := h'
  exact ⟨out ++ out', hout.append hout', by rw [List.all_append, hchars, hchars']; rfl⟩

theorem enclosed {l r : Char} (hlr : l = '(' ∧ r = ')' ∨ l = '[' ∧ r = ']')
    (h : Bracketed cs out) : Atomic (l :: cs ++ [r]) :=
  ⟨[], h.enclosed hlr, rfl⟩

end Atomic

theorem all_isNumberChar_of_isNumber {cs : List Char} (h : isNumber cs = true) :
    cs.all isNumberChar = true := by
  cases cs with
  | nil => rfl
  | cons d ds =>
    simp only [isNumber, Bool.and_eq_true] at h
    simp only [List.all_cons, isNumberChar_of_isDigit h.1, h.2, Bool.and_self]

theorem all_isNumberChar_of_isName {cs : List Char} (h : isName cs = true) :
    cs.all isNumberChar = true := by
  cases cs with
  | nil => rfl
  | cons d ds =>
    simp only [isName, Bool.and_eq_true, List.all_eq_true] at h
    refine List.all_eq_true.mpr (List.forall_mem_cons.mpr ⟨?_, fun c hc => ?_⟩)
    · simp [isNumberChar, h.1.2]
    · simp [isNumberChar, h.2 c hc]

theorem Index.bracketed (k : Index) : Bracketed k.text.toList k.text.toList := by
  refine .plain (List.all_eq_true.mpr fun c hc => ?_)
  rw [toList_text] at hc
  simp only [List.mem_append, List.mem_flatMap, List.mem_cons] at hc
  rcases hc with hc | ⟨r, -, rfl | rfl | rfl | hc⟩
  · have hbase := all_isNumberChar_of_isNumber (isNumber_toString k.base)
    exact isPlain_of_isNumberChar (List.all_eq_true.mp hbase c hc)
  · decide
  · decide
  · decide
  · have hreg : r.text.toList.all isNumberChar = true := by
      cases r with
      | ar chan => cases chan <;> decide
      | al => decide
    exact isPlain_of_isNumberChar (List.all_eq_true.mp hreg c hc)

/-- A call is atomic, whatever its argument is. -/
theorem atomic_call {f : String} {cs out : List Char} (hf : isName f.toList = true)
    (h : Bracketed cs out) : Atomic (f.toList ++ ('(' :: cs ++ [')'])) :=
  (Atomic.word (all_isNumberChar_of_isName hf)).append (.enclosed (.inl ⟨rfl, rfl⟩) h)

/-- A channel of an element of an array. -/
theorem atomic_element {s : String} (hs : isName s.toList = true) (k : Index) (c : Chan) :
    Atomic (s.toList ++ ('[' :: k.text.toList ++ [']']) ++ ['.', c.letter]) := by
  have harray := Atomic.word (all_isNumberChar_of_isName hs)
  have hindex := Atomic.enclosed (.inr ⟨rfl, rfl⟩) k.bracketed
  refine (harray.append hindex).append (.word ?_)
  cases c <;> decide

theorem Atom.atomic (a : Atom) : Atomic a.text.toList := by
  cases a with
  | gpr k c => simpa [text] using atomic_element (s := "R") (by decide) k c
  | uniform b k c => simpa [text] using atomic_element (isName_block b) k c
  | cfile k c => simpa [text] using atomic_element (s := "C") (by decide) k c
  | zero | one | half | prevScalar => exact .word (by decide)
  | prevVector c => cases c <;> exact .word (by decide)
  | intOne =>
    have hone : Bracketed ['1'] ['1'] := .plain (by decide)
    simpa [text] using atomic_call (f := "asfloat") (by decide) hone
  | intMinusOne =>
    have hone : Bracketed ['-', '1'] ['-', '1'] := .plain (by decide)
    simpa [text] using atomic_call (f := "asfloat") (by decide) hone
  | literal bits =>
    obtain ⟨out, hout, -⟩ := Atomic.word (all_isNumberChar_of_isNumber (isNumber_literal bits))
    simpa [text] using atomic_call (f := "asfloat") (by decide) hout

theorem atomic_abs {s : String} (abs : Bool) (h : Atomic s.toList) :
    Atomic (if abs then s!"abs({s})" else s).toList := by
  cases abs with
  | false => exact h
  | true =>
    obtain ⟨out, hout, -⟩ := h
    simpa using atomic_call (f := "abs") (by decide) hout

theorem bracketed_neg {s : String} {out : List Char} (neg : Bool) (h : Bracketed s.toList out) :
    Bracketed (if neg then s!"-{s}" else s).toList ((if neg then ['-'] else []) ++ out) := by
  cases neg with
  | false => exact h
  | true =>
    have hsign : Bracketed ['-'] ['-'] := .plain (by decide)
    simpa using hsign.append h

/-- The brackets of an operand match. Outside them there are only words, numbers and dots, after at
most one minus sign. -/
theorem Source.outside_text (s : Source) :
    ∃ sign word, outside [] s.text.toList = some (sign ++ word) ∧ (sign = [] ∨ sign = ['-']) ∧
      word.all isNumberChar = true := by
  obtain ⟨atom, abs, neg, view⟩ := s
  obtain ⟨out, hout, hchars⟩ := atomic_abs abs atom.atomic
  have hneg := bracketed_neg neg hout
  cases view with
  | float => exact ⟨_, out, hneg.outside_eq, by cases neg <;> simp, hchars⟩
  | int =>
    obtain ⟨word, hword, hchars⟩ := atomic_call (f := "asint") (by decide) hneg
    exact ⟨[], word, by simpa [text] using hword.outside_eq, .inl rfl, hchars⟩
  | uint =>
    obtain ⟨word, hword, hchars⟩ := atomic_call (f := "asuint") (by decide) hneg
    exact ⟨[], word, by simpa [text] using hword.outside_eq, .inl rfl, hchars⟩

end Hlsl

/-! ## Lanes -/

namespace Compile

open Hlsl Effect

variable {cf : CfInstr} {g : AluGroup} {i : AluInstr}

theorem source_of_sourceOf {n : Nat} {s : Source} (h : SourceOf cf g i n s) (o : Output) :
    ∃ o', source cf g i n o = .ok s o' := by
  obtain ⟨op, hop, hview⟩ := h.view
  obtain ⟨o', hrecord⟩ : ∃ o', recordAtom s.atom o = .ok () o' := by
    unfold recordAtom
    cases s.atom.access? with
    | none => exact ⟨o, rfl⟩
    | some access => exact ⟨_, record_eq_ok.mpr rfl⟩
  have hs : s = ⟨s.atom, (i.src n).abs, (i.src n).neg, op.traits.reads⟩ := by
    rw [← h.abs, ← h.neg, ← hview]
  simp only [source, bind_eq_ok, check_eq_ok, decode_eq_ok, pure_eq_ok]
  exact ⟨o', s.atom, o, ⟨h.atom, rfl⟩, (), o', hrecord, op, o', ⟨hop, rfl⟩, hs, rfl⟩

theorem SourcesOf.sourceOf {m : Nat} {ss : List Source} (h : SourcesOf cf g i m ss) :
    ss.length = m ∧ ∀ n s, ss[n]? = some s → SourceOf cf g i n s := by
  induction h with
  | nil => simp
  | @snoc m ss s _ hs ih =>
    obtain ⟨rfl, hall⟩ := ih
    refine ⟨by simp, fun n s' hs' => ?_⟩
    rcases Nat.lt_or_ge n ss.length with hlt | hge
    · rw [List.getElem?_append_left hlt] at hs'
      exact hall n s' hs'
    · rw [List.getElem?_append_right hge, List.getElem?_singleton] at hs'
      split at hs'
      · obtain rfl : n = ss.length := by omega
        cases hs'
        exact hs
      · cases hs'

/-- The tree of an operation on a single lane is that of its function on its operands. -/
theorem fnTree_arithFn {op : AluOp} {value : Arith} {n : Nat}
    (h : Meaning.laneFn? op = some (Meaning.arithFn value, n)) :
    fnTree (Meaning.arithFn value) (value.operands.map Source.tree) = some value.tree := by
  cases value with
  | dot | max4 =>
    unfold Meaning.laneFn? at h
    split at h <;> cases h
  | _ => rfl

/-- The text of an operand is a single operand of C: its brackets match, no operator but a minus
sign in front is outside them, and it is read as the atom under its modifiers. -/
structure ReadsAsOperand (i : AluInstr) (n : Nat) (s : Source) : Prop where
  brackets : ∃ sign word, outside [] s.text.toList = some (sign ++ word) ∧
    (sign = [] ∨ sign = ['-']) ∧ word.all isNumberChar = true
  tree : ∃ op, i.op = .ok op ∧ ∀ e, Parses 12 s.text e ↔
    e = modifiedTree (i.src n).abs (i.src n).neg op.traits.reads s.atom.tree

/-- The line that was added assigns a result which is read as the operation `op` on the operands
`ss`, finished as the instruction asks for. -/
structure StoresTree (cf : CfInstr) (g : AluGroup) (l : Lane) (i : AluInstr) (o o' : Output)
    (op : AluOp) (ss : List Source) (result : String) : Prop where
  op_eq : i.op = .ok op
  operands : ∀ n s, ss[n]? = some s → ∀ o₁, ∃ o₂, source cf g i n o₁ = .ok s o₂
  line : ∃ line : Line, o'.body = o.body.push line ∧
    line.text = s!"{(LaneOut.ofLane l).text} = {result};"
  tree : ∃ f t, Meaning.laneFn? op = some (f, ss.length) ∧ fnTree f (ss.map Source.tree) = some t ∧
    ∀ e, Parses 1 result e ↔ e = storedTree op.traits.writes i t

theorem StorePiece.storesTree {l : Lane} {p : Piece} (h : StorePiece cf g l i p) (o : Output) :
    ∃ op ss result, StoresTree cf g l i o (o.add p) op ss result := by
  obtain @⟨op, value, held, hop, hvalue, hheld⟩ := h
  have hfn := Meaning.laneFn?_of_valueOf hvalue
  refine ⟨op, value.operands, Result.text ⟨value, finishOf op.traits i⟩, hop, ?_, ?_, ?_⟩
  · intro n s hs
    exact source_of_sourceOf ((sourcesOf_of_valueOf hvalue).sourceOf.2 n s hs)
  · exact ⟨.stmt (.lane (.ofLane l) ⟨value, finishOf op.traits i⟩), by simp [Output.add], rfl⟩
  · refine ⟨_, value.tree, hfn, fnTree_arithFn hfn, fun e => ?_⟩
    rw [← tree_finishOf]
    exact (Result.spells _ (isSized_of_valueOf hvalue)).parses_iff

/-- Operands and the results of lanes are read as intended, by the precedences of C. -/
theorem lane_text_parses {o o' : Output} :
    (∀ n s, source cf g i n o = .ok s o' → ReadsAsOperand i n s) ∧
    ∀ w target,
      compileOp2 w cf g target i o = .ok () o' ∨ compileOp3 w cf g target i o = .ok () o' →
      ∃ op ss result, StoresTree cf g (laneOf target) i o o' op ss result := by
  constructor
  · intro n s h
    obtain ⟨hs, -⟩ := source_eq_ok h
    obtain ⟨op, hop, hview⟩ := hs.view
    refine ⟨s.outside_text, op, hop, fun e => ?_⟩
    rw [s.spells.parses_iff, Source.tree, hs.abs, hs.neg, hview]
  · rintro w target (h | h)
    · obtain ⟨p, hp, rfl⟩ := compileOp2_stores h
      exact hp.storesTree o
    · obtain ⟨p, hp, rfl⟩ := compileOp3_stores h
      exact hp.storesTree o

/-- Computes `-R[0].x * R[1 + AR.x].x + R[2].x`. -/
def negMulAdd : AluInstr := ⟨0x403000, 0x20002⟩

/-- The second operand and the result of a lane. -/
theorem lane_text_parses_negMulAdd :
    let w : Walk := { program := ⟨#[]⟩, stage := .pixel }
    (∃ s o', source ⟨0, 0⟩ {} negMulAdd 1 {} = .ok s o' ∧ ReadsAsOperand negMulAdd 1 s) ∧
    ∃ o', compileOp3 w ⟨0, 0⟩ {} (.lane .x) negMulAdd {} = .ok () o' ∧
      ∃ op ss result, StoresTree ⟨0, 0⟩ {} .x negMulAdd {} o' op ss result := by
  intro w
  have hsource : source ⟨0, 0⟩ {} negMulAdd 1 {} = .ok _ _ := rfl
  have hrun : compileOp3 w ⟨0, 0⟩ {} (.lane .x) negMulAdd {} = .ok () _ := rfl
  exact ⟨⟨_, _, hsource, lane_text_parses.1 1 _ hsource⟩, _, hrun,
    lane_text_parses.2 w (.lane .x) (.inr hrun)⟩

example : (lex "-R[0].x * R[1 + AR.x].x + R[2].x").bind parse =
    some (.binary .plus
      (.binary .star (.unary .minus (memberOf (.index (.name "R") (.number "0")) .x))
        (memberOf (.index (.name "R") (.binary .plus (.number "1") (memberOf (.name "AR") .x))) .x))
      (memberOf (.index (.name "R") (.number "2")) .x)) := by
  decide

end Compile

end LatteHlsl
