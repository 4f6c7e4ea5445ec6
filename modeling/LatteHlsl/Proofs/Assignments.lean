import LatteHlsl.Isa.Channel
import LatteHlsl.Proofs.Lexemes

/-!
# Assignments

An assignment is the text of a variable or of some of its components, an equals sign, and the text
of an expression. It stores one component of the expression into each component on its left.

* `spells_iff_parses`: a text that is an expression on its own is one wherever it stands.
* `Names`: the texts of variables.
* `Assigns`, `assigns_iff`: how an assignment is read; there is one way at most.
* `sides?`, `Assigns.sides?_eq`: the two sides of an assignment, read off its text.
* `Memory`, `Memory.assign`: what an assignment between vectors of four components does.
-/

namespace LatteHlsl.Grammar

open Isa

/-! ## Texts on their own -/

theorem chars_of_lexeme? {p : List Char} {t : Token} (h : lexeme? p = some t) : t.chars = p := by
  cases p with
  | nil => cases h
  | cons d ds =>
    rw [lexeme?] at h
    split at h
    · cases h
      exact String.toList_ofList
    · split at h
      · cases h
        exact String.toList_ofList
      · obtain ⟨s, hs, rfl⟩ := Option.map_eq_some_iff.mp h
        exact Sign.chars_of_ofChars? hs

/-- The tokens of a finished lexeme. -/
theorem flush_eq_some {p : List Char} {ts : List Token} (h : flush p = some ts) :
    p = [] ∧ ts = [] ∨ ∃ t, lexeme? p = some t ∧ ts = [t] := by
  cases p with
  | nil => exact .inl ⟨rfl, (Option.some.inj h).symm⟩
  | cons d ds =>
    obtain ⟨t, ht, rfl⟩ := Option.map_eq_some_iff.mp h
    exact .inr ⟨t, ht, rfl⟩

/-- Where the text does not go on with the last lexeme, what comes next is cut by itself. -/
theorem lexFrom_append {cs : List Char} :
    ∀ {p : List Char} {ts : List Token} {rest : List Char}, lexFrom p cs = some ts →
      (∀ t ∈ ts.getLast?, ∀ c ∈ rest.head?, t.joins c = false) →
      lexFrom p (cs ++ rest) = (lexFrom [] rest).map (ts ++ ·) := by
  induction cs with
  | nil =>
    intro p ts rest h hjoin
    apply lexFrom_of_not_grows _ h
    intro c hc
    rcases flush_eq_some h with ⟨rfl, -⟩ | ⟨t, ht, rfl⟩
    · rfl
    · rw [← chars_of_lexeme? ht]
      exact hjoin t rfl c hc
  | cons c cs ih =>
    intro p ts rest h hjoin
    rw [lexFrom] at h
    rw [List.cons_append, lexFrom]
    split at h
    · rename_i hgrows
      rw [if_pos hgrows]
      exact ih h hjoin
    · rename_i hgrows
      obtain ⟨us, hus, hmap⟩ := Option.bind_eq_some_iff.mp h
      obtain ⟨vs, hvs, rfl⟩ := Option.map_eq_some_iff.mp hmap
      have hrest : ∀ t ∈ vs.getLast?, ∀ d ∈ rest.head?, t.joins d = false := by
        intro t ht
        apply hjoin t
        rw [List.getLast?_append, ht]
        rfl
      rw [if_neg hgrows, hus, Option.bind_some, ih hvs hrest, Option.map_map]
      refine congrArg (Option.map · _) (funext fun ws => ?_)
      exact (List.append_assoc us vs ws).symm

/-- Every token that a text is cut into is told from its own characters. -/
theorem lexeme?_of_mem {cs : List Char} :
    ∀ {p : List Char} {ts : List Token}, lexFrom p cs = some ts →
      ∀ t ∈ ts, lexeme? t.chars = some t := by
  have hflush : ∀ {p : List Char} {ts : List Token}, flush p = some ts →
      ∀ t ∈ ts, lexeme? t.chars = some t := by
    intro p ts h t ht
    rcases flush_eq_some h with ⟨-, rfl⟩ | ⟨t', ht', rfl⟩
    · cases ht
    · obtain rfl := List.mem_singleton.mp ht
      rw [chars_of_lexeme? ht', ht']
  induction cs with
  | nil => exact fun h => hflush h
  | cons c cs ih =>
    intro p ts h t ht
    rw [lexFrom] at h
    split at h
    · exact ih h t ht
    · obtain ⟨us, hus, hmap⟩ := Option.bind_eq_some_iff.mp h
      obtain ⟨vs, hvs, rfl⟩ := Option.map_eq_some_iff.mp hmap
      rcases List.mem_append.mp ht with hmem | hmem
      · exact hflush hus t hmem
      · exact ih hvs t hmem

theorem Derives.ne_nil {k : Nat} {ts : List Token} {e : Tree} (h : Derives k ts e) : ts ≠ [] := by
  induction h with
  | weaken _ ih => exact ih
  | _ => simp

theorem Derives.level_le {k : Nat} {ts : List Token} {e : Tree} (h : Derives k ts e) : k ≤ 13 := by
  induction h with
  | weaken _ ih => omega
  | binary hop _ _ _ _ =>
    have := level?_le hop
    omega
  | _ => omega

/-- An expression on its own can be put next to anything that does not run into it. -/
theorem spells_iff_parses {k : Nat} {s : String} {e : Tree} :
    Spells k s.toList e ↔ Parses k s e := by
  constructor
  · rintro ⟨ts, hts, he⟩
    exact ⟨ts, hts.lexFrom_eq, he⟩
  · rintro ⟨ts, hts, he⟩
    refine ⟨ts, ⟨?_, he.ne_nil, fun rest => lexFrom_append hts⟩, he⟩
    intro hnil
    rw [lex, hnil] at hts
    exact he.ne_nil (Option.some.inj hts).symm

/-! ## Variables -/

/-- Whether an expression can be the name of a variable: a name, an element or a member. -/
def Tree.isPlace : Tree → Bool
  | .name _ | .index _ _ | .member _ _ => true
  | _ => false

/-- The text `s` names the variable `t`. -/
structure Names (s : String) (t : Tree) : Prop where
  parses : Parses 13 s t
  isPlace : t.isPlace = true

theorem joins_dot {t : Token} (h : lexeme? t.chars = some t) (hne : ∀ s, t ≠ .number s) :
    t.joins '.' = false := by
  have hdot : isWordChar '.' = false := by decide
  cases t with
  | number s => exact absurd rfl (hne s)
  | sign s => cases s <;> rfl
  | name s =>
    show grows s.toList '.' = false
    cases hs : s.toList with
    | nil => rfl
    | cons d ds =>
      have hdigit : d.isDigit = false := by
        cases hd : d.isDigit with
        | false => rfl
        | true =>
          rw [Token.chars, hs, lexeme?, if_pos hd] at h
          cases h
      rw [grows, hdigit]
      simp only [Bool.false_eq_true, if_false]
      split
      · exact hdot
      · rename_i hword
        rw [Token.chars, hs, lexeme?, if_neg (by simp [hdigit]), if_neg hword] at h
        obtain ⟨sign, -, hsign⟩ := Option.map_eq_some_iff.mp h
        cases hsign

/-- The text of a variable does not end in a number. -/
theorem Derives.getLast?_ne_number {ts : List Token} {t : Tree} (h : Derives 13 ts t)
    (ht : t.isPlace = true) (s : String) : ts.getLast? ≠ some (.number s) := by
  cases h with
  | weaken h =>
    have := h.level_le
    omega
  | name _ => simp
  | number => cases ht
  | group _ => simp [List.getLast?_cons]
  | index _ _ => simp [List.getLast?_cons]
  | call _ _ | construct _ _ => cases ht
  | member _ => simp
  | binary hop _ _ =>
    have := (level?_le hop).1
    omega

namespace Names

variable {s m : String} {t : Tree}

theorem spells (h : Names s t) : Spells 13 s.toList t := spells_iff_parses.mpr h.parses

/-- A member of a variable. -/
theorem spells_member (h : Names s t) (hm : isName m.toList = true) :
    Spells 13 (s.toList ++ '.' :: m.toList) (.member t m) := by
  obtain ⟨ts, hlex, hts⟩ := h.parses
  obtain ⟨us, hus, hus'⟩ := h.spells
  obtain rfl : ts = us := Option.some.inj (hlex.symm.trans hus.lexFrom_eq)
  refine ⟨_, hus.dot (fun u hu => ?_) hm, .member hts⟩
  apply joins_dot (lexeme?_of_mem hlex u (List.mem_of_mem_getLast? hu))
  rintro n rfl
  exact hts.getLast?_ne_number h.isPlace n hu

end Names

/-! ## Reading assignments -/

/-- The text is an assignment of the expression `e` to the expression `l`. -/
def Assigns (s : String) (l e : Tree) : Prop :=
  ∃ left right, s = left ++ " = " ++ right ++ ";" ∧ Parses 13 left l ∧ Parses 1 right e

theorem grows_blank (p : List Char) : grows p ' ' = false := by
  have h := joins_of_isBreak (c := ' ') rfl (.number (.ofList p))
  rwa [Token.joins, Token.chars, String.toList_ofList] at h

/-- An equals sign by itself is no lexeme. -/
theorem lexFrom_equals {cs : List Char} (h : ∀ c ∈ cs.head?, c = ' ') :
    lexFrom [] ('=' :: cs) = none := by
  rw [lexFrom_nil_cons, if_neg (by decide)]
  cases cs with
  | nil => rfl
  | cons c cs =>
    obtain rfl := h c rfl
    rw [lexFrom, grows_blank]
    rfl

theorem lexFrom_append_equals {cs ds : List Char} (h : ∀ c ∈ ds.head?, c = ' ') :
    ∀ p, lexFrom p (cs ++ ' ' :: '=' :: ds) = none := by
  induction cs with
  | nil =>
    intro p
    rw [List.nil_append, lexFrom, grows_blank]
    simp only [Bool.false_eq_true, if_false, if_true, lexFrom_equals h, Option.map_none]
    cases flush p <;> rfl
  | cons c cs ih =>
    intro p
    rw [List.cons_append, lexFrom]
    split
    · exact ih _
    · rw [ih]
      cases flush p <;> rfl

/-- The left side of an assignment is not continued past its equals sign. -/
theorem eq_nil_of_assigns {left extra right right' : List Char}
    (h : ' ' :: '=' :: ' ' :: (right ++ [';']) = extra ++ ' ' :: '=' :: ' ' :: (right' ++ [';']))
    (hleft : lexFrom [] (left ++ extra) ≠ none) (hright : lexFrom [] right ≠ none) :
    extra = [] := by
  -- compare the two texts character by character, along the part that is extra
  cases extra with
  | nil => rfl
  | cons a extra =>
    obtain ⟨ha, htail⟩ := List.cons.inj h
    subst ha
    cases extra with
    | nil => exact absurd (List.cons.inj htail).1 (by decide)
    | cons b extra =>
      obtain ⟨hb, htail'⟩ := List.cons.inj htail
      subst hb
      cases extra with
      | nil =>
        -- the equals sign would start the right side
        have hcut : right ++ [';'] = '=' :: ' ' :: right' ++ [';'] := (List.cons.inj htail').2
        rw [List.append_cancel_right hcut] at hright
        exact absurd (lexFrom_equals (by simp)) hright
      | cons c extra =>
        obtain ⟨hc, -⟩ := List.cons.inj htail'
        subst hc
        exact absurd (lexFrom_append_equals (by simp) []) hleft

/-- The two sides of an assignment have no other trees. -/
theorem assigns_iff {left right : String} {l e l' e' : Tree} (hl : Spells 13 left.toList l)
    (he : Spells 1 right.toList e) :
    Assigns (left ++ " = " ++ right ++ ";") l' e' ↔ l' = l ∧ e' = e := by
  constructor
  · rintro ⟨left', right', hs, hl', he'⟩
    have hlex : lexFrom [] left.toList ≠ none := by
      obtain ⟨ts, hts, -⟩ := hl
      simp [hts.lexFrom_eq]
    have hlex' : lexFrom [] left'.toList ≠ none := by
      obtain ⟨ts, hts, -⟩ := hl'
      simp [show lexFrom [] left'.toList = some ts from hts]
    have hright : lexFrom [] right.toList ≠ none := by
      obtain ⟨ts, hts, -⟩ := he
      simp [hts.lexFrom_eq]
    have hright' : lexFrom [] right'.toList ≠ none := by
      obtain ⟨ts, hts, -⟩ := he'
      simp [show lexFrom [] right'.toList = some ts from hts]
    have hchars : left.toList ++ ' ' :: '=' :: ' ' :: (right.toList ++ [';']) =
        left'.toList ++ ' ' :: '=' :: ' ' :: (right'.toList ++ [';']) := by
      simpa using congrArg String.toList hs
    have hleft : left = left' := by
      rcases List.append_eq_append_iff.mp hchars with ⟨extra, hextra, h⟩ | ⟨extra, hextra, h⟩
      · obtain rfl := eq_nil_of_assigns h (hextra ▸ hlex') hright
        rw [List.append_nil] at hextra
        exact String.toList_inj.mp hextra.symm
      · obtain rfl := eq_nil_of_assigns h (hextra ▸ hlex) hright'
        rw [List.append_nil] at hextra
        exact String.toList_inj.mp hextra
    subst hleft
    have hcut : right.toList ++ [';'] = right'.toList ++ [';'] := by
      simpa using List.append_cancel_left hchars
    obtain rfl := String.toList_inj.mp (List.append_cancel_right hcut)
    exact ⟨hl.parses_iff.mp hl', he.parses_iff.mp he'⟩
  · rintro ⟨rfl, rfl⟩
    exact ⟨left, right, rfl, spells_iff_parses.mp hl, spells_iff_parses.mp he⟩

/-- Indentation changes nothing. -/
theorem Assigns.indent {s : String} {l e : Tree} (h : Assigns s l e) (n : Nat) :
    Assigns (String.ofList (List.replicate n ' ') ++ s) l e := by
  obtain ⟨left, right, rfl, ⟨ts, hlex, hl⟩, he⟩ := h
  refine ⟨String.ofList (List.replicate n ' ') ++ left, right, by simp [String.append_assoc],
    ⟨ts, ?_, hl⟩, he⟩
  rw [lex, String.toList_append, String.toList_ofList]
  induction n with
  | zero => exact hlex
  | succ n ih => rwa [List.replicate_succ, List.cons_append, lexFrom_nil_cons, if_pos rfl]

/-- Cut a text at its first equals sign between blanks. -/
def cutEquals : List Char → Option (List Char × List Char)
  | ' ' :: '=' :: ' ' :: cs => some ([], cs)
  | c :: cs => (cutEquals cs).map fun p => (c :: p.1, p.2)
  | [] => none

/-- The two sides of an assignment, if the text is one. -/
def sides? (s : String) : Option (Tree × Tree) :=
  (cutEquals s.toList).bind fun p =>
    if p.2.getLast? = some ';' then
      ((lexFrom [] p.1).bind parse).bind fun l =>
        ((lexFrom [] p.2.dropLast).bind parse).map fun e => (l, e)
    else none

example : sides? "a.x = -b;" = some (.member (.name "a") "x", .unary .minus (.name "b")) := by
  decide

theorem cutEquals_eq_none {cs : List Char} (h : '=' ∉ cs) : cutEquals cs = none := by
  fun_induction cutEquals cs with
  | case1 cs => simp at h
  | case2 c cs _ ih => rw [ih fun hmem => h (List.mem_cons_of_mem c hmem), Option.map_none]
  | case3 => rfl

theorem sides?_eq_none {s : String} (h : '=' ∉ s.toList) : sides? s = none := by
  rw [sides?, cutEquals_eq_none h, Option.bind_none]

/-- The left side goes up to the equals sign. -/
theorem cutEquals_append {left : List Char} (right : List Char) (h : lexFrom [] left ≠ none) :
    cutEquals (left ++ ' ' :: '=' :: ' ' :: right) = some (left, right) := by
  have hfirst : ∀ a ds, left = a ++ ' ' :: '=' :: ds → ¬ ∀ c ∈ ds.head?, c = ' ' :=
    fun a ds heq hds => h (heq ▸ lexFrom_append_equals hds [])
  clear h
  induction left with
  | nil => rfl
  | cons c left ih =>
    have hrest := ih fun a ds heq => hfirst (c :: a) ds (by rw [heq, List.cons_append])
    rw [List.cons_append, cutEquals, hrest]
    · rfl
    · -- an earlier equals sign would stand in the left side
      rintro cs hc heq
      subst hc
      cases left with
      | nil => exact absurd (List.cons.inj heq).1 (by decide)
      | cons d left =>
        obtain ⟨rfl, htail⟩ := List.cons.inj heq
        clear heq
        refine hfirst [] left rfl fun b hb => ?_
        cases left with
        | nil => cases hb
        | cons b' left =>
          cases hb
          exact (List.cons.inj htail).1

/-- An assignment is read as what it assigns. -/
theorem Assigns.sides?_eq {s : String} {l e : Tree} (h : Assigns s l e) : sides? s = some (l, e) := by
  obtain ⟨left, right, rfl, ⟨ts, hleft, hl⟩, ⟨us, hright, he⟩⟩ := h
  have hchars : (left ++ " = " ++ right ++ ";").toList =
      left.toList ++ ' ' :: '=' :: ' ' :: (right.toList ++ [';']) := by
    simp
  have hleft' : lexFrom [] left.toList = some ts := hleft
  have hright' : lexFrom [] right.toList = some us := hright
  rw [sides?, hchars, cutEquals_append _ (by simp [hleft'])]
  simp only [Option.bind_some, List.getLast?_concat, if_true, List.dropLast_concat, hleft', hright',
    hl.parse_eq, he.parse_eq, Option.map_some]

/-! ## What assignments do -/

/-- The channel with the given letter. -/
def chanOf? (c : Char) : Option Chan := Chan.all.find? fun chan => chan.letter == c

/-- The channels that a member names, letter by letter. -/
def swizzle? (m : String) : Option (List Chan) := m.toList.mapM chanOf?

/-- The arguments of a call, which commas join. -/
def Tree.arguments : Tree → List Tree
  | .binary .comma a b => a.arguments ++ [b]
  | t => [t]

/-- Variables with four components, and the values of numbers. A member of such a variable is no
variable but some of its components. -/
structure Memory (α : Type) where
  vars : Tree → Option (Quad α)
  number : String → α
  isPlace : ∀ t q, vars t = some q → t.isPlace = true
  flat : ∀ t q m, vars t = some q → vars (.member t m) = none

namespace Memory

variable {α : Type}

/-- The components of a variable, of a member of a variable or of a number. -/
def operand (mem : Memory α) (t : Tree) : Option (List α) :=
  match mem.vars t with
  | some q => some q.toList
  | none =>
    match t with
    | .number s => some [mem.number s]
    | .member v m => (mem.vars v).bind fun q => (swizzle? m).map fun cs => cs.map q.get
    | _ => none

/-- The components of an expression. A vector is built from as many components as its type says. -/
def value (mem : Memory α) : Tree → Option (List α)
  | .call f args =>
    (args.arguments.mapM mem.operand).bind fun xss =>
      if f = .name s!"float{xss.flatten.length}" ∧ xss.flatten.length ≤ 4 then some xss.flatten
      else none
  | t => mem.operand t

/-- The variable that an assignment changes, and its components that are stored, each once. -/
def target? (mem : Memory α) (t : Tree) : Option (Tree × List Chan) :=
  match mem.vars t with
  | some _ => some (t, Chan.all)
  | none =>
    match t with
    | .member v m =>
      (mem.vars v).bind fun _ => (swizzle? m).bind fun cs => if cs.Nodup then some (v, cs) else none
    | _ => none

/-- Replace components, one after the other. -/
def setAll (q : Quad α) (ps : List (Chan × α)) : Quad α := ps.foldl (fun q p => q.set p.1 p.2) q

/-- Store values into components of a variable. -/
def store (mem : Memory α) (v : Tree) (ps : List (Chan × α)) : Memory α where
  vars t := if t = v then (mem.vars t).map (setAll · ps) else mem.vars t
  number := mem.number
  isPlace t q h := by
    have hsome : ∃ q', mem.vars t = some q' := by
      split at h
      · obtain ⟨q', hq', -⟩ := Option.map_eq_some_iff.mp h
        exact ⟨q', hq'⟩
      · exact ⟨q, h⟩
    exact mem.isPlace t _ hsome.choose_spec
  flat t q m h := by
    have hsome : ∃ q', mem.vars t = some q' := by
      split at h
      · obtain ⟨q', hq', -⟩ := Option.map_eq_some_iff.mp h
        exact ⟨q', hq'⟩
      · exact ⟨q, h⟩
    have hnone := mem.flat t _ m hsome.choose_spec
    simp [hnone]

/-- Carry out an assignment. All values are taken before one is stored, and there is one for each
component on the left. -/
def assign (mem : Memory α) (l e : Tree) : Option (Memory α) :=
  (mem.target? l).bind fun target => (mem.value e).bind fun xs =>
    if target.2.length = xs.length then some (mem.store target.1 (target.2.zip xs)) else none

/-- Variables that have plain names. -/
def ofLocals (vars : String → Option (Quad α)) (number : String → α) : Memory α where
  vars
    | .name s => vars s
    | _ => none
  number := number
  isPlace t q h := by
    cases t with
    | name s => rfl
    | _ => cases h
  flat _ _ _ _ := rfl

example :
    ((ofLocals (fun s => if s = "a" then some ⟨1, 2, 3, 4⟩ else none) String.length).assign
      (.member (.name "a") "yx") (.member (.name "a") "xw")).map (fun mem => mem.vars (.name "a")) =
    some (some ⟨4, 1, 3, 4⟩) := by decide

end Memory

end LatteHlsl.Grammar
