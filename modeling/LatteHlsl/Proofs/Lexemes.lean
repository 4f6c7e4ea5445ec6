import LatteHlsl.Proofs.Grammar

/-!
# The text of expressions

A text is cut into the longest lexemes that it starts with, and blanks between them are dropped. An
expression is then put together by rules on texts: the text of each construct is cut into the tokens
of its parts as long as the last lexeme of one part does not run into the next part.

* `lex`: the tokens of a text.
* `Lexes`: the tokens of a text that may go on.
* `Spells`: the text of an expression of a level; one rule for each construct.
* `Parses`, `Spells.parses_iff`: a text has one tree at most.
-/

namespace LatteHlsl.Grammar

/-! ## Lexemes -/

/-- The characters of a sign. -/
def Sign.chars : Sign → List Char
  | .lparen => ['(']
  | .rparen => [')']
  | .lbracket => ['[']
  | .rbracket => [']']
  | .dot => ['.']
  | .comma => [',']
  | .question => ['?']
  | .colon => [':']
  | .plus => ['+']
  | .minus => ['-']
  | .star => ['*']
  | .slash => ['/']
  | .percent => ['%']
  | .amp => ['&']
  | .bar => ['|']
  | .caret => ['^']
  | .shl => ['<', '<']
  | .shr => ['>', '>']
  | .eq => ['=', '=']
  | .ne => ['!', '=']
  | .lt => ['<']
  | .gt => ['>']
  | .le => ['<', '=']
  | .ge => ['>', '=']
  | .both => ['&', '&']
  | .either => ['|', '|']
  | .bang => ['!']
  | .tilde => ['~']
  | .incr => ['+', '+']
  | .decr => ['-', '-']

def Sign.all : List Sign :=
  [.lparen, .rparen, .lbracket, .rbracket, .dot, .comma, .question, .colon, .plus, .minus, .star,
   .slash, .percent, .amp, .bar, .caret, .shl, .shr, .eq, .ne, .lt, .gt, .le, .ge, .both, .either,
   .bang, .tilde, .incr, .decr]

/-- The sign with the given characters. -/
def Sign.ofChars? (cs : List Char) : Option Sign := Sign.all.find? fun s => s.chars == cs

/-- Whether a character can be in a name. -/
def isWordChar (c : Char) : Bool := c.isAlphanum || c == '_'

/-- Whether a character can be in a number, after its first digit. -/
def isNumberChar (c : Char) : Bool := isWordChar c || c == '.'

/-- Whether the characters are a name. -/
def isName : List Char → Bool
  | [] => false
  | d :: ds => !d.isDigit && isWordChar d && ds.all isWordChar

/-- Whether the characters are a number. -/
def isNumber : List Char → Bool
  | [] => false
  | d :: ds => d.isDigit && ds.all isNumberChar

/-- The token of a lexeme, told from its first character. -/
def lexeme? : List Char → Option Token
  | [] => none
  | d :: ds =>
    if d.isDigit then some (.number (.ofList (d :: ds)))
    else if isWordChar d then some (.name (.ofList (d :: ds)))
    else (Sign.ofChars? (d :: ds)).map .sign

/-- Whether the next character belongs to the lexeme that has been read so far. -/
def grows : List Char → Char → Bool
  | [], _ => false
  | d :: ds, c =>
    if d.isDigit then isNumberChar c
    else if isWordChar d then isWordChar c
    else (Sign.ofChars? (d :: ds ++ [c])).isSome

/-- The token of a lexeme that has ended, if one was begun. -/
def flush : List Char → Option (List Token)
  | [] => some []
  | d :: ds => (lexeme? (d :: ds)).map fun t => [t]

/-- Cut a text, after the start `p` of a lexeme. -/
def lexFrom : List Char → List Char → Option (List Token)
  | p, [] => flush p
  | p, c :: cs =>
    if grows p c then lexFrom (p ++ [c]) cs
    else (flush p).bind fun ts => (lexFrom (if c = ' ' then [] else [c]) cs).map (ts ++ ·)

/-- The tokens of a text. -/
def lex (s : String) : Option (List Token) := lexFrom [] s.toList

example : lex "a>>-1.5f" = some [.name "a", .sign .shr, .sign .minus, .number "1.5f"] := by decide

/-! ## Cutting a text that goes on -/

theorem lexFrom_nil_cons (c : Char) (cs : List Char) :
    lexFrom [] (c :: cs) = lexFrom (if c = ' ' then [] else [c]) cs := by
  simp [lexFrom, grows, flush]

/-- A lexeme ends where the next character does not belong to it. -/
theorem lexFrom_of_not_grows {p rest : List Char} {ts : List Token}
    (h : ∀ c ∈ rest.head?, grows p c = false) (hp : flush p = some ts) :
    lexFrom p rest = (lexFrom [] rest).map (ts ++ ·) := by
  cases rest with
  | nil =>
    show flush p = (flush []).map (ts ++ ·)
    rw [hp]
    simp [flush]
  | cons c cs =>
    have hc : grows p c = false := h c rfl
    rw [lexFrom_nil_cons]
    simp only [lexFrom, hc, Bool.false_eq_true, if_false, hp, Option.bind_some]

/-- The lexeme of a token. -/
def Token.chars : Token → List Char
  | .name s | .number s => s.toList
  | .sign s => s.chars

/-- Whether a character right after a token would belong to its lexeme. -/
def Token.joins (t : Token) (c : Char) : Bool := grows t.chars c

/-- The text is cut into the tokens, whatever comes next and does not belong to the last one. -/
structure Lexes (cs : List Char) (ts : List Token) : Prop where
  text_ne_nil : cs ≠ []
  tokens_ne_nil : ts ≠ []
  lex_append : ∀ rest, (∀ t ∈ ts.getLast?, ∀ c ∈ rest.head?, t.joins c = false) →
    lexFrom [] (cs ++ rest) = (lexFrom [] rest).map (ts ++ ·)

theorem Lexes.lexFrom_eq {cs : List Char} {ts : List Token} (h : Lexes cs ts) :
    lexFrom [] cs = some ts := by
  have happend := h.lex_append [] (by simp)
  simpa [lexFrom, flush] using happend

/-- One text right after another. -/
theorem Lexes.append {cs ds : List Char} {ts us : List Token} (h : Lexes cs ts) (h' : Lexes ds us)
    (hjoin : ∀ t ∈ ts.getLast?, ∀ c ∈ ds.head?, t.joins c = false) :
    Lexes (cs ++ ds) (ts ++ us) where
  text_ne_nil := by simp [h.text_ne_nil]
  tokens_ne_nil := by simp [h.tokens_ne_nil]
  lex_append rest hrest := by
    have hhead : (ds ++ rest).head? = ds.head? := by
      cases ds with
      | nil => exact absurd rfl h'.text_ne_nil
      | cons => rfl
    have hlast : (ts ++ us).getLast? = us.getLast? := by
      rw [List.getLast?_append]
      cases hus : us.getLast? with
      | none => exact absurd (List.getLast?_eq_none_iff.mp hus) h'.tokens_ne_nil
      | some => rfl
    rw [List.append_assoc, h.lex_append (ds ++ rest) (hhead ▸ hjoin),
      h'.lex_append rest (hlast ▸ hrest), Option.map_map]
    refine congrArg (Option.map · _) (funext fun vs => ?_)
    simp

/-! ## Single lexemes -/

theorem isWordChar_of_isDigit {c : Char} (h : c.isDigit = true) : isWordChar c = true := by
  simp [isWordChar, Char.isAlphanum, h]

theorem isDigit_of_not_isWordChar {c : Char} (h : isWordChar c = false) : c.isDigit = false := by
  cases hdigit : c.isDigit with
  | false => rfl
  | true => rw [isWordChar_of_isDigit hdigit] at h; cases h

/-- A lexeme that starts with a letter or a digit is read to its end. -/
theorem lexFrom_word {d : Char} (hd : isWordChar d = true) {ds : List Char}
    (hds : ∀ c ∈ ds, grows [d] c = true) :
    ∀ p rest, lexFrom (d :: p) (ds ++ rest) = lexFrom (d :: p ++ ds) rest := by
  induction ds with
  | nil => simp
  | cons c ds ih =>
    intro p rest
    obtain ⟨hc, hds⟩ := List.forall_mem_cons.mp hds
    have hgrows : grows (d :: p) c = true := by
      simpa [grows, hd] using hc
    rw [List.cons_append, lexFrom, if_pos hgrows, List.cons_append, ih hds]
    simp

theorem Lexes.word {d : Char} {ds : List Char} {t : Token} (hd : isWordChar d = true)
    (hds : ∀ c ∈ ds, grows [d] c = true) (ht : lexeme? (d :: ds) = some t)
    (hchars : t.chars = d :: ds) : Lexes (d :: ds) [t] where
  text_ne_nil := by simp
  tokens_ne_nil := by simp
  lex_append rest hrest := by
    have hblank : d ≠ ' ' := by
      rintro rfl
      exact absurd hd (by decide)
    rw [List.cons_append, lexFrom_nil_cons, if_neg hblank, lexFrom_word hd hds [] rest]
    refine lexFrom_of_not_grows (fun c hc => ?_) (by simp [flush, ht])
    rw [List.singleton_append, ← hchars]
    exact hrest t rfl c hc

theorem Lexes.name {s : String} (h : isName s.toList = true) : Lexes s.toList [.name s] := by
  cases hs : s.toList with
  | nil => simp [hs, isName] at h
  | cons d ds =>
    simp only [hs, isName, Bool.and_eq_true, Bool.not_eq_true', List.all_eq_true] at h
    obtain ⟨⟨hdigit, hd⟩, hds⟩ := h
    refine .word hd (fun c hc => ?_) ?_ hs
    · simpa [grows, hdigit, hd] using hds c hc
    · simp [lexeme?, hdigit, hd, ← hs]

theorem Lexes.number {s : String} (h : isNumber s.toList = true) : Lexes s.toList [.number s] := by
  cases hs : s.toList with
  | nil => simp [hs, isNumber] at h
  | cons d ds =>
    simp only [hs, isNumber, Bool.and_eq_true, List.all_eq_true] at h
    obtain ⟨hdigit, hds⟩ := h
    refine .word (isWordChar_of_isDigit hdigit) (fun c hc => ?_) ?_ hs
    · simpa [grows, hdigit] using hds c hc
    · simp [lexeme?, hdigit, ← hs]

theorem Sign.ofChars?_chars (s : Sign) : Sign.ofChars? s.chars = some s := by
  cases s <;> rfl

theorem Sign.chars_of_ofChars? {cs : List Char} {s : Sign} (h : Sign.ofChars? cs = some s) :
    s.chars = cs := by
  simpa using List.find?_some h

theorem Sign.length_chars (s : Sign) : s.chars.length = 1 ∨ s.chars.length = 2 := by
  cases s <;> decide

/-- The first character of a sign is that of nothing else. -/
theorem Sign.head_chars {s : Sign} {d : Char} {ds : List Char} (h : s.chars = d :: ds) :
    isWordChar d = false ∧ d ≠ ' ' := by
  cases s <;> cases h <;> decide

/-- A sign is read to its end. -/
theorem lexFrom_sign (s : Sign) (rest : List Char) :
    lexFrom [] (s.chars ++ rest) = lexFrom s.chars rest := by
  have hlength := s.length_chars
  have hof := s.ofChars?_chars
  cases hs : s.chars with
  | nil => simp [hs] at hlength
  | cons d ds =>
    rw [hs] at hlength hof
    obtain ⟨hd, hblank⟩ := Sign.head_chars hs
    have hdigit := isDigit_of_not_isWordChar hd
    rw [List.cons_append, lexFrom_nil_cons, if_neg hblank]
    cases ds with
    | nil => rfl
    | cons c ds =>
      obtain rfl : ds = [] := by simpa using hlength
      have hgrows : grows [d] c = true := by simp [grows, hdigit, hd, hof]
      rw [List.cons_append, lexFrom, if_pos hgrows]
      rfl

theorem Lexes.sign (s : Sign) : Lexes s.chars [.sign s] where
  text_ne_nil := by cases s <;> decide
  tokens_ne_nil := by simp
  lex_append rest hrest := by
    rw [lexFrom_sign]
    refine lexFrom_of_not_grows (hrest (.sign s) rfl) ?_
    cases s <;> decide

/-! ## Boundaries -/

/-- Characters that are never a part of a longer lexeme. -/
def isBreak (c : Char) : Bool := c ∈ ['(', ')', '[', ']', ',', '?', ':', ' ']

/-- No sign of two characters has a break in it. -/
theorem Sign.not_isBreak {s : Sign} {a b : Char} (h : s.chars = [a, b]) :
    isBreak a = false ∧ isBreak b = false := by
  cases s <;> cases h <;> decide

/-- A lexeme that is no word grows to a sign of two characters only. -/
theorem exists_chars_of_grows {d c : Char} {ds : List Char} (hd : isWordChar d = false)
    (h : grows (d :: ds) c = true) : ds = [] ∧ ∃ s : Sign, s.chars = [d, c] := by
  have hdigit := isDigit_of_not_isWordChar hd
  simp only [grows, hdigit, hd, Bool.false_eq_true, if_false, Option.isSome_iff_exists] at h
  obtain ⟨s, hs⟩ := h
  have hchars := Sign.chars_of_ofChars? hs
  have hlength := s.length_chars
  rw [hchars] at hlength
  obtain rfl : ds = [] := by simpa using hlength
  exact ⟨rfl, s, hchars⟩

theorem isNumberChar_of_isBreak {c : Char} (h : isBreak c = true) : isNumberChar c = false := by
  simp only [isBreak, decide_eq_true_eq, List.mem_cons, List.not_mem_nil, or_false] at h
  rcases h with rfl | rfl | rfl | rfl | rfl | rfl | rfl | rfl <;> decide

theorem joins_of_isBreak {c : Char} (h : isBreak c = true) (t : Token) : t.joins c = false := by
  have hnumber := isNumberChar_of_isBreak h
  have hword : isWordChar c = false := by
    simp only [isNumberChar, Bool.or_eq_false_iff] at hnumber
    exact hnumber.1
  unfold Token.joins
  cases t.chars with
  | nil => rfl
  | cons d ds =>
    cases hd : isWordChar d with
    | true => simp [grows, hd, hnumber, hword]
    | false =>
      cases hgrows : grows (d :: ds) c with
      | false => rfl
      | true =>
        obtain ⟨-, s, hs⟩ := exists_chars_of_grows hd hgrows
        rw [(Sign.not_isBreak hs).2] at h
        cases h

/-- A text that starts with a break, right after another. -/
theorem Lexes.append_break {cs ds : List Char} {ts us : List Token} {c : Char} (h : Lexes cs ts)
    (h' : Lexes (c :: ds) us) (hc : isBreak c = true) : Lexes (cs ++ c :: ds) (ts ++ us) := by
  refine h.append h' fun t _ b hb => ?_
  obtain rfl : c = b := Option.some.inj hb
  exact joins_of_isBreak hc t

/-- Two texts with a blank between them. -/
theorem Lexes.spaced {cs ds : List Char} {ts us : List Token} (h : Lexes cs ts) (h' : Lexes ds us) :
    Lexes (cs ++ ' ' :: ds) (ts ++ us) := by
  have hblank : Lexes (' ' :: ds) us := by
    refine ⟨by simp, h'.tokens_ne_nil, fun rest hrest => ?_⟩
    rw [List.cons_append, lexFrom_nil_cons, if_pos rfl]
    exact h'.lex_append rest hrest
  exact h.append_break hblank rfl

/-- A break right after a text. -/
theorem Lexes.snoc {cs : List Char} {ts : List Token} {s : Sign} {c : Char} (h : Lexes cs ts)
    (hs : s.chars = [c]) (hc : isBreak c = true) : Lexes (cs ++ [c]) (ts ++ [.sign s]) := by
  have hsign := Lexes.sign s
  rw [hs] at hsign
  exact h.append_break hsign hc

/-- A text right after a break. -/
theorem Lexes.cons {cs : List Char} {ts : List Token} {s : Sign} {c : Char} (h : Lexes cs ts)
    (hs : s.chars = [c]) (hc : isBreak c = true) : Lexes (c :: cs) (.sign s :: ts) := by
  have hsign := Lexes.sign s
  rw [hs] at hsign
  refine hsign.append h fun t ht b _ => ?_
  obtain rfl : Token.sign s = t := Option.some.inj ht
  cases hjoins : (Token.sign s).joins b with
  | false => rfl
  | true =>
    have hword := (Sign.head_chars hs).1
    have hgrows : grows [c] b = true := hs ▸ hjoins
    obtain ⟨-, s', hs'⟩ := exists_chars_of_grows hword hgrows
    rw [(Sign.not_isBreak hs').1] at hc
    cases hc

/-- The name of a member right after a text. -/
theorem Lexes.dot {cs : List Char} {ts : List Token} {m : String} (h : Lexes cs ts)
    (hjoin : ∀ t ∈ ts.getLast?, t.joins '.' = false) (hm : isName m.toList = true) :
    Lexes (cs ++ '.' :: m.toList) (ts ++ [.sign .dot, .name m]) := by
  have hdot : Lexes (['.'] ++ m.toList) ([.sign .dot] ++ [.name m]) := by
    refine (Lexes.sign .dot).append (.name hm) fun t ht c _ => ?_
    obtain rfl : Token.sign .dot = t := Option.some.inj ht
    cases hgrows : grows ['.'] c with
    | false => exact hgrows
    | true =>
      obtain ⟨-, s, hs⟩ := exists_chars_of_grows (by decide) hgrows
      cases s <;> simp [Sign.chars] at hs
  refine h.append hdot fun t ht c hc => ?_
  obtain rfl : '.' = c := Option.some.inj hc
  exact hjoin t ht

/-- A minus sign right before a text. -/
theorem Lexes.minus {cs : List Char} {ts : List Token} (h : Lexes cs ts)
    (hhead : cs.head? ≠ some '-') : Lexes ('-' :: cs) (.sign .minus :: ts) := by
  refine (Lexes.sign .minus).append h fun t ht c hc => ?_
  obtain rfl : Token.sign .minus = t := Option.some.inj ht
  cases hgrows : grows ['-'] c with
  | false => exact hgrows
  | true =>
    obtain ⟨-, s, hs⟩ := exists_chars_of_grows (by decide) hgrows
    have hne : c ≠ '-' := by
      rintro rfl
      exact hhead hc
    cases s <;> simp [Sign.chars, hne.symm] at hs

/-! ## Expressions -/

/-- The text of an expression of level `k` with the tree `e`. -/
def Spells (k : Nat) (cs : List Char) (e : Tree) : Prop := ∃ ts, Lexes cs ts ∧ Derives k ts e

/-- The text can be read as an expression of level `k` with the tree `e`. -/
def Parses (k : Nat) (s : String) (e : Tree) : Prop := ∃ ts, lex s = some ts ∧ Derives k ts e

namespace Spells

variable {k : Nat} {cs ds es : List Char} {a b c e : Tree}

theorem mono {j : Nat} (h : Spells k cs e) (hjk : j ≤ k) : Spells j cs e := by
  obtain ⟨ts, hts, he⟩ := h
  exact ⟨ts, hts, he.mono hjk⟩

/-- A spelled expression has no other tree. -/
theorem parses_iff {s : String} {e' : Tree} (h : Spells k s.toList e) : Parses k s e' ↔ e' = e := by
  obtain ⟨ts, hts, he⟩ := h
  constructor
  · rintro ⟨us, hus, he'⟩
    obtain rfl : ts = us := Option.some.inj (hts.lexFrom_eq.symm.trans hus)
    exact he'.unique he
  · rintro rfl
    exact ⟨ts, hts.lexFrom_eq, he⟩

theorem name {s : String} (hs : isName s.toList = true) (htype : isType s = false) :
    Spells 13 s.toList (.name s) :=
  ⟨_, .name hs, .name htype⟩

theorem number {s : String} (hs : isNumber s.toList = true) : Spells 13 s.toList (.number s) :=
  ⟨_, .number hs, .number⟩

theorem group (h : Spells 0 cs e) : Spells 13 ('(' :: cs ++ [')']) e := by
  obtain ⟨ts, hts, he⟩ := h
  have hopen : Lexes ('(' :: cs) _ := hts.cons (s := .lparen) rfl rfl
  exact ⟨_, hopen.snoc (s := .rparen) rfl rfl, .group he⟩

theorem call (ha : Spells 13 cs a) (hb : Spells 0 ds b) :
    Spells 13 (cs ++ '(' :: ds ++ [')']) (.call a b) := by
  obtain ⟨ts, hts, ha⟩ := ha
  obtain ⟨us, hus, hb⟩ := hb
  have hopen : Lexes ('(' :: ds) _ := hus.cons (s := .lparen) rfl rfl
  exact ⟨_, (hts.append_break hopen rfl).snoc (s := .rparen) rfl rfl, .call ha hb⟩

/-- A value of a type, built from components. -/
theorem construct {t : String} (ht : isName t.toList = true) (htype : isType t = true)
    (hb : Spells 0 ds b) : Spells 13 (t.toList ++ '(' :: ds ++ [')']) (.call (.name t) b) := by
  obtain ⟨us, hus, hb⟩ := hb
  have hopen : Lexes ('(' :: ds) _ := hus.cons (s := .lparen) rfl rfl
  exact ⟨_, ((Lexes.name ht).append_break hopen rfl).snoc (s := .rparen) rfl rfl,
    .construct htype hb⟩

/-- An element of an array. -/
theorem index (ha : Spells 13 cs a) (hb : Spells 0 ds b) :
    Spells 13 (cs ++ '[' :: ds ++ [']']) (.index a b) := by
  obtain ⟨ts, hts, ha⟩ := ha
  obtain ⟨us, hus, hb⟩ := hb
  have hopen : Lexes ('[' :: ds) _ := hus.cons (s := .lbracket) rfl rfl
  exact ⟨_, (hts.append_break hopen rfl).snoc (s := .rbracket) rfl rfl, .index ha hb⟩

/-- A member of an element of an array. -/
theorem index_member {m : String} (ha : Spells 13 cs a) (hb : Spells 0 ds b)
    (hm : isName m.toList = true) :
    Spells 13 (cs ++ '[' :: ds ++ [']'] ++ '.' :: m.toList) (.member (.index a b) m) := by
  obtain ⟨ts, hts, ha⟩ := ha
  obtain ⟨us, hus, hb⟩ := hb
  have hopen : Lexes ('[' :: ds) _ := hus.cons (s := .lbracket) rfl rfl
  refine ⟨_, ((hts.append_break hopen rfl).snoc (s := .rbracket) rfl rfl).dot ?_ hm,
    .member (.index ha hb)⟩
  intro t ht
  rw [List.getLast?_concat] at ht
  obtain rfl : Token.sign .rbracket = t := Option.some.inj ht
  decide

/-- A member of a variable. -/
theorem name_member {s m : String} (hs : isName s.toList = true) (htype : isType s = false)
    (hm : isName m.toList = true) :
    Spells 13 (s.toList ++ '.' :: m.toList) (.member (.name s) m) := by
  refine ⟨_, (Lexes.name hs).dot ?_ hm, .member (.name htype)⟩
  intro t ht
  obtain rfl : Token.name s = t := Option.some.inj ht
  show grows s.toList '.' = false
  cases hchars : s.toList with
  | nil => rfl
  | cons d ds =>
    simp only [hchars, isName, Bool.and_eq_true, Bool.not_eq_true'] at hs
    have hdot : isWordChar '.' = false := by decide
    simp [grows, hs.1.1, hs.1.2, hdot]

theorem minus (ha : Spells 12 cs a) (hhead : cs.head? ≠ some '-') :
    Spells 12 ('-' :: cs) (.unary .minus a) := by
  obtain ⟨ts, hts, ha⟩ := ha
  exact ⟨_, hts.minus hhead, .unary rfl ha⟩

theorem cast {t : String} (ht : isName t.toList = true) (htype : isType t = true)
    (ha : Spells 12 cs a) : Spells 12 ('(' :: (t.toList ++ ')' :: cs)) (.cast t a) := by
  obtain ⟨ts, hts, ha⟩ := ha
  have hclose : Lexes (')' :: cs) _ := hts.cons (s := .rparen) rfl rfl
  exact ⟨_, ((Lexes.name ht).append_break hclose rfl).cons (s := .lparen) rfl rfl, .cast htype ha⟩

theorem binary {op : Sign} (hop : op.level? = some k) (ha : Spells k cs a)
    (hb : Spells (k + 1) ds b) :
    Spells k (cs ++ ' ' :: (op.chars ++ ' ' :: ds)) (.binary op a b) := by
  obtain ⟨ts, hts, ha⟩ := ha
  obtain ⟨us, hus, hb⟩ := hb
  exact ⟨_, hts.spaced ((Lexes.sign op).spaced hus), .binary hop ha hb⟩

/-- Two arguments. -/
theorem comma (ha : Spells 0 cs a) (hb : Spells 1 ds b) :
    Spells 0 (cs ++ [','] ++ ' ' :: ds) (.binary .comma a b) := by
  obtain ⟨ts, hts, ha⟩ := ha
  obtain ⟨us, hus, hb⟩ := hb
  refine ⟨_, (hts.snoc (s := .comma) rfl rfl).spaced hus, ?_⟩
  rw [List.append_assoc]
  exact .binary rfl ha hb

theorem cond (hc : Spells 2 cs c) (ha : Spells 0 ds a) (hb : Spells 1 es b) :
    Spells 1 (cs ++ ' ' :: '?' :: ' ' :: (ds ++ ' ' :: ':' :: ' ' :: es)) (.cond c a b) := by
  obtain ⟨ts, hts, hc⟩ := hc
  obtain ⟨us, hus, ha⟩ := ha
  obtain ⟨vs, hvs, hb⟩ := hb
  have hcolon := hus.spaced ((Lexes.sign .colon).spaced hvs)
  refine ⟨_, hts.spaced ((Lexes.sign .question).spaced hcolon), ?_⟩
  have hcond := Derives.cond hc ha hb
  rw [List.append_assoc] at hcond
  exact hcond

end Spells

end LatteHlsl.Grammar
