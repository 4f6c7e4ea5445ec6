/-!
# The grammar of expressions

Expressions of C without assignments: operators with their precedences, casts, calls, indices,
members and vectors. An expression of level `k` holds no operator outside brackets that binds weaker than `k`:

* 0, the comma, which also separates arguments; 1, the conditional, which groups to the right;
* 2 to 11, the binary operators from `||` to `* / %`, which group to the left;
* 12, unary operators and casts; 13, operands with their indices, arguments and members, and values
  that are built from components.

Main statement: a list of tokens has one tree at most (`Derives.unique`). The proof reads the tokens
from left to right with a stack of open constructs (`step`, `parse`), and shows that whatever tree
the grammar gives is the one that is read (`Derives.reads`).
-/

namespace LatteHlsl.Grammar

/-! ## Tokens and trees -/

/-- Operators and brackets. -/
inductive Sign where
  | lparen | rparen | lbracket | rbracket | dot | comma | question | colon
  | plus | minus | star | slash | percent | amp | bar | caret | shl | shr
  | eq | ne | lt | gt | le | ge | both | either | bang | tilde | incr | decr
deriving DecidableEq

/-- The level of a binary operator. -/
def Sign.level? : Sign → Option Nat
  | .comma => some 0
  | .either => some 2
  | .both => some 3
  | .bar => some 4
  | .caret => some 5
  | .amp => some 6
  | .eq | .ne => some 7
  | .lt | .gt | .le | .ge => some 8
  | .shl | .shr => some 9
  | .plus | .minus => some 10
  | .star | .slash | .percent => some 11
  | _ => none

/-- Whether an operator can stand before its operand. -/
def Sign.isUnary : Sign → Bool
  | .plus | .minus | .bang | .tilde => true
  | _ => false

inductive Token where
  | name (s : String)
  | number (s : String)
  | sign (s : Sign)
deriving DecidableEq

/-- The names of types of scalars and vectors. They start a cast when they stand in parentheses, and
a value that is built from components when arguments follow. -/
def isType (s : String) : Bool :=
  ["bool", "int", "uint", "half", "float", "double"].any fun t =>
    s == t || ["1", "2", "3", "4"].any fun n => s == t ++ n

/-- What an expression means; parentheses leave no trace. -/
inductive Tree where
  | name (s : String)
  | number (s : String)
  | unary (op : Sign) (a : Tree)
  | cast (type : String) (a : Tree)
  | binary (op : Sign) (a b : Tree)
  | cond (c a b : Tree)
  | index (a i : Tree)
  /-- A call; several arguments are joined by commas. -/
  | call (f args : Tree)
  | member (a : Tree) (field : String)
deriving DecidableEq

/-! ## The grammar -/

/-- `Derives k ts e`: the tokens `ts` are an expression of level `k` with the tree `e`. -/
inductive Derives : Nat → List Token → Tree → Prop where
  | weaken {k : Nat} {ts : List Token} {e : Tree} (h : Derives (k + 1) ts e) : Derives k ts e
  | name {s : String} (h : isType s = false) : Derives 13 [.name s] (.name s)
  | number {s : String} : Derives 13 [.number s] (.number s)
  | group {ts : List Token} {e : Tree} (h : Derives 0 ts e) :
      Derives 13 (.sign .lparen :: ts ++ [.sign .rparen]) e
  | index {ts us : List Token} {a i : Tree} (ha : Derives 13 ts a) (hi : Derives 0 us i) :
      Derives 13 (ts ++ .sign .lbracket :: us ++ [.sign .rbracket]) (.index a i)
  | call {ts us : List Token} {f args : Tree} (hf : Derives 13 ts f) (hargs : Derives 0 us args) :
      Derives 13 (ts ++ .sign .lparen :: us ++ [.sign .rparen]) (.call f args)
  | construct {t : String} {us : List Token} {args : Tree} (ht : isType t = true)
      (hargs : Derives 0 us args) :
      Derives 13 (.name t :: .sign .lparen :: us ++ [.sign .rparen]) (.call (.name t) args)
  | member {ts : List Token} {a : Tree} {s : String} (ha : Derives 13 ts a) :
      Derives 13 (ts ++ [.sign .dot, .name s]) (.member a s)
  | unary {op : Sign} {ts : List Token} {a : Tree} (hop : op.isUnary = true)
      (ha : Derives 12 ts a) : Derives 12 (.sign op :: ts) (.unary op a)
  | cast {t : String} {ts : List Token} {a : Tree} (ht : isType t = true) (ha : Derives 12 ts a) :
      Derives 12 (.sign .lparen :: .name t :: .sign .rparen :: ts) (.cast t a)
  | binary {op : Sign} {k : Nat} {ts us : List Token} {a b : Tree} (hop : op.level? = some k)
      (ha : Derives k ts a) (hb : Derives (k + 1) us b) :
      Derives k (ts ++ .sign op :: us) (.binary op a b)
  | cond {ts us vs : List Token} {c a b : Tree} (hc : Derives 2 ts c) (ha : Derives 0 us a)
      (hb : Derives 1 vs b) :
      Derives 1 (ts ++ .sign .question :: us ++ .sign .colon :: vs) (.cond c a b)

theorem Derives.mono {j k : Nat} {ts : List Token} {e : Tree} (h : Derives k ts e) (hjk : j ≤ k) :
    Derives j ts e := by
  induction hjk with
  | refl => exact h
  | step _ ih => exact ih h.weaken

/-! ## Reading from left to right -/

/-- A construct that waits for its last part. -/
inductive Frame where
  | unary (op : Sign)
  | cast (type : String)
  /-- A binary operator of the given level with its left operand. -/
  | left (k : Nat) (op : Sign) (a : Tree)
  /-- A conditional up to its colon. -/
  | otherwise (c a : Tree)
  /-- A conditional up to its question mark. -/
  | choose (c : Tree)
  | group
  | index (a : Tree)
  | call (f : Tree)

/-- The construct with `e` as its last part, if `e` ends where an operator of level `k` follows. -/
def Frame.fill? (k : Nat) (e : Tree) : Frame → Option Tree
  | .unary op => some (.unary op e)
  | .cast t => some (.cast t e)
  | .left j op a => if k ≤ j then some (.binary op a e) else none
  | .otherwise c a => if k ≤ 1 then some (.cond c a e) else none
  | .choose _ | .group | .index _ | .call _ => none

/-- Complete all constructs that end where an operator of level `k` follows. -/
def close (k : Nat) : Tree → List Frame → Tree × List Frame
  | e, [] => (e, [])
  | e, f :: fs =>
    match f.fill? k e with
    | some e' => close k e' fs
    | none => (e, f :: fs)

/-- What is expected next. -/
inductive Mode where
  /-- An operand, or a type if a parenthesis was just opened. -/
  | start (opened : Bool)
  /-- An operator after an operand. -/
  | done (e : Tree)
  /-- The name of a member. -/
  | field (e : Tree)
  /-- Arguments, or the end of a cast if a parenthesis was just opened. -/
  | typed (type : String) (opened : Bool)

/-- Read a sign after an operand. -/
def afterOperand (e : Tree) (fs : List Frame) : Sign → Option (Mode × List Frame)
  | .lbracket => some (.start false, .index e :: fs)
  | .lparen => some (.start false, .call e :: fs)
  | .dot => some (.field e, fs)
  | .question => some (.start false, .choose (close 2 e fs).1 :: (close 2 e fs).2)
  | .colon =>
    match close 0 e fs with
    | (a, .choose c :: fs) => some (.start false, .otherwise c a :: fs)
    | _ => none
  | .rparen =>
    match close 0 e fs with
    | (a, .group :: fs) => some (.done a, fs)
    | (a, .call f :: fs) => some (.done (.call f a), fs)
    | _ => none
  | .rbracket =>
    match close 0 e fs with
    | (i, .index a :: fs) => some (.done (.index a i), fs)
    | _ => none
  | op => op.level?.map fun k => (.start false, .left k op (close k e fs).1 :: (close k e fs).2)

/-- Read a token. -/
def step : Mode → List Frame → Token → Option (Mode × List Frame)
  | .start opened, fs, .name s =>
    if isType s then some (.typed s opened, fs) else some (.done (.name s), fs)
  | .start _, fs, .number s => some (.done (.number s), fs)
  | .start _, fs, .sign .lparen => some (.start true, .group :: fs)
  | .start _, fs, .sign op => if op.isUnary then some (.start false, .unary op :: fs) else none
  | .done e, fs, .sign s => afterOperand e fs s
  | .field e, fs, .name s => some (.done (.member e s), fs)
  | .typed t _, fs, .sign .lparen => some (.start false, .call (.name t) :: fs)
  | .typed t true, .group :: fs, .sign .rparen => some (.start false, .cast t :: fs)
  | _, _, _ => none

/-- Read a list of tokens. -/
def run : Mode → List Frame → List Token → Option (Mode × List Frame)
  | m, fs, [] => some (m, fs)
  | m, fs, t :: ts => (step m fs t).bind fun next => run next.1 next.2 ts

/-- The tree of a whole expression. -/
def parse (ts : List Token) : Option Tree :=
  match run (.start false) [] ts with
  | some (.done e, fs) =>
    match close 0 e fs with
    | (e, []) => some e
    | _ => none
  | _ => none

example : parse [.name "a", .sign .star, .name "b", .sign .plus, .sign .minus, .name "c"] =
    some (.binary .plus (.binary .star (.name "a") (.name "b")) (.unary .minus (.name "c"))) := by
  decide

example : parse [.sign .lparen, .name "float4", .sign .rparen, .sign .lparen, .name "a",
      .sign .rparen] = some (.cast "float4" (.name "a")) := by
  decide

/-! ## What is read is what is derived -/

/-- An operand of level `k` may follow: its operators do not complete the construct. -/
def Frame.Admits (k : Nat) : Frame → Prop
  | .unary _ | .cast _ => 12 ≤ k
  | .left j _ _ => j < k
  | .otherwise _ _ => 1 ≤ k
  | .choose _ | .group | .index _ | .call _ => True

/-- An operand of level `k` may follow in the innermost construct. -/
def Admit (k : Nat) (fs : List Frame) : Prop := ∀ f ∈ fs.head?, f.Admits k

theorem Admit.mono {j k : Nat} {fs : List Frame} (h : Admit j fs) (hjk : j ≤ k) : Admit k fs := by
  intro f hf
  have hadmits := h f hf
  cases f <;> simp only [Frame.Admits] at hadmits ⊢ <;> omega

theorem close_eq_self {k : Nat} {e : Tree} {fs : List Frame}
    (h : ∀ f ∈ fs.head?, f.fill? k e = none) : close k e fs = (e, fs) := by
  cases fs with
  | nil => rfl
  | cons f fs =>
    have hf : f.fill? k e = none := h f rfl
    simp only [close, hf]

theorem level?_le {op : Sign} {k : Nat} (h : op.level? = some k) : k ≤ 11 ∧ k ≠ 1 := by
  cases op <;> simp only [Sign.level?, Option.some.injEq, reduceCtorEq] at h <;> omega

/-- An operator inside an operand leaves the constructs around the operand open. -/
theorem close_level {op : Sign} {k : Nat} {e : Tree} {fs : List Frame} (hop : op.level? = some k)
    (h : Admit k fs) : close k e fs = (e, fs) := by
  obtain ⟨hle, hne⟩ := level?_le hop
  refine close_eq_self fun f hf => ?_
  have hadmits := h f hf
  cases f <;> simp only [Frame.Admits] at hadmits <;> simp [Frame.fill?] <;> omega

theorem close_question {e : Tree} {fs : List Frame} (h : Admit 1 fs) : close 2 e fs = (e, fs) := by
  refine close_eq_self fun f hf => ?_
  have hadmits := h f hf
  cases f <;> simp only [Frame.Admits] at hadmits <;> simp [Frame.fill?] <;> omega

/-- Reading `ts` with the constructs `fs` open comes to the operand `e`, up to constructs that are
completed by whatever ends an expression of level `k`. -/
structure Reads (k : Nat) (fs : List Frame) (ts : List Token) (e e₀ : Tree) (fs₀ : List Frame) :
    Prop where
  run_append : ∀ opened rest, run (.start opened) fs (ts ++ rest) = run (.done e₀) (fs₀ ++ fs) rest
  close_eq : ∀ j ≤ k, j ≤ 11 → close j e₀ (fs₀ ++ fs) = close j e fs
  operand : 13 ≤ k → e₀ = e ∧ fs₀ = []

namespace Reads

variable {k : Nat} {fs fs₀ : List Frame} {ts : List Token} {e e₀ : Tree}

theorem of_operand
    (h : ∀ opened rest, run (.start opened) fs (ts ++ rest) = run (.done e) fs rest) :
    Reads k fs ts e e [] :=
  ⟨h, fun _ _ _ => rfl, fun _ => ⟨rfl, rfl⟩⟩

/-- An operand without anything left open. -/
theorem run_operand (h : Reads 13 fs ts e e₀ fs₀) (opened : Bool) (rest : List Token) :
    run (.start opened) fs (ts ++ rest) = run (.done e) fs rest := by
  obtain ⟨rfl, rfl⟩ := h.operand (Nat.le_refl 13)
  exact h.run_append opened rest

/-- At the end of a bracket all constructs inside it are complete. -/
theorem close_bracket {f : Frame} (h : Reads 0 (f :: fs) ts e e₀ fs₀) (hf : f.fill? 0 e = none) :
    close 0 e₀ (fs₀ ++ f :: fs) = (e, f :: fs) := by
  rw [h.close_eq 0 (Nat.le_refl 0) (Nat.zero_le 11)]
  refine close_eq_self fun g hg => ?_
  obtain rfl : f = g := Option.some.inj hg
  exact hf

/-- The construct around an operand is completed with it. -/
theorem close_frame {f : Frame} {e' : Tree} {j l : Nat} (h : Reads l (f :: fs) ts e e₀ fs₀)
    (hj : j ≤ l) (hj' : j ≤ 11) (hf : f.fill? j e = some e') :
    close j e₀ (fs₀ ++ [f] ++ fs) = close j e' fs := by
  rw [List.append_assoc, List.singleton_append, h.close_eq j hj hj']
  simp only [close, hf]

end Reads

theorem afterOperand_of_level? {op : Sign} {k : Nat} (h : op.level? = some k) (e : Tree)
    (fs : List Frame) :
    afterOperand e fs op =
      some (.start false, .left k op (close k e fs).1 :: (close k e fs).2) := by
  cases op <;> simp only [Sign.level?, Option.some.injEq, reduceCtorEq] at h <;> subst h <;> rfl

theorem step_of_isUnary {op : Sign} (h : op.isUnary = true) (opened : Bool) (fs : List Frame) :
    step (.start opened) fs (.sign op) = some (.start false, .unary op :: fs) := by
  cases op <;> simp only [Sign.isUnary, Bool.false_eq_true] at h <;> rfl

/-- What the grammar derives is read. -/
theorem Derives.reads {k : Nat} {ts : List Token} {e : Tree} (h : Derives k ts e) :
    ∀ fs, Admit k fs → ∃ e₀ fs₀, Reads k fs ts e e₀ fs₀ := by
  induction h with
  | weaken _ ih =>
    intro fs hfs
    obtain ⟨e₀, fs₀, hr⟩ := ih fs (hfs.mono (Nat.le_succ _))
    exact ⟨e₀, fs₀, hr.run_append, fun j hj => hr.close_eq j (Nat.le_succ_of_le hj),
      fun hk => hr.operand (Nat.le_succ_of_le hk)⟩
  | name hs =>
    intro fs _
    refine ⟨_, _, .of_operand fun opened rest => ?_⟩
    simp [run, step, hs]
  | number => exact fun fs _ => ⟨_, _, .of_operand fun _ _ => rfl⟩
  | @group ts e _ ih =>
    intro fs _
    obtain ⟨e₀, fs₀, hr⟩ := ih (.group :: fs) (by simp [Admit, Frame.Admits])
    refine ⟨_, _, .of_operand fun opened rest => ?_⟩
    rw [List.cons_append, List.cons_append, List.append_assoc]
    show run (.start true) (.group :: fs) (ts ++ .sign .rparen :: rest) = _
    rw [hr.run_append]
    simp only [run, step, afterOperand, hr.close_bracket rfl, Option.bind_some]
  | @index ts us a i _ _ iha ihi =>
    intro fs hfs
    obtain ⟨_, _, hra⟩ := iha fs hfs
    obtain ⟨i₀, fs₀, hri⟩ := ihi (.index a :: fs) (by simp [Admit, Frame.Admits])
    refine ⟨_, _, .of_operand fun opened rest => ?_⟩
    rw [List.append_assoc, List.append_assoc, hra.run_operand]
    show run (.start false) (.index a :: fs) (us ++ .sign .rbracket :: rest) = _
    rw [hri.run_append]
    simp only [run, step, afterOperand, hri.close_bracket rfl, Option.bind_some]
  | @call ts us f args _ _ ihf ihargs =>
    intro fs hfs
    obtain ⟨_, _, hrf⟩ := ihf fs hfs
    obtain ⟨args₀, fs₀, hrargs⟩ := ihargs (.call f :: fs) (by simp [Admit, Frame.Admits])
    refine ⟨_, _, .of_operand fun opened rest => ?_⟩
    rw [List.append_assoc, List.append_assoc, hrf.run_operand]
    show run (.start false) (.call f :: fs) (us ++ .sign .rparen :: rest) = _
    rw [hrargs.run_append]
    simp only [run, step, afterOperand, hrargs.close_bracket rfl, Option.bind_some]
  | @construct t us args ht _ ih =>
    intro fs _
    obtain ⟨args₀, fs₀, hr⟩ := ih (.call (.name t) :: fs) (by simp [Admit, Frame.Admits])
    refine ⟨_, _, .of_operand fun opened rest => ?_⟩
    rw [List.cons_append, List.cons_append, List.cons_append, List.cons_append, List.append_assoc]
    simp only [run, step, ht, if_true, Option.bind_some, hr.run_append]
    show run (.done args₀) (fs₀ ++ .call (.name t) :: fs) (.sign .rparen :: rest) = _
    simp only [run, step, afterOperand, hr.close_bracket rfl, Option.bind_some]
  | member _ ih =>
    intro fs hfs
    obtain ⟨_, _, hr⟩ := ih fs hfs
    refine ⟨_, _, .of_operand fun opened rest => ?_⟩
    rw [List.append_assoc, hr.run_operand]
    rfl
  | @unary op ts a hop _ ih =>
    intro fs _
    obtain ⟨a₀, fs₀, hr⟩ := ih (.unary op :: fs) (by simp [Admit, Frame.Admits])
    refine ⟨a₀, fs₀ ++ [.unary op], fun opened rest => ?_, fun j hj hj' => ?_, by omega⟩
    · rw [List.cons_append, run, step_of_isUnary hop, Option.bind_some, hr.run_append]
      simp
    · exact hr.close_frame hj hj' rfl
  | @cast t ts a ht _ ih =>
    intro fs _
    obtain ⟨a₀, fs₀, hr⟩ := ih (.cast t :: fs) (by simp [Admit, Frame.Admits])
    refine ⟨a₀, fs₀ ++ [.cast t], fun opened rest => ?_, fun j hj hj' => ?_, by omega⟩
    · simp [run, step, ht, hr.run_append]
    · exact hr.close_frame hj hj' rfl
  | @binary op k ts us a b hop _ _ iha ihb =>
    intro fs hfs
    obtain ⟨a₀, fs₀, hra⟩ := iha fs hfs
    obtain ⟨b₀, gs₀, hrb⟩ := ihb (.left k op a :: fs) (by simp [Admit, Frame.Admits])
    have hk := (level?_le hop).1
    -- the operator completes what is open in its left operand, and nothing around it
    have hclose : close k a₀ (fs₀ ++ fs) = (a, fs) := by
      rw [hra.close_eq k (Nat.le_refl k) hk, close_level hop hfs]
    refine ⟨b₀, gs₀ ++ [.left k op a], fun opened rest => ?_, fun j hj hj' => ?_, by omega⟩
    · rw [List.append_assoc, hra.run_append, List.cons_append, run]
      simp only [step, afterOperand_of_level? hop, hclose, Option.bind_some, hrb.run_append]
      simp
    · exact hrb.close_frame (Nat.le_succ_of_le hj) hj' (by simp [Frame.fill?, hj])
  | @cond ts us vs c a b _ _ _ ihc iha ihb =>
    intro fs hfs
    obtain ⟨c₀, fs₀, hrc⟩ := ihc fs (hfs.mono (Nat.le_succ 1))
    obtain ⟨a₀, gs₀, hra⟩ := iha (.choose c :: fs) (by simp [Admit, Frame.Admits])
    obtain ⟨b₀, hs₀, hrb⟩ := ihb (.otherwise c a :: fs) (by simp [Admit, Frame.Admits])
    have hclose : close 2 c₀ (fs₀ ++ fs) = (c, fs) := by
      rw [hrc.close_eq 2 (Nat.le_refl 2) (by omega), close_question hfs]
    refine ⟨b₀, hs₀ ++ [.otherwise c a], fun opened rest => ?_, fun j hj hj' => ?_, by omega⟩
    · rw [List.append_assoc, List.append_assoc, hrc.run_append, List.cons_append, run]
      simp only [step, afterOperand, hclose, Option.bind_some, List.append_assoc, List.cons_append]
      rw [hra.run_append, run]
      simp only [step, afterOperand, hra.close_bracket rfl, Option.bind_some]
      rw [hrb.run_append]
      simp
    · exact hrb.close_frame hj hj' (by simp [Frame.fill?, hj])

theorem Derives.parse_eq {k : Nat} {ts : List Token} {e : Tree} (h : Derives k ts e) :
    parse ts = some e := by
  obtain ⟨e₀, fs₀, hr⟩ := (h.mono (Nat.zero_le k)).reads [] (by simp [Admit])
  have hrun := hr.run_append false []
  have hclose := hr.close_eq 0 (Nat.le_refl 0) (Nat.zero_le 11)
  rw [List.append_nil] at hrun hclose
  unfold parse
  rw [hrun]
  simp only [run, List.append_nil, hclose, close]

/-- A list of tokens has one tree at most. -/
theorem Derives.unique {j k : Nat} {ts : List Token} {e e' : Tree} (h : Derives j ts e)
    (h' : Derives k ts e') : e = e' :=
  Option.some.inj (h.parse_eq.symm.trans h'.parse_eq)

end LatteHlsl.Grammar
