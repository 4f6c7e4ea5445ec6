import LatteHlsl.Proofs.StatementText

/-!
# Executing the text of a group

`Execution` says what the statements of a group do. Here the same is said of their text: lines are
read as assignments, the expressions on their right are evaluated as they are read, and the values
are stored where the expressions on their left say. Numbers, constants, operators and functions may
mean anything.

* `Numerics`: an interpretation of what expressions are made of.
* `Numerics.values`, `Numerics.store`, `Numerics.execText`: expressions, assignments and lines.
* `Numerics.interp`: what operands and operations mean then.
* `Numerics.execText_linesText`: the text of a group does what its statements do.
* `execAll_walkGroup`: the statements of a compiled group, and their text, lead to `parallel`.
-/

namespace LatteHlsl.Meaning

open Isa Hlsl Compile Grammar

variable {V : Type}

/-! ## Expressions -/

/-- An interpretation of what expressions are made of. Values may be of any type, vectors too. -/
structure Numerics (V : Type) where
  /-- A number in hexadecimal digits. -/
  word : Nat → V
  /-- Any other number. -/
  number : String → V
  /-- A channel of an element of a constant array. -/
  constant : (array : String) → Int → Chan → V
  unary : Sign → V → V
  cast : (type : String) → V → V
  binary : Sign → V → V → V
  cond : V → V → V → V
  call : (fn : String) → List V → V
  /-- The integer that a value stands for. -/
  toInt : V → Int

/-- The only one of some values. -/
def only? {α : Type} : List α → Option α
  | [v] => some v
  | _ => none

/-- The value of an upper-case hexadecimal digit. -/
def hexDigit? (c : Char) : Option Nat :=
  if c.isDigit then some (c.toNat - 48)
  else if 'A' ≤ c ∧ c ≤ 'F' then some (c.toNat - 55) else none

/-- The value of an unsigned number in hexadecimal digits. -/
def hexNumeral? (n : String) : Option Nat :=
  match n.toList with
  | '0' :: 'x' :: cs =>
    if cs.getLast? = some 'u' then
      (cs.dropLast.mapM hexDigit?).map fun ds => ds.foldl (fun n d => 16 * n + d) 0
    else none
  | _ => none

/-- The channel that a member names. -/
def channel? (m : String) : Option Chan := (swizzle? m).bind only?

/-- The value of an index. -/
def indexOf? (r : Regs V) : Tree → Option Int
  | .number n => (decimal? n).map Int.ofNat
  | .name n => if n = "AL" then some r.al else none
  | .member t m => if t = .name "AR" then (channel? m).map r.ar else none
  | .binary op a b =>
    if op = .plus then (indexOf? r a).bind fun j => (indexOf? r b).map fun k => j + k else none
  | _ => none

namespace Numerics

variable (N : Numerics V)

def numeral (n : String) : V := ((hexNumeral? n).map N.word).getD (N.number n)

/-- The channels of a vector: of the results of groups, of a register or of a constant. -/
def vector? (s : State V) : Tree → Option (Chan → V)
  | .name n => if n = "PV" then some s.pv else if n = "PVo" then some s.pvo else none
  | .index (.name a) i =>
    (indexOf? s.toRegs i).map fun k => if a = "R" then s.gpr k else N.constant a k
  | _ => none

/-- The values of an expression; there is more than one only where commas join arguments. -/
def values (s : State V) : Tree → Option (List V)
  | .name n => if n = "PS" then some [s.ps] else if n = "PSo" then some [s.pso] else none
  | .number n => some [N.numeral n]
  | .member t m => (channel? m).bind fun c => (N.vector? s t).map fun q => [q c]
  | .unary op a => ((values s a).bind only?).map fun v => [N.unary op v]
  | .cast t a => ((values s a).bind only?).map fun v => [N.cast t v]
  | .binary op a b =>
    (values s a).bind fun xs => (values s b).bind fun ys =>
      if op = .comma then some (xs ++ ys)
      else (only? xs).bind fun x => (only? ys).map fun y => [N.binary op x y]
  | .cond c a b =>
    ((values s c).bind only?).bind fun z => ((values s a).bind only?).bind fun x =>
      ((values s b).bind only?).map fun y => [N.cond z x y]
  | .call (.name f) args => (values s args).map fun vs => [N.call f vs]
  | .call _ _ | .index _ _ => none

/-- The value of an expression. -/
def eval (s : State V) (t : Tree) : Option V := (N.values s t).bind only?

/-- The channels of the right side of an assignment to a whole vector. A scalar that is cast to a
vector is its value in every channel. -/
def evalVector (s : State V) : Tree → Option (Chan → V)
  | .cast t a => if t = "float4" then (N.eval s a).map fun v _ => v else none
  | t => N.vector? s t

/-! ## Assignments -/

/-- Assign the value of an expression to a variable or to a channel of one. -/
def store (s : State V) (l e : Tree) : Option (State V) :=
  match l with
  | .name n =>
    if n = "PVo" then (N.evalVector s e).map fun q => { s with pvo := q }
    else if n = "PV" then (N.evalVector s e).map fun q => { s with pv := q }
    else if n = "PSo" then (N.eval s e).map fun v => { s with pso := v }
    else if n = "PS" then (N.eval s e).map fun v => { s with ps := v }
    else none
  | .member t m =>
    (channel? m).bind fun chan => (N.eval s e).bind fun v =>
      match t with
      | .name n =>
        if n = "PVo" then some { s with pvo := fun c => if c = chan then v else s.pvo c }
        else if n = "AR" then some { s with ar := fun c => if c = chan then N.toInt v else s.ar c }
        else none
      | .index a i =>
        if a = .name "R" then
          (indexOf? s.toRegs i).map fun k => { s with toRegs := s.toRegs.write k chan v }
        else none
      | _ => none
  | _ => none

/-- Whether a line holds no code: nothing but blanks, or a comment. -/
def isIdle (line : String) : Bool :=
  let rest := line.toList.dropWhile (· = ' ')
  rest.isEmpty || "//".toList.isPrefixOf rest

/-- Execute a line of code. -/
def execLine (s : State V) (line : String) : Option (State V) :=
  if isIdle line then some s else (sides? line).bind fun p => N.store s p.1 p.2

/-- Execute a text, line by line. -/
def execText (s : State V) (text : String) : Option (State V) :=
  (codeLines text).foldlM N.execLine s

/-! ## Operands and operations -/

/-- What an operand refers to: a constant, or the content of a register. -/
def refValue (r : Regs V) : Ref → V
  | .gpr k c => r.gpr k c
  | .uniform b k c => N.constant s!"CB{b.val}" k c
  | .cfile k c => N.constant "C" k c
  | .zero => N.number "0.0f"
  | .one => N.number "1.0f"
  | .half => N.number "0.5f"
  | .intOne => N.call "asfloat" [N.number "1"]
  | .intMinusOne => N.call "asfloat" [N.unary .minus (N.number "1")]
  | .literal bits => N.call "asfloat" [N.word bits.toNat]
  | .prevVector c => r.pv c
  | .prevScalar => r.ps

/-- The absolute value, then the sign, then the domain. -/
def modified (abs neg : Bool) (view : Domain) (v : V) : V :=
  let v := if abs then N.call "abs" [v] else v
  let v := if neg then N.unary .minus v else v
  match view with
  | .float => v
  | .int => N.call "asint" [v]
  | .uint => N.call "asuint" [v]

/-- An operation on the values of its operands. -/
def apply : Fn → List V → V
  | .copy, [a] => a
  | .call .frac, [a] => N.call "frac" [a]
  | .call .trunc, [a] => N.call "trunc" [a]
  | .call .floor, [a] => N.call "floor" [a]
  | .call .rsqrt, [a] => N.call "rsqrt" [a]
  | .call .sqrt, [a] => N.call "sqrt" [a]
  | .convert .toFloat, [a] => N.cast "float" a
  | .convert .toInt, [a] => N.cast "int" a
  | .recip, [a] => N.binary .slash (N.number "1.0f") a
  | .binary op, [a, b] => N.binary op.token a b
  | .call2 .max, [a, b] => N.call "max" [a, b]
  | .call2 .min, [a, b] => N.call "min" [a, b]
  | .mulAdd, [a, b, c] => N.binary .plus (N.binary .star a b) c
  | .select test, [a, b, c] => N.cond (N.binary test.token a (N.number "0.0f")) b c
  | .max4, [a, b, c, d] => N.call "max" [N.call "max" [a, b], N.call "max" [c, d]]
  | .dot, vs => N.call "dot" [N.call "float4" (vs.take 4), N.call "float4" (vs.drop 4)]
  | _, vs => N.call "" vs

def scaled (v : V) : OutputModifier → V
  | .off => v
  | .mul2 => N.binary .star v (N.number "2.0f")
  | .mul4 => N.binary .star v (N.number "4.0f")
  | .div2 => N.binary .slash v (N.number "2.0f")

/-- The interpretation of operands and operations. -/
def interp : Interp V where
  read x r := N.modified x.abs x.neg x.view (N.refValue r x.ref)
  apply := N.apply
  reinterpret v := N.call "asfloat" [v]
  scale omod v := N.scaled v omod
  saturate v := N.call "saturate" [v]
  address v := N.toInt
    (N.call "clamp"
      [N.cast "int" (N.call "floor" [v]), N.unary .minus (N.number "256"), N.number "255"])

end Numerics

/-! ## Numbers and indices -/

theorem hexDigit?_digitChar : ∀ d < 16, hexDigit? (Nat.digitChar d).toUpper = some d := by decide

/-- Hexadecimal digits are read as the number that they stand for. -/
theorem mapM_hexDigit?_toDigits (n : Nat) :
    ∃ ds, ((Nat.toDigits 16 n).map Char.toUpper).mapM hexDigit? = some ds ∧
      ds.foldl (fun n d => 16 * n + d) 0 = n := by
  induction n using Nat.strongRecOn with
  | ind n ih =>
    rw [Nat.toDigits_eq_if (by decide)]
    split
    · rename_i hlt
      exact ⟨[n], by simp [hexDigit?_digitChar n hlt], by simp⟩
    · obtain ⟨ds, hds, hvalue⟩ := ih (n / 16) (by omega)
      have hlast := hexDigit?_digitChar (n % 16) (Nat.mod_lt n (by decide))
      refine ⟨ds ++ [n % 16], by simp [List.mapM_append, hds, hlast], ?_⟩
      rw [List.foldl_append, hvalue]
      simpa using Nat.div_add_mod n 16

theorem hexNumeral?_hexWord (w : Word) : hexNumeral? s!"0x{Atom.hexWord w}u" = some w.toNat := by
  obtain ⟨ds, hds, hvalue⟩ := mapM_hexDigit?_toDigits w.toNat
  have hzero : ∀ k, (List.replicate k '0').mapM hexDigit? = some (List.replicate k 0) := by
    intro k
    induction k with
    | zero => rfl
    | succ k ih => simp [List.replicate_succ, ih, hexDigit?]
  have hzeros : ∀ k, (List.replicate k 0).foldl (fun n d => 16 * n + d) 0 = 0 := by
    intro k
    induction k with
    | zero => rfl
    | succ k ih => simpa [List.replicate_succ] using ih
  have htext : (s!"0x{Atom.hexWord w}u").toList =
      '0' :: 'x' :: ((Atom.hexWord w).toList ++ ['u']) := by
    simp
  rw [hexNumeral?, htext]
  simp only [List.getLast?_concat, List.dropLast_concat, if_true]
  rw [Atom.hexWord, String.toList_ofList, List.mapM_append, hzero, hds]
  simp [hzeros, hvalue]

theorem channel?_letter (c : Chan) : channel? (toString c.letter) = some c := by
  rw [channel?, ← swizzleText_singleton, swizzle?_swizzleText]
  rfl

theorem indexOf?_reg (r : Regs V) (x : IndexReg) : indexOf? r x.tree = some (offset r x) := by
  cases x with
  | ar c => simp [IndexReg.tree, memberOf, indexOf?, channel?_letter, offset]
  | al => simp [IndexReg.tree, indexOf?, offset]

/-- The registers of an index are added one by one. -/
theorem indexOf?_offsets {r : Regs V} (xs : List IndexReg) {t : Tree} {k : Int}
    (h : indexOf? r t = some k) :
    indexOf? r (xs.foldl (fun t x => .binary .plus t x.tree) t) =
      some (k + (xs.map (offset r)).sum) := by
  induction xs generalizing t k with
  | nil => simpa using h
  | cons x xs ih =>
    have hadd : indexOf? r (.binary .plus t x.tree) = some (k + offset r x) := by
      simp [indexOf?, h, indexOf?_reg]
    rw [List.foldl_cons, ih hadd, List.map_cons, List.sum_cons, Int.add_assoc]

theorem indexOf?_tree (r : Regs V) (k : Index) : indexOf? r k.tree = some (indexValue r k) := by
  refine indexOf?_offsets k.offsets ?_
  rw [indexOf?, decimal?_toString]
  rfl

/-! ## The values of expressions -/

namespace Numerics

variable (N : Numerics V) (s : State V)

theorem numeral_of_none {n : String} (h : hexNumeral? n = none) : N.numeral n = N.number n := by
  rw [numeral, h]
  rfl

theorem numeral_hexWord (w : Word) : N.numeral s!"0x{Atom.hexWord w}u" = N.word w.toNat := by
  rw [numeral, hexNumeral?_hexWord]
  rfl

theorem values_number {n : String} (h : hexNumeral? n = none) :
    N.values s (.number n) = some [N.number n] := by
  rw [values, N.numeral_of_none h]

theorem values_memberOf {t : Tree} {q : Chan → V} (h : N.vector? s t = some q) (c : Chan) :
    N.values s (memberOf t c) = some [q c] := by
  simp [memberOf, values, channel?_letter, h]

theorem vector?_register (k : Index) :
    N.vector? s (.index (.name "R") k.tree) = some (s.gpr (indexValue s.toRegs k)) := by
  simp [vector?, indexOf?_tree]

theorem vector?_constant {a : String} (h : a ≠ "R") (k : Index) :
    N.vector? s (.index (.name a) k.tree) = some (N.constant a (indexValue s.toRegs k)) := by
  simp [vector?, indexOf?_tree, h]

theorem block_ne_register : ∀ b : Slot, s!"CB{b.val}" ≠ "R" := by decide

section

variable {N s} {a b c : Tree} {x y z : V}

theorem values_unary {o : Sign} (h : N.values s a = some [x]) :
    N.values s (.unary o a) = some [N.unary o x] := by
  simp [values, h, only?]

theorem values_cast {t : String} (h : N.values s a = some [x]) :
    N.values s (.cast t a) = some [N.cast t x] := by
  simp [values, h, only?]

theorem values_binary {o : Sign} (ho : o ≠ .comma) (ha : N.values s a = some [x])
    (hb : N.values s b = some [y]) : N.values s (.binary o a b) = some [N.binary o x y] := by
  simp [values, ha, hb, ho, only?]

theorem values_cond (hc : N.values s c = some [z]) (ha : N.values s a = some [x])
    (hb : N.values s b = some [y]) : N.values s (.cond c a b) = some [N.cond z x y] := by
  simp [values, ha, hb, hc, only?]

theorem values_callOf {f : String} {vs : List V} (h : N.values s a = some vs) :
    N.values s (callOf f a) = some [N.call f vs] := by
  simp [callOf, values, h]

theorem values_modified (h : N.values s a = some [x]) (abs neg : Bool) (view : Domain) :
    N.values s (modifiedTree abs neg view a) = some [N.modified abs neg view x] := by
  have habs : N.values s (if abs then callOf "abs" a else a) =
      some [if abs then N.call "abs" [x] else x] := by
    cases abs with
    | false => exact h
    | true => exact values_callOf h
  have hneg : N.values s (if neg then .unary .minus (if abs then callOf "abs" a else a)
        else if abs then callOf "abs" a else a) =
      some [if neg then N.unary .minus (if abs then N.call "abs" [x] else x)
        else if abs then N.call "abs" [x] else x] := by
    cases neg with
    | false => exact habs
    | true => exact values_unary habs
  cases view with
  | float => exact hneg
  | int | uint => exact values_callOf hneg

theorem values_comma {vs ws : List V} (ha : N.values s a = some vs) (hb : N.values s b = some ws) :
    N.values s (.binary .comma a b) = some (vs ++ ws) := by
  simp [values, ha, hb]

/-- Arguments are evaluated from left to right. -/
theorem values_commas {α : Type} {tree : α → Tree} {value : α → V} {as : List α}
    (h : ∀ a ∈ as, N.values s (tree a) = some [value a]) {vs : List V}
    (ht : N.values s a = some vs) :
    N.values s ((as.map tree).foldl (.binary .comma) a) = some (vs ++ as.map value) := by
  induction as generalizing a vs with
  | nil => simpa using ht
  | cons b as ih =>
    obtain ⟨hb, has⟩ := List.forall_mem_cons.mp h
    rw [List.map_cons, List.foldl_cons, ih has (values_comma ht hb), List.map_cons,
      List.append_assoc]
    rfl

theorem values_arguments {α : Type} {tree : α → Tree} {value : α → V} {as : List α} (hne : as ≠ [])
    (h : ∀ a ∈ as, N.values s (tree a) = some [value a]) :
    N.values s (argumentsTree (as.map tree)) = some (as.map value) := by
  cases as with
  | nil => exact absurd rfl hne
  | cons a as =>
    obtain ⟨ha, has⟩ := List.forall_mem_cons.mp h
    exact values_commas has ha

theorem values_two (ha : N.values s a = some [x]) (hb : N.values s b = some [y]) :
    N.values s (argumentsTree [a, b]) = some [x, y] := values_comma ha hb

end

theorem values_atom (a : Atom) :
    N.values s a.tree = some [N.refValue s.toRegs (atomRef s.toRegs a)] := by
  cases a with
  | gpr k c => exact N.values_memberOf s (N.vector?_register s k) c
  | uniform b k c => exact N.values_memberOf s (N.vector?_constant s (block_ne_register b) k) c
  | cfile k c => exact N.values_memberOf s (N.vector?_constant s (by decide) k) c
  | zero | one | half => exact N.values_number s (by decide)
  | intOne => exact values_callOf (N.values_number s (by decide))
  | intMinusOne => exact values_callOf (values_unary (N.values_number s (by decide)))
  | literal bits =>
    refine values_callOf ?_
    rw [values, numeral_hexWord]
  | prevVector c => exact N.values_memberOf s (by simp [vector?]) c
  | prevScalar => simp [Atom.tree, values, refValue, atomRef]

theorem values_source (x : Source) : N.values s x.tree = some [sourceValue N.interp s.toRegs x] :=
  values_modified (N.values_atom s x.atom) x.abs x.neg x.view

theorem values_arith {a : Arith} (h : a.IsSized) :
    N.values s a.tree = some [arithValue N.interp s.toRegs a] := by
  have hx := N.values_source s
  have hvector : ∀ xs : List Source, xs.length = 4 →
      N.values s (vectorTree (xs.map Source.tree)) =
        some [N.call "float4" (xs.map (sourceValue N.interp s.toRegs))] := by
    intro xs hxs
    refine values_callOf (values_arguments ?_ fun x _ => hx x)
    rintro rfl
    cases hxs
  cases a with
  | copy a => exact hx a
  | call fn a => cases fn <;> exact values_callOf (hx a)
  | convert kind a => cases kind <;> exact values_cast (hx a)
  | recip a => exact values_binary (by decide) (N.values_number s (by decide)) (hx a)
  | binary op a b => exact values_binary (by cases op <;> decide) (hx a) (hx b)
  | call2 fn a b => cases fn <;> exact values_callOf (values_two (hx a) (hx b))
  | mulAdd a b c =>
    exact values_binary (by decide) (values_binary (by decide) (hx a) (hx b)) (hx c)
  | select test a b c =>
    have htest := values_binary (o := test.token) (by cases test <;> decide) (hx a)
      (N.values_number s (n := "0.0f") (by decide))
    exact values_cond htest (hx b) (hx c)
  | dot as bs =>
    have hdot : N.values s (Arith.dot as bs).tree = _ :=
      values_callOf (values_two (hvector as h.1) (hvector bs h.2))
    rw [hdot]
    simp [arithValue, arithFn, Arith.operands, interp, apply, h.1]
  | max4 a b c d =>
    exact values_callOf (values_two (values_callOf (values_two (hx a) (hx b)))
      (values_callOf (values_two (hx c) (hx d))))

theorem values_result {x : Result} (h : x.value.IsSized) :
    N.values s x.tree = some [resultValue N.interp s.toRegs x] := by
  have hvalue := N.values_arith s h
  have hscale : ∀ omod, N.values s (scaleTree x.value.tree omod) =
      some [N.scaled (arithValue N.interp s.toRegs x.value) omod] := by
    intro omod
    cases omod with
    | off => exact hvalue
    | mul2 | mul4 | div2 => exact values_binary (by decide) hvalue (N.values_number s (by decide))
  unfold Result.tree resultValue
  cases x.finish with
  | reinterpret => exact values_callOf hvalue
  | float omod clamp =>
    cases clamp with
    | false => exact hscale omod
    | true => exact values_callOf (hscale omod)

theorem values_laneOut (o : LaneOut) : N.values s o.tree = some [s.out o] := by
  cases o with
  | vector c => exact N.values_memberOf s (by simp [vector?]) c
  | scalar => simp [LaneOut.tree, values, State.out]

theorem values_address (x : Source) :
    ∃ v, N.values s (addressTree x.tree) = some [v] ∧
      N.toInt v = N.interp.address (sourceValue N.interp s.toRegs x) := by
  refine ⟨_, values_callOf ?_, rfl⟩
  have hfloor := values_cast (t := "int") (values_callOf (f := "floor") (N.values_source s x))
  have hlow := values_unary (o := .minus) (N.values_number s (n := "256") (by decide))
  have hhigh := N.values_number s (n := "255") (by decide)
  exact values_comma (values_comma hfloor hlow) hhigh

/-! ## Statements and lines -/

theorem put_vector (chan : Chan) (v : V) :
    s.put (.ofChan chan) (some v) = { s with pvo := fun c => if c = chan then v else s.pvo c } := by
  have hchan : ∀ c, (Lane.ofChan chan = .ofChan c) = (c = chan) := by
    intro c
    cases chan <;> cases c <;> decide
  have ht : Lane.ofChan chan ≠ .t := by cases chan <;> decide
  simp [State.put, hchan, ht]

theorem put_scalar (v : V) : s.put .t (some v) = { s with pso := v } := by
  have hchan : ∀ c, Lane.t ≠ .ofChan c := by
    intro c
    cases c <;> decide
  simp [State.put, hchan]

/-- A statement of a group does what the assignment of its right side to its left side does. -/
theorem store_sides {cf : CfInstr} {g : AluGroup} {x : Stmt} (hx : GroupStmt cf g x) :
    (x.sides?.bind fun p => N.store s p.1 p.2) = exec N.interp s x := by
  have heval : ∀ {t : Tree} {v : V}, N.values s t = some [v] → N.eval s t = some v := by
    intro t v h
    rw [eval, h]
    rfl
  cases hx with
  | @lane out x _ hsized =>
    have hvalue := heval (N.values_result s hsized)
    cases out with
    | vector c =>
      simp [Stmt.sides?, LaneOut.tree, memberOf, store, channel?_letter, hvalue, exec, laneOut,
        put_vector]
    | scalar => simp [Stmt.sides?, LaneOut.tree, store, hvalue, exec, laneOut, put_scalar]
  | reduction _ hsized =>
    simp [Stmt.sides?, store, evalVector, heval (N.values_result s hsized), exec]
  | @address chan x _ =>
    obtain ⟨v, hv, haddress⟩ := N.values_address s x
    simp [Stmt.sides?, memberOf, store, channel?_letter, heval hv, haddress, exec]
  | @regWrite w _ =>
    have hvalue := heval (N.values_laneOut s w.value)
    simp only [Stmt.sides?, registerTree, memberOf, Option.bind_some, store, channel?_letter,
      hvalue, indexOf?_tree, if_true]
    rfl
  | latchVector => simp [Stmt.sides?, store, evalVector, vector?, exec]
  | latchScalar => simp [Stmt.sides?, store, eval, values, only?, exec]

/-- A line with a statement of a group does what the statement does. -/
theorem execLine_stmt {cf : CfInstr} {g : AluGroup} {x : Stmt} (hx : GroupStmt cf g x)
    (depth : Nat) :
    N.execLine s (TextLine.mk depth x.text).shown = exec N.interp s x := by
  have hidle : isIdle (TextLine.mk depth x.text).shown = false := by
    obtain ⟨hblank, hslash⟩ := x.initial_ne
    unfold isIdle
    rw [TextLine.dropWhile_shown]
    obtain ⟨cs, htext⟩ := List.head?_eq_some_iff.mp x.head?_text
    simp [htext, hblank, List.isPrefixOf, hslash.symm]
  rw [execLine, hidle, if_neg Bool.false_ne_true, x.sides?_shown (isReadable_of_groupStmt hx),
    N.store_sides s hx]

theorem execLine_note {l : Line} (h : l.stmt? = none) (depth : Nat) :
    N.execLine s (TextLine.mk depth l.text).shown = some s := by
  have hidle : isIdle (TextLine.mk depth l.text).shown = true := by
    unfold isIdle
    rw [TextLine.dropWhile_shown]
    unfold Line.text
    cases l with
    | stmt x => cases h
    | controlNote pc op | groupNote pc => simp
  rw [execLine, hidle, if_pos rfl]

/-- The text of the lines of a group does what their statements do. -/
theorem execText_linesText {cf : CfInstr} {g : AluGroup} {ls : List Line}
    (h : ∀ x ∈ ls.filterMap Line.stmt?, GroupStmt cf g x) :
    N.execText s (Output.linesText ls) = execAll N.interp s (ls.filterMap Line.stmt?) := by
  have hsingle : SingleLines (TextLine.atDepth 1 (ls.map Line.text)) := by simp
  rw [execText, Output.linesText, codeLines_renderAll hsingle]
  clear hsingle
  induction ls generalizing s with
  | nil => rfl
  | cons l ls ih =>
    simp only [TextLine.atDepth, List.map_cons, List.cons_append, List.foldlM_cons] at ih ⊢
    cases hl : l.stmt? with
    | none =>
      rw [List.filterMap_cons_none hl] at h ⊢
      rw [N.execLine_note s hl]
      exact ih s h
    | some x =>
      rw [List.filterMap_cons_some hl] at h ⊢
      obtain ⟨hx, hls⟩ := List.forall_mem_cons.mp h
      cases l with
      | stmt y =>
        cases hl
        rw [Line.text, N.execLine_stmt s hx, execAll, List.foldlM_cons]
        exact congrArg _ (funext fun t => ih t hls)
      | controlNote pc op | groupNote pc => cases hl

end Numerics

/-! ## Groups -/

/-- A compiled group appends statements that bring any registers to those after the group, whatever
writes were still held back before it. The text of what it appends does the same. -/
theorem execAll_walkGroup {c : Context} {cf : CfInstr} {g : AluGroup} {m m' : Machine Output}
    (hmova : ∀ l i, g.lane l = some i → i.op ≠ .ok (.op2 .movaFloor))
    (h : walkGroup (handlers c) cf g m = .ok () m') :
    ∃ ls : List Line, m'.out.body.toList = m.out.body.toList ++ ls ∧
      (∀ {V : Type} (I : Interp V) (s : State V), s.Latched →
        ∃ t, execAll I s (ls.filterMap Line.stmt?) = some t ∧
          t.toRegs = parallel I cf g s.toRegs ∧ t.Latched) ∧
      ∀ {V : Type} (N : Numerics V) (s : State V), s.Latched →
        ∃ t, N.execText s (Output.linesText ls) = some t ∧
          t.toRegs = parallel N.interp cf g s.toRegs ∧ t.Latched := by
  obtain ⟨n, ls, p, hls, hp, rfl⟩ := walkGroup_eq_ok h
  refine ⟨({ lines := ls } ++ p : Piece).close.lines, by simp [Output.add, Output.released], ?_, ?_⟩
  · intro V I s hs
    exact execAll_group hmova hls hp hs
  · intro V N s hs
    rw [N.execText_linesText s (groupShape_of_group hls hp).stmts]
    exact execAll_group hmova hls hp hs

/-- Two moves that exchange the channels X and Y of one register. -/
def exchange : AluGroup where
  vector := ⟨some ⟨0x400, 0xC90⟩, some ⟨0x80000000, 0x20000C90⟩, none, none⟩

/-- What a plain move of a channel of R0 gives. -/
def moved (I : Interp V) (r : Regs V) (c : Chan) : V :=
  I.modify .off false (I.apply .copy [I.read ⟨.gpr 0 c, false, false, .float⟩ r])

/-- The exchange compiles, with a write held back that belongs to no group, and reads both channels
before it writes them. -/
theorem execAll_walkGroup_exchange :
    ∃ m' : Machine Output,
      walkGroup (handlers {}) ⟨0, 0⟩ exchange
          { walk := { program := ⟨#[]⟩, stage := .vertex }
            out := { deferred := [⟨⟨3, []⟩, .x, .scalar⟩] } } = .ok () m' ∧
      ∃ ls : List Line, m'.out.body.toList = [] ++ ls ∧
        (∀ {V : Type} (I : Interp V) (s : State V), s.Latched →
          ∃ t, execAll I s (ls.filterMap Line.stmt?) = some t ∧
            t.toRegs = parallel I ⟨0, 0⟩ exchange s.toRegs ∧ t.Latched ∧
            t.gpr 0 .x = moved I s.toRegs .y ∧ t.gpr 0 .y = moved I s.toRegs .x) ∧
        ∀ {V : Type} (N : Numerics V) (s : State V), s.Latched →
          ∃ t, N.execText s (Output.linesText ls) = some t ∧
            t.toRegs = parallel N.interp ⟨0, 0⟩ exchange s.toRegs ∧ t.Latched ∧
            t.gpr 0 .x = s.gpr 0 .y ∧ t.gpr 0 .y = s.gpr 0 .x := by
  have hmova : ∀ l i, exchange.lane l = some i → i.op ≠ .ok (.op2 .movaFloor) := by
    intro l i hl
    cases l <;> cases hl <;> decide
  have hrun : ∃ m' : Machine Output,
      walkGroup (handlers {}) ⟨0, 0⟩ exchange
        { walk := { program := ⟨#[]⟩, stage := .vertex }
          out := { deferred := [⟨⟨3, []⟩, .x, .scalar⟩] } } = .ok () m' := ⟨_, rfl⟩
  obtain ⟨m', hm⟩ := hrun
  obtain ⟨ls, hbody, hexec, htext⟩ := execAll_walkGroup hmova hm
  refine ⟨m', hm, ls, hbody, ?_, ?_⟩
  · intro V I s hs
    obtain ⟨t, ht, hregs, hlatched⟩ := hexec I s hs
    exact ⟨t, ht, hregs, hlatched, by rw [hregs]; rfl, by rw [hregs]; rfl⟩
  · intro V N s hs
    obtain ⟨t, ht, hregs, hlatched⟩ := htext N s hs
    exact ⟨t, ht, hregs, hlatched, by rw [hregs]; rfl, by rw [hregs]; rfl⟩

end LatteHlsl.Meaning
