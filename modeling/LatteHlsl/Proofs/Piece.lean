import LatteHlsl.Compile.Handlers
import LatteHlsl.Proofs.Effect

/-!
# Pieces of output

Compilation only adds to its output. A `Piece` is what one successful action adds: lines, held back
register writes, accesses, vertex inputs and export targets. Pieces of actions that follow each
other are appended, so nothing above this module looks into an `Output`.

* `Output.add`, `Output.add_add`: adding a piece, and adding two.
* `emit_eq_ok`, `record_eq_ok`, `emitMove_eq_ok`, …: the piece of each basic action.
* `source_eq_ok`: the expression of a source operand, and the piece it adds.
-/

namespace LatteHlsl

open Isa Hlsl Effect

/-- The statement on a line; comments have none. -/
def Hlsl.Line.stmt? : Line → Option Stmt
  | .stmt s => some s
  | .controlNote _ _ | .groupNote _ => none

namespace Compile

/-- What a successful action adds to an output. -/
structure Piece where
  lines : List Line := []
  /-- Register writes held back to the end of the group. -/
  held : List RegWrite := []
  accesses : List Access := []
  inputs : List VertexInput := []
  /-- Export targets that were asked for. -/
  targets : List (ExportKind × Word) := []

namespace Piece

/-- One piece after another. -/
def append (p q : Piece) : Piece where
  lines := p.lines ++ q.lines
  held := p.held ++ q.held
  accesses := p.accesses ++ q.accesses
  inputs := p.inputs ++ q.inputs
  targets := p.targets ++ q.targets

instance : Append Piece := ⟨append⟩

@[simp] theorem mk_append_mk (ls ls' : List Line) (hs hs' : List RegWrite) (as as' : List Access)
    (is is' : List VertexInput) (ts ts' : List (ExportKind × Word)) :
    (⟨ls, hs, as, is, ts⟩ : Piece) ++ ⟨ls', hs', as', is', ts'⟩ =
      ⟨ls ++ ls', hs ++ hs', as ++ as', is ++ is', ts ++ ts'⟩ := rfl

@[simp] theorem lines_append (p q : Piece) : (p ++ q).lines = p.lines ++ q.lines := rfl

@[simp] theorem held_append (p q : Piece) : (p ++ q).held = p.held ++ q.held := rfl

@[simp] theorem accesses_append (p q : Piece) : (p ++ q).accesses = p.accesses ++ q.accesses := rfl

@[simp] theorem inputs_append (p q : Piece) : (p ++ q).inputs = p.inputs ++ q.inputs := rfl

@[simp] theorem targets_append (p q : Piece) : (p ++ q).targets = p.targets ++ q.targets := rfl

theorem append_assoc (p q r : Piece) : p ++ q ++ r = p ++ (q ++ r) := by
  cases p
  cases q
  cases r
  simp

/-- The statements of a piece. -/
def stmts (p : Piece) : List Stmt := p.lines.filterMap Line.stmt?

@[simp] theorem stmts_append (p q : Piece) : (p ++ q).stmts = p.stmts ++ q.stmts :=
  List.filterMap_append

/-- The piece of a group from the piece of its lanes: the held writes are carried out, and the
results become those of the previous group. -/
def close (p : Piece) : Piece :=
  { p with
    lines := p.lines ++ p.held.map (fun w => .stmt (.regWrite w)) ++
      [.stmt .latchVector, .stmt .latchScalar]
    held := [] }

theorem stmts_close (p : Piece) :
    p.close.stmts = p.stmts ++ p.held.map .regWrite ++ [.latchVector, .latchScalar] := by
  have hheld : (p.held.map fun w => Line.stmt (.regWrite w)).filterMap Line.stmt? =
      p.held.map .regWrite := by
    rw [List.filterMap_map]
    exact congrFun (List.filterMap_eq_map (f := Stmt.regWrite)) p.held
  simp only [stmts, close, List.filterMap_append, hheld]
  rfl

end Piece

/-- An output with a piece added. -/
def Output.add (o : Output) (p : Piece) : Output where
  body := o.body ++ p.lines.toArray
  deferred := o.deferred ++ p.held
  usage := p.accesses.foldl Usage.record o.usage
  inputs := o.inputs ++ p.inputs
  exports := p.targets.foldl (fun m t => (m.assign t.1 t.2).2) o.exports

/-- The statements of an output. -/
def Output.stmts (o : Output) : List Stmt := o.body.toList.filterMap Line.stmt?

namespace Output

@[simp] theorem add_empty (o : Output) : o.add {} = o := by
  simp [add]

theorem add_add (o : Output) (p q : Piece) : (o.add p).add q = o.add (p ++ q) := by
  simp [add, List.foldl_append]

@[simp] theorem stmts_add (o : Output) (p : Piece) : (o.add p).stmts = o.stmts ++ p.stmts := by
  simp [stmts, add, Piece.stmts]

end Output

/-! ## Basic actions -/

theorem emitLine_eq_ok {l : Line} {o o' : Output} {u : Unit} :
    emitLine l o = .ok u o' ↔ o' = o.add { lines := [l] } := by
  simp [emitLine, Output.add]

theorem emit_eq_ok {s : Stmt} {o o' : Output} {u : Unit} :
    emit s o = .ok u o' ↔ o' = o.add { lines := [.stmt s] } := emitLine_eq_ok

theorem record_eq_ok {a : Access} {o o' : Output} {u : Unit} :
    record a o = .ok u o' ↔ o' = o.add { accesses := [a] } := by
  simp [record, Output.add]

theorem defer_eq_ok {w : RegWrite} {o o' : Output} {u : Unit} :
    defer w o = .ok u o' ↔ o' = o.add { held := [w] } := by
  simp [defer, Output.add]

theorem addInput_eq_ok {i : VertexInput} {o o' : Output} {u : Unit} :
    addInput i o = .ok u o' ↔ o' = o.add { inputs := [i] } := by
  simp [addInput, Output.add]

theorem exportSlot_eq_ok {kind : ExportKind} {target slot : Word} {o o' : Output} :
    exportSlot kind target o = .ok slot o' ↔
      slot = (o.exports.assign kind target).1 ∧ o' = o.add { targets := [(kind, target)] } := by
  simp [exportSlot, Output.add, eq_comm]

/-- A comment adds no statement, whether comments are written or not. -/
theorem note_eq_ok {c : Context} {l : Line} {o o' : Output} {u : Unit} (hl : l.stmt? = none)
    (h : note c l o = .ok u o') : ∃ ls : List Line, ls.filterMap Line.stmt? = [] ∧
      o' = o.add { lines := ls } := by
  unfold note at h
  split at h
  · exact ⟨[l], by simp [hl], emitLine_eq_ok.mp h⟩
  · obtain ⟨-, rfl⟩ := pure_eq_ok.mp h
    exact ⟨[], rfl, by simp⟩

/-- The line of a move, if it has something to do. -/
def moveLines (m : Move) : List Line := (m.assignment?.map fun a => .stmt (.assign a)).toList

theorem emitMove_eq_ok {m : Move} {o o' : Output} {u : Unit} :
    emitMove m o = .ok u o' ↔ o' = o.add { lines := moveLines m } := by
  unfold emitMove moveLines
  cases m.assignment? with
  | none => simp [eq_comm]
  | some a => exact emit_eq_ok

theorem assignment?_eq {m : Move} :
    m.assignment? =
      if m.stores = [] then none
      else
        some ⟨m.target, m.stores.map Prod.fst, m.source, Move.value (m.stores.map Prod.snd)⟩ := by
  unfold Move.assignment?
  split <;> simp_all

theorem mem_stmts_moveLines {m : Move} {s : Stmt} :
    s ∈ (moveLines m).filterMap Line.stmt? ↔ ∃ a, m.assignment? = some a ∧ s = .assign a := by
  unfold moveLines
  cases m.assignment? with
  | none => simp
  | some a => simp [Line.stmt?]

/-! ## Operands -/

/-- The accesses of a source. -/
def sourceAccesses (s : Source) : List Access := s.atom.access?.toList

/-- `s` is the expression for source `n` of an instruction. -/
structure SourceOf (cf : CfInstr) (g : AluGroup) (i : AluInstr) (n : Nat) (s : Source) : Prop where
  atom : sourceAtom cf g i.indexMode (i.src n) = .ok s.atom
  abs : s.abs = (i.src n).abs
  neg : s.neg = (i.src n).neg
  view : ∃ op, i.op = .ok op ∧ s.view = op.traits.reads

theorem source_eq_ok {cf : CfInstr} {g : AluGroup} {i : AluInstr} {n : Nat} {s : Source}
    {o o' : Output} (h : source cf g i n o = .ok s o') :
    SourceOf cf g i n s ∧ o' = o.add { accesses := sourceAccesses s } := by
  simp only [source, bind_eq_ok, check_eq_ok, decode_eq_ok, pure_eq_ok] at h
  obtain ⟨atom, _, ⟨hatom, rfl⟩, _, o₁, hrec, op, _, ⟨hop, rfl⟩, rfl, rfl⟩ := h
  refine ⟨⟨hatom, rfl, rfl, op, hop, rfl⟩, ?_⟩
  unfold recordAtom at hrec
  unfold sourceAccesses
  cases hacc : atom.access? with
  | none =>
    rw [hacc] at hrec
    obtain ⟨-, rfl⟩ := pure_eq_ok.mp hrec
    simp
  | some a =>
    rw [hacc] at hrec
    rw [record_eq_ok.mp hrec]
    simp

end Compile

end LatteHlsl
