import LatteHlsl.Isa.Instr.Alu

/-!
# ALU groups

The slots of an ALU clause form VLIW groups: up to five instructions, of which the last one is
marked, and then one or two slots of literal constants if a source asks for them. An instruction
runs on the unit of its destination channel, or on the T unit if only that unit can run it or the
vector unit is taken.

* `AluGroup.read`: the group at the head of a list of slots, and how many slots were used up, also
  when the slots hold no group.
* `AluGroup.readAll`: the groups of a whole clause up to the first fault.
* `AluGroup.Cursor`: a place in a clause from which groups are read one at a time.
-/

namespace LatteHlsl

open Isa

/-- A VLIW group with the literal constants that follow it. -/
structure AluGroup where
  vector : Quad (Option AluInstr) := .replicate none
  trans : Option AluInstr := none
  literals : Quad Word := .replicate 0
deriving DecidableEq

namespace AluGroup

/-- The instruction on a unit. -/
def lane (g : AluGroup) : Lane → Option AluInstr
  | .x => g.vector.x
  | .y => g.vector.y
  | .z => g.vector.z
  | .w => g.vector.w
  | .t => g.trans

/-- Put an instruction on a unit. -/
def setLane (g : AluGroup) (l : Lane) (i : AluInstr) : AluGroup :=
  match l with
  | .x => { g with vector := { g.vector with x := some i } }
  | .y => { g with vector := { g.vector with y := some i } }
  | .z => { g with vector := { g.vector with z := some i } }
  | .w => { g with vector := { g.vector with w := some i } }
  | .t => { g with trans := some i }

/-- The literal constant of a channel. -/
def literal (g : AluGroup) (c : Chan) : Word := g.literals.get c

/-- The occupied units in order, with their instructions. -/
def occupied (g : AluGroup) : List (Lane × AluInstr) :=
  Lane.all.filterMap fun l => (g.lane l).map fun i => (l, i)

/-- Number of occupied units. -/
def size (g : AluGroup) : Nat := g.occupied.length

/-! ## Reading -/

/-- The unit an instruction runs on, given the units already taken: the unit of its destination
channel, or T if it can run nowhere else or that unit is taken. -/
def unitFor (g : AluGroup) (op : AluOp) (i : AluInstr) : Lane :=
  let home := Lane.ofChan i.dstChan
  if op.traits.transOnly || (g.lane home).isSome then .t else home

/-- Number of literal slots a source asks for: X and Y lie in the first, Z and W in the second. -/
def sourceLiterals (s : AluSource) : Nat :=
  if s.sel = Operand.literalSel then (if s.chan.index < 2 then 1 else 2) else 0

/-- Number of literal slots an instruction asks for. -/
def instrLiterals (i : AluInstr) : Nat :=
  i.srcs.foldl (fun n s => Nat.max n (sourceLiterals s)) 0

/-- What reading one group came to. -/
structure Reading where
  /-- The group, or why there is none. -/
  outcome : Except DecodeFault AluGroup
  /-- Number of slots used up. -/
  consumed : Nat

/-- Fill the literals of a group from the slots that follow its instructions. -/
def withLiterals (g : AluGroup) (slots : List AluInstr) : AluGroup :=
  match slots with
  | [] => g
  | [a] => { g with literals := { g.literals with x := a.word0, y := a.word1 } }
  | a :: b :: _ => { g with literals := ⟨a.word0, a.word1, b.word0, b.word1⟩ }

/-- The instructions are read; take the literal slots. -/
def finish (start : Nat) (g : AluGroup) (consumed needed : Nat) (rest : List AluInstr) : Reading :=
  if needed = 0 then ⟨.ok g, consumed⟩
  else if needed ≤ rest.length then ⟨.ok (g.withLiterals (rest.take needed)), consumed + needed⟩
  else ⟨.error (.missingLiterals start needed), consumed⟩

/-- Read on from a partly filled group: `consumed` slots are used up, and `needed` literal slots
are asked for so far. `start` is the position of the group in its clause. -/
def readFrom (start : Nat) (g : AluGroup) (consumed needed : Nat) : List AluInstr → Reading
  | [] => ⟨.error (.unterminatedGroup start), consumed⟩
  | i :: rest =>
    match i.op with
    | .error fault => ⟨.error fault, consumed + 1⟩
    | .ok op =>
      let unit := g.unitFor op i
      if (g.lane unit).isSome then ⟨.error (.unitConflict (start + consumed)), consumed + 1⟩
      else
        let g := g.setLane unit i
        let needed := Nat.max needed (instrLiterals i)
        if i.last then finish start g (consumed + 1) needed rest
        else readFrom start g (consumed + 1) needed rest

/-- Read the group at the head of `slots`, which stands at position `start` of its clause. -/
def read (start : Nat) (slots : List AluInstr) : Reading := readFrom start {} 0 0 slots

/-- The groups of a clause, as far as they could be read. -/
structure Clause where
  groups : List AluGroup := []
  /-- Why reading stopped before the end, if it did. -/
  fault : Option DecodeFault := none

/-- `readAll` for at most `fuel` groups. -/
def readUpTo : (fuel start : Nat) → List AluInstr → Clause
  | 0, _, _ => {}
  | _ + 1, _, [] => {}
  | fuel + 1, start, slots@(_ :: _) =>
    let r := read start slots
    match r.outcome with
    | .error fault => { fault := some fault }
    | .ok g =>
      let rest := readUpTo fuel (start + r.consumed) (slots.drop r.consumed)
      { rest with groups := g :: rest.groups }

/-- The groups of a clause up to the first fault. Each group uses up at least one slot, so there
are no more groups than slots. -/
def readAll (slots : List AluInstr) : Clause := readUpTo slots.length 0 slots

/-- A place in a clause. -/
structure Cursor where
  slots : List AluInstr
  pos : Nat := 0

namespace Cursor

/-- Whether no slot is left. -/
def atEnd (c : Cursor) : Bool := c.slots.length ≤ c.pos

/-- Read one group, and move past the slots that were used up. -/
def next (c : Cursor) : Except DecodeFault AluGroup × Cursor :=
  let r := read c.pos (c.slots.drop c.pos)
  (r.outcome, { c with pos := c.pos + r.consumed })

/-- Read `n` times: each outcome with the place after it. Reading goes on after faults and past the
end. -/
def reads : Nat → Cursor → List (Except DecodeFault AluGroup × Cursor)
  | 0, _ => []
  | n + 1, c => c.next :: reads n c.next.2

/-- Read until the end or the first fault, `n` times at most. -/
def readsToEnd : Nat → Cursor → List (Except DecodeFault AluGroup × Cursor)
  | 0, _ => []
  | n + 1, c =>
    if c.atEnd then []
    else
      match c.next with
      | (.ok g, rest) => (.ok g, rest) :: readsToEnd n rest
      | (.error fault, rest) => [(.error fault, rest)]

/-- Read until the end or the first fault. -/
def toEnd (c : Cursor) : List (Except DecodeFault AluGroup × Cursor) := readsToEnd c.slots.length c

end Cursor

end AluGroup

end LatteHlsl
