/-!
# Channels, selectors and units

Registers hold four channels. A `Sel` picks a channel or a constant for one component of a fetch
or an export, and a `Lane` is one of the five execution units of a VLIW group. `Quad` is a
value for each channel.
-/

namespace LatteHlsl.Isa

/-! ## Channels -/

/-- A channel of a four component register. -/
inductive Chan where
  | x | y | z | w
deriving DecidableEq, Repr

namespace Chan

/-- The channels in order. -/
def all : List Chan := [.x, .y, .z, .w]

/-- The channel named by the two low bits of a number. -/
def ofBits (n : Nat) : Chan :=
  match n % 4 with
  | 0 => .x
  | 1 => .y
  | 2 => .z
  | _ => .w

/-- The channel's number. -/
def index : Chan → Nat
  | .x => 0
  | .y => 1
  | .z => 2
  | .w => 3

/-- The channel's letter in a swizzle. -/
def letter : Chan → Char
  | .x => 'x'
  | .y => 'y'
  | .z => 'z'
  | .w => 'w'

end Chan

/-! ## Values per channel -/

/-- One value for each channel. -/
structure Quad (α : Type) where
  x : α
  y : α
  z : α
  w : α
deriving DecidableEq

namespace Quad

variable {α β : Type}

/-- The value of a channel. -/
def get (q : Quad α) : Chan → α
  | .x => q.x
  | .y => q.y
  | .z => q.z
  | .w => q.w

/-- Replace the value of a channel. -/
def set (q : Quad α) (c : Chan) (a : α) : Quad α :=
  match c with
  | .x => { q with x := a }
  | .y => { q with y := a }
  | .z => { q with z := a }
  | .w => { q with w := a }

/-- The same value in every channel. -/
def replicate (a : α) : Quad α := ⟨a, a, a, a⟩

/-- Apply a function in every channel. -/
def map (f : α → β) (q : Quad α) : Quad β := ⟨f q.x, f q.y, f q.z, f q.w⟩

/-- The four values in channel order. -/
def toList (q : Quad α) : List α := [q.x, q.y, q.z, q.w]

end Quad

/-! ## Selectors -/

/-- What a fetch or an export puts into one destination component. -/
inductive Sel where
  | x | y | z | w | zero | one | reserved | mask
deriving DecidableEq, Repr

namespace Sel

/-- The selector named by the three low bits of a number. -/
def ofBits (n : Nat) : Sel :=
  match n % 8 with
  | 0 => .x
  | 1 => .y
  | 2 => .z
  | 3 => .w
  | 4 => .zero
  | 5 => .one
  | 6 => .reserved
  | _ => .mask

/-- The selector's number. -/
def index : Sel → Nat
  | .x => 0
  | .y => 1
  | .z => 2
  | .w => 3
  | .zero => 4
  | .one => 5
  | .reserved => 6
  | .mask => 7

/-- Whether the destination component keeps its value. -/
def isMasked : Sel → Bool
  | .reserved | .mask => true
  | _ => false

/-- The selector that picks a channel. -/
def ofChan : Chan → Sel
  | .x => .x
  | .y => .y
  | .z => .z
  | .w => .w

/-- Every component from its own channel. -/
def identity : Quad Sel := ⟨.x, .y, .z, .w⟩

end Sel

/-! ## Execution units -/

/-- An execution unit of a VLIW group: one per channel, and the T unit. -/
inductive Lane where
  | x | y | z | w | t
deriving DecidableEq, Repr

namespace Lane

/-- The units in order. -/
def all : List Lane := [.x, .y, .z, .w, .t]

/-- The unit with the given number. -/
def ofIndex? (n : Nat) : Option Lane := all[n]?

/-- The unit's number. -/
def index : Lane → Nat
  | .x => 0
  | .y => 1
  | .z => 2
  | .w => 3
  | .t => 4

/-- The channel a vector unit computes; the T unit has none. -/
def chan? : Lane → Option Chan
  | .x => some .x
  | .y => some .y
  | .z => some .z
  | .w => some .w
  | .t => none

/-- The vector unit of a channel. -/
def ofChan : Chan → Lane
  | .x => .x
  | .y => .y
  | .z => .z
  | .w => .w

end Lane

end LatteHlsl.Isa
