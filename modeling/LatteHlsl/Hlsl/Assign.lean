import LatteHlsl.Hlsl.Expr

/-!
# Vector assignments

Assignments between four component variables through selectors. A masked component of the target
keeps its value.

* `Move`: a target, a source and a selector for each channel.
* `Move.assignment?`: the statement that carries a move out, if there is something to do.
-/

namespace LatteHlsl.Hlsl

open Isa

/-- A variable with four components. -/
inductive Place where
  /-- The scratch variable of texture fetches. -/
  | tmp
  | gpr (index : Index)
  /-- A member of the output structure. -/
  | output (kind : ExportKind) (slot : Nat)
  /-- A vertex attribute. -/
  | attr (location : Nat)
  /-- An interpolated pixel input. -/
  | param (slot : Nat)
deriving DecidableEq

/-- The stem of the output members of one kind. -/
def outputStem : ExportKind → String
  | .pos => "pos"
  | .param => "param"
  | .pixel => "color"

/-- The text of a variable. -/
def Place.text : Place → String
  | .tmp => "tmp"
  | .gpr index => s!"R[{index.text}]"
  | .output kind slot => s!"output.{outputStem kind}{slot}"
  | .attr location => s!"input.attr{location}"
  | .param slot => s!"input.param{slot}"

/-- A value stored into one component. -/
inductive Component where
  | chan (c : Chan)
  | zero
  | one
deriving DecidableEq

namespace Component

/-- What a selector stores; nothing if it masks. -/
def ofSel? : Sel → Option Component
  | .x => some (.chan .x)
  | .y => some (.chan .y)
  | .z => some (.chan .z)
  | .w => some (.chan .w)
  | .zero => some .zero
  | .one => some .one
  | .reserved | .mask => none

/-- The channel that is read, if one is. -/
def chan? : Component → Option Chan
  | .chan c => some c
  | .zero | .one => none

/-- The text of a component of the variable called `source`. -/
def text (source : String) : Component → String
  | .chan c => s!"{source}.{c.letter}"
  | .zero => "0.0f"
  | .one => "1.0f"

end Component

/-- The right side of a vector assignment. -/
inductive Value where
  /-- One scalar. -/
  | scalar (c : Component)
  /-- The whole source. -/
  | whole
  /-- Channels of the source. -/
  | swizzle (cs : List Chan)
  /-- A vector built from single components. -/
  | vector (cs : List Component)
deriving DecidableEq

/-- An assignment to some channels of a variable. -/
structure Assignment where
  target : Place
  /-- The channels assigned, in order. -/
  chans : List Chan
  source : Place
  value : Value
deriving DecidableEq

/-- The letters of a swizzle. -/
def swizzleText (cs : List Chan) : String := String.ofList (cs.map Chan.letter)

/-- The text of the right side of an assignment from the variable called `source`. -/
def Value.text (source : String) : Value → String
  | .scalar c => c.text source
  | .whole => source
  | .swizzle cs => s!"{source}.{swizzleText cs}"
  | .vector cs =>
    let parts := ", ".intercalate (cs.map (Component.text source))
    s!"float{cs.length}({parts})"

namespace Assignment

/-- The text of an assignment between variables called `target` and `source`; a target that is
assigned whole is named alone. -/
def textBetween (target source : String) (a : Assignment) : String :=
  let left := if a.chans = Chan.all then target else s!"{target}.{swizzleText a.chans}"
  s!"{left} = {a.value.text source};"

/-- The text of an assignment. -/
def text (a : Assignment) : String := a.textBetween a.target.text a.source.text

end Assignment

/-- A copy of `source` into `target` through one selector per channel. -/
structure Move where
  target : Place
  source : Place
  sels : Quad Sel
deriving DecidableEq

namespace Move

/-- The channels that are stored, each with its component. -/
def stores (m : Move) : List (Chan × Component) :=
  Chan.all.filterMap fun c => (Component.ofSel? (m.sels.get c)).map fun v => (c, v)

/-- The shortest right side for a list of components. -/
def value (cs : List Component) : Value :=
  let picked := cs.filterMap Component.chan?
  match cs with
  | [c] => .scalar c
  | cs =>
    if picked = Chan.all then .whole
    else if cs.all fun c => c.chan?.isSome then .swizzle picked
    else .vector cs

/-- The assignment that carries the move out; nothing if every channel is masked. -/
def assignment? (m : Move) : Option Assignment :=
  match m.stores with
  | [] => none
  | stores =>
    some
      { target := m.target
        chans := stores.map Prod.fst
        source := m.source
        value := value (stores.map Prod.snd) }

end Move

end LatteHlsl.Hlsl
