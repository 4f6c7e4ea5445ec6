import Mathlib.Data.List.Infix
import LatteHlsl.Proofs.Growth
import LatteHlsl.Proofs.Lockstep
import LatteHlsl.Walk.Trace

/-!
# Sets of handlers

A walk asks for the handler of each operation that it comes to. Two walks of the same program, of
which the second has all handlers of the first, go the same way until the first one lacks a handler.
There it stops, and the other one goes on.

* `Handlers.has`, `Handlers.Within`: the operations with a handler, and sets of handlers in one
  another.
* `Handlers.Append`: handlers that do nothing but append events.
* `Handlers.noting`, `Handlers.dispatched`: the operations that a walk comes to.
* `CutShort`: results of which the first may be cut short for want of a handler.
* `walk_within`: walks with sets of handlers in one another.
-/

namespace LatteHlsl

open Isa Effect

/-! ## Sets of handlers -/

namespace Handlers

variable {σ ε : Type}

/-- Whether there is a handler for an operation. -/
def has (h : Handlers σ) : Opcode → Bool
  | .cf op => (h.cf op).isSome
  | .exp op => (h.exp op).isSome
  | .cfAlu op => (h.cfAlu op).isSome
  | .op2 op => (h.op2 op).isSome
  | .op3 op => (h.op3 op).isSome
  | .tex op => (h.tex op).isSome
  | .vtx op => (h.vtx op).isSome

/-- Every handler of `h` is one of `h'`. -/
structure Within (h h' : Handlers σ) : Prop where
  cf : ∀ op handle, h.cf op = some handle → h'.cf op = some handle
  exp : ∀ op handle, h.exp op = some handle → h'.exp op = some handle
  cfAlu : ∀ op handle, h.cfAlu op = some handle → h'.cfAlu op = some handle
  op2 : ∀ op handle, h.op2 op = some handle → h'.op2 op = some handle
  op3 : ∀ op handle, h.op3 op = some handle → h'.op3 op = some handle
  tex : ∀ op handle, h.tex op = some handle → h'.tex op = some handle
  vtx : ∀ op handle, h.vtx op = some handle → h'.vtx op = some handle
  beginGroup : h'.beginGroup = h.beginGroup
  endGroup : h'.endGroup = h.endGroup

theorem has_opcode (h : Handlers σ) (v : Invocation) : h.has v.opcode = (h.find v).isSome := by
  cases v with
  | alu op => cases op <;> exact Option.isSome_map.symm
  | cf | exp | cfAlu | tex | vtx => exact Option.isSome_map.symm

theorem Within.find {h h' : Handlers σ} (hw : h.Within h') {v : Invocation} {action : Action σ}
    (hfind : h.find v = some action) : h'.find v = some action := by
  have hmap : ∀ {κ : Type} {f : κ → Action σ} {a b : Option κ},
      (∀ handle, a = some handle → b = some handle) → a.map f = some action →
      b.map f = some action := by
    intro κ f a b hab ha
    obtain ⟨handle, hhandle, rfl⟩ := Option.map_eq_some_iff.mp ha
    rw [hab handle hhandle]
    rfl
  cases v with
  | cf op => exact hmap (hw.cf op) hfind
  | exp op => exact hmap (hw.exp op) hfind
  | cfAlu op => exact hmap (hw.cfAlu op) hfind
  | alu op =>
    cases op with
    | op2 op => exact hmap (hw.op2 op) hfind
    | op3 op => exact hmap (hw.op3 op) hfind
  | tex op => exact hmap (hw.tex op) hfind
  | vtx op => exact hmap (hw.vtx op) hfind

/-- What holds of every call of a handler holds of those of a smaller set. -/
theorem Within.each {P : Option Invocation → (Walk → Effect σ Unit) → Prop} {h h' : Handlers σ}
    (hw : h.Within h') (hh : h'.Each P) : h.Each P where
  call v action hfind := hh.call v action (hw.find hfind)
  beginGroup := hw.beginGroup ▸ hh.beginGroup
  endGroup := hw.endGroup ▸ hh.endGroup

end Handlers

/-- An action that succeeds and appends events. -/
def Effect.Appends {ε : Type} (x : Effect (List ε) Unit) : Prop :=
  ∀ es, ∃ added, x es = .ok () (es ++ added)

/-- Handlers that do nothing but append events. -/
def Handlers.Append {ε : Type} (h : Handlers (List ε)) : Prop :=
  h.Each fun _ f => ∀ w, Appends (f w)

/-! ## Noting operations -/

/-- An action that also notes operations. -/
def Effect.noting {σ : Type} (ops : List Opcode) (x : Effect σ Unit) :
    Effect (σ × List Opcode) Unit := fun s =>
  match x s.1 with
  | .ok u t => .ok u (t, s.2 ++ ops)
  | .error halt t => .error halt (t, s.2 ++ ops)

/-- A handler that also notes its operation. -/
def CfHandler.noting {σ : Type} (op : Opcode) (a : CfHandler σ) : CfHandler (σ × List Opcode) where
  run w cf := (a.run w cf).noting [op]
  clause := a.clause

/-- Handlers that also note the operations they are called for. -/
def Handlers.noting {σ : Type} (h : Handlers σ) : Handlers (σ × List Opcode) where
  cf op := (h.cf op).map (CfHandler.noting (.cf op))
  exp op := (h.exp op).map (CfHandler.noting (.exp op))
  cfAlu op := (h.cfAlu op).map (CfHandler.noting (.cfAlu op))
  op2 op := (h.op2 op).map fun a w cf g target i => (a w cf g target i).noting [.op2 op]
  op3 op := (h.op3 op).map fun a w cf g target i => (a w cf g target i).noting [.op3 op]
  tex op := (h.tex op).map fun a w cf i => (a w cf i).noting [.tex op]
  vtx op := (h.vtx op).map fun a w cf i => (a w cf i).noting [.vtx op]
  beginGroup w cf g := (h.beginGroup w cf g).noting []
  endGroup w cf g := (h.endGroup w cf g).noting []

/-- The operation that has no handler, if that is why a walk has halted. -/
def Halt.lacking : Option Halt → List Opcode
  | some (.fault (.unimplemented op)) => [op]
  | _ => []

/-- The operations that a walk came to: those whose handlers were called, and the one that had none.
-/
def Effect.noted {σ α : Type} (r : EStateM.Result Halt (Machine (σ × List Opcode)) α) :
    List Opcode :=
  (stateOf r).out.2 ++ Halt.lacking (haltOf r)

/-- The operations that a walk comes to, in order. -/
def Handlers.dispatched {σ : Type} (h : Handlers σ) (m : Machine σ) : List Opcode :=
  noted (walkToEnd h.noting { walk := m.walk, out := (m.out, []) })

/-- A handler that also notes its operation, with what it is called for. -/
def Action.noting {σ : Type} (op : Opcode) (a : Action σ) : Action (σ × List Opcode) where
  run w := (a.run w).noting [op]
  clause := a.clause

theorem Handlers.find_noting {σ : Type} (h : Handlers σ) (v : Invocation) :
    h.noting.find v = (h.find v).map (Action.noting v.opcode) := by
  cases v with
  | alu op =>
    cases op <;>
      simp only [Handlers.find, Handlers.alu, Handlers.noting, Option.map_map] <;>
      rfl
  | cf | exp | cfAlu | tex | vtx =>
    simp only [Handlers.find, Handlers.noting, Option.map_map]
    rfl

/-! ## Walks cut short -/

/-- Events, and the operations noted beside them. -/
abbrev Noted (ε : Type) := List ε × List Opcode

/-- What was there is still there, and more may have been added. -/
def Noted.Le {ε : Type} (s s' : Noted ε) : Prop := s.1 <+: s'.1 ∧ s.2 <+: s'.2

instance {ε : Type} : IsPreorder (Noted ε) Noted.Le where
  refl s := ⟨s.1.prefix_refl, s.2.prefix_refl⟩
  trans _ _ _ h h' := ⟨h.1.trans h'.1, h.2.trans h'.2⟩

/-- An action that succeeds, appends events and notes operations. -/
def Effect.Notes {ε : Type} (ops : List Opcode) (x : Effect (Noted ε) Unit) : Prop :=
  ∀ s, ∃ added, x s = .ok () (s.1 ++ added, s.2 ++ ops)

/-- Handlers that do nothing but append events and note the operations they are called for. -/
def Handlers.Note {ε : Type} (k : Handlers (Noted ε)) : Prop :=
  k.Each fun v f => ∀ w, Notes (v.map Invocation.opcode).toList (f w)

section

variable {ε α β : Type}

/-- Two results from the same machine: they are the same, or the first is cut short at an operation
without a handler. Then the second has come to that operation as well and has added to the events.
-/
inductive CutShort (has : Opcode → Bool) :
    EStateM.Result Halt (Machine (Noted ε)) α → EStateM.Result Halt (Machine (Noted ε)) α →
      Prop where
  | ok {a : α} {m : Machine (Noted ε)} : CutShort has (.ok a m) (.ok a m)
  | halt {halt : Halt} {m : Machine (Noted ε)} (h : ∀ op, halt ≠ .fault (.unimplemented op)) :
      CutShort has (.error halt m) (.error halt m)
  | cut {op : Opcode} {m : Machine (Noted ε)} {r : EStateM.Result Halt (Machine (Noted ε)) α}
      (hop : has op = false) (hevents : m.out.1 <+: (stateOf r).out.1)
      (hops : m.out.2 ++ [op] <+: noted r) : CutShort has (.error (.fault (.unimplemented op)) m) r

/-- An action that adds to the machine and notes an operation first. -/
structure Dispatches (op : Opcode) (x : Effect (Machine (Noted ε)) α) : Prop where
  grows : Grows (Machine.Grown Noted.Le) x
  notes : ∀ m, m.out.2 ++ [op] <+: (stateOf (x m)).out.2

/-- From each machine, the first action may be cut short, and the second adds to the machine. -/
structure CutsShort (has : Opcode → Bool) (x y : Effect (Machine (Noted ε)) α) : Prop where
  cut : ∀ m, CutShort has (x m) (y m)
  grows : Grows (Machine.Grown Noted.Le) y

theorem prefix_noted (r : EStateM.Result Halt (Machine (Noted ε)) α) :
    (stateOf r).out.2 <+: noted r :=
  List.prefix_append _ _

theorem noted_ok (a : α) (m : Machine (Noted ε)) : noted (.ok a m) = m.out.2 :=
  List.append_nil _

namespace CutsShort

variable {has : Opcode → Bool} {x y : Effect (Machine (Noted ε)) α}

/-- An action that does not ask for a handler. -/
theorem of_grows (hx : Grows (Machine.Grown Noted.Le) x)
    (hhalt : ∀ {m op m'}, x m ≠ .error (.fault (.unimplemented op)) m') : CutsShort has x x := by
  refine ⟨fun m => ?_, hx⟩
  cases hrun : x m with
  | ok a m' => exact .ok
  | error halt m' =>
    refine .halt fun op hop => ?_
    subst hop
    exact hhalt hrun

protected theorem pure (a : α) : CutsShort has (pure a : Effect (Machine (Noted ε)) α) (pure a) :=
  ⟨fun _ => .ok, .pure a⟩

protected theorem fail {fault : CompileFault} (h : ∀ op, fault ≠ .unimplemented op) :
    CutsShort has (fail fault : Effect (Machine (Noted ε)) α) (fail fault) :=
  ⟨fun _ => .halt fun op heq => h op (Halt.fault.inj heq), .fail fault⟩

protected theorem bind {f g : α → Effect (Machine (Noted ε)) β} (hx : CutsShort has x y)
    (hf : ∀ a, CutsShort has (f a) (g a)) : CutsShort has (x >>= f) (y >>= g) := by
  refine ⟨fun m => ?_, .bind hx.grows fun a => (hf a).grows⟩
  have hcut := hx.cut m
  generalize hrun : x m = r at hcut
  generalize hrun' : y m = r' at hcut
  cases hcut with
  | @ok a m₁ =>
    rw [bind_of_eq_ok hrun, bind_of_eq_ok hrun']
    exact (hf a).cut m₁
  | halt hne =>
    rw [bind_of_eq_error hrun, bind_of_eq_error hrun']
    exact .halt hne
  | @cut op m₁ _ hop hevents hops =>
    rw [bind_of_eq_error hrun]
    cases r' with
    | error halt m₂ =>
      rw [bind_of_eq_error hrun']
      exact .cut hop hevents hops
    | ok a m₂ =>
      -- the other one goes on and adds to what there is
      have hgrown := ((hf a).grows m₂).out
      rw [noted_ok] at hops
      rw [bind_of_eq_ok hrun']
      exact .cut hop (hevents.trans hgrown.1) ((hops.trans hgrown.2).trans (prefix_noted _))

theorem read_bind {reading : Program → Except DecodeFault α} {f g : α → Effect (Machine (Noted ε)) β}
    (hf : ∀ p v, reading p = .ok v → CutsShort has (f v) (g v)) :
    CutsShort has (Machine.read reading >>= f) (Machine.read reading >>= g) := by
  have hdecode : ∀ m : Machine (Noted ε),
      CutsShort has (decode (reading m.walk.program) >>= f) (decode (reading m.walk.program) >>= g) := by
    intro m
    cases hread : reading m.walk.program with
    | ok v => exact hf _ v hread
    | error fault => exact .fail nofun
  exact ⟨fun m => (hdecode m).cut m, fun m => (hdecode m).grows m⟩

/-- Looking a handler up and going on with it. -/
theorem handler_bind {κ : Type} {op : Opcode} {a b : Option κ}
    {f g : κ → Effect (Machine (Noted ε)) β} (hop : has op = a.isSome)
    (hab : ∀ handle, a = some handle → b = some handle)
    (hf : ∀ handle, a = some handle → CutsShort has (f handle) (g handle))
    (hg : ∀ handle, b = some handle → Dispatches op (g handle)) :
    CutsShort has (handler op a >>= f) (handler op b >>= g) := by
  cases a with
  | some handle =>
    rw [hab handle rfl]
    exact hf handle rfl
  | none =>
    refine ⟨fun m => ?_, .handler_bind fun handle hhandle => (hg handle hhandle).grows⟩
    cases b with
    | none => exact .cut hop (List.prefix_refl _) (List.prefix_refl _)
    | some handle =>
      have hdispatch := hg handle rfl
      exact .cut hop (hdispatch.grows m).out.1 ((hdispatch.notes m).trans (prefix_noted _))

end CutsShort

/-! ## Clauses -/

variable {k k' : Handlers (Noted ε)}

theorem Effect.Notes.grows {ops : List Opcode} {x : Effect (Noted ε) Unit} (hx : x.Notes ops) :
    Grows Noted.Le x := by
  intro s
  obtain ⟨added, hrun⟩ := hx s
  rw [hrun]
  exact ⟨List.prefix_append _ _, List.prefix_append _ _⟩

theorem act_of_notes {ops : List Opcode} {f : Walk → Effect (Noted ε) Unit}
    (hf : ∀ w, (f w).Notes ops) (m : Machine (Noted ε)) :
    ∃ added, Machine.act f m = .ok () { m with out := (m.out.1 ++ added, m.out.2 ++ ops) } := by
  obtain ⟨added, hrun⟩ := hf m.walk m.out
  exact ⟨added, Machine.act_eq_ok.mpr ⟨_, hrun, rfl⟩⟩

theorem dispatches_act {op : Opcode} {f : Walk → Effect (Noted ε) Unit}
    (hf : ∀ w, (f w).Notes [op]) : Dispatches op (Machine.act f) := by
  refine ⟨grows_act fun w => (hf w).grows, fun m => ?_⟩
  obtain ⟨added, hact⟩ := act_of_notes hf m
  rw [hact]
  exact List.prefix_refl _

theorem Dispatches.bind {op : Opcode} {x : Effect (Machine (Noted ε)) α}
    {f : α → Effect (Machine (Noted ε)) β} (hx : Dispatches op x)
    (hf : ∀ a, Grows (Machine.Grown Noted.Le) (f a)) : Dispatches op (x >>= f) := by
  refine ⟨.bind hx.grows hf, fun m => ?_⟩
  have hnotes := hx.notes m
  cases hrun : x m with
  | ok a m₁ =>
    rw [hrun] at hnotes
    rw [bind_of_eq_ok hrun]
    exact hnotes.trans (hf a m₁).out.2
  | error halt m₁ =>
    rw [hrun] at hnotes
    rw [bind_of_eq_error hrun]
    exact hnotes

theorem cutsShort_act {has : Opcode → Bool} {ops : List Opcode} {f : Walk → Effect (Noted ε) Unit}
    (hf : ∀ w, (f w).Notes ops) : CutsShort has (Machine.act f) (Machine.act f) := by
  refine .of_grows (grows_act fun w => (hf w).grows) fun {m op m'} hrun => ?_
  obtain ⟨added, hact⟩ := act_of_notes hf m
  cases hact.symm.trans hrun

theorem cutsShort_count {has : Opcode → Bool} (counter : Counter) :
    CutsShort has (Machine.count counter : Effect (Machine (Noted ε)) Unit)
      (Machine.count counter) := by
  refine .of_grows (grows_count counter) fun {m op m'} hrun => ?_
  cases (Machine.count_eq_error hrun).1

theorem cutsShort_modifyWalk {has : Opcode → Bool} {f : Walk → Walk}
    (hf : Grows (Machine.Grown Noted.Le)
      (Machine.modifyWalk f : Effect (Machine (Noted ε)) Unit)) :
    CutsShort has (Machine.modifyWalk f : Effect (Machine (Noted ε)) Unit)
      (Machine.modifyWalk f) :=
  .of_grows hf fun {_ _ _} hrun => modify_ne_error hrun

theorem cutsShort_examine {has : Opcode → Bool} {test : Walk → Except CompileFault α}
    (htest : ∀ w op, test w ≠ .error (.unimplemented op)) :
    CutsShort has (Machine.examine test : Effect (Machine (Noted ε)) α) (Machine.examine test) := by
  refine .of_grows (.bind .get fun _ => .check _) fun {m op m'} hrun => ?_
  obtain ⟨fault, hfault, hhalt, -⟩ := check_eq_error.mp (show check (test m.walk) m = _ from hrun)
  cases hhalt
  exact htest _ _ hfault

variable (hk : k'.Note) (hw : k.Within k')
include hk hw

/-- The smaller set may lack the handler; the other walk then notes the operation first. -/
theorem cutsShort_invoke (v : Invocation) : CutsShort k.has (invoke k v) (invoke k' v) := by
  refine .handler_bind (k.has_opcode v) (fun _ => hw.find) (fun action hfind => ?_)
    fun action hfind => ?_
  · exact .bind (cutsShort_act (hk.call v action (hw.find hfind))) fun _ => .pure _
  · exact .bind (dispatches_act (hk.call v action hfind)) fun _ => .pure _

/-- A walk with fewer handlers may be cut short, whatever it walks. -/
theorem runClosed_cutsShort : RunClosed k k' fun _ => CutsShort k.has where
  mono hx _ := hx
  pure := .pure
  fail := .fail
  bind := .bind
  read_bind _ hf := .read_bind hf
  alu _ _ := cutsShort_invoke hk hw _
  invoke v _ := cutsShort_invoke hk hw v
  beginGroup cf g := by
    rw [← hw.beginGroup]
    exact cutsShort_act (hk.beginGroup cf g)
  endGroup cf g := by
    rw [← hw.endGroup]
    exact cutsShort_act (hk.endGroup cf g)
  countGroup := cutsShort_count .group
  examine op := cutsShort_examine fun w => checkPlacement_ne_unimplemented w op
  afterCf op cf := cutsShort_modifyWalk (grows_afterCf op cf)
  afterExport cf := cutsShort_modifyWalk (grows_afterExport cf)
  countCf := cutsShort_count .cf
  get_bind hf := .bind ⟨fun _ => .ok, .get⟩ hf
  start := cutsShort_modifyWalk grows_begin

/-- A walk with fewer handlers may be cut short. -/
theorem cutShort_walkToEnd (m : Machine (Noted ε)) :
    CutShort k.has (walkToEnd k m) (walkToEnd k' m) := by
  have hcut := (runClosed_cutsShort hk hw).walkProgram.cut m
  unfold walkToEnd
  generalize walkProgram k m = r at hcut
  generalize walkProgram k' m = r' at hcut
  cases hcut with
  | ok => exact .ok
  | halt hne => exact .halt hne
  | cut hop hevents hops =>
    cases r' with
    | ok u m' => exact .cut hop hevents hops
    | error halt m' => exact .cut hop hevents hops

end

/-! ## Walks that note their operations -/

section

variable {σ ε : Type} {h h' : Handlers (List ε)}

theorem Effect.Appends.notes {x : Effect (List ε) Unit} (hx : x.Appends) (ops : List Opcode) :
    (x.noting ops).Notes ops := by
  intro s
  obtain ⟨added, hrun⟩ := hx s.1
  refine ⟨added, ?_⟩
  unfold Effect.noting
  rw [hrun]

theorem Handlers.Append.note (hh : h.Append) : h.noting.Note where
  call v action hfind w := by
    rw [Handlers.find_noting] at hfind
    obtain ⟨action₀, hfind₀, rfl⟩ := Option.map_eq_some_iff.mp hfind
    exact (hh.call v action₀ hfind₀ w).notes _
  beginGroup cf g w := (hh.beginGroup cf g w).notes []
  endGroup cf g w := (hh.endGroup cf g w).notes []

theorem Handlers.has_noting (h : Handlers σ) : h.noting.has = h.has := by
  funext op
  cases op <;> exact Option.isSome_map

theorem Handlers.Within.noting {h h' : Handlers σ} (hw : h.Within h') :
    h.noting.Within h'.noting := by
  have hmap : ∀ {κ κ' : Type} {a b : Option κ} {f : κ → κ'},
      (∀ handle, a = some handle → b = some handle) →
      ∀ handle, a.map f = some handle → b.map f = some handle := by
    intro κ κ' a b f hab handle hhandle
    obtain ⟨handle₀, hhandle₀, rfl⟩ := Option.map_eq_some_iff.mp hhandle
    rw [hab handle₀ hhandle₀]
    rfl
  exact
    { cf := fun op => hmap (hw.cf op)
      exp := fun op => hmap (hw.exp op)
      cfAlu := fun op => hmap (hw.cfAlu op)
      op2 := fun op => hmap (hw.op2 op)
      op3 := fun op => hmap (hw.op3 op)
      tex := fun op => hmap (hw.tex op)
      vtx := fun op => hmap (hw.vtx op)
      beginGroup := by
        unfold Handlers.noting
        rw [hw.beginGroup]
      endGroup := by
        unfold Handlers.noting
        rw [hw.endGroup] }

/-! ### Leaving the notes out -/

/-- A machine without the operations noted. -/
def Machine.unnoted (m : Machine (σ × List Opcode)) : Machine σ :=
  { walk := m.walk, out := m.out.1 }

/-- A result without the operations noted. -/
def Effect.unnoted {α : Type} :
    EStateM.Result Halt (Machine (σ × List Opcode)) α → EStateM.Result Halt (Machine σ) α
  | .ok a m => .ok a m.unnoted
  | .error halt m => .error halt m.unnoted

/-- The same output, with notes beside it. -/
def NotedBeside (s : σ) (t : σ × List Opcode) : Prop := t.1 = s

theorem Machine.Like.unnoted_eq {m : Machine σ} {m' : Machine (σ × List Opcode)}
    (hm : m.Like Eq NotedBeside m') : m'.unnoted = m := by
  unfold Machine.unnoted
  rw [hm.walk.eq, show m'.out.1 = m.out from hm.out]

theorem lockstep_noting (x : Effect σ Unit) (ops : List Opcode) :
    Lockstep (fun _ => False) NotedBeside x (x.noting ops) := by
  rintro s t rfl
  unfold Effect.noting
  cases x t.1 with
  | ok u s' => exact .ok rfl
  | error halt s' => exact .error rfl

theorem actLockstep_noting (f : Walk → Effect σ Unit) (ops : List Opcode) :
    ActLockstep (fun _ => False) Eq NotedBeside f fun w => (f w).noting ops := by
  intro w w' hlike
  rw [hlike.eq]
  exact lockstep_noting (f w) ops

theorem lockstep_handlers_noting (h : Handlers σ) :
    h.Lockstep (fun _ => False) Eq NotedBeside h.noting where
  call v := by
    rw [Handlers.find_noting]
    cases h.find v with
    | none => exact .inl .none
    | some action => exact .inl (.some ⟨actLockstep_noting _ _, rfl⟩)
  beginGroup _ _ := actLockstep_noting _ _
  endGroup _ _ := actLockstep_noting _ _

/-- The operations noted make no difference. -/
theorem unnoted_walkToEnd (hh : h.Append) (m : Machine (List ε)) (ops : List Opcode) :
    unnoted (walkToEnd h.noting { walk := m.walk, out := (m.out, ops) }) = walkToEnd h m := by
  have hfaults : h.OnlyFault := hh.mono fun {_ f} hf _ w => .of_ok fun s => by
    obtain ⟨added, hrun⟩ := hf w s
    exact ⟨_, hrun⟩
  have hfaults' : h.noting.OnlyFault := hh.note.mono fun {_ f} hf _ w => .of_ok fun s => by
    obtain ⟨added, hrun⟩ := hf w s
    exact ⟨_, hrun⟩
  have hlike : m.Like Eq NotedBeside { walk := m.walk, out := (m.out, ops) } := ⟨⟨rfl, rfl⟩, rfl⟩
  have hmatch := matches_walkToEnd <|
    matches_walkProgram (lockstep_handlers_noting h) (fun p p' hp => hp ▸ .refl p) hfaults hfaults'
      hlike (.inl fun p p' hp => by rw [hp])
  generalize walkToEnd h m = r at hmatch ⊢
  generalize walkToEnd h.noting _ = r' at hmatch ⊢
  cases hmatch with
  | ok hlike | error hlike =>
    rw [unnoted, hlike.unnoted_eq]
  | exempt hfalse => exact hfalse.elim

/-- Operations are added to the ones noted, all of which have a handler. -/
def OnlyAdds (has : Opcode → Bool) (s s' : Noted ε) : Prop :=
  ∀ op ∈ s'.2, op ∈ s.2 ∨ has op = true

instance (has : Opcode → Bool) : IsPreorder (Noted ε) (OnlyAdds has) where
  refl _ _ hop := .inl hop
  trans _ _ _ h h' op hop := (h' op hop).elim (h op) .inr

theorem Effect.Notes.onlyAdds {has : Opcode → Bool} {ops : List Opcode}
    {x : Effect (Noted ε) Unit} (hx : x.Notes ops) (hops : ∀ op ∈ ops, has op = true) :
    Grows (OnlyAdds has) x := by
  intro s
  obtain ⟨added, hrun⟩ := hx s
  rw [hrun]
  intro op hop
  exact (List.mem_append.mp hop).imp id (hops op)

/-- All operations whose handlers a walk calls have one. -/
theorem has_of_mem_walkToEnd {k : Handlers (Noted ε)} (hk : k.Note) (m : Machine (Noted ε)) :
    OnlyAdds k.has m.out (stateOf (walkToEnd k m)).out := by
  have heach : k.Each fun _ f => ∀ w, Grows (OnlyAdds k.has) (f w) :=
    { call := fun v action hfind w => (hk.call v action hfind w).onlyAdds fun op hop => by
        rw [List.mem_singleton.mp hop, k.has_opcode, hfind]
        rfl
      beginGroup := fun cf g w => (hk.beginGroup cf g w).onlyAdds nofun
      endGroup := fun cf g w => (hk.endGroup cf g w).onlyAdds nofun }
  exact (grows_walkToEnd heach m).out

/-! ## Walks with fewer handlers -/

/-- Two walks of the same program by handlers that append events, of which the second has all
handlers of the first. Unless the first lacks a handler, they come to the same. If it does, it stops
at the first operation of the other walk for which it has none, and its events are those of the
other walk up to there. -/
theorem walk_within (hh : h'.Append) (hw : h.Within h') (m : Machine (List ε)) :
    ((∀ op, haltOf (walkToEnd h m) ≠ some (.fault (.unimplemented op))) →
      walkToEnd h' m = walkToEnd h m) ∧
    ∀ op, haltOf (walkToEnd h m) = some (.fault (.unimplemented op)) →
      h.has op = false ∧
      (∃ before, h.dispatched m = before ++ [op] ∧ (∀ o ∈ before, h.has o = true) ∧
        h.dispatched m <+: h'.dispatched m) ∧
      (stateOf (walkToEnd h m)).out <+: (stateOf (walkToEnd h' m)).out := by
  have happend : h.Append := hw.each hh
  have hcut := cutShort_walkToEnd hh.note hw.noting { walk := m.walk, out := (m.out, []) }
  have hknown := has_of_mem_walkToEnd happend.note { walk := m.walk, out := (m.out, []) }
  rw [Handlers.has_noting] at hcut hknown
  rw [← unnoted_walkToEnd happend m [], ← unnoted_walkToEnd hh m []]
  unfold Handlers.dispatched
  generalize walkToEnd h.noting _ = r at hcut hknown ⊢
  generalize walkToEnd h'.noting _ = r' at hcut ⊢
  cases hcut with
  | ok => exact ⟨fun _ => rfl, nofun⟩
  | halt hne => exact ⟨fun _ => rfl, fun op hop => absurd (Option.some.inj hop) (hne op)⟩
  | cut hop hevents hops =>
    refine ⟨fun hne => absurd rfl (hne _), fun op' hop' => ?_⟩
    cases hop'
    refine ⟨hop, ⟨_, rfl, fun o ho => (hknown o ho).resolve_left nofun, hops⟩, ?_⟩
    cases r' <;> exact hevents

end

/-! ## Traces -/

namespace Trace

theorem known_eq_some {α : Type} {accepts : Opcode → Bool} {op : Opcode} {a b : α}
    (h : known accepts op a = some b) : accepts op = true ∧ a = b := by
  unfold known at h
  split at h
  · exact ⟨‹_›, Option.some.inj h⟩
  · cases h

theorem appends_push (e : Event) : Appends (push e) := fun _ => ⟨[e], rfl⟩

/-- The handlers that record calls append events. -/
theorem append_handlers (accepts : Opcode → Bool) : (handlers accepts).Append where
  call v action hfind w := by
    cases v with
    | alu op =>
      cases op <;>
        obtain ⟨handle, hhandle, rfl⟩ := Option.map_eq_some_iff.mp hfind <;>
        obtain ⟨-, rfl⟩ := known_eq_some hhandle <;>
        exact appends_push _
    | cf | exp | cfAlu | tex | vtx =>
      obtain ⟨handle, hhandle, rfl⟩ := Option.map_eq_some_iff.mp hfind
      obtain ⟨-, rfl⟩ := known_eq_some hhandle
      exact appends_push _
  beginGroup _ _ _ es := ⟨[], by rw [List.append_nil]; rfl⟩
  endGroup _ _ _ es := ⟨[], by rw [List.append_nil]; rfl⟩

theorem within_handlers {accepts accepts' : Opcode → Bool}
    (h : ∀ op, accepts op = true → accepts' op = true) :
    (handlers accepts).Within (handlers accepts') := by
  have hknown : ∀ {α : Type} {op : Opcode} {a : α} (b : α), known accepts op a = some b →
      known accepts' op a = some b := by
    intro α op a b hb
    obtain ⟨hop, rfl⟩ := known_eq_some hb
    exact if_pos (h op hop)
  exact ⟨fun _ => hknown, fun _ => hknown, fun _ => hknown, fun _ => hknown, fun _ => hknown,
    fun _ => hknown, fun _ => hknown, rfl, rfl⟩

end Trace

/-- A texture clause with one sample, and an instruction that ends the program. -/
def sampling : Program := ⟨(Word.listToBytes [2, 0x00800000, 0, 0x00200000, 0x10, 0, 0, 0]).toArray⟩

/-- The machine that starts with a program. -/
def samplingStart : Machine Trace :=
  { walk := { program := sampling, stage := .pixel, isFunction := false }, out := [] }

/-- Without a handler for samples, the walk stops in the clause. With one, it goes on from there. -/
theorem walk_within_sampling :
    let h := Trace.handlers fun op => op ≠ .tex .sample
    let h' := Trace.handlers fun _ => true
    haltOf (walkToEnd h samplingStart) = some (.fault (.unimplemented (.tex .sample))) ∧
      h'.dispatched samplingStart = [.cf .tex, .tex .sample, .cf .nop] ∧
      h.has (.tex .sample) = false ∧
      (∃ before, h.dispatched samplingStart = before ++ [.tex .sample] ∧
        (∀ o ∈ before, h.has o = true) ∧
        h.dispatched samplingStart <+: h'.dispatched samplingStart) ∧
      (stateOf (walkToEnd h samplingStart)).out <+: (stateOf (walkToEnd h' samplingStart)).out := by
  intro h h'
  have hhalt : haltOf (walkToEnd h samplingStart) =
      some (.fault (.unimplemented (.tex .sample))) := by decide +kernel
  have hwithin : h.Within h' := Trace.within_handlers fun _ _ => rfl
  refine ⟨hhalt, by decide +kernel, ?_⟩
  exact (walk_within (Trace.append_handlers _) hwithin samplingStart).2 _ hhalt

end LatteHlsl
