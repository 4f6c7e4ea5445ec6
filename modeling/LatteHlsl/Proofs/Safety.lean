import LatteHlsl.Proofs.Agreement
import LatteHlsl.Proofs.Encoding

/-!
# What a compilation can come to

Any bytes compile to a shader or are refused by a fault. The checks that make this so stand far from
the places that need them: a walk looks at all lanes of a reduction before it hands it over, and the
numbers of resources are compared with the number of slots before anything is looked up. There is
one exception. Groups and control flow instructions are counted in 32 bits. A program of 2²⁸ bytes
can hold enough instructions to count too many groups, since their clauses may overlap, and one of
2³⁵ bytes holds too many instructions itself.

* `reducingBy`: other handlers for reductions; a walk does not notice what they do without all lanes.
* `NumbersHold`: numbers of instruction fields at the places where something is looked up.
* `compile_comes_to`: what a compilation can come to.
* `filled`, `compile_crowded`: programs with too many groups and too many instructions.
-/

namespace LatteHlsl.Compile

open Isa Hlsl Effect

/-! ## Reductions -/

/-- The handlers of the compiler, with another handler for reductions. -/
def reducingBy (c : Context) (reduce : AluHandler Output) : Handlers Output :=
  { handlers c with
    op2 := fun op =>
      (op2Handler op).map fun handle => if op.traits.reduction then reduce else handle }

/-- The other handler is not noticed where a group admits the call. -/
theorem find_reducingBy {c : Context} {reduce : AluHandler Output} {op : AluOp2} {cf : CfInstr}
    {g : AluGroup} {target : Target} {i : AluInstr}
    (hreduce : ∀ w cf g i, (∃ is : Quad AluInstr, g.vector = is.map some) →
      reduce w cf g .reduction i = compileReduction w cf g .reduction i)
    (hadmits : g.Admits (.op2 op) target) :
    (reducingBy c reduce).find (.alu (.op2 op) cf g target i) =
      (handlers c).find (.alu (.op2 op) cf g target i) := by
  simp only [Handlers.find, Handlers.alu, reducingBy, handlers]
  cases hhandle : op2Handler op with
  | none => rfl
  | some handle =>
    simp only [Option.map_some, Option.some.injEq]
    split
    · rename_i hred
      cases target with
      | lane l => exact absurd (hred.symm.trans hadmits) (by decide)
      | reduction =>
        obtain ⟨-, is, hlanes, -⟩ := hadmits
        rcases op2Handler_eq_some hhandle with ⟨rfl, rfl⟩ | ⟨rfl, rfl⟩ | ⟨-, rfl⟩ | ⟨hfalse, -⟩
        · exact absurd hred (by decide)
        · exact absurd hred (by decide)
        · congr 1
          funext w
          exact hreduce w cf g i ⟨is, hlanes⟩
        · exact absurd (hred.symm.trans hfalse) (by decide)
    · rfl

/-- A walk asks for a reduction only where the lanes X to W are all there. -/
theorem alike_reducingBy {c : Context} {reduce : AluHandler Output}
    (hreduce : ∀ w cf g i, (∃ is : Quad AluInstr, g.vector = is.map some) →
      reduce w cf g .reduction i = compileReduction w cf g .reduction i) :
    Alike c (fun _ => True) (reducingBy c reduce) where
  find v hv _ := by
    cases v with
    | cf | exp | cfAlu | tex | vtx => rfl
    | alu op cf g target i =>
      cases op with
      | op3 op => rfl
      | op2 op => exact find_reducingBy hreduce hv.2
  beginGroup := rfl
  endGroup := rfl

/-! ## Numbers of resources -/

theorem val_of_slotOf {kind : SampleResource} {n : Nat} {s : Slot} (h : slotOf kind n = .ok s) :
    s.val = n := by
  unfold slotOf slot? at h
  split at h
  · rename_i slot hslot
    cases h
    split at hslot
    · cases hslot
      rfl
    · cases hslot
  · cases h

/-- The selector that names an operand. -/
def selOf : Operand → Nat
  | .gpr n => n
  | .kcache bank n => 128 + 32 * bank.index + n
  | .zero => 248
  | .one => 249
  | .intOne => 250
  | .intMinusOne => 251
  | .half => 252
  | .literal => Operand.literalSel
  | .prevVector => 254
  | .prevScalar => 255
  | .cfile n => 256 + n

/-- Numbers that instruction fields give, at the places where something is looked up by them or
where their ranges are subtracted from them. -/
structure NumbersHold (c : Context) : Prop where
  block : ∀ (cf : CfInstr) (bank : KcacheBank), cf.kcacheBlock bank < 16
  sample : ∀ i s, sampleOf c.texDims i = .ok s →
    s.texture.val = i.resourceId ∧ i.resourceId < 16 ∧ s.sampler.val = i.samplerId ∧
      i.samplerId < 16
  fetch : ∀ i a, attributeOf c i = .ok a →
    i.semanticId < 32 ∧ 160 ≤ i.bufferId ∧
      ∀ input gpr, a = some (input, gpr) → 160 + input.bufferIndex = i.bufferId
  operand : ∀ sel o, Operand.ofSel? sel = some o → selOf o = sel

theorem selOf_of_ofSel? {sel : Nat} {o : Operand} (h : Operand.ofSel? sel = some o) :
    selOf o = sel := by
  revert h
  unfold Operand.ofSel?
  -- one goal for each range of selectors
  repeat'
    refine iteInduction (motive := fun x => x = some o → selOf o = sel) (fun h => ?_) fun h => ?_
  all_goals rintro ⟨⟩
  all_goals simp only [selOf, KcacheBank.index]
  all_goals omega

theorem lt_of_semanticGpr {semantics : Semantics} {id : Nat} {gpr : UInt8}
    (h : semanticGpr semantics id = .ok gpr) : id < semanticCount := by
  unfold semanticGpr at h
  split at h
  · assumption
  · cases h

theorem add_of_bufferIndex {buffer index : Nat} (h : bufferIndex buffer = .ok index) :
    firstAttributeBuffer + index = buffer := by
  unfold bufferIndex at h
  split at h
  · rename_i hrange
    rw [← Except.ok.inj h]
    exact Nat.add_sub_cancel' hrange.1
  · cases h

theorem slots_of_sampleOf {dims : TextureDims} {i : TexInstr} {s : Sample}
    (h : sampleOf dims i = .ok s) :
    s.texture.val = i.resourceId ∧ s.sampler.val = i.samplerId := by
  unfold sampleOf at h
  split at h
  · cases h
  · split at h
    · cases h
    · simp only [Checked.bind_eq_ok] at h
      obtain ⟨texture, htexture, sampler, hsampler, h⟩ := h
      split at h
      · cases h
      · simp only [Checked.bind_eq_ok, Checked.pure_eq_ok] at h
        obtain ⟨offsets, -, rfl⟩ := h
        exact ⟨val_of_slotOf htexture, val_of_slotOf hsampler⟩

theorem numbersHold (c : Context) : NumbersHold c where
  block := CfInstr.kcacheBlock_lt
  sample i s h := by
    obtain ⟨htexture, hsampler⟩ := slots_of_sampleOf h
    exact ⟨htexture, htexture ▸ s.texture.isLt, hsampler, hsampler ▸ s.sampler.isLt⟩
  fetch i a h := by
    simp only [attributeOf, Checked.bind_eq_ok] at h
    obtain ⟨buffer, hbuffer, ⟨mode, divisor⟩, -, ⟨bits, count⟩, -, gpr, hgpr, h⟩ := h
    have hadd : 160 + buffer = i.bufferId := add_of_bufferIndex hbuffer
    refine ⟨lt_of_semanticGpr hgpr, Nat.le.intro hadd, ?_⟩
    rintro input gpr rfl
    split at h
    · cases Checked.pure_eq_ok.mp h
    · cases Checked.pure_eq_ok.mp h
      exact hadd
  operand _ _ h := selOf_of_ofSel? h

/-! ## Outcomes -/

/-- A compilation that is neither finished nor refused by a fault has counted to the end of a
counter. -/
theorem halt_call_start (c : Context) (p : Program) (stage : Stage) (isFunction : Bool) :
    ((Job.start c p stage isFunction).call .compile).1 = none ∨
      (∃ fault, ((Job.start c p stage isFunction).call .compile).1 = some (.fault fault)) ∨
      ((Job.start c p stage isFunction).call .compile).1 = some (.counterOverflow .group) ∧
        2 ^ 28 ≤ p.size ∨
      ((Job.start c p stage isFunction).call .compile).1 = some (.counterOverflow .cf) ∧
        2 ^ 35 ≤ p.size := by
  have hh := onlyFault_handlers c
  have hm := fresh_start c p stage isFunction
  obtain ⟨xs, hw⟩ := exists_walksThrough hh (Job.start c p stage isFunction).machine
  rw [halt_call_compile]
  dsimp only [Job.start] at hw hm ⊢
  generalize walkProgram (handlers c) _ = r at hw ⊢
  cases r with
  | ok u m => exact .inl rfl
  | error halt m =>
    rcases hw.halts hh hm with ⟨fault, rfl⟩ | ⟨rfl, hlarge⟩ | ⟨rfl, hlarge⟩
    · exact .inr (.inl ⟨fault, rfl⟩)
    · exact .inr (.inr (.inl ⟨rfl, hlarge⟩))
    · exact .inr (.inr (.inr ⟨rfl, hlarge⟩))

/-- A compilation succeeds or halts by a fault, unless there is too much to count: groups in a
program of 2²⁸ bytes or more, control flow instructions in one of 2³⁵ bytes or more. Finishing never
does more than refuse a job that is not complete. -/
theorem compile_comes_to (c : Context) (p : Program) (stage : Stage) (isFunction : Bool) :
    (∀ halt? j, (Job.start c p stage isFunction).call .compile = (halt?, j) →
        (halt? = none ∨ (∃ fault, halt? = some (.fault fault)) ∨
            halt? = some (.counterOverflow .group) ∧ 2 ^ 28 ≤ p.size ∨
            halt? = some (.counterOverflow .cf) ∧ 2 ^ 35 ≤ p.size) ∧
          ∀ fetch?, (∃ shader, j.finishWith fetch? = .ok shader) ∨
            j.finishWith fetch? = .error .incomplete) ∧
      (∀ reduce : AluHandler Output,
        (∀ w cf g i, (∃ is : Quad AluInstr, g.vector = is.map some) →
          reduce w cf g .reduction i = compileReduction w cf g .reduction i) →
        walkToEnd (reducingBy c reduce) (Job.start c p stage isFunction).machine =
          walkToEnd (handlers c) (Job.start c p stage isFunction).machine) ∧
      NumbersHold c := by
  refine ⟨?_, ?_, numbersHold c⟩
  · intro halt? j hcall
    have hhalt := halt_call_start c p stage isFunction
    rw [hcall] at hhalt
    refine ⟨hhalt, fun fetch? => ?_⟩
    unfold Job.finishWith
    split
    · exact .inl ⟨_, rfl⟩
    · exact .inr rfl
  · intro reduce hreduce
    unfold walkToEnd
    rw [walkProgram_alike (alike_reducingBy hreduce) fun _ _ => trivial]

/-! ## Programs of one instruction -/

/-- A program that holds the same instruction `k` times. -/
def filled (cf : CfInstr) (k : Nat) : Program :=
  ⟨((List.replicate k cf).flatMap CfInstr.toBytes).toArray⟩

theorem size_filled (cf : CfInstr) (k : Nat) : (filled cf k).size = 8 * k := by
  show (((List.replicate k cf).flatMap CfInstr.toBytes).toArray).size = 8 * k
  rw [List.size_toArray, CfInstr.encodes.length_flatMap, List.length_replicate]
  exact Nat.mul_comm k 8

theorem cfAt_filled {cf : CfInstr} {k i : Nat} (hi : i < k) (hk : 8 * k < 2 ^ 64) :
    (filled cf k).cfAt i = .ok cf := by
  have hnth : (List.replicate k cf)[i]? = some cf := List.getElem?_replicate_of_lt hi
  have hat := CfInstr.encodes.standsAt_of_getElem? (StandsAt.zero _) hnth
  rw [Nat.zero_add] at hat
  refine Program.cfAt_of_standsAt ?_ hat
  rw [size_filled]
  exact hk

/-- Counting from `m`, the number `n` of groups is reached or the counter overflows. -/
def CountsAll (n : Nat) (m : Machine Output) (r : EStateM.Result Halt (Machine Output) Unit) :
    Prop :=
  if m.walk.groupPc.toNat + n < 2 ^ 32 then
    ∃ m', r = .ok () m' ∧ m'.walk.groupPc.toNat = m.walk.groupPc.toNat + n
  else ∃ m', r = .error (.counterOverflow .group) m'

/-- The counter that has no number left for instruction `i`, if each of them counts `g` groups. -/
def exhausted? (g i : Nat) : Option Counter :=
  if 2 ^ 32 ≤ g * (i + 1) then some .group else if 2 ^ 32 ≤ i + 1 then some .cf else none

/-- A walk that stands at instruction `i` of a filled program. Each one before it counted `g`
groups. -/
structure Reaches (cf : CfInstr) (k g i : Nat) (m : Machine Output) : Prop where
  program : m.walk.program = filled cf k
  goes : m.walk.reachedEnd = false
  pc : m.walk.cfPc.toNat = i
  groups : m.walk.groupPc.toNat = g * i

theorem Reaches.walkSteps_succ {c : Context} {cf : CfInstr} {k g i n : Nat} {m : Machine Output}
    (hm : Reaches cf k g i m) (hi : i < k) (hk : 8 * k < 2 ^ 64) :
    walkSteps (handlers c) (n + 1) m =
      (visit (handlers c) cf >>= fun _ => walkSteps (handlers c) n) m := by
  have hcf : (filled cf k).hasCf i = true := by
    simp only [Program.hasCf, size_filled, Bool.and_eq_true, decide_eq_true_eq]
    exact ⟨show i * 8 < 2 ^ 64 by omega, show i * 8 < 8 * k by omega⟩
  rw [LatteHlsl.walkSteps_succ, hm.program, hm.pc, hcf, hm.goes, if_neg (by decide),
    cfAt_filled hi hk, bind_of_eq_ok (decode_eq_ok.mpr ⟨rfl, rfl⟩)]

section

variable {c : Context} {cf : CfInstr} {k g : Nat}
  (hcounts : ∀ m : Machine Output, m.walk.program = filled cf k →
    CountsAll g m (walkCf (handlers c) cf m))
  (hgoes : cf.isTerminal = false)
include hcounts hgoes

/-- One instruction of a filled program. -/
theorem Reaches.visit {i : Nat} {m : Machine Output} (hm : Reaches cf k g i m) :
    (∀ counter, exhausted? g i = some counter →
        ∃ m', visit (handlers c) cf m = .error (.counterOverflow counter) m') ∧
      (exhausted? g i = none →
        ∃ m', visit (handlers c) cf m = .ok () m' ∧ Reaches cf k g (i + 1) m') := by
  have hwalked := hcounts m hm.program
  unfold CountsAll at hwalked
  rw [hm.groups, ← Nat.mul_succ] at hwalked
  unfold exhausted?
  by_cases hgroups : 2 ^ 32 ≤ g * (i + 1)
  · rw [if_neg (Nat.not_lt_of_le hgroups)] at hwalked
    obtain ⟨m', herror⟩ := hwalked
    rw [if_pos hgroups]
    refine ⟨?_, fun hnone => absurd hnone (Option.some_ne_none _)⟩
    rintro _ ⟨⟩
    exact ⟨m', bind_of_eq_error herror⟩
  · rw [if_pos (Nat.lt_of_not_le hgroups)] at hwalked
    obtain ⟨m₁, hok, hcounted⟩ := hwalked
    obtain ⟨-, hwalk⟩ := walkCf_ok (onlyFault_handlers c) hok
    have hpc : m₁.walk.cfPc.toNat = i := by rw [hwalk]; exact hm.pc
    rw [if_neg hgroups]
    cases hcount : Machine.count .cf m₁ with
    | error halt m₂ =>
      obtain ⟨rfl, hend, -⟩ := Machine.count_eq_error hcount
      rw [Walk.counted_cf, hpc] at hend
      rw [if_pos (Nat.le_of_eq hend.symm)]
      refine ⟨?_, fun hnone => absurd hnone (Option.some_ne_none _)⟩
      rintro _ ⟨⟩
      exact ⟨m₂, (bind_of_eq_ok hok).trans hcount⟩
    | ok u m₂ =>
      obtain ⟨n, hn, rfl⟩ := Machine.count_eq_ok hcount
      rw [Walk.counted_cf, hpc] at hn
      have hlt := n.isLt
      rw [if_neg (by omega)]
      refine ⟨fun _ hsome => absurd hsome.symm (Option.some_ne_none _), fun _ =>
        ⟨_, (bind_of_eq_ok hok).trans hcount, ?_, ?_, hn, hcounted⟩⟩
      · dsimp only [Walk.withCounted]
        rw [hwalk]
        exact hm.program
      · dsimp only [Walk.withCounted]
        rw [hwalk, hgoes, hm.goes]
        rfl

/-- The walk over a filled program ends at the first instruction for which a counter has no number
left. -/
theorem walkSteps_filled {last : Nat} {counter : Counter} (hlast : exhausted? g last = some counter)
    (hfirst : ∀ i < last, exhausted? g i = none) (hk : last < k) (hlimit : 8 * k < 2 ^ 64) {d : Nat} :
    ∀ {i n : Nat} {m : Machine Output}, Reaches cf k g i m → i + d = last → d < n →
      ∃ m', walkSteps (handlers c) n m = .error (.counterOverflow counter) m' := by
  induction d with
  | zero =>
    intro i n m hm hi hn
    obtain ⟨n, rfl⟩ : ∃ n', n = n' + 1 := ⟨n - 1, by omega⟩
    obtain rfl : i = last := hi
    obtain ⟨m', herror⟩ := (hm.visit hcounts hgoes).1 counter hlast
    refine ⟨m', ?_⟩
    rw [hm.walkSteps_succ hk hlimit, bind_of_eq_error herror]
  | succ d ih =>
    intro i n m hm hi hn
    obtain ⟨n, rfl⟩ : ∃ n', n = n' + 1 := ⟨n - 1, by omega⟩
    obtain ⟨m', hok, hm'⟩ := (hm.visit hcounts hgoes).2 (hfirst i (by omega))
    rw [hm.walkSteps_succ (by omega) hlimit, bind_of_eq_ok hok]
    exact ih hm' (by omega) (by omega)

theorem halt_filled (last : Nat) {counter : Counter} (hlast : exhausted? g last = some counter)
    (hfirst : ∀ i < last, exhausted? g i = none) (hk : last < k) (hlimit : 8 * k < 2 ^ 64) :
    ((Job.start c (filled cf k) .pixel false).call .compile).1 =
      some (.counterOverflow counter) := by
  have hsize := size_filled cf k
  have hstart : checkStart (Job.start c (filled cf k) .pixel false).machine.walk = .ok () := by
    have hne : (filled cf k).size ≠ 0 := by omega
    simp [checkStart, Job.start, hne]
  have hslots : k ≤ (filled cf k).cfSlots := by
    show k ≤ ((filled cf k).size + 8 - 1) / 8
    omega
  obtain ⟨m', herror⟩ := walkSteps_filled hcounts hgoes hlast hfirst hk hlimit (i := 0)
    (n := (filled cf k).cfSlots)
    (m := (Job.start c (filled cf k) .pixel false).machine.withStatus .walking)
    ⟨rfl, rfl, rfl, (Nat.mul_zero g).symm⟩ (Nat.zero_add last) (by omega)
  rw [halt_call_compile]
  exact congrArg haltOf ((walkProgram_of_start hstart).trans herror)

end

/-- A handler that only names its instruction leaves the walk as it is. -/
theorem runHandler_note {c : Context} {v : Invocation} (op : Opcode) (clause : Option ClauseKind)
    (hfind : (handlers c).find v = some ((noteHandler c op clause).action v.owner))
    (m : Machine Output) :
    ∃ out, runHandler (handlers c) v m =
      clause.elim (pure () : Effect (Machine Output) Unit) (walkClause (handlers c) v.owner)
        { m with out := out } := by
  obtain ⟨out, hout⟩ := exists_controlNote c op m.walk m.out
  refine ⟨out, ?_⟩
  unfold runHandler
  rw [bind_of_eq_ok (invoke_eq_ok.mpr ⟨_, out, hfind, hout, rfl, rfl⟩)]
  cases clause <;> rfl

/-! ## Too many instructions -/

/-- An instruction that does nothing. -/
def blank : CfInstr := ⟨0, 0⟩

theorem countsAll_blank (c : Context) (m : Machine Output) :
    CountsAll 0 m (walkCf (handlers c) blank m) := by
  obtain ⟨out, hrun⟩ := runHandler_note (c := c) (v := .cf .nop blank) (.cf .nop) none rfl m
  have hwalk : walkCf (handlers c) blank m =
      (runHandler (handlers c) (.cf .nop blank) >>= fun _ =>
        Machine.modifyWalk fun w => w.afterCf .nop blank) m := rfl
  have hlt := m.walk.groupPc.isLt
  rw [CountsAll, if_pos (by omega), hwalk, bind_of_eq_ok hrun]
  exact ⟨_, rfl, rfl⟩

/-! ## Too many groups -/

/-- An instruction that can be read in two ways. As a control flow instruction, it starts a clause
of 128 slots at the beginning of the program; as an ALU slot, it is a group that does nothing. -/
def crowdCf : CfInstr := ⟨0x80000000, 0x21FC0D00⟩

/-- The instruction as an ALU slot. -/
def crowdAlu : AluInstr := ⟨0x80000000, 0x21FC0D00⟩

/-- The slot as a group. -/
def idle : AluGroup := { vector := ⟨none, some crowdAlu, none, none⟩ }

theorem aluClause_crowd {k : Nat} (hk : 128 ≤ k) (hlimit : 8 * k < 2 ^ 64) :
    (filled crowdCf k).aluClause crowdCf.aluAddr crowdCf.aluCount =
      .ok (List.replicate 128 crowdAlu) := by
  have hbytes : ∀ n, (List.replicate n crowdCf).flatMap CfInstr.toBytes =
      (List.replicate n crowdAlu).flatMap AluInstr.toBytes := by
    intro n
    rw [List.flatMap_replicate, List.flatMap_replicate]
    rfl
  have hat : StandsAt (filled crowdCf k).bytes (crowdCf.aluAddr * Program.clauseUnit)
      ((List.replicate 128 crowdAlu).flatMap AluInstr.toBytes) := by
    have hsplit : (List.replicate k crowdCf).flatMap CfInstr.toBytes =
        (List.replicate 128 crowdCf).flatMap CfInstr.toBytes ++
          (List.replicate (k - 128) crowdCf).flatMap CfInstr.toBytes := by
      rw [← List.flatMap_append, List.replicate_append_replicate, Nat.add_sub_cancel' hk]
    have hall := StandsAt.zero ((List.replicate k crowdCf).flatMap CfInstr.toBytes)
    rw [← hbytes]
    unfold filled
    rw [hsplit] at hall ⊢
    exact hall.left
  have hsize : (filled crowdCf k).size < Program.positionLimit := by
    rw [size_filled]
    exact hlimit
  have hread := Program.clause_of_standsAt AluInstr.encodes hsize hat
  rw [List.length_replicate] at hread
  exact hread

theorem readUpTo_crowd (fuel start n : Nat) (hn : n ≤ fuel) :
    AluGroup.readUpTo fuel start (List.replicate n crowdAlu) =
      { groups := List.replicate n idle } := by
  induction n generalizing fuel start with
  | zero => cases fuel <;> rfl
  | succ n ih =>
    obtain ⟨fuel, rfl⟩ : ∃ f, fuel = f + 1 := ⟨fuel - 1, by omega⟩
    have hread : ∀ rest, AluGroup.read start (crowdAlu :: rest) = ⟨.ok idle, 1⟩ := fun _ => rfl
    rw [List.replicate_succ, AluGroup.readUpTo]
    simp only [hread, List.drop_succ_cons, List.drop_zero]
    rw [ih fuel (start + 1) (by omega)]
    rfl

/-- A group that does nothing is counted all the same. -/
theorem walkGroup_idle (c : Context) (cf : CfInstr) (m : Machine Output) :
    ∃ out, walkGroup (handlers c) cf idle m = Machine.count .group { m with out := out } := by
  obtain ⟨o, ho⟩ := exists_beginGroup c cf idle m.walk m.out
  obtain ⟨out, hout⟩ := exists_endGroup c cf idle m.walk o
  refine ⟨out, ?_⟩
  unfold walkGroup
  rw [bind_of_eq_ok (Machine.act_eq_ok (u := ()).mpr ⟨o, ho, rfl⟩),
    bind_of_eq_ok (show walkReduction (handlers c) cf idle _ = .ok Lane.all _ from rfl),
    bind_of_eq_ok (show Lane.all.forM (walkLane (handlers c) cf idle) _ = .ok () _ from rfl),
    bind_of_eq_ok (Machine.act_eq_ok (u := ()).mpr ⟨out, hout, rfl⟩)]

theorem countsAll_countGroup (m : Machine Output) : CountsAll 1 m (Machine.count .group m) := by
  unfold CountsAll
  cases hr : Machine.count .group m with
  | ok u m' =>
    obtain ⟨n, hn, rfl⟩ := Machine.count_eq_ok hr
    rw [Walk.counted_group] at hn
    have := n.isLt
    rw [if_pos (by omega)]
    exact ⟨_, rfl, hn⟩
  | error halt m' =>
    obtain ⟨rfl, hend, rfl⟩ := Machine.count_eq_error hr
    rw [Walk.counted_group] at hend
    rw [if_neg (by omega)]
    exact ⟨_, rfl⟩

theorem countsAll_idle (c : Context) (cf : CfInstr) (n : Nat) :
    ∀ m, CountsAll n m ((List.replicate n idle).forM (walkGroup (handlers c) cf) m) := by
  induction n with
  | zero =>
    intro m
    have := m.walk.groupPc.isLt
    rw [CountsAll, if_pos (by omega)]
    exact ⟨m, rfl, rfl⟩
  | succ n ih =>
    intro m
    obtain ⟨out, hout⟩ := walkGroup_idle c cf m
    have hfirst := countsAll_countGroup { m with out := out }
    show CountsAll (n + 1) m
      ((walkGroup (handlers c) cf idle >>= fun _ =>
        (List.replicate n idle).forM (walkGroup (handlers c) cf)) m)
    unfold CountsAll at hfirst
    dsimp only at hfirst
    split at hfirst
    · obtain ⟨m', hok, hgroups⟩ := hfirst
      have hrest := ih m'
      rw [bind_of_eq_ok (hout.trans hok)]
      unfold CountsAll at hrest ⊢
      rw [hgroups] at hrest
      rw [Nat.add_comm n 1, ← Nat.add_assoc]
      exact hrest
    · obtain ⟨m', herror⟩ := hfirst
      rw [bind_of_eq_error (hout.trans herror), CountsAll, if_neg (by omega)]
      exact ⟨m', rfl⟩

/-- The instruction counts 128 groups. -/
theorem countsAll_crowd {c : Context} {k : Nat} (hk : 128 ≤ k) (hlimit : 8 * k < 2 ^ 64)
    {m : Machine Output} (hm : m.walk.program = filled crowdCf k) :
    CountsAll 128 m (walkCf (handlers c) crowdCf m) := by
  obtain ⟨out, hrun⟩ :=
    runHandler_note (c := c) (v := .cfAlu .alu crowdCf) (.cfAlu .alu) (some .alu) rfl m
  have hwalk : walkCf (handlers c) crowdCf m =
      walkAluClause (handlers c) crowdCf { m with out := out } := hrun
  have hread : Machine.read (fun p => p.aluClause crowdCf.aluAddr crowdCf.aluCount)
      { m with out := out } = .ok (List.replicate 128 crowdAlu) { m with out := out } := by
    rw [Machine.read_eq_ok, hm]
    exact ⟨aluClause_crowd hk hlimit, rfl⟩
  have hgroups := countsAll_idle c crowdCf 128 { m with out := out }
  rw [hwalk]
  unfold walkAluClause AluGroup.readAll
  rw [bind_of_eq_ok hread, List.length_replicate, readUpTo_crowd 128 0 128 (Nat.le_refl _)]
  unfold CountsAll at hgroups ⊢
  dsimp only at hgroups ⊢
  split at hgroups
  · obtain ⟨m', hok, hn⟩ := hgroups
    rw [if_pos ‹_›, bind_of_eq_ok hok]
    exact ⟨m', rfl, hn⟩
  · obtain ⟨m', herror⟩ := hgroups
    rw [if_neg ‹_›, bind_of_eq_error herror]
    exact ⟨m', rfl⟩

/-- A program of 2²⁸ bytes and one of 2³⁵ bytes that are neither compiled nor refused by a fault:
2²⁵ instructions with 128 groups each, and 2³² instructions that do nothing. -/
theorem compile_crowded :
    ((filled crowdCf (2 ^ 25)).size = 2 ^ 28 ∧
      ((Job.start {} (filled crowdCf (2 ^ 25)) .pixel false).call .compile).1 =
        some (.counterOverflow .group)) ∧
    (filled blank (2 ^ 32)).size = 2 ^ 35 ∧
      ((Job.start {} (filled blank (2 ^ 32)) .pixel false).call .compile).1 =
        some (.counterOverflow .cf) := by
  refine ⟨⟨size_filled _ _, ?_⟩, size_filled _ _, ?_⟩
  · refine halt_filled (g := 128) (fun m hm => countsAll_crowd (by decide) (by decide) hm)
      (by decide) (2 ^ 25 - 1) (by decide) (fun i hi => ?_) (by decide) (by decide)
    rw [exhausted?, if_neg (by omega), if_neg (by omega)]
  · refine halt_filled (g := 0) (fun m _ => countsAll_blank {} m) (by decide) (2 ^ 32 - 1)
      (by decide) (fun i hi => ?_) (by decide) (by decide)
    rw [exhausted?, if_neg (by omega), if_neg (by omega)]

end LatteHlsl.Compile
