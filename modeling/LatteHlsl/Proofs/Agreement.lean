import LatteHlsl.Proofs.Visits

/-!
# What a walk asks of its handlers

A walk depends on its handlers only where it calls them. Handlers that agree with those of the
compiler on the calls that a program leads to give the same walk.

* `Alike`: handlers that agree with the compiler on the ALU calls that groups admit and on given
  texture fetches.
* `walkCf_alike`, `walkSteps_alike`, `walkProgram_alike`: they walk alike.
-/

namespace LatteHlsl.Compile

open Isa Effect

/-- A call for a texture fetch is for one of `fetched`. -/
def FetchAmong (fetched : TexInstr → Prop) : Invocation → Prop
  | .tex _ _ i => fetched i
  | .cf _ _ | .exp _ _ | .cfAlu _ _ | .alu _ _ _ _ _ | .vtx _ _ _ => True

/-- Handlers that agree with those of the compiler, except for ALU calls that no group admits and
for texture fetches that are not among `fetched`. -/
structure Alike (c : Context) (fetched : TexInstr → Prop) (h : Handlers Output) : Prop where
  find : ∀ v : Invocation, v.Admitted → FetchAmong fetched v → h.find v = (handlers c).find v
  beginGroup : h.beginGroup = beginGroup c
  endGroup : h.endGroup = endGroup

section

variable {c : Context} {fetched : TexInstr → Prop} {h : Handlers Output} (ha : Alike c fetched h)
include ha

theorem invoke_alike {v : Invocation} (hv : v.Admitted) (hfetch : FetchAmong fetched v) :
    invoke h v = invoke (handlers c) v := by
  unfold invoke
  rw [ha.find v hv hfetch]

/-! ## Clauses -/

/-- Handlers that agree walk groups in the same way. -/
theorem groupClosed_alike : GroupClosed h (handlers c) fun _ _ x y => x = y where
  mono hx _ := hx
  pure _ := rfl
  fail _ := rfl
  bind hx hf := by rw [hx, funext hf]
  alu hop hadmits := invoke_alike ha ⟨hop, hadmits⟩ trivial
  beginGroup cf g := by rw [ha.beginGroup]; rfl
  endGroup cf g := by rw [ha.endGroup]; rfl
  countGroup := rfl

omit ha in
theorem forM_congr {α σ : Type} {f g : α → Effect σ Unit} {as : List α}
    (hfg : ∀ a ∈ as, f a = g a) : as.forM f = as.forM g := by
  induction as with
  | nil => rfl
  | cons a as ih =>
    show (f a >>= fun _ => as.forM f) = g a >>= fun _ => as.forM g
    rw [hfg a List.mem_cons_self, ih fun b hb => hfg b (List.mem_cons_of_mem a hb)]

theorem walkFetches_alike {ι : Type}
    {reading : Program → Nat → Nat → Except DecodeFault (List ι)}
    {invocation : ι → Except DecodeFault Invocation} {cf : CfInstr} {m : Machine Output}
    (hcalls : ∀ is, reading m.walk.program cf.addr cf.count = .ok is → ∀ i ∈ is, ∀ v,
      invocation i = .ok v → v.Admitted ∧ FetchAmong fetched v) :
    walkFetches h reading invocation cf m =
      walkFetches (handlers c) reading invocation cf m := by
  refine bind_congr fun is t hread => ?_
  have his := hcalls is (Machine.read_eq_ok.mp hread).1
  refine congrFun (forM_congr fun i hi => (groupClosed_alike ha).walkInstr fun v hv => ?_) t
  exact invoke_alike ha (his i hi v hv).1 (his i hi v hv).2

theorem walkClause_alike {cf : CfInstr} {kind : ClauseKind} {m : Machine Output}
    (hfetched : kind = .tex → ∀ fetches, m.walk.program.texClause cf.addr cf.count = .ok fetches →
      ∀ i ∈ fetches, fetched i) :
    walkClause h cf kind m = walkClause (handlers c) cf kind m := by
  cases kind with
  | alu =>
    have hgroup : walkGroup h cf = walkGroup (handlers c) cf :=
      funext ((groupClosed_alike ha).walkGroup cf)
    show walkAluClause h cf m = walkAluClause (handlers c) cf m
    unfold walkAluClause
    rw [hgroup]
  | tex =>
    refine walkFetches_alike ha fun fetches hfetches i hi v hv => ?_
    obtain ⟨op, -, rfl⟩ := Checked.map_eq_ok.mp hv
    exact ⟨trivial, hfetched rfl fetches hfetches i hi⟩
  | vtx =>
    refine walkFetches_alike ha fun fetches _ i _ v hv => ?_
    obtain ⟨op, -, rfl⟩ := Checked.map_eq_ok.mp hv
    exact ⟨trivial, trivial⟩

/-! ## Control flow -/

theorem runHandler_alike {v : Invocation} {m : Machine Output} (hv : v.Admitted)
    (hfetch : FetchAmong fetched v)
    (hfetched : ∀ action, (handlers c).find v = some action → action.clause = some .tex →
      ∀ fetches, m.walk.program.texClause v.owner.addr v.owner.count = .ok fetches →
        ∀ i ∈ fetches, fetched i) :
    runHandler h v m = runHandler (handlers c) v m := by
  unfold runHandler
  rw [invoke_alike ha hv hfetch]
  refine bind_congr fun clause t hinvoke => ?_
  obtain ⟨action, out, hfind, -, rfl, rfl⟩ := invoke_eq_ok.mp hinvoke
  cases hclause : action.clause with
  | none => rfl
  | some kind =>
    exact walkClause_alike ha fun htex => hfetched action hfind (hclause.trans (by rw [htex]))

omit ha in
/-- Only the instruction for it starts a texture clause. -/
theorem eq_tex_of_clause {v : Invocation} {action : Action Output}
    (hfind : (handlers c).find v = some action) (hclause : action.clause = some .tex) :
    ∃ cf, v = .cf .tex cf := by
  cases v with
  | cf op i =>
    obtain ⟨handle, hhandle, rfl⟩ := Option.map_eq_some_iff.mp hfind
    simp only [handlers, cfHandler] at hhandle
    split at hhandle <;> cases hhandle <;> first | exact ⟨i, rfl⟩ | cases hclause
  | exp op i =>
    obtain ⟨handle, hhandle, rfl⟩ := Option.map_eq_some_iff.mp hfind
    exact absurd ((exportHandler_eq_some hhandle).1.symm.trans hclause) (by decide)
  | cfAlu op i =>
    obtain ⟨handle, hhandle, rfl⟩ := Option.map_eq_some_iff.mp hfind
    simp only [handlers, cfAluHandler] at hhandle
    split at hhandle <;> cases hhandle
    cases hclause
  | alu | tex | vtx =>
    obtain ⟨handle, -, rfl⟩ := Option.map_eq_some_iff.mp hfind
    cases hclause

theorem walkCf_alike {cf : CfInstr} {m : Machine Output}
    (hfetched : ∀ i, Task.sample i ∈ m.walk.program.cfTasks cf → fetched i) :
    walkCf h cf m = walkCf (handlers c) cf m := by
  unfold walkCf
  cases htype : cf.type with
  | normal =>
    refine bind_congr fun op t hdecode => ?_
    obtain ⟨hop, rfl⟩ := decode_eq_ok.mp hdecode
    refine bind_congr fun _ t hexamine => ?_
    obtain ⟨-, rfl⟩ := Machine.examine_eq_ok.mp hexamine
    refine bind_congr_left (runHandler_alike ha trivial trivial fun action hfind hclause fetches
      hfetches i hi => hfetched i ?_)
    obtain ⟨_, hv⟩ := eq_tex_of_clause hfind hclause
    obtain ⟨rfl, rfl⟩ := Invocation.cf.inj hv
    simpa [Program.cfTasks, htype, hop, show m.walk.program.texClause cf.addr cf.count = .ok fetches
      from hfetches, Except.toOption] using hi
  | exp =>
    refine bind_congr fun op t _ => bind_congr_left ?_
    refine runHandler_alike ha trivial trivial fun action hfind hclause => ?_
    obtain ⟨_, hv⟩ := eq_tex_of_clause hfind hclause
    cases hv
  | alu | aluExtended =>
    refine bind_congr fun op t _ => ?_
    refine runHandler_alike ha trivial trivial fun action hfind hclause => ?_
    obtain ⟨_, hv⟩ := eq_tex_of_clause hfind hclause
    cases hv

/-- Step after step, walks agree if they agree on the fetches of the instructions that are
reached. -/
theorem walkSteps_alike {n : Nat} :
    ∀ {m : Machine Output}, m.walk.reachedEnd = false →
      (∀ cf ∈ m.walk.program.flowFrom n m.walk.cfPc.toNat,
        ∀ i, Task.sample i ∈ m.walk.program.cfTasks cf → fetched i) →
      walkSteps h n m = walkSteps (handlers c) n m := by
  induction n with
  | zero => intros; rfl
  | succ n ih =>
    intro m hgoes hfetched
    rw [walkSteps_succ, walkSteps_succ]
    unfold Program.flowFrom at hfetched
    split
    · rfl
    · rename_i hcf
      rw [hgoes, Bool.false_or, Bool.not_eq_true', Bool.not_eq_false] at hcf
      refine bind_congr fun cf t hdecode => ?_
      obtain ⟨hat, rfl⟩ := decode_eq_ok.mp hdecode
      rw [if_pos hcf, hat] at hfetched
      obtain ⟨hfirst, hrest⟩ := List.forall_mem_cons.mp hfetched
      have hvisit : visit h cf m = visit (handlers c) cf m :=
        bind_congr_left (walkCf_alike ha hfirst)
      rw [bind_congr_left hvisit]
      refine bind_congr fun u m₁ hok => ?_
      obtain ⟨hpc, -, hwalk⟩ := visit_ok (onlyFault_handlers c) hok
      cases hterm : cf.isTerminal with
      | true =>
        have hend : m₁.walk.reachedEnd = true := by rw [hwalk, hgoes, hterm, Bool.false_or]
        rw [walkSteps_of_ended hend, walkSteps_of_ended hend]
      | false =>
        rw [hterm, if_neg Bool.false_ne_true] at hrest
        have hprogram : m₁.walk.program = m.walk.program := by rw [hwalk]
        refine ih (by rw [hwalk, hgoes, hterm, Bool.false_or]) ?_
        rw [hprogram, hpc]
        exact hrest

/-- A job walks alike if the handlers agree on the fetches of its program. -/
theorem walkProgram_alike {p : Program} {stage : Stage} {isFunction : Bool}
    (hfetched : ∀ i, Task.sample i ∈ p.tasks → fetched i) :
    walkProgram h (Job.start c p stage isFunction).machine =
      walkProgram (handlers c) (Job.start c p stage isFunction).machine := by
  cases hstart : checkStart (Job.start c p stage isFunction).machine.walk with
  | error fault => rw [walkProgram_of_refused hstart, walkProgram_of_refused hstart]
  | ok u =>
    rw [walkProgram_of_start hstart, walkProgram_of_start hstart]
    refine walkSteps_alike ha rfl fun cf hcf i hi => hfetched i ?_
    exact List.mem_flatMap.mpr ⟨cf, hcf, hi⟩

end

end LatteHlsl.Compile
