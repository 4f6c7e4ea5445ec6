import LatteHlsl.Proofs.Counting
import LatteHlsl.Proofs.EmitClosure

/-!
# The compiler halts by faults

Every handler of the compiler halts by faults only. The one that could do otherwise is the handler
of reductions: the maximum takes the first four lanes of its group. A walk hands a reduction over
only when all four are there.

* `exists_controlNote`, `exists_beginGroup`, `exists_endGroup`: what always succeeds.
* `onlyFault_handlers`: all handlers.
-/

namespace LatteHlsl.Compile

open Isa Hlsl Effect

/-! ## Actions that succeed -/

theorem exists_note (c : Context) (l : Line) (o : Output) : ∃ o', note c l o = .ok () o' := by
  unfold note
  split <;> exact ⟨_, rfl⟩

theorem exists_controlNote (c : Context) (op : Opcode) (w : Walk) (o : Output) :
    ∃ o', controlNote c w op o = .ok () o' :=
  exists_note c _ o

variable (c : Context) (cf : CfInstr) (g : AluGroup) (w : Walk)

theorem exists_beginGroup (o : Output) :
    ∃ o', (handlers c).beginGroup w cf g o = .ok () o' :=
  exists_note c (.groupNote w.groupPc) { o with deferred := [] }

theorem exists_emitRegWrites (ws : List RegWrite) (o : Output) :
    ∃ o', ws.forM (m := Emit) (fun w => emit (.regWrite w)) o = .ok () o' := by
  induction ws generalizing o with
  | nil => exact ⟨o, rfl⟩
  | cons w ws ih =>
    obtain ⟨o', ho'⟩ := ih (o.add { lines := [.stmt (.regWrite w)] })
    exact ⟨o', forM_cons_eq_ok.mpr ⟨_, emit_eq_ok.mpr rfl, ho'⟩⟩

theorem exists_endGroup (o : Output) :
    ∃ o', (handlers c).endGroup w cf g o = .ok () o' := by
  obtain ⟨o', ho'⟩ := exists_emitRegWrites o.deferred { o with deferred := [] }
  show ∃ o', endGroup w cf g o = .ok () o'
  unfold endGroup
  rw [bind_of_eq_ok (get_eq_ok.mpr ⟨rfl, rfl⟩), bind_of_eq_ok (set_eq_ok (u := ()).mpr rfl),
    bind_of_eq_ok ho']
  exact ⟨_, rfl⟩

/-! ## Handlers -/

theorem emitClosed_onlyFaults : EmitClosed c c fun _ x _ => OnlyFaults x where
  context := rfl
  pure a := .pure a
  fail fault := .fail fault
  bind hx hf := .bind hx fun _ a _ _ => hf a
  emit _ := .modify _
  note _ _ := .of_ok (exists_note c _)
  record _ := .modify _
  defer _ := .modify _
  addInput _ := .modify _
  store _ _ _ := by
    refine .of_ok (a := ()) fun o => ?_
    exact ⟨_, bind_eq_ok.mpr ⟨_, _, exportSlot_eq_ok.mpr ⟨rfl, rfl⟩, emitMove_eq_ok.mpr rfl⟩⟩

/-- The handlers of the compiler halt by faults only, wherever a walk calls them. -/
theorem onlyFault_handlers : (handlers c).OnlyFault where
  call v _ hfind hv _ := (emitClosed_onlyFaults c).call (.inl (hv v rfl)) hfind rfl rfl
  beginGroup cf g _ w := .of_ok (exists_beginGroup c cf g w)
  endGroup cf g _ w := .of_ok (exists_endGroup c cf g w)

end LatteHlsl.Compile
