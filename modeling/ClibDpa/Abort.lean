import ClibDpa.Execution

/-!
# ClibDpa.Abort

What becomes of an `abort()`.

It writes `kAborted`, and the result is `TRN_ERROR_ABORTED` only if that value is still there when
`execute()` next evaluates it. Two steps overwrite it: the entry of `execute()`, and the acceptance
of a message while the worker has not yet evaluated the state. `KeepsAbort` excludes both;
`abort_kept` shows that nothing else loses an abort, and `abort_lost_by_execute`,
`abort_lost_by_message` that each of the two does.
-/

namespace ClibDpa
namespace Execution

open DpaTransaction2

/-- The step does not overwrite an abort. An `execute` that is told to report the abort itself is
no loss. -/
def KeepsAbort (s : State) (e : Event) : Prop :=
  s.tr.state = .aborted →
    (∀ err sent, e = .execute err sent → err = trnErrorAborted) ∧
    (∀ f kind, e = .receive f → ¬ s.tr.Accepts f.message kind)

/-- What is promised after an `abort()` that found the transaction unfinished; `early` when it
returned before `execute()` was entered. -/
structure AbortReported (early : Bool) (s : State) : Prop where
  code : s.tr.isFinished = true → s.tr.result.getErrorCode = trnErrorAborted
  notSent : early = true → s.handed = []

structure Aborted (early : Bool) (s : State) : Prop where
  wf : WellFormed s
  pending : s.tr.isFinished = false → s.tr.state = .aborted
  reported : AbortReported early s

/-- An aborted state ends the loop at the next evaluation, whatever the wait brought. -/
theorem settled_aborted {tr tr' : DpaTransaction2} {wait : Bool} {pc : ExecPc}
    (hst : tr.state = .aborted) (h : Settled tr (some wait) tr' pc) :
    tr'.isFinished = true ∧ tr'.result.getErrorCode = trnErrorAborted := by
  have hev : (tr.evaluate wait).2 = some trnErrorAborted := by simp [evaluate, hst]
  obtain ⟨_, rfl⟩ := h.ended hev fun hn => by cases hn
  refine ⟨rfl, ?_⟩
  rw [finish_result]
  exact DpaTransactionResult2.getErrorCode_setErrorCode_of_ne (by decide)

theorem aborted_step {early : Bool} {s s' : State} {e : Event} (h : Aborted early s)
    (hC : KeepsAbort s e) (he : step s e = some s') : Aborted early s' := by
  have hwf := wellFormed_step h.wf he
  cases step_effect he with
  | @execute err sent tr' pc' hpc hs =>
    have hopen := h.wf.at_entry hpc
    have herr := (hC (h.pending hopen)).1 err sent rfl
    subst herr
    obtain ⟨_, hfin, hcode⟩ := settled_begin_error (by decide) hs
    refine ⟨hwf, fun hf => ?_, fun _ => hcode, h.reported.notSent⟩
    rw [hfin] at hf
    cases hf
  | @receive f _ =>
    have hr := received_effect s f.message
    generalize received s f.message = s1 at hr ⊢
    cases hr with
    | ignored _ => exact h
    | confirmation ha => exact absurd ha ((hC (h.pending ha.1)).2 f _ rfl)
    | response ha => exact absurd ha ((hC (h.pending ha.1)).2 f _ rfl)
  | abort _ => exact ⟨hwf, fun _ => rfl, h.reported.code, h.reported.notSent⟩
  | timeout _ => exact ⟨hwf, h.pending, h.reported.code, h.reported.notSent⟩
  | wake _ => exact ⟨hwf, h.pending, h.reported.code, h.reported.notSent⟩
  | resume hpc hs =>
    have hopen := h.wf.at_resume hpc
    obtain ⟨hfin, hcode⟩ := settled_aborted (h.pending hopen) hs
    refine ⟨hwf, fun hf => ?_, fun _ => hcode, h.reported.notSent⟩
    rw [hfin] at hf
    cases hf

/-- Nothing is handed to the sender before `execute()` is entered. -/
theorem idle_handed {s s' : State} {e : Event} (h : s.pc = .idle → s.handed = [])
    (he : step s e = some s') : s'.pc = .idle → s'.handed = [] := by
  intro hpc'
  cases step_effect he with
  | execute _ hs => exact absurd hpc' hs.not_idle
  | receive _ => exact h hpc'
  | abort _ => exact h hpc'
  | timeout _ => cases hpc'
  | wake _ => cases hpc'
  | resume _ hs => exact absurd hpc' hs.not_idle

/-- An `abort()` that finds the transaction unfinished is reported in every run that does not
overwrite it, and keeps the request from the sender when it came before `execute()`. -/
theorem abort_kept {request : DpaMessage} {mode : RfMode} {params : TimingParams}
    {defaultTimeout userTimeout : Int32} {err : ErrorCode} {pre es : List Event} {s0 s1 : State}
    (hpre : Machine.exec step
      (init (create request mode params defaultTimeout userTimeout err)) pre = some s0)
    (hopen : s0.tr.isFinished = false) (habort : step s0 .abort = some s1)
    (hkeep : Machine.Steps step KeepsAbort s1 es) :
    Machine.States step (AbortReported (s0.pc == .idle)) s1 es := by
  have hwf0 : WellFormed s0 :=
    Machine.exec_inv (fun _ _ _ hI he => wellFormed_step hI he) (wellFormed_init rfl) hpre
  have hidle0 : s0.pc = .idle → s0.handed = [] :=
    Machine.exec_inv (I := fun s => s.pc = .idle → s.handed = [])
      (fun _ _ _ hI he => idle_handed hI he) (fun _ => rfl) hpre
  have hwf1 := wellFormed_step hwf0 habort
  have h1 : Aborted (s0.pc == .idle) s1 := by
    cases step_effect habort with
    | abort _ =>
      refine ⟨hwf1, fun _ => rfl, fun hf => ?_, fun hearly => hidle0 (by simpa using hearly)⟩
      rw [abort_isFinished, hopen] at hf
      cases hf
  exact hkeep.states (fun _ _ _ hI hC he => aborted_step hI hC he) (fun _ hI => hI.reported) h1

theorem abort_kept_ledPulse :
    ∃ s0 s1, Machine.exec step (init ledPulseTransaction) [.execute trnOk (.ok ())] = some s0 ∧
      step s0 .abort = some s1 ∧
      Machine.States step (AbortReported (s0.pc == .idle)) s1 [.wake, .resume] := by
  refine ⟨_, _, rfl, rfl, @abort_kept ledPulse.message .std ⟨"4.02D"⟩ 500 (-1) trnOk
    [.execute trnOk (.ok ())] _ _ _ rfl rfl rfl ?_⟩
  refine Machine.Steps.of_mem fun s e he _ => ?_
  simp only [List.mem_cons, List.not_mem_nil, or_false] at he
  rcases he with rfl | rfl <;> exact ⟨nofun, nofun⟩

/-- Aborted before `execute()`, the request is sent and the result is the code of its response;
aborted while it waits, a response overwrites the abort. -/
theorem abort_lost :
    (∃ s1 s2, step (init ledPulseTransaction) .abort = some s1 ∧ s1.tr.isFinished = false ∧
      Machine.exec step s1 [.execute trnOk (.ok ()), .timeout, .resume] = some s2 ∧
      s2.handed ≠ [] ∧ s2.tr.isFinished = true ∧
      s2.tr.result.getErrorCode = trnErrorTimeout) ∧
    (∃ s1 s2, Machine.exec step (init ledPulseTransaction) [.execute trnOk (.ok ()), .abort] =
        some s1 ∧ s1.tr.isFinished = false ∧
      Machine.exec step s1 [.receive ledPulseResponse, .wake, .resume, .timeout, .resume] =
        some s2 ∧
      s2.tr.isFinished = true ∧ s2.tr.result.getErrorCode = trnOk) :=
  ⟨⟨_, _, rfl, rfl, rfl, by decide, rfl, by decide⟩, ⟨_, _, rfl, rfl, rfl, rfl, by decide⟩⟩

/-! ## Each of the two steps loses the abort -/

/-- Entering `execute()` after an abort sends the request, or reports another error at once. -/
theorem abort_lost_by_execute {s s' : State} {err : ErrorCode} {sent : Except Exc Unit}
    (herr : err ≠ trnErrorAborted) (he : step s (.execute err sent) = some s') :
    s'.handed ≠ [] ∨ (s'.tr.isFinished = true ∧ s'.tr.result.getErrorCode ≠ trnErrorAborted) := by
  cases step_effect he with
  | execute _ hs =>
    by_cases hok : err = trnOk
    · left
      simp [hok]
    · right
      obtain ⟨_, hfin, hcode⟩ := settled_begin_error hok hs
      exact ⟨hfin, by rw [hcode]; exact herr⟩

/-- An accepted message leaves no trace of the abort in the state. -/
theorem abort_lost_by_message {tr : DpaTransaction2} {m : DpaMessage} {kind : MessageType}
    (ha : tr.Accepts m kind) : (tr.processReceivedMessage m).1.state ≠ .aborted := by
  have hp := processReceivedMessage_processed tr m
  generalize htr : (tr.processReceivedMessage m).1 = tr' at hp
  cases hp with
  | unchanged hno => exact absurd ha (hno kind)
  | confirmation _ =>
    rw [processConfirmation_state]
    split <;> exact DpaTransfer2State.noConfusion
  | response _ =>
    rcases processResponse_state tr m with h | ⟨h, _⟩ <;> rw [h] <;>
      exact DpaTransfer2State.noConfusion

end Execution
end ClibDpa
