import ClibDpa.Progress
import ClibDpa.Timeout

/-!
# ClibDpa.Final

A response decides the result, unless a late confirmation undoes it.

`processReceivedMessage` writes `m_state` whenever the transaction is not finished. A confirmation
that arrives after the response therefore takes the transaction back to `kConfirmation`, where the
next expiry ends it with `TRN_ERROR_TIMEOUT`, or where it waits for ever when its timeout is
infinite. `NoLateConfirmation` is the condition on the steps that excludes this, and
`response_final_iff` shows it to be exact: `Final` speaks of everything the worker can still do on
its own.
-/

namespace ClibDpa
namespace Execution

open DpaTransaction2

/-- The states in which `execute()` waits for something to be received. -/
def waitsForResponse : DpaTransfer2State → Bool
  | .sent | .sentCoordinator | .confirmation => true
  | _ => false

/-- The part of the worker after the entry of `execute()`. -/
def isWorkerEvent : Event → Bool
  | .timeout | .wake | .resume => true
  | _ => false

structure ResponseDecides (s : State) : Prop where
  code : ∀ r, s.lastResponse = some r → s.tr.isFinished = true →
    s.tr.result.getErrorCode = r.responseCodeField.toNat
  answered : ∀ r, s.lastResponse = some r → s.tr.infinitTimeout = true →
    waitsForResponse s.tr.state = false

/-- The last response decides the result, whatever the worker does next. -/
def Final (s : State) : Prop :=
  ∀ ws s', (∀ e ∈ ws, isWorkerEvent e = true) → Machine.exec step s ws = some s' →
    ResponseDecides s'

/-- The step does not accept a confirmation after a response, a confirmed broadcast apart. -/
def NoLateConfirmation (s : State) (e : Event) : Prop :=
  ∀ f, e = .receive f → s.lastResponse ≠ none → s.tr.Accepts f.message .confirmation →
    f.message.addressByte = broadcastAddress

/-! ## The invariant while the condition holds -/

structure Answered (s : State) : Prop where
  wf : WellFormed s
  started : s.pc ≠ .idle
  coordinator : s.tr.infinitTimeout = true →
    s.tr.result.request.addressByte = coordinatorAddress
  code : ∀ r, s.lastResponse = some r → s.tr.result.responseCode = r.responseCodeField.toNat
  unfinished : s.lastResponse ≠ none → s.tr.isFinished = false →
    s.tr.state = .receivedResponse ∨ s.tr.state = .processed ∨ s.tr.state = .confirmationBroadcast
  infinit : s.lastResponse ≠ none → s.tr.infinitTimeout = true → s.tr.state = .processed
  final : ∀ r, s.lastResponse = some r → s.tr.isFinished = true →
    s.tr.result.getErrorCode = r.responseCodeField.toNat

theorem Answered.decides {s : State} (h : Answered s) : ResponseDecides s where
  code := h.final
  answered := by
    intro r hr hi
    rw [h.infinit (by rw [hr]; exact Option.some_ne_none r) hi]
    rfl

/-- Between two critical sections the unfinished transaction waits or has been woken. -/
theorem Answered.waits {s : State} (h : Answered s) (hopen : s.tr.isFinished = false)
    (hspin : s.pc ≠ .spinning) : s.pc = .waiting ∨ ∃ x, s.pc = .woken x := by
  cases hpc : s.pc with
  | idle => exact absurd hpc h.started
  | waiting => exact .inl rfl
  | woken x => exact .inr ⟨x, rfl⟩
  | spinning => exact absurd hpc hspin
  | returned =>
    have hf := h.wf.finished_iff.mpr hpc
    rw [hopen] at hf
    cases hf

theorem answered_execute {s s' : State} {sent : Except Exc Unit} (hw : WellFormed s)
    (hcoord : s.tr.infinitTimeout = true → s.tr.result.request.addressByte = coordinatorAddress)
    (he : step s (.execute trnOk sent) = some s') : Answered s' := by
  obtain ⟨hreq, hinf⟩ := step_const he
  have hwf := wellFormed_step hw he
  cases step_effect he with
  | execute hpc hs =>
    refine ⟨hwf, hs.not_idle, ?_, ?_, ?_, ?_, ?_⟩
    · intro hi
      rw [hreq]
      exact hcoord (hinf ▸ hi)
    · intro r hr; cases hr
    · intro hr; exact absurd rfl hr
    · intro hr; exact absurd rfl hr
    · intro r hr; cases hr

theorem answered_response {s : State} {f : Frame} (h : Answered s)
    (ha : s.tr.Accepts f.message .response) {s' : State}
    (hs' : s' = { s with
      tr := s.tr.processResponse f.message, lastResponse := some f.message })
    (hwf : WellFormed s') : Answered s' := by
  subst hs'
  obtain ⟨_, hcode⟩ :=
    DpaTransactionResult2.setResponse_of_pos (r := s.tr.result) f.message_length_pos
  have hstate := processResponse_state s.tr f.message
  refine ⟨hwf, h.started, by simpa using h.coordinator, ?_, ?_, ?_, ?_⟩
  · intro r hr
    cases hr
    simpa using hcode
  · intro _ _
    rcases hstate with h1 | ⟨h1, _⟩
    · exact .inr (.inl h1)
    · exact .inl h1
  · intro _ hi
    simp only [processResponse_infinitTimeout] at hi
    rcases hstate with h1 | ⟨_, h1⟩
    · exact h1
    · rw [hi] at h1; cases h1
  · intro r _ hf
    simp [ha.1] at hf

theorem answered_confirmation {s : State} {f : Frame} (h : Answered s)
    (ha : s.tr.Accepts f.message .confirmation)
    (hb : s.lastResponse ≠ none → f.message.addressByte = broadcastAddress) {s' : State}
    (hs' : s' = { s with tr := s.tr.processConfirmation f.message }) (hwf : WellFormed s') :
    Answered s' := by
  subst hs'
  refine ⟨hwf, h.started, h.coordinator, h.code, ?_, ?_, ?_⟩
  · intro hne _
    simp [hb hne]
  · intro hne hi
    -- an infinite timeout is the coordinator's: its address is no broadcast
    have haddr := accepts_addressByte ha
    rw [hb hne, h.coordinator hi] at haddr
    exact absurd haddr (by decide)
  · intro r _ hf
    simp [ha.1] at hf

theorem answered_settled {s : State} {tr' : DpaTransaction2} {pc : ExecPc} {wait : Option Bool}
    (h : Answered s) (hopen : s.tr.isFinished = false) (hs : Settled s.tr wait tr' pc)
    (hwf : WellFormed { s with tr := tr', pc := pc }) :
    Answered { s with tr := tr', pc := pc } := by
  cases hs with
  | enters _ => exact { h with wf := hwf, started := ExecPc.noConfusion }
  | goesOn _ _ => exact { h with wf := hwf, started := ExecPc.noConfusion }
  | spins _ _ => exact { h with wf := hwf, started := ExecPc.noConfusion }
  | @ends _ code hc _ =>
    refine ⟨hwf, ExecPc.noConfusion, by simpa using h.coordinator, by simpa using h.code, ?_, ?_,
      ?_⟩
    · intro _ hf; cases hf
    · intro hne hi
      have hp := h.infinit hne (by simpa using hi)
      change (s.tr.evaluate (wait.getD false)).1.state = .processed
      simp [evaluate, hp]
    · intro r hr _
      have hne : s.lastResponse ≠ none := by
        intro hn
        rw [hn] at hr
        cases hr
      have hok : code = trnOk := by
        rcases h.unfinished hne hopen with hst | hst | hst <;>
          cases hx : wait.getD false <;> simp [evaluate, hst, hx] at hc <;> exact hc.symm
      change ((s.tr.evaluate (wait.getD false)).1.finish code).result.getErrorCode = _
      rw [finish_result, evaluate_result, hok,
        DpaTransactionResult2.getErrorCode_setErrorCode_ok]
      exact h.code r hr

theorem answered_step {s s' : State} {e : Event} (hab : e ≠ .abort) (h : Answered s)
    (hC : NoLateConfirmation s e) (he : step s e = some s') : Answered s' := by
  have hwf := wellFormed_step h.wf he
  cases step_effect he with
  | execute hpc _ => exact absurd hpc h.started
  | @receive f _ =>
    have hr := received_effect s f.message
    generalize received s f.message = s1 at hr hwf ⊢
    cases hr with
    | ignored _ => exact h
    | confirmation ha => exact answered_confirmation h ha (fun hne => hC f rfl hne ha) rfl hwf
    | response ha => exact answered_response h ha rfl hwf
  | abort _ => exact absurd rfl hab
  | timeout _ => exact { h with wf := hwf, started := ExecPc.noConfusion }
  | wake _ => exact { h with wf := hwf, started := ExecPc.noConfusion }
  | resume hpc hs =>
    exact answered_settled h (h.wf.at_resume hpc) hs hwf

/-- The worker's own events keep the invariant, so it implies `Final`. -/
theorem Answered.final_of {s : State} (h : Answered s) : Final s := by
  intro ws s' hws hrun
  have hsteps : Machine.Steps step
      (fun s e => isWorkerEvent e = true) s ws := Machine.Steps.of_mem fun _ e he => hws e he
  have hinv := hsteps.exec_inv (I := Answered) (fun s e s' hI hC he => by
    refine answered_step ?_ hI ?_ he
    · rintro rfl; cases hC
    · rintro f rfl; cases hC) h hrun
  exact hinv.decides

/-! ## A late confirmation -/

/-- What an expiry in a waiting state makes of the system. -/
def timedOut (s : State) : State :=
  { s with
    tr := ({ s.tr with state := .timeout } : DpaTransaction2).finish trnErrorTimeout
    pc := .returned }

theorem timedOut_code (s : State) : (timedOut s).tr.result.getErrorCode = trnErrorTimeout := by
  rw [timedOut, finish_result]
  exact DpaTransactionResult2.getErrorCode_setErrorCode_of_ne (by decide)

theorem resume_times_out {s : State} (hst : s.tr.state = .confirmation)
    (hfin : s.tr.infinitTimeout = false) (hpc : s.pc = .woken true) :
    step s .resume = some (timedOut s) := by
  simp [step, hpc, afterWait, evaluate, hst, hfin, timedOut]

/-- From `kConfirmation` with a finite timeout the worker can time out on its own. -/
theorem worker_times_out {s : State} (hst : s.tr.state = .confirmation)
    (hfin : s.tr.infinitTimeout = false) (hd : 0 < s.tr.expectedDurationMs)
    (hpc : s.pc = .waiting ∨ ∃ x, s.pc = .woken x) :
    ∃ ws, (∀ e ∈ ws, isWorkerEvent e = true) ∧
      Machine.exec step s ws = some (timedOut s) := by
  have hwait : Machine.exec step { s with pc := .waiting } [.timeout, .resume] =
      some (timedOut s) := by
    have h1 : step { s with pc := .waiting } .timeout = some { s with pc := .woken true } := rfl
    rw [Machine.exec_cons_some h1, Machine.exec_single]
    exact resume_times_out hst hfin rfl
  rcases hpc with hpc | ⟨x, hpc⟩
  · have hs : { s with pc := .waiting } = s := by rw [← hpc]
    exact ⟨[.timeout, .resume], by decide, hs ▸ hwait⟩
  · cases x with
    | true =>
      refine ⟨[.resume], by decide, ?_⟩
      rw [Machine.exec_single]
      exact resume_times_out hst hfin hpc
    | false =>
      have h1 : step s .resume = some { s with pc := .waiting } := by
        simp [step, hpc, afterWait, evaluate, hst, loopHead, hd]
      refine ⟨[.resume, .timeout, .resume], by decide, ?_⟩
      rw [Machine.exec_cons_some h1]
      exact hwait

/-- An answered transaction that is taken back to `kConfirmation` can time out, or waits for
ever. -/
theorem confirmation_not_final {s : State} {r : DpaMessage} (hst : s.tr.state = .confirmation)
    (hr : s.lastResponse = some r) (hpc : s.pc = .waiting ∨ ∃ x, s.pc = .woken x)
    (hd : 0 < s.tr.expectedDurationMs) : ¬ Final s := by
  intro hfinal
  cases hi : s.tr.infinitTimeout with
  | true =>
    have hnow := (hfinal [] s (by simp) rfl).answered r hr hi
    rw [hst] at hnow
    cases hnow
  | false =>
    obtain ⟨ws, hws, hrun⟩ := worker_times_out hst hi hd hpc
    have hdec := (hfinal ws _ hws hrun).code r hr rfl
    rw [timedOut_code] at hdec
    have hneg : trnErrorTimeout < 0 := by decide
    have hpos : (0 : Int) ≤ r.responseCodeField.toNat := Int.natCast_nonneg _
    rw [← hdec] at hpos
    exact absurd hneg (not_lt.mpr hpos)

/-- A step against the condition leaves `Final`. -/
theorem late_confirmation_not_final {s s' : State} {e : Event} (h : Answered s)
    (hC : ¬ NoLateConfirmation s e) (he : step s e = some s') : ¬ Final s' := by
  unfold NoLateConfirmation at hC
  push Not at hC
  obtain ⟨f, rfl, hne, ha, hb⟩ := hC
  obtain ⟨r, hr⟩ := Option.ne_none_iff_exists'.mp hne
  cases step_effect he with
  | receive hspin =>
    have hpc := h.waits ha.1 hspin
    have hrec := received_effect s f.message
    generalize received s f.message = s1 at hrec ⊢
    cases hrec with
    | ignored hno => exact absurd ha (hno _)
    | response ha' => exact absurd ha' (not_accepts_response ha)
    | confirmation _ =>
      have hst : (s.tr.processConfirmation f.message).state = .confirmation := by simp [hb]
      exact confirmation_not_final hst hr hpc (processConfirmation_duration s.tr f.message)

/-- A response is final in exactly the runs without a late confirmation. -/
theorem response_final_iff {request : DpaMessage} {mode : RfMode} {params : TimingParams}
    {defaultTimeout userTimeout : Int32} {err : ErrorCode} {pre es : List Event} {s0 s1 : State}
    (hpre : Machine.exec step
      (init (create request mode params defaultTimeout userTimeout err)) pre = some s0)
    (hsent : step s0 (.execute trnOk (.ok ())) = some s1) (hab : Event.abort ∉ es) :
    Machine.States step Final s1 es ↔ Machine.Steps step NoLateConfirmation s1 es := by
  have hI0 : ∀ s e s', (WellFormed s ∧ (s.tr.infinitTimeout = true →
      s.tr.result.request.addressByte = coordinatorAddress)) → step s e = some s' →
      (WellFormed s' ∧ (s'.tr.infinitTimeout = true →
      s'.tr.result.request.addressByte = coordinatorAddress)) := by
    rintro s e s' ⟨hw, hcoord⟩ he
    obtain ⟨hreq, hinf⟩ := step_const he
    exact ⟨wellFormed_step hw he, by rw [hreq, hinf]; exact hcoord⟩
  obtain ⟨hw0, hcoord0⟩ := Machine.exec_inv hI0 ⟨wellFormed_init rfl,
    create_infinit request mode params defaultTimeout userTimeout err⟩ hpre
  have hans := answered_execute hw0 hcoord0 hsent
  exact Machine.states_iff_steps (D := fun e => e ≠ .abort)
    (fun _ _ _ hD hI hC he => answered_step hD hI hC he) (fun _ hI => hI.final_of)
    (fun _ _ _ _ hI hC he => late_confirmation_not_final hI hC he)
    (fun e he heq => hab (heq ▸ he)) hans

theorem response_final_iff_ledPulse :
    ∃ s1, step (init ledPulseTransaction) (.execute trnOk (.ok ())) = some s1 ∧
      (Machine.States step Final s1 [.receive ledPulseResponse, .receive ledPulseConfirmation] ↔
        Machine.Steps step NoLateConfirmation s1
          [.receive ledPulseResponse, .receive ledPulseConfirmation]) :=
  ⟨_, rfl, @response_final_iff ledPulse.message .std ⟨"4.02D"⟩ 500 (-1) trnOk [] _ _ _ rfl rfl
    (by simp)⟩

/-- The response with `ResponseCode` 0 is accepted, its duplicate confirmation comes after it, and
the transaction times out. -/
theorem late_confirmation_times_out :
    ∃ s1 s2 s3, step (init ledPulseTransaction) (.execute trnOk (.ok ())) = some s1 ∧
      step s1 (.receive ledPulseResponse) = some s2 ∧
      s2.lastResponse.map DpaMessage.responseCodeField = some 0 ∧
      Machine.exec step s2 [.receive ledPulseConfirmation, .timeout, .resume] = some s3 ∧
      s3.tr.isFinished = true ∧ s3.tr.result.isResponded = true ∧
      s3.tr.result.getErrorCode = trnErrorTimeout :=
  ⟨_, _, _, rfl, rfl, by decide, rfl, rfl, rfl, by decide⟩

end Execution
end ClibDpa
