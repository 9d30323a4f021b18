import ClibDpa.Execution
import ClibDpa.Timeout

/-!
# ClibDpa.Endless

A transaction with an infinite timeout never ends by expiry. Only requests to the coordinator have
one (`create_infinit`), so no accepted message takes them to `kConfirmationBroadcast`, and a
response takes them to `kProcessed` at once; in all states that are left an expired wait is judged
like a wake-up.

* `Endless`               — the invariant of every run.
* `Cause`                 — what ended `execute()`.
* `infinit_never_expires` — over runs.
-/

namespace ClibDpa
namespace Execution

open DpaTransaction2

/-- The states that an expired wait could end, or has ended. -/
def Expires (tr : DpaTransaction2) : Prop :=
  tr.state = .timeout ∨ tr.state = .confirmationBroadcast ∨ tr.state = .receivedResponse

/-- The states that end the loop, whatever the wait brought. -/
def Ends (tr : DpaTransaction2) : Prop :=
  tr.state = .processed ∨ tr.state = .aborted ∨ tr.state = .interfaceError ∨
    tr.state = .created ∨ tr.state = .defaultError

/-- Elsewhere an infinite timeout makes nothing of the expiry. -/
theorem evaluate_expired {tr : DpaTransaction2} (hi : tr.infinitTimeout = true)
    (h : ¬ Expires tr) (expired : Bool) : tr.evaluate expired = (tr, (tr.evaluate false).2) := by
  cases hs : tr.state <;> cases expired <;> simp_all [Expires, evaluate]

/-- `a`: some `abort()` has been called. `t`: `execute()` was given `TRN_ERROR_TIMEOUT`. -/
structure Endless (a t : Prop) (s : State) : Prop where
  wf : WellFormed s
  infinit : s.tr.infinitTimeout = true
  coordinator : s.tr.result.request.addressByte = coordinatorAddress
  expires : ¬ Expires s.tr
  answered : s.tr.state = .processed → s.lastResponse ≠ none
  aborted : s.tr.state = .aborted → a
  running : s.pc ≠ .idle → s.pc ≠ .returned →
    s.tr.state ≠ .created ∧ s.tr.state ≠ .interfaceError ∧ s.tr.state ≠ .defaultError
  given : s.pc ≠ .idle → s.tr.defaultError = trnErrorTimeout → t
  responseCode : 0 ≤ s.tr.result.responseCode
  code : s.tr.isFinished = true → s.tr.result.getErrorCode = trnErrorTimeout → t

section Endless

variable {a t : Prop} {s s' : State}

theorem endless_init {request : DpaMessage} {mode : RfMode} {params : TimingParams}
    {defaultTimeout userTimeout : Int32} {err : ErrorCode}
    (h : (create request mode params defaultTimeout userTimeout err).infinitTimeout = true) :
    Endless a t (init (create request mode params defaultTimeout userTimeout err)) where
  wf := wellFormed_init rfl
  infinit := h
  coordinator := create_infinit request mode params defaultTimeout userTimeout err h
  expires := by rintro (h | h | h) <;> cases h
  answered := by intro h; cases h
  aborted := by intro h; cases h
  running := fun h => absurd rfl h
  given := fun h => absurd rfl h
  responseCode := le_refl _
  code := by intro h; cases h

/-- The code that the loop ends with is not `TRN_ERROR_TIMEOUT`, unless `execute()` was given
that. -/
theorem endless_code {tr : DpaTransaction2} (hi : tr.infinitTimeout = true) (h : ¬ Expires tr)
    (hr : 0 ≤ tr.result.responseCode) {expired : Bool} {code : ErrorCode}
    (hc : (tr.evaluate expired).2 = some code)
    (ht : (tr.result.setErrorCode code).getErrorCode = trnErrorTimeout) :
    tr.state = .defaultError ∧ tr.defaultError = trnErrorTimeout := by
  rcases evaluate_some hc with ⟨rfl, _⟩ | ⟨rfl, hs⟩ | ⟨rfl, _⟩ | ⟨rfl, _⟩ | ⟨rfl, hs⟩
  · rw [DpaTransactionResult2.getErrorCode_setErrorCode_ok] at ht
    rw [ht] at hr
    exact absurd hr (by decide)
  · rcases hs with hs | ⟨_, hf, _⟩
    · exact absurd (.inl hs) h
    · rw [hi] at hf
      cases hf
  · rw [DpaTransactionResult2.getErrorCode_setErrorCode_of_ne (by decide)] at ht
    exact absurd ht (by decide)
  · rw [DpaTransactionResult2.getErrorCode_setErrorCode_of_ne (by decide)] at ht
    exact absurd ht (by decide)
  · refine ⟨hs, ?_⟩
    by_cases hd : tr.defaultError = trnOk
    · rw [hd, DpaTransactionResult2.getErrorCode_setErrorCode_ok] at ht
      rw [ht] at hr
      exact absurd hr (by decide)
    · rwa [DpaTransactionResult2.getErrorCode_setErrorCode_of_ne hd] at ht

/-- The loop leaves the state as it is. -/
theorem settled_state {tr tr' : DpaTransaction2} {wait : Option Bool} {pc : ExecPc}
    (hi : tr.infinitTimeout = true) (h : ¬ Expires tr) (hs : Settled tr wait tr' pc) :
    tr'.state = tr.state ∧ tr'.infinitTimeout = tr.infinitTimeout ∧
      tr'.result.request = tr.result.request := by
  cases hs with
  | enters _ => exact ⟨rfl, rfl, rfl⟩
  | goesOn _ _ => exact ⟨rfl, rfl, rfl⟩
  | spins _ _ => exact ⟨rfl, rfl, rfl⟩
  | ends _ _ =>
    rw [evaluate_expired hi h]
    exact ⟨rfl, rfl, rfl⟩

/-- Nothing else ends it. -/
theorem settled_ends {tr tr' : DpaTransaction2} {wait : Option Bool}
    (hi : tr.infinitTimeout = true) (h : ¬ Expires tr) (hs : Settled tr wait tr' .returned) :
    Ends tr := by
  cases hs with
  | ends hc _ =>
    rcases evaluate_some hc with ⟨_, hs | ⟨_, hs | hs⟩⟩ | ⟨_, hs⟩ | ⟨_, hs⟩ | ⟨_, hs | hs⟩ | ⟨_, hs⟩
    · exact .inl hs
    · exact absurd (.inr (.inr hs)) h
    · exact absurd (.inr (.inl hs)) h
    · rcases hs with hs | ⟨_, hf, _⟩
      · exact absurd (.inl hs) h
      · rw [hi] at hf
        cases hf
    · exact .inr (.inl hs)
    · exact .inr (.inr (.inl hs))
    · exact .inr (.inr (.inr (.inl hs)))
    · exact .inr (.inr (.inr (.inr hs)))

theorem settled_code {tr tr' : DpaTransaction2} {wait : Option Bool} {pc : ExecPc}
    (hi : tr.infinitTimeout = true) (h : ¬ Expires tr) (hr : 0 ≤ tr.result.responseCode)
    (hopen : tr.isFinished = false) (hs : Settled tr wait tr' pc) (hf : tr'.isFinished = true)
    (ht : tr'.result.getErrorCode = trnErrorTimeout) : tr.defaultError = trnErrorTimeout := by
  have hno : tr.isFinished ≠ true := by simp [hopen]
  cases hs with
  | enters _ => exact absurd hf hno
  | goesOn _ _ => exact absurd hf hno
  | spins _ _ => exact absurd hf hno
  | ends hc _ =>
    rw [finish_result, evaluate_result] at ht
    exact (endless_code hi h hr hc ht).2

/-- The address of a confirmation is that of the request, the coordinator's. -/
theorem endless_confirmation {tr : DpaTransaction2} {m : DpaMessage}
    (hcoord : tr.result.request.addressByte = coordinatorAddress)
    (ha : tr.Accepts m .confirmation) : m.addressByte ≠ broadcastAddress := by
  rw [accepts_addressByte ha, hcoord]
  decide

theorem endless_response {tr : DpaTransaction2} {m : DpaMessage}
    (hi : tr.infinitTimeout = true) : (tr.processResponse m).state = .processed := by
  rcases processResponse_state tr m with hst | ⟨_, hf⟩
  · exact hst
  · rw [hi] at hf
    cases hf

/-- The entry of `execute()` expires nowhere, and if it ends at once it has failed. -/
theorem endless_begin (h : Endless a t s) (err : ErrorCode) (sent : Except Exc Unit) :
    (s.tr.begin err sent).infinitTimeout = true ∧ ¬ Expires (s.tr.begin err sent) ∧
      (Ends (s.tr.begin err sent) →
        ((s.tr.begin err sent).state = .interfaceError ∧
          ∃ exc, err = trnOk ∧ sent = .error exc) ∨
        ((s.tr.begin err sent).state = .defaultError ∧ err ≠ trnOk)) := by
  refine ⟨(begin_infinitTimeout _ _ _).trans h.infinit, ?_⟩
  by_cases herr : err = trnOk
  · cases sent with
    | error exc => simp [begin_eq, herr, Expires, Ends]
    | ok _ =>
      by_cases ha : s.tr.result.request.addressByte = coordinatorAddress <;>
        simp [begin_eq, herr, ha, Expires, Ends]
  · simp [begin_eq, herr, Expires, Ends]

theorem endless_execute {err : ErrorCode} {sent : Except Exc Unit} {tr' : DpaTransaction2}
    {pc' : ExecPc} (h : Endless a t s) (ht : err = trnErrorTimeout → t) (hpc : s.pc = .idle)
    (hs : Settled (s.tr.begin err sent) none tr' pc') (handed : List DpaMessage)
    (hwf : WellFormed ⟨tr', pc', handed, none⟩) : Endless a t ⟨tr', pc', handed, none⟩ := by
  have hopen : (s.tr.begin err sent).isFinished = false := by
    rw [begin_isFinished]
    exact h.wf.at_entry hpc
  have hi : (s.tr.begin err sent).infinitTimeout = true := by
    rw [begin_infinitTimeout]
    exact h.infinit
  have hcases := begin_cases s.tr err sent
  have hx : ¬ Expires (s.tr.begin err sent) := by
    rcases hcases with ⟨_, _, hst | hst⟩ | ⟨_, hst⟩ | ⟨_, hst⟩ <;> simp [Expires, hst]
  have hr : 0 ≤ (s.tr.begin err sent).result.responseCode := by
    rw [begin_result]
    exact h.responseCode
  obtain ⟨hst, hinf, hreq⟩ := settled_state hi hx hs
  have hdef : tr'.defaultError = err := by rw [hs.defaultError, begin_defaultError]
  have hnew : tr'.state ≠ .processed ∧ tr'.state ≠ .aborted := by
    rw [hst]
    rcases hcases with ⟨_, _, h1 | h1⟩ | ⟨_, h1⟩ | ⟨_, h1⟩ <;> simp [h1]
  refine ⟨hwf, hinf.trans hi, ?_, ?_, fun hp => absurd hp hnew.1, fun ha => absurd ha hnew.2, ?_,
    fun _ hd => ht (hdef ▸ hd), ?_, ?_⟩
  · rw [hreq, begin_result]
    exact h.coordinator
  · simpa only [Expires, hst] using hx
  · intro _ hret
    rw [hst]
    rcases hcases with ⟨_, _, h1 | h1⟩ | ⟨_, h1⟩ | ⟨_, h1⟩
    · simp [h1]
    · simp [h1]
    · exact absurd (begin_error_returns (.inl h1) hs) hret
    · exact absurd (begin_error_returns (.inr h1) hs) hret
  · rw [hs.responseCode]
    exact hr
  · intro hf hcode
    have hd := settled_code hi hx hr hopen hs hf hcode
    rw [begin_defaultError] at hd
    exact ht hd

theorem endless_received {f : Frame} (h : Endless a t s) (hr : Received s f.message s')
    (hwf : WellFormed s') : Endless a t s' := by
  cases hr with
  | ignored _ => exact h
  | confirmation ha =>
    have haddr := endless_confirmation h.coordinator ha
    have hopen : (s.tr.processConfirmation f.message).isFinished ≠ true := by simp [ha.1]
    exact ⟨hwf, h.infinit, h.coordinator, by simp [Expires, haddr], by simp [haddr],
      by simp [haddr], by simp [haddr], h.given, h.responseCode, fun hf => absurd hf hopen⟩
  | response ha =>
    have hst := endless_response (m := f.message) h.infinit
    have hopen : (s.tr.processResponse f.message).isFinished ≠ true := by simp [ha.1]
    have hdef : (s.tr.processResponse f.message).defaultError = s.tr.defaultError :=
      (Processed.response ha).defaultError
    refine ⟨hwf, ?_, ?_, by simp [Expires, hst], fun _ => Option.some_ne_none _, by simp [hst],
      by simp [hst], fun hne hd => h.given hne (hdef ▸ hd), ?_, fun hf => absurd hf hopen⟩
    · simpa using h.infinit
    · simpa using h.coordinator
    · rw [processResponse_result,
        (DpaTransactionResult2.setResponse_of_pos f.message_length_pos).2]
      exact Int.natCast_nonneg _

theorem endless_step {e : Event} (h : Endless a t s) (ha : e = .abort → a)
    (ht : ∀ sent, e = .execute trnErrorTimeout sent → t) (he : step s e = some s') :
    Endless a t s' := by
  have hwf := wellFormed_step h.wf he
  cases step_effect he with
  | @execute err sent tr' pc' hpc hs =>
    exact endless_execute h (fun herr => ht sent (by rw [herr])) hpc hs _ hwf
  | @receive f _ => exact endless_received h (received_effect s f.message) hwf
  | abort _ =>
    exact ⟨hwf, h.infinit, h.coordinator, by simp [Expires], by simp, fun _ => ha rfl,
      by simp, h.given, h.responseCode, h.code⟩
  | timeout hpc =>
    have hrun := h.running (by simp [hpc]) (by simp [hpc])
    exact ⟨hwf, h.infinit, h.coordinator, h.expires, h.answered, h.aborted, fun _ _ => hrun,
      fun _ => h.given (by simp [hpc]), h.responseCode, h.code⟩
  | wake hpc =>
    have hrun := h.running (by simp [hpc]) (by simp [hpc])
    exact ⟨hwf, h.infinit, h.coordinator, h.expires, h.answered, h.aborted, fun _ _ => hrun,
      fun _ => h.given (by simp [hpc]), h.responseCode, h.code⟩
  | @resume expired tr' pc' hpc hs =>
    have hne : s.pc ≠ .idle := by simp [hpc]
    have hrun := h.running hne (by simp [hpc])
    have hopen := h.wf.at_resume hpc
    obtain ⟨hst, hinf, hreq⟩ := settled_state h.infinit h.expires hs
    refine ⟨hwf, hinf.trans h.infinit, by rw [hreq]; exact h.coordinator, ?_, ?_, ?_, ?_, ?_, ?_,
      fun hf hcode => ?_⟩
    · simpa only [Expires, hst] using h.expires
    · simpa only [hst] using h.answered
    · simpa only [hst] using h.aborted
    · simpa only [hst] using fun _ _ => hrun
    · rw [hs.defaultError]
      exact fun _ => h.given hne
    · rw [hs.responseCode]
      exact h.responseCode
    · exact h.given hne
        (settled_code h.infinit h.expires h.responseCode hopen hs hf hcode)

end Endless

/-! ## Over runs -/

/-- What ended `execute()` in the step `e` from `s` to `s'`. -/
inductive Cause (a : Prop) (s : State) (e : Event) (s' : State) : Prop where
  | response : s'.tr.state = .processed → s.lastResponse ≠ none → Cause a s e s'
  | abort : s'.tr.state = .aborted → a → Cause a s e s'
  | sendError {exc : Exc} : s'.tr.state = .interfaceError → e = .execute trnOk (.error exc) →
      Cause a s e s'
  | defaultError {err : ErrorCode} {sent : Except Exc Unit} : s'.tr.state = .defaultError →
      e = .execute err sent → err ≠ trnOk → Cause a s e s'

theorem endless_cause {a t : Prop} {s s' : State} {e : Event} (h : Endless a t s)
    (he : step s e = some s') (hpc : s.pc ≠ .returned) (hpc' : s'.pc = .returned) :
    Cause a s e s' := by
  cases step_effect he with
  | @execute err sent tr' pc' _ hs =>
    have hret : pc' = .returned := hpc'
    subst hret
    obtain ⟨hi, hx, hfailed⟩ := endless_begin h err sent
    obtain ⟨hst, _⟩ := settled_state hi hx hs
    rcases hfailed (settled_ends hi hx hs) with ⟨hio, exc, rfl, rfl⟩ | ⟨hd, herr⟩
    · exact .sendError (hst.trans hio) rfl
    · exact .defaultError (hst.trans hd) rfl herr
  | @resume expired tr' pc' hw hs =>
    have hret : pc' = .returned := hpc'
    subst hret
    obtain ⟨hst, _⟩ := settled_state h.infinit h.expires hs
    have hrun := h.running (by simp [hw]) (by simp [hw])
    rcases settled_ends h.infinit h.expires hs with h1 | h1 | h1 | h1 | h1
    · exact .response (hst.trans h1) (h.answered h1)
    · exact .abort (hst.trans h1) (h.aborted h1)
    · exact absurd h1 hrun.2.1
    · exact absurd h1 hrun.1
    · exact absurd h1 hrun.2.2
  | receive _ => exact absurd hpc' hpc
  | abort _ => exact absurd hpc' hpc
  | timeout _ => cases hpc'
  | wake _ => cases hpc'

/-- A transaction with an infinite timeout, in every run: it is in none of the states of an expiry,
an expired wait is judged like a wake-up, `execute()` is ended by a response that was accepted since
its entry, an abort, a send error or a default error, and never with `TRN_ERROR_TIMEOUT`, unless it
was given that. -/
theorem infinit_never_expires {request : DpaMessage} {mode : RfMode} {params : TimingParams}
    {defaultTimeout userTimeout : Int32} {err : ErrorCode}
    (hinf : (create request mode params defaultTimeout userTimeout err).infinitTimeout = true)
    {es : List Event} {s : State}
    (hrun : Machine.exec step
      (init (create request mode params defaultTimeout userTimeout err)) es = some s) :
    ¬ Expires s.tr ∧ afterWait s.tr true = afterWait s.tr false ∧
      (∀ e s', step s e = some s' → s.pc ≠ .returned → s'.pc = .returned →
        Cause (.abort ∈ es) s e s') ∧
      ((∀ sent, .execute trnErrorTimeout sent ∉ es) → s.tr.isFinished = true →
        s.tr.result.getErrorCode ≠ trnErrorTimeout) := by
  have hinv := (Machine.Steps.of_mem fun _ e he => ⟨fun heq => heq ▸ he,
    fun sent heq => ⟨sent, heq ▸ he⟩⟩ : Machine.Steps step (fun _ e =>
      (e = .abort → .abort ∈ es) ∧ ∀ sent, e = .execute trnErrorTimeout sent →
        ∃ sent, .execute trnErrorTimeout sent ∈ es) _ es).exec_inv
    (I := Endless (.abort ∈ es) (∃ sent, .execute trnErrorTimeout sent ∈ es))
    (fun _ _ _ hI hC he => endless_step hI hC.1 hC.2 he) (endless_init hinf) hrun
  refine ⟨hinv.expires, ?_, fun e s' he hpc hpc' => endless_cause hinv he hpc hpc', ?_⟩
  · unfold afterWait
    rw [evaluate_expired hinv.infinit hinv.expires true,
      evaluate_expired hinv.infinit hinv.expires false]
  · intro hnot hf hcode
    obtain ⟨sent, hmem⟩ := hinv.code hf hcode
    exact hnot sent hmem

/-- A discovery, which may take its time. -/
def discovery : Frame := ⟨[0x00, 0x00, 0x00, 0x07, 0xff, 0xff, 0x07, 0x00], by decide, by decide⟩

theorem infinit_never_expires_discovery :
    ∃ s, Machine.exec step (init (create discovery.message .std ⟨"4.02D"⟩ 500 0 trnOk))
        [.execute trnOk (.ok ()), .timeout, .resume, .timeout] = some s ∧
      s.pc = .woken true ∧ ¬ Expires s.tr ∧ afterWait s.tr true = afterWait s.tr false := by
  have hrun : ∃ s, Machine.exec step (init (create discovery.message .std ⟨"4.02D"⟩ 500 0 trnOk))
      [.execute trnOk (.ok ()), .timeout, .resume, .timeout] = some s ∧ s.pc = .woken true :=
    ⟨_, rfl, rfl⟩
  obtain ⟨s, hexec, hpc⟩ := hrun
  obtain ⟨hx, hsame, _⟩ := infinit_never_expires (by decide) hexec
  exact ⟨s, hexec, hpc, hx, hsame⟩

end Execution
end ClibDpa
