import ClibDpa.Execution

/-!
# ClibDpa.Success

When a transaction reports success, it has the evidence for it. `Sound` ties the state, the flags
and the stored messages together; every critical section keeps it (`sound_begin`,
`sound_processed`, `sound_settled`), so it holds in every run of a transaction whose `execute` is
called with `TRN_OK` or a negative code.
-/

namespace ClibDpa
namespace Execution

open DpaTransaction2

/-- `response` is to `request` what the checks of `processReceivedMessage` demand. -/
structure Answers (request response : DpaMessage) : Prop where
  nodeAddress : response.nodeAddress = request.nodeAddress
  peripheralType : response.peripheralType = request.peripheralType
  peripheralCommand : response.peripheralCommand &&& ~~~0x80 = request.peripheralCommand

structure Confirms (request confirmation : DpaMessage) : Prop where
  nodeAddress : confirmation.nodeAddress = request.nodeAddress
  peripheralType : confirmation.peripheralType = request.peripheralType
  peripheralCommand : confirmation.peripheralCommand = request.peripheralCommand

/-- What a non-negative code stands for: the code of a stored response, or a confirmed
broadcast. -/
def Success (request : DpaMessage) (r : DpaTransactionResult2) : Prop :=
  (r.isResponded = true ∧ Answers request r.response ∧
    (r.response.responseCodeField.toNat : Int) = r.getErrorCode) ∨
  (r.getErrorCode = trnOk ∧ request.addressByte = broadcastAddress ∧ r.isConfirmed = true ∧
    Confirms request r.confirmation)

structure Sound (request : DpaMessage) (tr : DpaTransaction2) : Prop where
  request_eq : tr.result.request = request
  responded : tr.result.isResponded = true → Answers request tr.result.response ∧
    tr.result.responseCode = tr.result.response.responseCodeField.toNat
  silent : tr.result.isResponded = false → tr.result.responseCode = trnOk
  confirmed : tr.result.isConfirmed = true → Confirms request tr.result.confirmation
  answered : tr.isFinished = false → tr.state = .receivedResponse ∨ tr.state = .processed →
    tr.result.isResponded = true
  broadcast : tr.isFinished = false → tr.state = .confirmationBroadcast →
    tr.result.isConfirmed = true ∧ request.addressByte = broadcastAddress
  refused : tr.isFinished = false → tr.state = .defaultError → tr.defaultError < 0
  final : tr.isFinished = true → 0 ≤ tr.result.getErrorCode → Success request tr.result

section Sound

variable {request : DpaMessage} {tr tr' : DpaTransaction2}

theorem clear_bit7 (x : UInt8) (h : x &&& 0x80 = 0) : x &&& ~~~0x80 = x := by
  have key : ∀ y : BitVec 8, y &&& 0x80#8 = 0#8 → y &&& ~~~0x80#8 = y := by decide
  apply UInt8.eq_of_toBitVec_eq
  have hb : x.toBitVec &&& 0x80#8 = 0#8 := congrArg UInt8.toBitVec h
  exact key _ hb

theorem accepts_answers {m : DpaMessage} {kind : MessageType} (h : tr.Accepts m kind)
    (hr : tr.result.request = request) : Answers request m := by
  obtain ⟨_, _, hn, ht, hc⟩ := checkReceived_ok_iff.mp h.2
  rw [hr] at hn ht hc
  exact ⟨hn, ht, hc⟩

theorem messageDirection_confirmation {m : DpaMessage} (h : m.messageDirection = .confirmation) :
    m.peripheralCommand &&& 0x80 = 0 := by
  unfold DpaMessage.messageDirection at h
  split at h
  · cases h
  · split at h
    · cases h
    · rename_i hb
      exact not_not.mp hb

theorem accepts_confirms {m : DpaMessage} (h : tr.Accepts m .confirmation)
    (hr : tr.result.request = request) : Confirms request m := by
  have ha := accepts_answers h hr
  obtain ⟨hd, _⟩ := checkReceived_ok_iff.mp h.2
  have hb := clear_bit7 _ (messageDirection_confirmation hd)
  exact ⟨ha.nodeAddress, ha.peripheralType, hb ▸ ha.peripheralCommand⟩

theorem sound_create (request : DpaMessage) (mode : RfMode) (params : TimingParams)
    (defaultTimeout userTimeout : Int32) (err : ErrorCode) :
    Sound request.copy (create request mode params defaultTimeout userTimeout err) where
  request_eq := rfl
  responded := by intro h; cases h
  silent := fun _ => rfl
  confirmed := by intro h; cases h
  answered := by rintro _ (h | h) <;> cases h
  broadcast := by intro _ h; cases h
  refused := by intro _ h; cases h
  final := by intro h; cases h

theorem sound_abort (h : Sound request tr) : Sound request tr.abort where
  request_eq := h.request_eq
  responded := h.responded
  silent := h.silent
  confirmed := h.confirmed
  answered := by rintro _ (h | h) <;> cases h
  broadcast := by intro _ h; cases h
  refused := by intro _ h; cases h
  final := h.final

theorem sound_begin (h : Sound request tr) {err : ErrorCode} (herr : err ≤ 0)
    (sent : Except Exc Unit) : Sound request (tr.begin err sent) := by
  have hcases := begin_cases tr err sent
  refine ⟨by simpa using h.request_eq, by simpa using h.responded, by simpa using h.silent,
    by simpa using h.confirmed, ?_, ?_, ?_, by simpa using h.final⟩
  · rintro _ hs
    rcases hcases with ⟨_, _, h1 | h1⟩ | ⟨_, h1⟩ | ⟨_, h1⟩ <;> simp [h1] at hs
  · rintro _ hs
    rcases hcases with ⟨_, _, h1 | h1⟩ | ⟨_, h1⟩ | ⟨_, h1⟩ <;> simp [h1] at hs
  · rintro _ hs
    rcases hcases with ⟨_, _, h1 | h1⟩ | ⟨_, h1⟩ | ⟨hne, _⟩
    · simp [h1] at hs
    · simp [h1] at hs
    · simp [h1] at hs
    · rw [begin_defaultError]
      exact lt_of_le_of_ne herr hne

theorem sound_confirmation (h : Sound request tr) {f : Frame}
    (ha : tr.Accepts f.message .confirmation) :
    Sound request (tr.processConfirmation f.message) where
  request_eq := h.request_eq
  responded := h.responded
  silent := h.silent
  confirmed := by
    intro _
    rw [processConfirmation_result, DpaTransactionResult2.setConfirmation_confirmation,
      f.message_copy]
    exact accepts_confirms ha h.request_eq
  answered := by
    intro _ hs
    rw [processConfirmation_state] at hs
    split at hs <;> rcases hs with hs | hs <;> cases hs
  broadcast := by
    intro _ hs
    rw [processConfirmation_state] at hs
    split at hs
    · rename_i hb
      refine ⟨rfl, ?_⟩
      have hn := (accepts_confirms ha h.request_eq).nodeAddress
      rw [DpaMessage.addressByte, ← hn]
      exact hb
    · cases hs
  refused := by
    intro _ hs
    rw [processConfirmation_state] at hs
    split at hs <;> cases hs
  final := by
    intro hf
    rw [processConfirmation_isFinished, ha.1] at hf
    cases hf

theorem sound_response (h : Sound request tr) {f : Frame}
    (ha : tr.Accepts f.message .response) : Sound request (tr.processResponse f.message) := by
  obtain ⟨hresp, hcode⟩ :=
    DpaTransactionResult2.setResponse_of_pos (r := tr.result) f.message_length_pos
  have hstate := processResponse_state tr f.message
  refine ⟨by simpa using h.request_eq, ?_, ?_, by simpa using h.confirmed, ?_, ?_, ?_, ?_⟩
  · intro _
    rw [processResponse_result, hcode, DpaTransactionResult2.setResponse_response, f.message_copy]
    exact ⟨accepts_answers ha h.request_eq, rfl⟩
  · intro hn
    rw [processResponse_result, hresp] at hn
    cases hn
  · intro _ _
    rw [processResponse_result]
    exact hresp
  · intro _ hs
    rcases hstate with h1 | ⟨h1, _⟩ <;> rw [h1] at hs <;> cases hs
  · intro _ hs
    rcases hstate with h1 | ⟨h1, _⟩ <;> rw [h1] at hs <;> cases hs
  · intro hf
    rw [processResponse_isFinished, ha.1] at hf
    cases hf

theorem sound_processed (h : Sound request tr) {f : Frame} (hp : Processed tr f.message tr') :
    Sound request tr' := by
  cases hp with
  | unchanged _ => exact h
  | confirmation ha => exact sound_confirmation h ha
  | response ha => exact sound_response h ha

/-- The code the loop ends with is a success only on the evidence of `Success`. -/
theorem sound_final (h : Sound request tr) (hf : tr.isFinished = false) {expired : Bool}
    {code : ErrorCode} (hc : (tr.evaluate expired).2 = some code)
    (hnn : 0 ≤ (tr.result.setErrorCode code).getErrorCode) :
    Success request (tr.result.setErrorCode code) := by
  rcases evaluate_some hc with ⟨rfl, hs⟩ | ⟨rfl, _⟩ | ⟨rfl, _⟩ | ⟨rfl, _⟩ | ⟨rfl, hs⟩
  · rw [Success, DpaTransactionResult2.getErrorCode_setErrorCode_ok]
    by_cases hr : tr.result.isResponded = true
    · obtain ⟨hans, hcode⟩ := h.responded hr
      exact .inl ⟨hr, hans, hcode.symm⟩
    · have hsilent := h.silent (Bool.eq_false_iff.mpr hr)
      rcases hs with hs | ⟨_, hs | hs⟩
      · exact absurd (h.answered hf (.inr hs)) hr
      · exact absurd (h.answered hf (.inl hs)) hr
      · obtain ⟨hconf, haddr⟩ := h.broadcast hf hs
        exact .inr ⟨hsilent, haddr, hconf, h.confirmed hconf⟩
  · exact absurd hnn (DpaTransactionResult2.negative_setErrorCode (by decide))
  · exact absurd hnn (DpaTransactionResult2.negative_setErrorCode (by decide))
  · exact absurd hnn (DpaTransactionResult2.negative_setErrorCode (by decide))
  · exact absurd hnn (DpaTransactionResult2.negative_setErrorCode (h.refused hf hs))

theorem sound_settled (h : Sound request tr) (hf : tr.isFinished = false) {wait : Option Bool}
    {pc : ExecPc} (hs : Settled tr wait tr' pc) : Sound request tr' := by
  cases hs with
  | enters _ => exact h
  | goesOn _ _ => exact h
  | spins _ _ => exact h
  | @ends _ code hc _ =>
    refine ⟨by simpa using h.request_eq, by simpa using h.responded, by simpa using h.silent,
      by simpa using h.confirmed, ?_, ?_, ?_, ?_⟩
    · intro hopen; cases hopen
    · intro hopen; cases hopen
    · intro hopen; cases hopen
    · intro _ hnn
      rw [finish_result, evaluate_result] at hnn ⊢
      exact sound_final h hf hc hnn

end Sound

/-- `execute` is called with `TRN_OK` or with an error of the library. -/
def Harmless (_ : State) (e : Event) : Prop :=
  ∀ err sent, e = .execute err sent → err ≤ 0

theorem sound_step {request : DpaMessage} {s s' : State} {e : Event}
    (h : WellFormed s ∧ Sound request s.tr) (hC : Harmless s e) (he : step s e = some s') :
    WellFormed s' ∧ Sound request s'.tr := by
  obtain ⟨hw, hs⟩ := h
  refine ⟨wellFormed_step hw he, ?_⟩
  cases step_effect he with
  | execute hpc hset =>
    have hopen := hw.at_entry hpc
    exact sound_settled (sound_begin hs (hC _ _ rfl) _) (by simpa using hopen) hset
  | @receive f _ => exact sound_processed hs (processReceivedMessage_processed s.tr f.message)
  | abort _ => exact sound_abort hs
  | timeout _ => exact hs
  | wake _ => exact hs
  | resume hpc hset =>
    exact sound_settled hs (hw.at_resume hpc) hset

/-- In every run, a non-negative code of a finished transaction is the `ResponseCode` of a stored
response to the request, or `TRN_OK` for a confirmed broadcast. -/
theorem success_sound {request : DpaMessage} {mode : RfMode} {params : TimingParams}
    {defaultTimeout userTimeout : Int32} {es : List Event} {s : State}
    (hexec : ∀ err sent, Event.execute err sent ∈ es → err ≤ 0)
    (hrun : Machine.exec step
      (init (create request mode params defaultTimeout userTimeout trnOk)) es = some s)
    (hfin : s.tr.isFinished = true) (hcode : 0 ≤ s.tr.result.getErrorCode) :
    Success request.copy s.tr.result := by
  have hsteps : Machine.Steps step Harmless
      (init (create request mode params defaultTimeout userTimeout trnOk)) es :=
    Machine.Steps.of_mem fun _ e he err sent heq => hexec err sent (heq ▸ he)
  have hinv := hsteps.exec_inv (I := fun s => WellFormed s ∧ Sound request.copy s.tr)
    (fun _ _ _ hI hC he => sound_step hI hC he)
    ⟨wellFormed_init rfl, sound_create request mode params defaultTimeout userTimeout trnOk⟩ hrun
  exact hinv.2.final hfin hcode

theorem success_sound_ledPulse :
    ∃ s, Machine.exec step (init ledPulseTransaction) [.execute trnOk (.ok ()),
        .receive ledPulseConfirmation, .wake, .resume, .receive ledPulseResponse, .timeout,
        .resume] = some s ∧
      s.tr.result.getErrorCode = 0 ∧ Success ledPulse.message.copy s.tr.result := by
  refine ⟨_, rfl, by decide, @success_sound ledPulse.message .std ⟨"4.02D"⟩ 500 (-1)
    [.execute trnOk (.ok ()), .receive ledPulseConfirmation, .wake, .resume,
      .receive ledPulseResponse, .timeout, .resume] _ ?_ rfl rfl (by decide)⟩
  intro err sent h
  simp only [List.mem_cons, Event.execute.injEq, reduceCtorEq, List.not_mem_nil, or_false] at h
  exact le_of_eq h.1

end Execution
end ClibDpa
