import ClibDpa.Durations

/-!
# ClibDpa.Estimate

The duration that a confirmation sets and a response corrects.

A confirmation stores its three bytes in `int8_t` members and sets the larger of the user's timeout
and the worst case; only another accepted frame changes what was set. The length of a response is
narrowed to the same `int8_t` whose value `-1` stands for no response: seven bytes have it.

* `confirmed_estimate`        — the duration from a confirmation to the response.
* `longer_waits_longer_iff`   — where the duration grows with the response.
-/

namespace ClibDpa
namespace Execution

open DpaTransaction2

/-! ## What a confirmation leaves for the response -/

/-- `tr'` estimates as `tr` does, and for the same user. -/
structure SameTiming (tr tr' : DpaTransaction2) : Prop where
  mode : tr'.currentCommunicationMode = tr.currentCommunicationMode
  params : tr'.currentTimingParams = tr.currentTimingParams
  userTimeoutMs : tr'.userTimeoutMs = tr.userTimeoutMs

/-- And from the same confirmation. -/
structure SameHops (tr tr' : DpaTransaction2) : Prop extends SameTiming tr tr' where
  hops : tr'.hops = tr.hops
  timeslotLength : tr'.timeslotLength = tr.timeslotLength
  hopsResponse : tr'.hopsResponse = tr.hopsResponse

section Same

variable {tr tr' tr'' : DpaTransaction2} {m : DpaMessage}

theorem SameTiming.trans (h : SameTiming tr tr') (h' : SameTiming tr' tr'') :
    SameTiming tr tr'' :=
  ⟨h'.mode.trans h.mode, h'.params.trans h.params, h'.userTimeoutMs.trans h.userTimeoutMs⟩

theorem SameHops.refl (tr : DpaTransaction2) : SameHops tr tr :=
  ⟨⟨rfl, rfl, rfl⟩, rfl, rfl, rfl⟩

theorem SameHops.trans (h : SameHops tr tr') (h' : SameHops tr' tr'') : SameHops tr tr'' :=
  ⟨h.toSameTiming.trans h'.toSameTiming, h'.hops.trans h.hops,
    h'.timeslotLength.trans h.timeslotLength, h'.hopsResponse.trans h.hopsResponse⟩

theorem SameHops.estimateFrom (h : SameHops tr tr') (n : Int8) :
    tr'.estimateFrom n = tr.estimateFrom n := by
  simp only [DpaTransaction2.estimateFrom, h.mode, h.params, h.hops, h.timeslotLength,
    h.hopsResponse]

theorem begin_sameHops (tr : DpaTransaction2) (err : ErrorCode) (sent : Except Exc Unit) :
    SameHops tr (tr.begin err sent) := by
  rw [begin_fields]
  exact ⟨⟨rfl, rfl, rfl⟩, rfl, rfl, rfl⟩

theorem Settled.sameHops {wait : Option Bool} {pc : ExecPc} (h : Settled tr wait tr' pc) :
    SameHops tr tr' := by
  rw [h.fields]
  exact ⟨⟨rfl, rfl, rfl⟩, rfl, rfl, rfl⟩

theorem Processed.sameTiming (h : Processed tr m tr') : SameTiming tr tr' := by
  cases h with
  | unchanged _ => exact ⟨rfl, rfl, rfl⟩
  | confirmation _ => exact ⟨rfl, rfl, rfl⟩
  | response _ =>
    rw [processResponse_fields]
    exact ⟨rfl, rfl, rfl⟩

end Same

/-- A received frame is not accepted. -/
def Declined (s : State) (e : Event) : Prop :=
  ∀ f kind, e = .receive f → ¬ s.tr.Accepts f.message kind

/-- What is left of a transaction `tr0` as long as no frame is accepted. -/
structure Uncorrected (tr0 : DpaTransaction2) (s : State) : Prop where
  wf : WellFormed s
  same : SameHops tr0 s.tr
  duration : s.tr.isFinished = false → s.tr.expectedDurationMs = tr0.expectedDurationMs

section Steps

variable {s s' : State} {e : Event}

theorem step_sameTiming (he : step s e = some s') : SameTiming s.tr s'.tr := by
  cases step_effect he with
  | execute _ hs => exact ((begin_sameHops _ _ _).trans hs.sameHops).toSameTiming
  | @receive f _ => exact (processReceivedMessage_processed s.tr f.message).sameTiming
  | abort _ => exact ⟨rfl, rfl, rfl⟩
  | timeout _ => exact ⟨rfl, rfl, rfl⟩
  | wake _ => exact ⟨rfl, rfl, rfl⟩
  | resume _ hs => exact hs.sameHops.toSameTiming

theorem uncorrected_step {tr0 : DpaTransaction2} (h : Uncorrected tr0 s) (hd : Declined s e)
    (he : step s e = some s') : Uncorrected tr0 s' := by
  have hwf := wellFormed_step h.wf he
  cases step_effect he with
  | @execute err sent tr' pc' hpc hs =>
    refine ⟨hwf, h.same.trans ((begin_sameHops _ _ _).trans hs.sameHops), fun hopen => ?_⟩
    have hrun := h.wf.at_entry hpc
    have hret : pc' ≠ .returned := fun hpc' => by
      rw [hwf.finished_iff.mpr hpc'] at hopen
      cases hopen
    rcases begin_cases s.tr err sent with ⟨_, hsame, _⟩ | ⟨_, hst⟩ | ⟨_, hst⟩
    · rw [hs.silent.2.2, hsame]
      exact h.duration hrun
    · exact absurd (begin_error_returns (.inl hst) hs) hret
    · exact absurd (begin_error_returns (.inr hst) hs) hret
  | @receive f _ =>
    rw [step_receive_ignored (fun kind => hd f kind rfl) he]
    exact h
  | abort _ => exact ⟨hwf, h.same.trans ⟨⟨rfl, rfl, rfl⟩, rfl, rfl, rfl⟩, h.duration⟩
  | timeout _ => exact ⟨hwf, h.same, h.duration⟩
  | wake _ => exact ⟨hwf, h.same, h.duration⟩
  | resume hpc hs =>
    have hrun := h.wf.at_resume hpc
    exact ⟨hwf, h.same.trans hs.sameHops, fun _ => hs.silent.2.2.trans (h.duration hrun)⟩

end Steps

/-! ## The two durations -/

theorem estimateFrom_saveHops (tr : DpaTransaction2) (m : DpaMessage) (n : Int8) :
    (tr.saveHops m).estimateFrom n = estimate tr.currentCommunicationMode tr.currentTimingParams
      m.hops m.timeSlotLength m.hopsResponse n := by
  simp [estimateFrom, saveHops]

theorem processConfirmation_estimate (tr : DpaTransaction2) (m : DpaMessage) :
    ((tr.processConfirmation m).expectedDurationMs : Int) =
      max (tr.userTimeoutMs : Int) (estimate tr.currentCommunicationMode tr.currentTimingParams
        m.hops m.timeSlotLength m.hopsResponse (-1)) := by
  have hstored := estimateFrom_saveHops tr m (-1)
  have hkept := toUint32_estimateFrom (tr.saveHops m) (-1)
  have hpos := (estimate_bounds tr.currentCommunicationMode tr.currentTimingParams m.hops
    m.timeSlotLength m.hopsResponse (-1)).1
  rw [← hstored] at hpos ⊢
  simp only [processConfirmation, if_pos (show 0 < (tr.saveHops m).estimateFrom (-1) by omega)]
  split <;> omega

theorem processResponse_estimate (tr : DpaTransaction2) (m : DpaMessage) :
    ((tr.processResponse m).expectedDurationMs : Int) =
      if tr.state = .sentCoordinator ∨ tr.infinitTimeout = true then
        (tr.expectedDurationMs : Int)
      else tr.estimateFrom (responseDataLength m) := by
  unfold processResponse
  by_cases hs : tr.state = .sentCoordinator
  · simp [hs]
  · cases hi : tr.infinitTimeout with
    | true => simp [hs]
    | false => simp [hs, toUint32_estimateFrom]

/-- The first accepted frame after `tr0`, when it is a response. -/
theorem Uncorrected.response {tr0 : DpaTransaction2} {s s' : State} {g : Frame}
    (h : Uncorrected tr0 s) (hg : s.tr.Accepts g.message .response)
    (he : step s (.receive g) = some s') :
    s.tr.expectedDurationMs = tr0.expectedDurationMs ∧
      (s'.tr.expectedDurationMs : Int) =
        if s.tr.state = .sentCoordinator ∨ s.tr.infinitTimeout = true then
          (s.tr.expectedDurationMs : Int)
        else tr0.estimateFrom (responseDataLength g.message) := by
  refine ⟨h.duration hg.1, ?_⟩
  rw [step_receive_tr he, processReceivedMessage_response hg, processResponse_estimate,
    h.same.estimateFrom]

/-- In every reachable state an accepted confirmation sets the larger of the user's timeout and the
worst case of its bytes. That stays until the next accepted frame; if this is a response, the
duration does not grow, and what corrects it is the estimate of the confirmation's bytes. -/
theorem confirmed_estimate {request : DpaMessage} {mode : RfMode} {params : TimingParams}
    {defaultTimeout userTimeout : Int32} {err : ErrorCode} {s s1 : State} {f : Frame}
    (h : Machine.Reachable step
      (init (create request mode params defaultTimeout userTimeout err)) s)
    (ha : s.tr.Accepts f.message .confirmation) (hc : step s (.receive f) = some s1) :
    (s1.tr.expectedDurationMs : Int) = max (s.tr.userTimeoutMs : Int)
      (((f.message.hops.toNat : Int) + 1) * f.message.timeSlotLength.toNat * 10 +
        ((f.message.hopsResponse.toNat : Int) + 1) * worstSlot mode f.message.timeSlotLength +
        safetyTimeoutMs) ∧
    ∀ es s2, Machine.Steps step Declined s1 es → Machine.exec step s1 es = some s2 →
      ∀ g s3, s2.tr.Accepts g.message .response → step s2 (.receive g) = some s3 →
        s3.tr.expectedDurationMs ≤ s2.tr.expectedDurationMs ∧
        s2.tr.expectedDurationMs = s1.tr.expectedDurationMs ∧
        (s3.tr.expectedDurationMs : Int) =
          if s2.tr.state = .sentCoordinator ∨ s2.tr.infinitTimeout = true then
            (s2.tr.expectedDurationMs : Int)
          else estimate mode params f.message.hops f.message.timeSlotLength
            f.message.hopsResponse (responseDataLength g.message) := by
  have hwf : WellFormed s :=
    h.inv (fun _ _ _ hI he => wellFormed_step hI he) (wellFormed_init rfl)
  have htiming : SameTiming (create request mode params defaultTimeout userTimeout err) s.tr :=
    h.inv (I := fun s => SameTiming _ s.tr) (fun _ _ _ hI he => hI.trans (step_sameTiming he))
      ⟨rfl, rfl, rfl⟩
  have hmode : s.tr.currentCommunicationMode = mode := htiming.mode
  have hparams : s.tr.currentTimingParams = params := htiming.params
  have htr : s1.tr = s.tr.processConfirmation f.message :=
    (step_receive_tr hc).trans (processReceivedMessage_confirmation ha)
  have hconf := processConfirmation_estimate s.tr f.message
  rw [← htr, hmode, hparams] at hconf
  have hest : ∀ n, s1.tr.estimateFrom n = estimate mode params f.message.hops
      f.message.timeSlotLength f.message.hopsResponse n := by
    intro n
    rw [htr, ← hmode, ← hparams]
    exact estimateFrom_saveHops s.tr f.message n
  constructor
  · rw [hconf, estimate_eq, responseSlot_worst, estimatedTimeout, add_assoc]
  · intro es s2 hquiet hrun g s3 hg hstep
    have hkept : Uncorrected s1.tr s2 := hquiet.exec_inv
      (fun _ _ _ hI hd he => uncorrected_step hI hd he)
      ⟨wellFormed_step hwf hc, .refl _, fun _ => rfl⟩ hrun
    obtain ⟨hsame, hresp⟩ := hkept.response hg hstep
    rw [hest] at hresp
    refine ⟨?_, hsame, hresp⟩
    have hle := @estimate_le_worst mode params f.message.hops f.message.timeSlotLength
      f.message.hopsResponse (responseDataLength g.message)
    split at hresp <;> omega

/-- After the confirmation of the longest times, a response of eight bytes. -/
theorem confirmed_estimate_ledPulse :
    ∃ s1 s2 s3, Machine.exec step (init ledPulseTransaction)
        [.execute trnOk (.ok ()), .receive Handler.slowConfirmation] = some s1 ∧
      Machine.exec step s1 [.wake, .resume] = some s2 ∧
      step s2 (.receive ledPulseResponse) = some s3 ∧
      (s1.tr.expectedDurationMs : Int) = max 500 (256 * 255 * 10 + 256 * 60 + 40) ∧
      s3.tr.expectedDurationMs ≤ s2.tr.expectedDurationMs := by
  have hrun : ∃ s s1 s2 s3,
      Machine.exec step (init ledPulseTransaction) [.execute trnOk (.ok ())] = some s ∧
      s.tr.Accepts Handler.slowConfirmation.message .confirmation ∧
      step s (.receive Handler.slowConfirmation) = some s1 ∧
      Machine.exec step s1 [.wake, .resume] = some s2 ∧
      s2.tr.Accepts ledPulseResponse.message .response ∧
      step s2 (.receive ledPulseResponse) = some s3 ∧ s.tr.userTimeoutMs = 500 :=
    ⟨_, _, _, _, rfl, by decide, rfl, rfl, by decide, rfl, rfl⟩
  obtain ⟨s, s1, s2, s3, hexec, hconf, h1, h2, hresp, h3, huser⟩ := hrun
  obtain ⟨hset, hkept⟩ := confirmed_estimate ⟨_, hexec⟩ hconf h1
  have hquiet : Machine.Steps step Declined s1 [.wake, .resume] :=
    .of_mem fun _ e he f kind heq => by subst heq; simp at he
  refine ⟨s1, s2, s3, ?_, h2, h3, ?_, (hkept _ _ hquiet h2 _ _ hresp h3).1⟩
  · exact Machine.exec_append_iff.mpr ⟨s, hexec, by rw [Machine.exec_single]; exact h1⟩
  · rw [hset, huser]
    rfl

/-! ## Longer responses -/

/-- What the length of a response is narrowed to is still the length. -/
theorem responseDataLength_toInt (f : Frame) :
    (responseDataLength f.message).toInt = (f.bytes.length : Int) - 8 := by
  have hfits := f.fits
  have hlen : f.message.getLength - (sizeofTDpaIFaceHeader + 2) = (f.bytes.length : Int) - 8 := by
    simp only [DpaMessage.getLength, Frame.message, sizeofTDpaIFaceHeader]
    omega
  rw [responseDataLength, hlen, Int8.toInt_ofInt_of_le (by omega) (by omega)]

/-- Seven bytes are taken for no response. -/
theorem responseDataLength_worst_iff (f : Frame) :
    responseDataLength f.message = -1 ↔ f.bytes.length = 7 := by
  have hlen := responseDataLength_toInt f
  have hminus : (-1 : Int8).toInt = -1 := by decide
  rw [← Int8.toInt_inj, hlen, hminus]
  omega

/-- Of two responses that could be accepted in a state with a timed wait, the longer is given at
least the time of the shorter, and neither is taken for none, just when neither has seven bytes. -/
theorem longer_waits_longer_iff {tr : DpaTransaction2} {f g : Frame}
    (hs : tr.state ≠ .sentCoordinator) (hi : tr.infinitTimeout = false)
    (hf : tr.Accepts f.message .response) (hg : tr.Accepts g.message .response)
    (hle : f.bytes.length ≤ g.bytes.length) :
    ((tr.processReceivedMessage f.message).1.expectedDurationMs ≤
        (tr.processReceivedMessage g.message).1.expectedDurationMs ∧
      responseDataLength f.message ≠ -1 ∧ responseDataLength g.message ≠ -1) ↔
    f.bytes.length ≠ 7 ∧ g.bytes.length ≠ 7 := by
  rw [ne_eq, ne_eq, responseDataLength_worst_iff, responseDataLength_worst_iff]
  refine ⟨fun h => h.2, fun h => ⟨?_, h⟩⟩
  have hdur : ∀ m, ((tr.processResponse m).expectedDurationMs : Int) =
      tr.estimateFrom (responseDataLength m) := by
    intro m
    rw [processResponse_estimate, if_neg (by simp [hs, hi])]
  have hf8 := responseDataLength_toInt f
  have hg8 := responseDataLength_toInt g
  have hest : tr.estimateFrom (responseDataLength f.message) ≤
      tr.estimateFrom (responseDataLength g.message) :=
    estimate_le (responseSlot_mono (by omega) (by omega) (by omega))
  rw [← hdur, ← hdur] at hest
  rw [processReceivedMessage_response hf, processReceivedMessage_response hg]
  exact_mod_cast hest

/-- With sixteen bytes of data. -/
def longResponse : Frame :=
  ⟨[0x01, 0x00, 0x06, 0x83, 0xff, 0xff, 0x00, 0x37] ++ List.replicate 16 0, by decide, by decide⟩

theorem longer_waits_longer_iff_ledPulse :
    ∃ s, Machine.exec step (init ledPulseTransaction) [.execute trnOk (.ok ())] = some s ∧
      (s.tr.processReceivedMessage ledPulseResponse.message).1.expectedDurationMs ≤
        (s.tr.processReceivedMessage longResponse.message).1.expectedDurationMs := by
  have hrun : ∃ s, Machine.exec step (init ledPulseTransaction) [.execute trnOk (.ok ())] =
      some s ∧ s.tr.state = .sent ∧ s.tr.infinitTimeout = false ∧
      s.tr.Accepts ledPulseResponse.message .response ∧
      s.tr.Accepts longResponse.message .response :=
    ⟨_, rfl, rfl, rfl, by decide, by decide⟩
  obtain ⟨s, hexec, hst, hi, hf, hg⟩ := hrun
  have hmono := (longer_waits_longer_iff (by rw [hst]; decide) hi hf hg (by decide)).mpr
    ⟨by decide, by decide⟩
  exact ⟨s, hexec, hmono.1⟩

/-- The response of an LED pulse without its last byte. -/
def shortResponse : Frame :=
  ⟨[0x01, 0x00, 0x06, 0x83, 0xff, 0xff, 0x00], by decide, by decide⟩

/-- The shorter response waits longer, by the worst case of a confirmation. -/
theorem shorter_waits_longer :
    ∃ s, Machine.exec step (init ledPulseTransaction) [.execute trnOk (.ok ())] = some s ∧
      s.tr.state = .sent ∧ s.tr.infinitTimeout = false ∧
      s.tr.Accepts shortResponse.message .response ∧
      s.tr.Accepts ledPulseResponse.message .response ∧
      shortResponse.bytes.length ≤ ledPulseResponse.bytes.length ∧
      responseDataLength shortResponse.message = -1 ∧
      (s.tr.processReceivedMessage shortResponse.message).1.expectedDurationMs = 100 ∧
      (s.tr.processReceivedMessage ledPulseResponse.message).1.expectedDurationMs = 80 :=
  ⟨_, rfl, rfl, rfl, by decide, by decide, by decide, by decide, by decide, by decide⟩

end Execution
end ClibDpa
