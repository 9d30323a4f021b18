import ClibDpa.Abort

/-!
# ClibDpa.Broadcast

A broadcast that was confirmed after it was sent does not time out. Every message accepted from
then on leads to `kConfirmationBroadcast`, `kReceivedResponse` or `kProcessed`, the first of them
for each further confirmation, and these end with `TRN_OK`; only an abort leads elsewhere.
`setErrorCode` turns `TRN_OK` into the code of the last response.

* `lastAccepted`        — the response that was accepted last in a run, from the constructor on.
* `Confirmed`           — the invariant after the confirmation.
* `confirmed_broadcast` — over runs.
-/

namespace ClibDpa
namespace Execution

open DpaTransaction2

/-! ## The last response of a run -/

def noteResponse (last : Option DpaMessage) (s : State) : Event → Option DpaMessage
  | .receive f => if s.tr.Accepts f.message .response then some f.message else last
  | _ => last

def lastAccepted (tr : DpaTransaction2) (es : List Event) : Option DpaMessage :=
  Machine.fold step noteResponse none (init tr) es

/-- Its `ResponseCode`, or `TRN_OK` when there was none. -/
def codeOf : Option DpaMessage → ErrorCode
  | none => trnOk
  | some m => m.responseCodeField.toNat

theorem codeOf_nonneg (last : Option DpaMessage) : 0 ≤ codeOf last := by
  cases last with
  | none => exact le_refl _
  | some m => exact Int.natCast_nonneg _

theorem noteResponse_step {last : Option DpaMessage} {s s' : State} {e : Event}
    (h : s.tr.result.responseCode = codeOf last) (he : step s e = some s') :
    s'.tr.result.responseCode = codeOf (noteResponse last s e) := by
  cases step_effect he with
  | execute _ hs =>
    rw [hs.responseCode, begin_result]
    exact h
  | @receive f _ =>
    have hr := received_effect s f.message
    generalize received s f.message = s1 at hr ⊢
    cases hr with
    | ignored hno =>
      rw [noteResponse, if_neg (hno _)]
      exact h
    | confirmation ha =>
      rw [noteResponse, if_neg (not_accepts_response ha)]
      exact h
    | response ha =>
      rw [noteResponse, if_pos ha, processResponse_result,
        (DpaTransactionResult2.setResponse_of_pos f.message_length_pos).2]
      rfl
  | abort _ => exact h
  | timeout _ => exact h
  | wake _ => exact h
  | resume _ hs =>
    rw [hs.responseCode]
    exact h

/-- The response code of the result is that of the last response. -/
theorem responseCode_lastAccepted {tr : DpaTransaction2} (h : tr.result.responseCode = trnOk)
    {es : List Event} {s : State} (hrun : Machine.exec step (init tr) es = some s) :
    s.tr.result.responseCode = codeOf (lastAccepted tr es) :=
  Machine.fold_inv (R := fun last s => s.tr.result.responseCode = codeOf last)
    (fun _ _ _ _ hI he => noteResponse_step hI he) h hrun

/-! ## After the confirmation -/

/-- The states of a broadcast that was confirmed. -/
def Answering (tr : DpaTransaction2) : Prop :=
  tr.state = .confirmationBroadcast ∨ tr.state = .receivedResponse ∨ tr.state = .processed

/-- `a`: there has been an abort since the confirmation. -/
structure Confirmed (a : Prop) (s : State) : Prop where
  wf : WellFormed s
  started : s.pc ≠ .idle
  broadcast : s.tr.result.request.addressByte = broadcastAddress
  unfinished : s.tr.isFinished = false → Answering s.tr ∨ (s.tr.state = .aborted ∧ a)
  final : s.tr.isFinished = true →
    (s.tr.result.getErrorCode = trnErrorAborted ∧ a) ∨
      s.tr.result.getErrorCode = s.tr.result.responseCode

section Confirmed

variable {a : Prop} {s s' : State}

/-- A confirmation has the address of the request. -/
theorem confirmation_answering {tr : DpaTransaction2} {m : DpaMessage}
    (hb : tr.result.request.addressByte = broadcastAddress) (ha : tr.Accepts m .confirmation) :
    Answering (tr.processConfirmation m) := by
  have haddr : m.addressByte = broadcastAddress := (accepts_addressByte ha).trans hb
  exact .inl (by rw [processConfirmation_state, if_pos haddr])

theorem response_answering (tr : DpaTransaction2) (m : DpaMessage) :
    Answering (tr.processResponse m) := by
  rcases processResponse_state tr m with hst | ⟨hst, _⟩
  · exact .inr (.inr hst)
  · exact .inr (.inl hst)

theorem confirmed_received {f : Frame} (h : Confirmed a s) (hr : Received s f.message s')
    (hwf : WellFormed s') : Confirmed a s' := by
  cases hr with
  | ignored _ => exact h
  | confirmation ha =>
    have hopen : (s.tr.processConfirmation f.message).isFinished ≠ true := by simp [ha.1]
    exact ⟨hwf, h.started, h.broadcast, fun _ => .inl (confirmation_answering h.broadcast ha),
      fun hf => absurd hf hopen⟩
  | response ha =>
    have hopen : (s.tr.processResponse f.message).isFinished ≠ true := by simp [ha.1]
    refine ⟨hwf, h.started, ?_, fun _ => .inl (response_answering _ _), fun hf => absurd hf hopen⟩
    rw [processResponse_result, DpaTransactionResult2.setResponse_request]
    exact h.broadcast

/-- The code of the loop's end. -/
theorem confirmed_final {tr : DpaTransaction2} (h : Answering tr ∨ (tr.state = .aborted ∧ a))
    {expired : Bool} {code : ErrorCode} (hc : (tr.evaluate expired).2 = some code) :
    ((tr.result.setErrorCode code).getErrorCode = trnErrorAborted ∧ a) ∨
      (tr.result.setErrorCode code).getErrorCode = tr.result.responseCode := by
  rcases h with hst | ⟨hst, ha⟩
  · have hok : code = trnOk := by
      rcases hst with hst | hst | hst <;> cases expired <;> simp [evaluate, hst] at hc <;>
        exact hc.symm
    subst hok
    exact .inr (DpaTransactionResult2.getErrorCode_setErrorCode_ok _)
  · have hab : code = trnErrorAborted := by
      simp [evaluate, hst] at hc
      exact hc.symm
    subst hab
    exact .inl ⟨DpaTransactionResult2.getErrorCode_setErrorCode_of_ne (by decide), ha⟩

theorem confirmed_resume {tr' : DpaTransaction2} {pc' : ExecPc} {expired : Bool}
    (h : Confirmed a s) (hopen : s.tr.isFinished = false)
    (hs : Settled s.tr (some expired) tr' pc')
    (hwf : WellFormed { s with tr := tr', pc := pc' }) :
    Confirmed a { s with tr := tr', pc := pc' } := by
  have hst := h.unfinished hopen
  have hno : s.tr.isFinished ≠ true := by simp [hopen]
  cases hs with
  | goesOn _ _ => exact ⟨hwf, nofun, h.broadcast, fun _ => hst, fun hf => absurd hf hno⟩
  | spins _ _ => exact ⟨hwf, nofun, h.broadcast, fun _ => hst, fun hf => absurd hf hno⟩
  | ends hc _ =>
    refine ⟨hwf, nofun, ?_, fun hf => absurd hf (by simp), fun _ => ?_⟩
    · simpa using h.broadcast
    · simpa using confirmed_final hst hc

theorem confirmed_step {e : Event} (h : Confirmed a s) (ha : e = .abort → a)
    (he : step s e = some s') : Confirmed a s' := by
  have hwf := wellFormed_step h.wf he
  cases step_effect he with
  | execute hpc _ => exact absurd hpc h.started
  | @receive f _ => exact confirmed_received h (received_effect s f.message) hwf
  | abort _ => exact ⟨hwf, h.started, h.broadcast, fun _ => .inr ⟨rfl, ha rfl⟩, h.final⟩
  | timeout _ => exact ⟨hwf, nofun, h.broadcast, h.unfinished, h.final⟩
  | wake _ => exact ⟨hwf, nofun, h.broadcast, h.unfinished, h.final⟩
  | resume hpc hs =>
    exact confirmed_resume h (h.wf.at_resume hpc) hs hwf

end Confirmed

theorem confirmed_start {a : Prop} {request : DpaMessage} {mode : RfMode} {params : TimingParams}
    {defaultTimeout userTimeout : Int32} {err : ErrorCode}
    (hb : request.copy.addressByte = broadcastAddress) {pre : List Event} {s0 s1 : State}
    {f : Frame}
    (hpre : Machine.exec step
      (init (create request mode params defaultTimeout userTimeout err)) pre = some s0)
    (hsent : s0.handed ≠ []) (hacc : s0.tr.Accepts f.message .confirmation)
    (hconf : step s0 (.receive f) = some s1) : Confirmed a s1 := by
  have hwf : WellFormed s0 :=
    Machine.exec_inv (fun _ _ _ hI he => wellFormed_step hI he) (wellFormed_init rfl) hpre
  have hidle : s0.pc = .idle → s0.handed = [] :=
    Machine.exec_inv (I := fun s => s.pc = .idle → s.handed = [])
      (fun _ _ _ hI he => idle_handed hI he) (fun _ => rfl) hpre
  have hreq : s0.tr.result.request = request.copy :=
    Machine.exec_inv (I := fun s => s.tr.result.request = request.copy)
      (fun _ _ _ hI he => (step_const he).1.trans hI) rfl hpre
  have hb0 : s0.tr.result.request.addressByte = broadcastAddress := by rw [hreq, hb]
  have hwf1 := wellFormed_step hwf hconf
  cases step_effect hconf with
  | receive _ =>
    have hr := received_effect s0 f.message
    generalize received s0 f.message = s1 at hr hwf1
    cases hr with
    | ignored hno => exact absurd hacc (hno _)
    | confirmation _ =>
      have hopen : (s0.tr.processConfirmation f.message).isFinished ≠ true := by simp [hacc.1]
      exact ⟨hwf1, fun hpc => hsent (hidle hpc), hb0,
        fun _ => .inl (confirmation_answering hb0 hacc), fun hf => absurd hf hopen⟩
    | response ha => exact absurd ha (not_accepts_response hacc)

/-- A broadcast request that was sent, and then confirmed: in every run that follows it finishes
with `TRN_ERROR_ABORTED` after an abort, or with the code of the last response that was accepted
since it was constructed, which is `TRN_OK` when there was none; it does not time out. -/
theorem confirmed_broadcast {request : DpaMessage} {mode : RfMode} {params : TimingParams}
    {defaultTimeout userTimeout : Int32} {err : ErrorCode}
    (hb : request.copy.addressByte = broadcastAddress) {pre es : List Event} {s0 s1 s : State}
    {f : Frame}
    (hpre : Machine.exec step
      (init (create request mode params defaultTimeout userTimeout err)) pre = some s0)
    (hsent : s0.handed ≠ []) (hacc : s0.tr.Accepts f.message .confirmation)
    (hconf : step s0 (.receive f) = some s1) (hrun : Machine.exec step s1 es = some s)
    (hfin : s.tr.isFinished = true) :
    s.tr.result.getErrorCode ≠ trnErrorTimeout ∧
      ((s.tr.result.getErrorCode = trnErrorAborted ∧ .abort ∈ es) ∨
        s.tr.result.getErrorCode =
          codeOf (lastAccepted (create request mode params defaultTimeout userTimeout err)
            (pre ++ .receive f :: es))) := by
  have h1 := confirmed_start hb hpre hsent hacc hconf (a := .abort ∈ es)
  have hsteps : Machine.Steps step (fun _ e => e = .abort → .abort ∈ es) s1 es :=
    Machine.Steps.of_mem fun _ _ he heq => heq ▸ he
  have h := hsteps.exec_inv (I := Confirmed (.abort ∈ es))
    (fun _ _ _ hI hC he => confirmed_step hI hC he) h1 hrun
  have hall : Machine.exec step (init (create request mode params defaultTimeout userTimeout err))
      (pre ++ .receive f :: es) = some s :=
    Machine.exec_append_iff.mpr ⟨s0, hpre, Machine.exec_cons_iff.mpr ⟨s1, hconf, hrun⟩⟩
  have hcode := responseCode_lastAccepted rfl hall
  rcases h.final hfin with ⟨hab, ha⟩ | hresp
  · exact ⟨by rw [hab]; decide, .inl ⟨hab, ha⟩⟩
  · rw [hcode] at hresp
    refine ⟨fun ht => ?_, .inr hresp⟩
    have hnn := codeOf_nonneg (lastAccepted
      (create request mode params defaultTimeout userTimeout err) (pre ++ .receive f :: es))
    rw [← hresp, ht] at hnn
    exact absurd hnn (by decide)

def broadcastLedPulse : Frame := ⟨[0xff, 0x00, 0x06, 0x03, 0xff, 0xff], by decide, by decide⟩

def broadcastConfirmation : Frame :=
  ⟨[0xff, 0x00, 0x06, 0x03, 0xff, 0xff, 0xff, 0x37, 0x01, 0x04, 0x01], by decide, by decide⟩

def broadcastTransaction : DpaTransaction2 :=
  create broadcastLedPulse.message .std ⟨"4.02D"⟩ 500 (-1) trnOk

theorem confirmed_broadcast_ledPulse :
    ∃ s, Machine.exec step (init broadcastTransaction)
        [.execute trnOk (.ok ()), .receive broadcastConfirmation, .timeout, .resume] = some s ∧
      s.tr.result.getErrorCode ≠ trnErrorTimeout := by
  have h0 : ∃ s0 s1 s, Machine.exec step (init broadcastTransaction) [.execute trnOk (.ok ())] =
      some s0 ∧ s0.handed ≠ [] ∧ s0.tr.Accepts broadcastConfirmation.message .confirmation ∧
      step s0 (.receive broadcastConfirmation) = some s1 ∧
      Machine.exec step s1 [.timeout, .resume] = some s ∧ s.tr.isFinished = true :=
    ⟨_, _, _, rfl, by decide, by decide, rfl, rfl, by decide⟩
  obtain ⟨s0, s1, s, hpre, hsent, hacc, hconf, hrun, hfin⟩ := h0
  refine ⟨s, ?_, (confirmed_broadcast (by decide) hpre hsent hacc hconf hrun hfin).1⟩
  exact Machine.exec_append_iff.mpr ⟨s0, hpre, Machine.exec_cons_iff.mpr ⟨s1, hconf, hrun⟩⟩

end Execution
end ClibDpa
