import ClibDpa.Execution

/-!
# ClibDpa.ErrorString

`getErrorString()` beside `getErrorCode()`. The code merges two members: that of the response is
reported when `m_errorCode` is `TRN_OK`. The string is made of `m_errorCode` alone, so it says "ok"
where the code does not.

* `agree_iff`      — the two agree, from the members.
* `agree_runs_iff` — over the calls of the mutators.
* `result_agrees`  — a transaction keeps its own result in agreement.
-/

namespace ClibDpa

namespace IDpaTransactionResult2

/-- The `case` labels of `errorCode` with what they return. -/
def errorTexts : List (ErrorCode × String) :=
  [(trnErrorIfaceExclusiveAccess, "ERROR_IFACE_EXCLUSIVE_ACCESS"),
    (trnErrorBadResponse, "BAD_RESPONSE"),
    (trnErrorBadRequest, "BAD_REQUEST"),
    (trnErrorIfaceBusy, "ERROR_IFACE_BUSY"),
    (trnErrorIface, "ERROR_IFACE"),
    (trnErrorAborted, "ERROR_ABORTED"),
    (trnErrorIfaceQueueFull, "ERROR_IFACE_QUEUE_FULL"),
    (trnErrorTimeout, "ERROR_TIMEOUT"),
    (trnOk, "ok"),
    (trnErrorFail, "ERROR_FAIL"),
    (trnErrorPcmd, "ERROR_PCMD"),
    (trnErrorPnum, "ERROR_PNUM"),
    (trnErrorAddr, "ERROR_ADDR"),
    (trnErrorDataLen, "ERROR_DATA_LEN"),
    (trnErrorData, "ERROR_DATA"),
    (trnErrorHwpid, "ERROR_HWPID"),
    (trnErrorNadr, "ERROR_NADR"),
    (trnErrorIfaceCustomHandler, "ERROR_IFACE_CUSTOM_HANDLER"),
    (trnErrorMissingCustomDpaHandler, "ERROR_MISSING_CUSTOM_DPA_HANDLER"),
    (trnErrorUserTo, "ERROR_USER_TO"),
    (trnStatusConfirmation, "STATUS_CONFIRMATION")]

/-- `std::hex`: an `int` is written as the unsigned value of its bits. -/
def hex (c : Int) : String := String.ofList (Nat.toDigits 16 (toUint32 c))

/-- `TRN_ERROR_USER_FROM` shares the `default`. -/
def errorCode (errorCode : ErrorCode) : String :=
  match errorTexts.lookup errorCode with
  | some text => text
  | none => "TRN_ERROR_USER_" ++ hex errorCode

/-- Only `TRN_OK` is "ok". -/
theorem errorCode_ok_iff {c : ErrorCode} : errorCode c = errorCode trnOk ↔ c = trnOk := by
  refine ⟨fun h => ?_, fun h => by rw [h]⟩
  have hok : errorCode trnOk = "ok" := rfl
  rw [hok] at h
  unfold errorCode at h
  split at h
  · rename_i text htext
    have htable : ∀ p ∈ errorTexts, p.2 = "ok" → p.1 = trnOk := by decide
    obtain ⟨l, l', heq, _⟩ := List.lookup_eq_some_iff.mp htext
    exact htable (c, text) (by rw [heq]; simp) h
  · have hlen := congrArg String.length h
    rw [String.length_append] at hlen
    have h15 : "TRN_ERROR_USER_".length = 15 := by decide
    have h2 : "ok".length = 2 := by decide
    omega

end IDpaTransactionResult2

namespace DpaTransactionResult2

def getErrorString (r : DpaTransactionResult2) : String :=
  IDpaTransactionResult2.errorCode r.errorCode

inductive Call where
  | setConfirmation (confirmation : DpaMessage)
  | setResponse (response : DpaMessage)
  | setErrorCode (errorCode : ErrorCode)
  | overrideErrorCode (err : ErrorCode)

def call (r : DpaTransactionResult2) : Call → Option DpaTransactionResult2
  | .setConfirmation confirmation => some (r.setConfirmation confirmation)
  | .setResponse response => some (r.setResponse response)
  | .setErrorCode errorCode => some (r.setErrorCode errorCode)
  | .overrideErrorCode err => some (r.overrideErrorCode err)

def Agree (r : DpaTransactionResult2) : Prop :=
  r.getErrorString = IDpaTransactionResult2.errorCode r.getErrorCode

/-- A call that leaves no response code behind a `TRN_OK` of the transaction. -/
def Agrees (r : DpaTransactionResult2) : Call → Prop
  | .setConfirmation _ => True
  | .setResponse response =>
    0 < response.getLength → response.responseCodeField ≠ 0 → r.errorCode ≠ trnOk
  | .setErrorCode _ => True
  | .overrideErrorCode err => err = trnOk → r.responseCode = trnOk

theorem agree_iff {r : DpaTransactionResult2} :
    Agree r ↔ (r.errorCode = trnOk → r.responseCode = trnOk) := by
  unfold Agree getErrorString getErrorCode
  by_cases h : r.errorCode = trnOk
  · rw [if_neg (not_not.mpr h), h]
    constructor
    · exact fun heq _ => IDpaTransactionResult2.errorCode_ok_iff.mp heq.symm
    · exact fun hr => (IDpaTransactionResult2.errorCode_ok_iff.mpr (hr rfl)).symm
  · rw [if_pos h]
    simp [h]

theorem agree_create (request : DpaMessage) : Agree (create request) :=
  agree_iff.mpr fun h => absurd h (by decide : trnErrorAborted ≠ trnOk)

theorem agree_setErrorCode (r : DpaTransactionResult2) (c : ErrorCode) :
    Agree (r.setErrorCode c) := by
  rw [agree_iff]
  simp only [setErrorCode]
  split
  · rename_i h
    exact fun hr => absurd hr h.2
  · rename_i h
    intro hc
    by_contra hr
    exact h ⟨hc, hr⟩

/-- A response that is empty or reports no error leaves the agreement as it is. -/
theorem agree_setResponse {r : DpaTransactionResult2} (h : Agree r) (m : DpaMessage) :
    Agree (r.setResponse m) ↔
      (0 < m.getLength → m.responseCodeField ≠ 0 → r.errorCode ≠ trnOk) := by
  have hzero : ((m.responseCodeField.toNat : Int) = trnOk) ↔ m.responseCodeField = 0 := by
    rw [← UInt8.toNat_inj]
    simp [trnOk]
  rw [agree_iff] at h ⊢
  unfold setResponse
  by_cases hlen : 0 < m.getLength
  · simp only [hlen, if_true, true_implies, hzero]
    tauto
  · simp only [hlen, if_false, false_implies, iff_true]
    exact h

theorem agree_call {r r' : DpaTransactionResult2} {c : Call} (h : Agree r)
    (hc : call r c = some r') : Agree r' ↔ Agrees r c := by
  cases c with
  | setConfirmation m =>
    cases hc
    exact iff_true_intro (agree_iff.mpr (agree_iff.mp h))
  | setResponse m =>
    cases hc
    exact agree_setResponse h m
  | setErrorCode c =>
    cases hc
    exact iff_true_intro (agree_setErrorCode r c)
  | overrideErrorCode err =>
    cases hc
    exact agree_iff

/-- From its construction on, the code and the string of a result agree after every call just when
each call agrees. -/
theorem agree_runs_iff (request : DpaMessage) (calls : List Call) :
    Machine.States call Agree (create request) calls ↔
      Machine.Steps call Agrees (create request) calls :=
  Machine.states_iff_steps (I := Agree) (D := fun _ => True)
    (fun _ _ _ _ h hc he => (agree_call h he).mpr hc) (fun _ h => h)
    (fun _ _ _ _ h hn he hp => hn ((agree_call h he).mp hp)) (fun _ _ => trivial)
    (agree_create request)

/-- The answer to an LED pulse of a node that does not know the command. -/
def unknownCommand : Frame :=
  ⟨[0x01, 0x00, 0x06, 0x83, 0xff, 0xff, 0x02, 0x37], by decide, by decide⟩

theorem override_contradicts :
    ∃ r, Machine.exec call (create ledPulse.message)
        [.setResponse unknownCommand.message, .overrideErrorCode trnOk] = some r ∧
      r.getErrorCode = trnErrorPcmd ∧ r.getErrorString = "ok" ∧ ¬ Agree r := by
  have hrun : ∃ r, Machine.exec call (create ledPulse.message)
      [.setResponse unknownCommand.message, .overrideErrorCode trnOk] = some r ∧
      r.errorCode = trnOk ∧ r.responseCode = trnErrorPcmd :=
    ⟨_, rfl, rfl, rfl⟩
  obtain ⟨r, hexec, herr, hresp⟩ := hrun
  refine ⟨r, hexec, ?_, ?_, ?_⟩
  · rw [getErrorCode, if_neg (not_not.mpr herr), hresp]
  · rw [getErrorString, herr]
    rfl
  · rw [agree_iff, hresp]
    exact fun h => absurd (h herr) (by decide)

end DpaTransactionResult2

/-! ## The result of a transaction -/

namespace Execution

open DpaTransaction2 DpaTransactionResult2

/-- The result is set to its code when the transaction finishes, and not before. -/
structure Reported (tr : DpaTransaction2) : Prop where
  agree : Agree tr.result
  pending : tr.isFinished = false → tr.result.errorCode = trnErrorAborted

section Reported

variable {tr tr' : DpaTransaction2} {m : DpaMessage}

theorem Settled.reported {wait : Option Bool} {pc : ExecPc} (hs : Settled tr wait tr' pc)
    (h : Reported tr) : Reported tr' := by
  cases hs with
  | enters _ => exact h
  | goesOn _ _ => exact h
  | spins _ _ => exact h
  | ends _ _ =>
    rw [evaluate_fields]
    exact ⟨agree_setErrorCode _ _, fun hopen => by cases hopen⟩

theorem Processed.reported (hp : Processed tr m tr') (h : Reported tr) : Reported tr' := by
  cases hp with
  | unchanged _ => exact h
  | confirmation _ => exact ⟨agree_iff.mpr (agree_iff.mp h.agree), h.pending⟩
  | response ha =>
    have hcode := h.pending ha.1
    refine ⟨?_, fun _ => ?_⟩
    · rw [processResponse_result, agree_setResponse h.agree, hcode]
      exact fun _ _ => by decide
    · rw [processResponse_result, setResponse_errorCode]
      exact hcode

theorem reported_step {s s' : State} {e : Event} (h : Reported s.tr) (he : step s e = some s') :
    Reported s'.tr := by
  cases step_effect he with
  | execute _ hs =>
    refine hs.reported ⟨?_, ?_⟩
    · rw [begin_result]
      exact h.agree
    · rw [begin_result, begin_isFinished]
      exact h.pending
  | @receive f _ => exact (processReceivedMessage_processed s.tr f.message).reported h
  | abort _ => exact ⟨h.agree, h.pending⟩
  | timeout _ => exact h
  | wake _ => exact h
  | resume _ hs => exact hs.reported h

end Reported

/-- What a transaction does to its result meets the condition: the two agree in every reachable
state. -/
theorem result_agrees {request : DpaMessage} {mode : RfMode} {params : TimingParams}
    {defaultTimeout userTimeout : Int32} {err : ErrorCode} {s : State}
    (h : Machine.Reachable step
      (init (create request mode params defaultTimeout userTimeout err)) s) :
    Agree s.tr.result :=
  (h.inv (I := fun s => Reported s.tr) (fun _ _ _ hI he => reported_step hI he)
    ⟨agree_create request, fun _ => rfl⟩).agree

end Execution

end ClibDpa
