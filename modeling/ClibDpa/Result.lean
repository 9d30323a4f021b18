import ClibDpa.Message

/-!
# ClibDpa.Result

`DpaTransactionResult2` of `Dpa/DpaTransactionResult2.cpp`: the request, the confirmation and the
response of a transaction, and its error code. The three timestamps are left out: no modelled
function reads them.
-/

namespace ClibDpa

structure DpaTransactionResult2 where
  request : DpaMessage
  confirmation : DpaMessage
  response : DpaMessage
  errorCode : ErrorCode
  responseCode : ErrorCode
  isResponded : Bool
  isConfirmed : Bool

namespace DpaTransactionResult2

def create (request : DpaMessage) : DpaTransactionResult2 where
  request := request.copy
  confirmation := .empty
  response := .empty
  errorCode := trnErrorAborted
  responseCode := trnOk
  isResponded := false
  isConfirmed := false

def getErrorCode (r : DpaTransactionResult2) : ErrorCode :=
  if r.errorCode ≠ trnOk then r.errorCode else r.responseCode

def overrideErrorCode (r : DpaTransactionResult2) (err : ErrorCode) : DpaTransactionResult2 :=
  { r with errorCode := err }

def setConfirmation (r : DpaTransactionResult2) (confirmation : DpaMessage) :
    DpaTransactionResult2 :=
  { r with confirmation := confirmation.copy, isConfirmed := true }

def setResponse (r : DpaTransactionResult2) (response : DpaMessage) : DpaTransactionResult2 :=
  if 0 < response.getLength then
    { r with response := response.copy
             responseCode := (response.responseCodeField.toNat : Int)
             isResponded := true }
  else
    { r with response := response.copy, isResponded := false }

def setErrorCode (r : DpaTransactionResult2) (errorCode : ErrorCode) : DpaTransactionResult2 :=
  { r with
    errorCode := if errorCode = trnOk ∧ r.responseCode ≠ trnOk then r.responseCode else errorCode }

@[simp] theorem setConfirmation_request (r : DpaTransactionResult2) (m : DpaMessage) :
    (r.setConfirmation m).request = r.request := rfl
@[simp] theorem setConfirmation_response (r : DpaTransactionResult2) (m : DpaMessage) :
    (r.setConfirmation m).response = r.response := rfl
@[simp] theorem setConfirmation_responseCode (r : DpaTransactionResult2) (m : DpaMessage) :
    (r.setConfirmation m).responseCode = r.responseCode := rfl
@[simp] theorem setConfirmation_isResponded (r : DpaTransactionResult2) (m : DpaMessage) :
    (r.setConfirmation m).isResponded = r.isResponded := rfl
@[simp] theorem setConfirmation_confirmation (r : DpaTransactionResult2) (m : DpaMessage) :
    (r.setConfirmation m).confirmation = m.copy := rfl
@[simp] theorem setConfirmation_isConfirmed (r : DpaTransactionResult2) (m : DpaMessage) :
    (r.setConfirmation m).isConfirmed = true := rfl

@[simp] theorem setErrorCode_request (r : DpaTransactionResult2) (c : ErrorCode) :
    (r.setErrorCode c).request = r.request := rfl
@[simp] theorem setErrorCode_response (r : DpaTransactionResult2) (c : ErrorCode) :
    (r.setErrorCode c).response = r.response := rfl
@[simp] theorem setErrorCode_responseCode (r : DpaTransactionResult2) (c : ErrorCode) :
    (r.setErrorCode c).responseCode = r.responseCode := rfl
@[simp] theorem setErrorCode_isResponded (r : DpaTransactionResult2) (c : ErrorCode) :
    (r.setErrorCode c).isResponded = r.isResponded := rfl
@[simp] theorem setErrorCode_confirmation (r : DpaTransactionResult2) (c : ErrorCode) :
    (r.setErrorCode c).confirmation = r.confirmation := rfl
@[simp] theorem setErrorCode_isConfirmed (r : DpaTransactionResult2) (c : ErrorCode) :
    (r.setErrorCode c).isConfirmed = r.isConfirmed := rfl

@[simp] theorem setResponse_request (r : DpaTransactionResult2) (m : DpaMessage) :
    (r.setResponse m).request = r.request := by
  unfold setResponse; split <;> rfl

@[simp] theorem setResponse_confirmation (r : DpaTransactionResult2) (m : DpaMessage) :
    (r.setResponse m).confirmation = r.confirmation := by
  unfold setResponse; split <;> rfl
@[simp] theorem setResponse_isConfirmed (r : DpaTransactionResult2) (m : DpaMessage) :
    (r.setResponse m).isConfirmed = r.isConfirmed := by
  unfold setResponse; split <;> rfl
@[simp] theorem setResponse_response (r : DpaTransactionResult2) (m : DpaMessage) :
    (r.setResponse m).response = m.copy := by
  unfold setResponse; split <;> rfl

@[simp] theorem setResponse_errorCode (r : DpaTransactionResult2) (m : DpaMessage) :
    (r.setResponse m).errorCode = r.errorCode := by
  unfold setResponse; split <;> rfl

theorem setResponse_of_pos {r : DpaTransactionResult2} {m : DpaMessage} (h : 0 < m.length) :
    (r.setResponse m).isResponded = true ∧
      (r.setResponse m).responseCode = m.responseCodeField.toNat := by
  rw [setResponse, DpaMessage.getLength, if_pos h]
  exact ⟨rfl, rfl⟩

/-- A code other than `TRN_OK` is reported as it was set. -/
theorem getErrorCode_setErrorCode_of_ne {r : DpaTransactionResult2} {c : ErrorCode}
    (h : c ≠ trnOk) : (r.setErrorCode c).getErrorCode = c := by
  simp [getErrorCode, setErrorCode, h]

/-- An error of the library stays one. -/
theorem negative_setErrorCode {r : DpaTransactionResult2} {c : ErrorCode} (h : c < 0) :
    ¬ 0 ≤ (r.setErrorCode c).getErrorCode := by
  rw [getErrorCode_setErrorCode_of_ne (ne_of_lt h)]
  exact not_le.mpr h

/-- `TRN_OK` is reported as the response code, which is `TRN_OK` when there was no response. -/
theorem getErrorCode_setErrorCode_ok (r : DpaTransactionResult2) :
    (r.setErrorCode trnOk).getErrorCode = r.responseCode := by
  by_cases h : r.responseCode = trnOk <;> simp [getErrorCode, setErrorCode, h]

end DpaTransactionResult2

end ClibDpa
