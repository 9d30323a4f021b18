import ClibDpa.Result
import ClibDpa.Timing

/-!
# ClibDpa.Transaction

`DpaTransaction2` of `Dpa/DpaTransaction2.cpp`: the object and what each of its methods does
while it holds the mutex.

* `create`                 — the constructor, with its timeout corrections.
* `abort`                  — one critical section.
* `beginWith`, `begin`     — `execute()` up to its loop, over what `m_sender` does.
* `evaluate`               — the `switch` of the loop; a code when `finish` stays set.
* `finish`                 — `execute()` after its loop.
* `processReceivedMessage` — one critical section.

The result object is the one `m_dpaTransactionResultPtr` points to. `m_transactionId` and the
traces are left out; so is `getFrcTimeout`, which nothing calls.
-/

namespace ClibDpa

/-- `DpaTransfer2State`. -/
inductive DpaTransfer2State where
  | created
  | sent
  | sentCoordinator
  | confirmation
  | confirmationBroadcast
  | receivedResponse
  | processed
  | timeout
  | aborted
  | interfaceError
  | defaultError
  deriving DecidableEq, Repr

structure DpaTransaction2 where
  result : DpaTransactionResult2
  state : DpaTransfer2State
  isFinished : Bool
  currentCommunicationMode : RfMode
  currentTimingParams : TimingParams
  defaultError : ErrorCode
  defaultTimeout : Nat
  userTimeoutMs : Nat
  expectedDurationMs : Nat
  infinitTimeout : Bool
  hops : Int8
  timeslotLength : Int8
  hopsResponse : Int8

namespace DpaTransaction2

/-! ## The constructor -/

/-- The test made for a negative user timeout. -/
def infinitForDefault (message : DpaMessage) : Bool :=
  message.addressByte = coordinatorAddress &&
    ((message.peripheralType = pnumCoordinator &&
        (message.peripheralCommand = cmdCoordinatorDiscovery ||
          message.peripheralCommand = cmdCoordinatorSmartConnect ||
          message.peripheralCommand = cmdCoordinatorAuthorizeBond)) ||
      (message.peripheralType = pnumFrc &&
        (message.peripheralCommand = cmdFrcSend ||
          message.peripheralCommand = cmdFrcSendSelective)))

/-- The test made for `INFINITE_TIMEOUT`: the timeout is forced to the default. -/
def forcedToDefault (message : DpaMessage) : Bool :=
  message.addressByte ≠ coordinatorAddress ||
    (message.peripheralType = pnumCoordinator &&
      message.peripheralCommand ≠ cmdCoordinatorDiscovery &&
      message.peripheralCommand ≠ cmdCoordinatorSmartConnect &&
      message.peripheralCommand ≠ cmdCoordinatorAuthorizeBond) ||
    (message.peripheralType = pnumFrc &&
      message.peripheralCommand ≠ cmdFrcSend &&
      message.peripheralCommand ≠ cmdFrcSendSelective)

/-- `requiredTimeout` and `m_infinitTimeout` after the first correction. -/
def correctTimeout (message : DpaMessage) (defaultTimeout userTimeout : Int) : Int × Bool :=
  if userTimeout < 0 then (defaultTimeout, infinitForDefault message)
  else if userTimeout = infiniteTimeout then
    if forcedToDefault message then (defaultTimeout, false) else (defaultTimeout, true)
  else if userTimeout < defaultTimeout then (defaultTimeout, false)
  else (userTimeout, false)

/-- `requiredTimeout` and `m_expectedDurationMs` after the special cases. -/
def specialTimeout (message : DpaMessage) (defaultTimeout userTimeout requiredTimeout : Int) :
    Int × Nat :=
  if message.addressByte = coordinatorAddress then
    if message.peripheralType = pnumCoordinator ∧
        message.peripheralCommand = cmdCoordinatorBondNode ∧ userTimeout < 0 then
      (bondTimeoutMs, toUint32 bondTimeoutMs)
    else if defaultTimeout < requiredTimeout then (requiredTimeout, toUint32 requiredTimeout)
    else (requiredTimeout, toUint32 defaultTimeout)
  else (requiredTimeout, toUint32 defaultTimeout)

def create (request : DpaMessage) (mode : RfMode) (params : TimingParams)
    (defaultTimeout userTimeout : Int32) (defaultError : ErrorCode) : DpaTransaction2 :=
  let result := DpaTransactionResult2.create request
  let corrected := correctTimeout result.request defaultTimeout.toInt userTimeout.toInt
  let special :=
    specialTimeout result.request defaultTimeout.toInt userTimeout.toInt corrected.1
  { result := result
    state := .created
    isFinished := false
    currentCommunicationMode := mode
    currentTimingParams := params
    defaultError := defaultError
    defaultTimeout := toUint32 defaultTimeout.toInt
    userTimeoutMs := toUint32 special.1
    expectedDurationMs := special.2
    infinitTimeout := corrected.2
    hops := 0
    timeslotLength := 0
    hopsResponse := 0 }

/-! ## The worker side -/

def abort (tr : DpaTransaction2) : DpaTransaction2 := { tr with state := .aborted }

/-- `execute(defaultError)` up to its loop, in the monad of what `m_sender` does besides coming
back. `m_sender( message )` is called only for `TRN_OK`. -/
def beginWith {m : Type → Type} [Monad m] (tr : DpaTransaction2) (defaultError : ErrorCode)
    (sender : DpaMessage → m (Except Exc Unit)) : m DpaTransaction2 :=
  if defaultError = trnOk then do
    match ← sender tr.result.request with
    | .ok _ =>
      return { tr with
        defaultError := defaultError
        state := if tr.result.request.addressByte = coordinatorAddress then .sentCoordinator
          else .sent }
    | .error _ =>
      return { tr with
        defaultError := defaultError
        expectedDurationMs := 0
        state := .interfaceError }
  else
    return { tr with
      defaultError := defaultError
      expectedDurationMs := 0
      state := .defaultError }

/-- The object that comes of it, where `sent` is the outcome of `m_sender( message )`. -/
def begin (tr : DpaTransaction2) (defaultError : ErrorCode) (sent : Except Exc Unit) :
    DpaTransaction2 :=
  Id.run (tr.beginWith defaultError fun _ => pure sent)

theorem begin_eq (tr : DpaTransaction2) (defaultError : ErrorCode) (sent : Except Exc Unit) :
    tr.begin defaultError sent =
      if defaultError = trnOk then
        match sent with
        | .ok _ =>
          { tr with
            defaultError := defaultError
            state := if tr.result.request.addressByte = coordinatorAddress then .sentCoordinator
              else .sent }
        | .error _ =>
          { tr with
            defaultError := defaultError
            expectedDurationMs := 0
            state := .interfaceError }
      else
        { tr with
          defaultError := defaultError
          expectedDurationMs := 0
          state := .defaultError } := by
  unfold begin beginWith
  split
  · cases sent <;> rfl
  · rfl

/-- What `m_sender` does besides coming back is all that `execute()` does besides. -/
theorem beginWith_eq {m : Type → Type} [Monad m] [LawfulMonad m] (tr : DpaTransaction2)
    (defaultError : ErrorCode) (sender : DpaMessage → m (Except Exc Unit)) :
    tr.beginWith defaultError sender =
      if defaultError = trnOk then tr.begin defaultError <$> sender tr.result.request
      else pure (tr.begin defaultError (.ok ())) := by
  unfold beginWith
  by_cases hcode : defaultError = trnOk
  · rw [if_pos hcode, if_pos hcode, map_eq_pure_bind]
    refine bind_congr fun sent => ?_
    cases sent <;> simp only [begin_eq, if_pos hcode]
  · rw [if_neg hcode, if_neg hcode, begin_eq, if_neg hcode]

/-- One evaluation of `m_state`. The code is that of the `switch` when the loop ends, `none` when
it goes on. -/
def evaluate (tr : DpaTransaction2) (expired : Bool) : DpaTransaction2 × Option ErrorCode :=
  match tr.state with
  | .sent | .sentCoordinator | .confirmation =>
    if expired then
      if !tr.infinitTimeout then ({ tr with state := .timeout }, some trnErrorTimeout)
      else (tr, none)
    else (tr, none)
  | .confirmationBroadcast | .receivedResponse =>
    if expired then ({ tr with state := .processed }, some trnOk) else (tr, none)
  | .processed => (tr, some trnOk)
  | .timeout => (tr, some trnErrorTimeout)
  | .aborted => (tr, some trnErrorAborted)
  | .interfaceError => (tr, some trnErrorIface)
  | .defaultError => (tr, some tr.defaultError)
  | .created => (tr, some trnErrorIface)

def finish (tr : DpaTransaction2) (errorCode : ErrorCode) : DpaTransaction2 :=
  { tr with result := tr.result.setErrorCode errorCode, isFinished := true }

/-! ## The receive side -/

/-- The validity checks of `processReceivedMessage`, in the order of the source. -/
def checkReceived (request receivedMessage : DpaMessage) : Except Exc MessageType :=
  if receivedMessage.messageDirection ≠ .response ∧
      receivedMessage.messageDirection ≠ .confirmation then
    .error (.logicError "Response is expected.")
  else if receivedMessage.nodeAddress ≠ request.nodeAddress then
    .error (.logicError "Different node address than in sent message.")
  else if receivedMessage.peripheralType ≠ request.peripheralType then
    .error (.logicError "Different peripheral type than in sent message.")
  else if receivedMessage.peripheralCommand &&& ~~~0x80 ≠ request.peripheralCommand then
    .error (.logicError "Different peripheral command than in sent message.")
  else .ok receivedMessage.messageDirection

/-- `EstimateXxxTimeout( m_hops, m_timeslotLength, m_hopsResponse, responseDataLength )`; the
members are `int8_t`, the parameters `uint8_t`. -/
def estimateFrom (tr : DpaTransaction2) (responseDataLength : Int8) : Int :=
  estimate tr.currentCommunicationMode tr.currentTimingParams tr.hops.toUInt8
    tr.timeslotLength.toUInt8 tr.hopsResponse.toUInt8 responseDataLength

def saveHops (tr : DpaTransaction2) (receivedMessage : DpaMessage) : DpaTransaction2 :=
  { tr with
    hops := receivedMessage.hops.toInt8
    timeslotLength := receivedMessage.timeSlotLength.toInt8
    hopsResponse := receivedMessage.hopsResponse.toInt8 }

def processConfirmation (tr : DpaTransaction2) (receivedMessage : DpaMessage) :
    DpaTransaction2 :=
  let estimatedTimeMs := (tr.saveHops receivedMessage).estimateFrom (-1)
  { tr.saveHops receivedMessage with
    state := if receivedMessage.addressByte = broadcastAddress then .confirmationBroadcast
      else .confirmation
    expectedDurationMs :=
      if 0 < estimatedTimeMs then
        if tr.userTimeoutMs ≤ toUint32 estimatedTimeMs then toUint32 estimatedTimeMs
        else tr.userTimeoutMs
      else tr.expectedDurationMs
    result := tr.result.setConfirmation receivedMessage }

/-- `static_cast<int8_t>(GetLength() - ( sizeof( TDpaIFaceHeader ) + 2 ))`: the unsigned
subtraction and the narrowing together keep the difference modulo 256. -/
def responseDataLength (receivedMessage : DpaMessage) : Int8 :=
  Int8.ofInt (receivedMessage.getLength - (sizeofTDpaIFaceHeader + 2))

def processResponse (tr : DpaTransaction2) (receivedMessage : DpaMessage) : DpaTransaction2 :=
  if tr.state = .sentCoordinator then
    { tr with state := .processed, result := tr.result.setResponse receivedMessage }
  else if !tr.infinitTimeout then
    let estimatedTimeMs := tr.estimateFrom (responseDataLength receivedMessage)
    { tr with
      expectedDurationMs := toUint32 estimatedTimeMs
      state := if toUint32 estimatedTimeMs ≤ 0 then .processed else .receivedResponse
      result := tr.result.setResponse receivedMessage }
  else
    { tr with state := .processed, result := tr.result.setResponse receivedMessage }

/-- The object after the call, and the exception if it leaves by one. -/
def processReceivedMessage (tr : DpaTransaction2) (receivedMessage : DpaMessage) :
    DpaTransaction2 × Except Exc Unit :=
  if tr.isFinished then (tr, .ok ())
  else
    match checkReceived tr.result.request receivedMessage with
    | .error e => (tr, .error e)
    | .ok .confirmation => (tr.processConfirmation receivedMessage, .ok ())
    | .ok _ => (tr.processResponse receivedMessage, .ok ())

/-- `processReceivedMessage` takes the message as a confirmation or a response. -/
def Accepts (tr : DpaTransaction2) (m : DpaMessage) (kind : MessageType) : Prop :=
  tr.isFinished = false ∧ checkReceived tr.result.request m = .ok kind

instance (tr : DpaTransaction2) (m : DpaMessage) (kind : MessageType) :
    Decidable (tr.Accepts m kind) :=
  inferInstanceAs (Decidable (_ ∧ _))

end DpaTransaction2

end ClibDpa
