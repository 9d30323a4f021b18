import ClibDpa.Execution

/-!
# ClibDpa.Dispatch

The receive side of `DpaHandler2::Imp`: the two registries of user handlers with their mutexes, and
`ResponseMessageHandler`.

A user handler is a function of the message that returns or throws. A mutex is modelled by whether
it was left locked: `lock_guard` releases it on every way out of `processAnyMessage`, but
`processAsynchronousMessage` locks and unlocks by hand.

`Outcome` is how a call of `ResponseMessageHandler` ends; `responseMessageHandler_of_frame` says
where each frame goes. A function that calls with a received message is written over what these
calls do besides coming back (`...With`); the function itself is the case in which that is nothing,
and the calls are noted in `Deliver`.
-/

namespace ClibDpa

open DpaTransaction2

/-- `std::function<void( const DpaMessage& )>`; `none` is the empty one. -/
abbrev MessageHandlerFunc := Option (DpaMessage → Except Exc Unit)

def badFunctionCall : Exc := .other "bad_function_call"

def MessageHandlerFunc.call (handler : MessageHandlerFunc) (m : DpaMessage) : Except Exc Unit :=
  match handler with
  | none => .error badFunctionCall
  | some h => h m

/-- A call with a received message. -/
inductive Delivery where
  | any (serviceId : String) (handler : DpaMessage → Except Exc Unit) (m : DpaMessage)
  | async (handler : DpaMessage → Except Exc Unit) (m : DpaMessage)
  | transaction (m : DpaMessage)

/-- How the call comes back, where `pending` is the pending transaction. -/
def Delivery.run (pending : Option Execution.State) : Delivery → Except Exc Unit
  | any _ h m => h m
  | async h m => h m
  | transaction m =>
    match pending with
    | none => .ok ()
    | some x => (x.tr.processReceivedMessage m).2

section Run

variable {pending : Option Execution.State} {handler : DpaMessage → Except Exc Unit}
  {m : DpaMessage}

@[simp] theorem Delivery.run_any {serviceId : String} :
    (Delivery.any serviceId handler m).run pending = handler m := rfl

@[simp] theorem Delivery.run_async : (Delivery.async handler m).run pending = handler m := rfl

@[simp] theorem Delivery.run_transaction {x : Execution.State} :
    (Delivery.transaction m).run (some x) = (x.tr.processReceivedMessage m).2 := rfl

end Run

structure Registry where
  asyncMessageHandler : MessageHandlerFunc
  asyncMessageMutex : Bool
  anyMessageHandlerMap : List (String × MessageHandlerFunc)
  anyMessageMutex : Bool

/-- `blocked`: the call waits for a mutex that nobody will release. `nullPointer`: it calls through
an empty `m_pendingTransaction`. -/
inductive Outcome where
  | returned
  | threw (e : Exc)
  | blocked
  | nullPointer

namespace Registry

def init : Registry := ⟨none, false, [], false⟩

/-! ## Registration; `none` while the mutex is locked -/

def registerAsyncMessageHandler (r : Registry) (_serviceId : String)
    (handler : MessageHandlerFunc) : Option Registry :=
  if r.asyncMessageMutex then none else some { r with asyncMessageHandler := handler }

def unregisterAsyncMessageHandler (r : Registry) (_serviceId : String) : Option Registry :=
  if r.asyncMessageMutex then none else some { r with asyncMessageHandler := none }

/-- `std::map::insert`: the map is ordered by its keys; a key that is there is kept. -/
def insert (serviceId : String) (handler : MessageHandlerFunc) :
    List (String × MessageHandlerFunc) → List (String × MessageHandlerFunc) × Bool
  | [] => ([(serviceId, handler)], true)
  | (key, h) :: rest =>
    if serviceId = key then ((key, h) :: rest, false)
    else if serviceId < key then ((serviceId, handler) :: (key, h) :: rest, true)
    else ((key, h) :: (insert serviceId handler rest).1, (insert serviceId handler rest).2)

def registerAnyMessageHandler (r : Registry) (serviceId : String) (handler : MessageHandlerFunc) :
    Option (Registry × Except Exc Unit) :=
  if r.anyMessageMutex then none
  else
    let ret := insert serviceId handler r.anyMessageHandlerMap
    some ({ r with anyMessageHandlerMap := ret.1 },
      if ret.2 then .ok ()
      else .error (.logicError ("Already registered: serviceId=\"" ++ serviceId ++ "\" ")))

def unregisterAnyMessageHandler (r : Registry) (serviceId : String) : Option Registry :=
  if r.anyMessageMutex then none
  else
    some { r with
      anyMessageHandlerMap := r.anyMessageHandlerMap.filter fun p => p.1 ≠ serviceId }

/-! ## Delivery to the handlers -/

section With

variable {M : Type → Type} [Monad M] (call : Delivery → M (Except Exc Unit))

/-- An empty function throws without calling anything. -/
def callAllWith (m : DpaMessage) : List (String × MessageHandlerFunc) → M (Except Exc Unit)
  | [] => return .ok ()
  | (_, none) :: _ => return .error badFunctionCall
  | (serviceId, some h) :: rest => do
    match ← call (.any serviceId h m) with
    | .ok _ => callAllWith m rest
    | .error e => return .error e

def processAnyMessageWith (r : Registry) (m : DpaMessage) : M Outcome := do
  if r.anyMessageMutex then return .blocked
  else
    match ← callAllWith call m r.anyMessageHandlerMap with
    | .ok _ => return .returned
    | .error e => return .threw e

def processAsynchronousMessageWith (r : Registry) (m : DpaMessage) : M (Registry × Outcome) := do
  if r.asyncMessageMutex then return (r, .blocked)
  else
    match r.asyncMessageHandler with
    | none => return (r, .returned)
    | some h =>
      match ← call (.async h m) with
      | .ok _ => return (r, .returned)
      | .error e => return ({ r with asyncMessageMutex := true }, .threw e)

end With

def callAll (m : DpaMessage) (handlers : List (String × MessageHandlerFunc)) : Except Exc Unit :=
  Id.run (callAllWith (fun d => pure (d.run none)) m handlers)

def processAnyMessage (r : Registry) (m : DpaMessage) : Outcome :=
  Id.run (r.processAnyMessageWith (fun d => pure (d.run none)) m)

def processAsynchronousMessage (r : Registry) (m : DpaMessage) : Registry × Outcome :=
  Id.run (r.processAsynchronousMessageWith (fun d => pure (d.run none)) m)

section Run

variable (pending : Option Execution.State) (r : Registry) (m : DpaMessage)

/-- The calls of the handlers do not depend on the transaction. -/
theorem callAllWith_run (handlers : List (String × MessageHandlerFunc)) :
    Id.run (callAllWith (fun d => pure (d.run pending)) m handlers) = callAll m handlers := by
  induction handlers with
  | nil => rfl
  | cons p rest ih =>
    obtain ⟨serviceId, handler⟩ := p
    cases handler with
    | none => rfl
    | some h =>
      rw [callAll] at ih ⊢
      cases hcall : h m with
      | ok _ => simpa [callAllWith, hcall] using ih
      | error e => simp [callAllWith, hcall]

theorem processAnyMessageWith_run :
    Id.run (r.processAnyMessageWith (fun d => pure (d.run pending)) m) =
      r.processAnyMessage m := by
  unfold processAnyMessage processAnyMessageWith
  split
  · rfl
  · have hrun := callAllWith_run pending m r.anyMessageHandlerMap
    have hrun' := callAllWith_run none m r.anyMessageHandlerMap
    simp [hrun, hrun']

theorem processAsynchronousMessageWith_run :
    Id.run (r.processAsynchronousMessageWith (fun d => pure (d.run pending)) m) =
      r.processAsynchronousMessage m := rfl

end Run

theorem callAll_cons (m : DpaMessage) (p : String × MessageHandlerFunc)
    (rest : List (String × MessageHandlerFunc)) :
    callAll m (p :: rest) =
      match p.2.call m with
      | .ok _ => callAll m rest
      | .error e => .error e := by
  obtain ⟨serviceId, handler⟩ := p
  cases handler with
  | none => rfl
  | some h =>
    change Id.run (callAllWith _ m ((serviceId, some h) :: rest)) =
      match h m with
      | .ok _ => callAll m rest
      | .error e => .error e
    cases hcall : h m <;> simp [callAllWith, hcall, callAll]

theorem processAnyMessage_eq (r : Registry) (m : DpaMessage) :
    r.processAnyMessage m =
      if r.anyMessageMutex then .blocked
      else
        match callAll m r.anyMessageHandlerMap with
        | .ok _ => .returned
        | .error e => .threw e := by
  unfold processAnyMessage processAnyMessageWith
  split
  · rfl
  · cases h : callAll m r.anyMessageHandlerMap <;> simp [callAll] at h <;> simp [h]

theorem processAsynchronousMessage_eq (r : Registry) (m : DpaMessage) :
    r.processAsynchronousMessage m =
      if r.asyncMessageMutex then (r, .blocked)
      else
        match r.asyncMessageHandler with
        | none => (r, .returned)
        | some h =>
          match h m with
          | .ok _ => (r, .returned)
          | .error e => ({ r with asyncMessageMutex := true }, .threw e) := by
  unfold processAsynchronousMessage processAsynchronousMessageWith
  split
  · rfl
  · cases r.asyncMessageHandler with
    | none => rfl
    | some h => cases hcall : h m <;> simp [hcall]

def AsyncThrows (r : Registry) (m : DpaMessage) : Prop :=
  ∃ h e, r.asyncMessageHandler = some h ∧ h m = .error e

/-! ## What a call makes of the registries -/

section Calls

variable {r r' : Registry} {serviceId : String} {handler : MessageHandlerFunc}

theorem registerAsync_some (h : r.registerAsyncMessageHandler serviceId handler = some r') :
    r' = { r with asyncMessageHandler := handler } := by
  unfold registerAsyncMessageHandler at h
  split at h
  · cases h
  · exact (Option.some.inj h).symm

theorem unregisterAsync_some (h : r.unregisterAsyncMessageHandler serviceId = some r') :
    r' = { r with asyncMessageHandler := none } := by
  unfold unregisterAsyncMessageHandler at h
  split at h
  · cases h
  · exact (Option.some.inj h).symm

theorem registerAny_some
    (h : (r.registerAnyMessageHandler serviceId handler).map Prod.fst = some r') :
    r' = { r with
      anyMessageHandlerMap := (insert serviceId handler r.anyMessageHandlerMap).1 } := by
  unfold registerAnyMessageHandler at h
  split at h
  · cases h
  · exact (Option.some.inj h).symm

theorem unregisterAny_some (h : r.unregisterAnyMessageHandler serviceId = some r') :
    r' = { r with
      anyMessageHandlerMap := r.anyMessageHandlerMap.filter fun p => p.1 ≠ serviceId } := by
  unfold unregisterAnyMessageHandler at h
  split at h
  · cases h
  · exact (Option.some.inj h).symm

/-- The exception passes over `unlock()`. -/
theorem processAsynchronousMessage_cases (r : Registry) (m : DpaMessage) :
    (r.asyncMessageMutex = true ∧ r.processAsynchronousMessage m = (r, .blocked)) ∨
    (r.asyncMessageMutex = false ∧ ¬ r.AsyncThrows m ∧
      r.processAsynchronousMessage m = (r, .returned)) ∨
    (r.asyncMessageMutex = false ∧ r.AsyncThrows m ∧
      ∃ e, r.processAsynchronousMessage m = ({ r with asyncMessageMutex := true }, .threw e)) := by
  rw [processAsynchronousMessage_eq]
  unfold AsyncThrows
  cases hmutex : r.asyncMessageMutex with
  | true => simp
  | false =>
    cases hslot : r.asyncMessageHandler with
    | none => simp
    | some h =>
      cases hcall : h m with
      | ok _ => simp [hcall]
      | error e => simp [hcall]

theorem processAsynchronousMessage_kept {m : DpaMessage} (h : ¬ r.AsyncThrows m) :
    (r.processAsynchronousMessage m).1 = r := by
  rcases processAsynchronousMessage_cases r m with ⟨_, hrun⟩ | ⟨_, _, hrun⟩ | ⟨_, hthrows, _⟩
  · rw [hrun]
  · rw [hrun]
  · exact absurd hthrows h

end Calls

end Registry

/-! ## `ResponseMessageHandler` -/

section With

variable {M : Type → Type} [Monad M] (call : Delivery → M (Except Exc Unit))

/-- `m_pendingTransaction->processReceivedMessage( message )` within its `try`. -/
def toPendingTransactionWith (uninit : Int) (pending : Option Execution.State)
    (message : List UInt8) : M (Option Execution.State × Outcome) := do
  match pending with
  | none => return (none, .nullPointer)
  | some x =>
    match DpaMessage.ofString uninit message with
    | .error e => return (some x, if e.isLogicError then .returned else .threw e)
    | .ok m =>
      if x.pc = .spinning then return (some x, .blocked)
      else
        match ← call (.transaction m) with
        | .ok _ => return (some (Execution.received x m), .returned)
        | .error e =>
          return (some (Execution.received x m), if e.isLogicError then .returned else .threw e)

/-- `processAsynchronousMessage( message )`, with the conversion of the string. -/
def toAsyncHandlerWith (uninit : Int) (r : Registry) (message : List UInt8) :
    M (Registry × Outcome) :=
  match DpaMessage.ofString uninit message with
  | .error e => return (r, .threw e)
  | .ok m => r.processAsynchronousMessageWith call m

def responseMessageHandlerWith (uninit : Int) (r : Registry) (pending : Option Execution.State)
    (message : List UInt8) : M ((Registry × Option Execution.State) × Outcome) := do
  if message.length = 0 then return ((r, pending), .returned)
  else
    match DpaMessage.empty.fillFromResponse (some message) (DpaMessage.castLength message) with
    | .error _ => return ((r, pending), .returned)
    | .ok receivedMessage =>
      match ← r.processAnyMessageWith call receivedMessage with
      | .returned =>
        if receivedMessage.messageDirection = .request then
          let p ← toAsyncHandlerWith call uninit r message
          return ((p.1, pending), p.2)
        else if receivedMessage.messageDirection = .response ∧
            receivedMessage.responseCodeField &&& statusAsyncResponse ≠ 0 then
          let p ← toAsyncHandlerWith call uninit r message
          return ((p.1, pending), p.2)
        else
          let p ← toPendingTransactionWith call uninit pending message
          return ((r, p.1), p.2)
      | o => return ((r, pending), o)

end With

def responseMessageHandler (uninit : Int) (r : Registry) (pending : Option Execution.State)
    (message : List UInt8) : (Registry × Option Execution.State) × Outcome :=
  Id.run (responseMessageHandlerWith (fun d => pure (d.run pending)) uninit r pending message)

/-! ## Where a frame goes -/

/-- A request, or a response with the asynchronous bit: not for the transaction. -/
def isAsynchronous (m : DpaMessage) : Bool :=
  m.messageDirection = .request ||
    (m.messageDirection = .response && m.responseCodeField &&& statusAsyncResponse ≠ 0)

/-- The two tests of `ResponseMessageHandler` send to the same place. -/
theorem ite_isAsynchronous {α : Type*} (m : DpaMessage) (a b : α) :
    (if m.messageDirection = .request then a
      else if m.messageDirection = .response ∧ m.responseCodeField &&& statusAsyncResponse ≠ 0
        then a else b) = if isAsynchronous m = true then a else b := by
  by_cases hreq : m.messageDirection = .request
  · rw [if_pos hreq, if_pos (by simp [isAsynchronous, hreq])]
  · rw [if_neg hreq]
    by_cases hres : m.messageDirection = .response ∧
        m.responseCodeField &&& statusAsyncResponse ≠ 0
    · rw [if_pos hres, if_pos (by simp [isAsynchronous, hres])]
    · rw [if_neg hres, if_neg (by simpa [isAsynchronous, hreq] using hres)]

theorem fillFromResponse_frame {w : List UInt8} {f : Frame} (hf : Frame.ofString w = some f) :
    DpaMessage.empty.fillFromResponse (some w) (DpaMessage.castLength w) = .ok f.message := by
  rcases fillFromResponse_cases w with ⟨f', h, hok⟩ | ⟨h, _⟩
  · rw [hf] at h
    cases h
    exact hok
  · rw [hf] at h
    cases h

/-- `processReceivedMessage` throws nothing but `std::logic_error`. -/
theorem processReceivedMessage_caught (tr : DpaTransaction2) (m : DpaMessage) :
    (match (tr.processReceivedMessage m).2 with
      | .ok _ => Outcome.returned
      | .error e => if e.isLogicError then .returned else .threw e) = .returned := by
  have hlogic : ∀ e, (tr.processReceivedMessage m).2 = .error e → e.isLogicError = true := by
    intro e he
    unfold processReceivedMessage at he
    split at he
    · cases he
    · split at he
      · rename_i e' hc
        cases he
        unfold checkReceived at hc
        repeat' split at hc
        all_goals cases hc
        all_goals rfl
      · cases he
      · cases he
  split
  · rfl
  · rename_i e he
    rw [if_pos (hlogic e he)]

section Frames

variable {w : List UInt8} {f : Frame}

theorem responseMessageHandlerWith_none {M : Type → Type} [Monad M]
    (call : Delivery → M (Except Exc Unit)) (hf : Frame.ofString w = none) (uninit : Int)
    (r : Registry) (pending : Option Execution.State) :
    responseMessageHandlerWith call uninit r pending w = pure ((r, pending), .returned) := by
  unfold responseMessageHandlerWith
  split
  · rfl
  · rcases fillFromResponse_cases w with ⟨f, h, _⟩ | ⟨_, e, h⟩
    · rw [hf] at h
      cases h
    · rw [h]

/-- The calls with a frame: the any-message handlers, then one place. -/
theorem responseMessageHandlerWith_of_frame {M : Type → Type} [Monad M]
    (call : Delivery → M (Except Exc Unit)) (hf : Frame.ofString w = some f) (uninit : Int)
    (r : Registry) (pending : Option Execution.State) :
    responseMessageHandlerWith call uninit r pending w = do
      match ← r.processAnyMessageWith call f.message with
      | .returned =>
        if isAsynchronous f.message = true then
          let p ← r.processAsynchronousMessageWith call f.message
          return ((p.1, pending), p.2)
        else
          let p ← toPendingTransactionWith call uninit pending w
          return ((r, p.1), p.2)
      | o => return ((r, pending), o) := by
  have hlen : w.length ≠ 0 := by
    have := Frame.ofString_length hf
    omega
  have hasync : toAsyncHandlerWith call uninit r w =
      r.processAsynchronousMessageWith call f.message := by
    rw [toAsyncHandlerWith, ofString_frame uninit hf]
  unfold responseMessageHandlerWith
  rw [if_neg hlen, fillFromResponse_frame hf]
  simp only [hasync, ite_isAsynchronous]

theorem responseMessageHandler_none (hf : Frame.ofString w = none) (uninit : Int)
    (r : Registry) (pending : Option Execution.State) :
    responseMessageHandler uninit r pending w = ((r, pending), .returned) := by
  rw [responseMessageHandler, responseMessageHandlerWith_none _ hf]
  rfl

theorem toPendingTransaction_run (hf : Frame.ofString w = some f) (uninit : Int)
    (pending : Option Execution.State) :
    Id.run (toPendingTransactionWith (fun d => pure (d.run pending)) uninit pending w) =
      match pending with
      | none => (none, .nullPointer)
      | some x =>
        if x.pc = .spinning then (some x, .blocked)
        else (some (Execution.received x f.message), .returned) := by
  cases pending with
  | none => rfl
  | some x =>
    simp only [toPendingTransactionWith, ofString_frame uninit hf]
    split
    · rfl
    · have hcaught := processReceivedMessage_caught x.tr f.message
      cases h : (x.tr.processReceivedMessage f.message).2 with
      | ok _ => simp [h]
      | error e =>
        rw [h] at hcaught
        simp [h, hcaught]

theorem responseMessageHandler_of_frame (hf : Frame.ofString w = some f) (uninit : Int)
    (r : Registry) (pending : Option Execution.State) :
    responseMessageHandler uninit r pending w =
      match r.processAnyMessage f.message with
      | .returned =>
        if isAsynchronous f.message = true then
          (((r.processAsynchronousMessage f.message).1, pending),
            (r.processAsynchronousMessage f.message).2)
        else
          match pending with
          | none => ((r, none), .nullPointer)
          | some x =>
            if x.pc = .spinning then ((r, some x), .blocked)
            else ((r, some (Execution.received x f.message)), .returned)
      | o => ((r, pending), o) := by
  have hany := r.processAnyMessageWith_run pending f.message
  have hasync := r.processAsynchronousMessageWith_run pending f.message
  have hpending := toPendingTransaction_run hf uninit pending
  rw [responseMessageHandler, responseMessageHandlerWith_of_frame _ hf]
  simp only [Id.run_bind, hany]
  split
  · split
    · simp only [Id.run_bind, hasync, Id.run_pure]
    · simp only [Id.run_bind, hpending, Id.run_pure]
      cases pending with
      | none => rfl
      | some x => by_cases hx : x.pc = .spinning <;> simp [hx]
  · rfl

end Frames

/-- `processAnyMessage` changes no registry, and neither does the transaction. -/
theorem responseMessageHandler_registry (uninit : Int) (r : Registry)
    (pending : Option Execution.State) (message : List UInt8) :
    (responseMessageHandler uninit r pending message).1.1 = r ∨
      ∃ f, Frame.ofString message = some f ∧ isAsynchronous f.message = true ∧
        r.processAnyMessage f.message = .returned ∧
        responseMessageHandler uninit r pending message =
          (((r.processAsynchronousMessage f.message).1, pending),
            (r.processAsynchronousMessage f.message).2) := by
  cases hf : Frame.ofString message with
  | none => exact .inl (by rw [responseMessageHandler_none hf])
  | some f =>
    rw [responseMessageHandler_of_frame hf]
    cases hany : r.processAnyMessage f.message with
    | returned =>
      cases hasync : isAsynchronous f.message with
      | true => exact .inr ⟨f, rfl, hasync, hany, by simp⟩
      | false =>
        left
        cases pending with
        | none => simp
        | some x => by_cases hx : x.pc = .spinning <;> simp [hx]
    | _ => exact .inl rfl

end ClibDpa
