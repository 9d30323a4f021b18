import ClibDpa.Dispatch
import ClibDpa.TaskQueue

/-!
# ClibDpa.Handler

`DpaHandler2::Imp` with all its threads, as one machine: any number of callers of
`executeDpaTransaction`, the worker of the task queue with the functor it runs, the receive thread
in `ResponseMessageHandler`, and callers of `abort()`, of the setters, of the registries and of
the destructor. The task queue is the machine of `TaskQueue`, every transaction is one of
`Execution`; a transaction is named by the order in which it was constructed.

The functor's own call of `size()` is one critical section. `m_sender` of a queued transaction is
the lambda that calls `sendRequest`; an empty request has none and is not queued.

`sent` (the calls of `sendTo` that `m_sender` makes), and in each transaction the request as its
caller passed it, the object as constructed and the number of tasks ahead of it, are history.
-/

namespace ClibDpa
namespace Handler

def queueMaxLen : Nat := 16

structure Submission where
  request : DpaMessage
  created : DpaTransaction2
  exec : Execution.State
  ahead : Nat

/-- Where a caller is in `executeDpaTransaction` or in the destructor, outside the queue. -/
inductive CallerPc where
  | ready
  | constructed (i : Nat)
  | aborting (i : Nat)
  | stopping
  | deleting
  | deleted
  deriving DecidableEq, Repr

/-- The functor of the queue; `n` is its local `size`. -/
inductive FunctorPc where
  | idle
  | assign (i : Nat)
  | size (i : Nat)
  | branch (i n : Nat)
  | executing (i : Nat)
  | done
  deriving DecidableEq, Repr

/-- The receive thread; `idle` keeps how the last call of `ResponseMessageHandler` ended. -/
inductive ReceiverPc where
  | idle (last : Outcome)
  | async (f : Frame)
  | lookup (f : Frame)
  | process (i : Nat) (f : Frame)
  | crashed

structure State where
  rfMode : RfMode
  timingParams : TimingParams
  defaultTimeout : Int32
  registry : Registry
  pendingTransaction : Option Nat
  queue : TaskQueue.State Nat
  tx : Nat → Option Submission
  count : Nat
  caller : Nat → CallerPc
  functor : FunctorPc
  receiver : ReceiverPc
  sent : List (Nat × List UInt8)

inductive Event where
  | executeDpaTransaction (t : Nat) (request : DpaMessage) (timeout : Int32)
      (defaultError : ErrorCode)
  | getDpaQueueLen (t : Nat)
  | destruct (t : Nat)
  | caller (t : Nat)
  | client (t : Nat)
  | worker
  | spurious
  | functor (sendTo : List UInt8 → Except Exc Unit)
  | execution (e : Execution.Event)
  | deliver (message : List UInt8)
  | receiver
  | abort (i : Nat)
  | setTimeout (timeout : Int32)
  | setRfCommunicationMode (rfMode : RfMode)
  | setTimingParams (params : TimingParams)
  | registerAsyncMessageHandler (serviceId : String) (handler : MessageHandlerFunc)
  | unregisterAsyncMessageHandler (serviceId : String)
  | registerAnyMessageHandler (serviceId : String) (handler : MessageHandlerFunc)
  | unregisterAnyMessageHandler (serviceId : String)

def init : State :=
  { rfMode := .std
    timingParams := ⟨"4.02D"⟩
    defaultTimeout := defaultTimeoutMs
    registry := .init
    pendingTransaction := none
    queue := TaskQueue.init
    tx := fun _ => none
    count := 0
    caller := fun _ => .ready
    functor := .idle
    receiver := .idle .returned
    sent := [] }

/-! ## The parts of a step -/

def setTx (s : State) (i : Nat) (o : Submission) : State :=
  { s with tx := Function.update s.tx i (some o) }

def setCaller (s : State) (t : Nat) (pc : CallerPc) : State :=
  { s with caller := Function.update s.caller t pc }

/-- One step of transaction `i`. -/
def actOn (s : State) (i : Nat) (e : Execution.Event) : Option State :=
  match s.tx i with
  | none => none
  | some o =>
    match Execution.step o.exec e with
    | none => none
    | some x => some (setTx s i { o with exec := x })

/-- One step of the queue. -/
def onQueue (s : State) (e : TaskQueue.Event Nat) : Option State :=
  match TaskQueue.step s.queue e with
  | none => none
  | some q => some { s with queue := q }

/-- The thread is in none of the queue's methods. -/
def outside (s : State) (t : Nat) : Bool :=
  match s.queue.client t with
  | .returned _ => true
  | _ => false

/-- `sendRequest`, over what `sendTo` does besides coming back: an exception of the channel is
traced and dropped. -/
def sendRequest {m : Type → Type} [Monad m] (sendTo : List UInt8 → m (Except Exc Unit))
    (request : DpaMessage) : m (Except Exc Unit) := do
  match ← sendTo request.bytes with
  | .ok _ => return .ok ()
  | .error _ => return .ok ()

/-- How `m_sender` comes back. -/
def sendOutcome (sendTo : List UInt8 → Except Exc Unit) (request : DpaMessage) : Except Exc Unit :=
  Id.run (sendRequest (fun message => pure (sendTo message)) request)

/-- The object that `executeDpaTransaction` makes. -/
def construct (s : State) (request : DpaMessage) (timeout : Int32) (defaultError : ErrorCode) :
    Submission :=
  let tr := DpaTransaction2.create request s.rfMode s.timingParams s.defaultTimeout timeout
    defaultError
  ⟨request, tr, Execution.init tr, 0⟩

/-- `executeDpaTransaction` up to `pushToQueue`; an empty request returns at once. -/
def submit (s : State) (t : Nat) (request : DpaMessage) (timeout : Int32)
    (defaultError : ErrorCode) : State :=
  let s' := { setTx s s.count (construct s request timeout defaultError) with
    count := s.count + 1 }
  if request.getLength ≤ 0 then s' else setCaller s' t (.constructed s.count)

/-- The caller's next step between the calls of the queue. -/
def callerStep (s : State) (t : Nat) : Option State :=
  match s.caller t with
  | .ready => none
  | .constructed i => onQueue (setCaller s t .ready) (.call t (.pushToQueue i))
  | .aborting i => actOn (setCaller s t .stopping) i .abort
  | .stopping => onQueue (setCaller s t .deleting) (.call t .stopQueue)
  | .deleting => onQueue (setCaller s t .deleted) (.call t .destroy)
  | .deleted => none

/-- `~Imp()` reads `m_pendingTransaction`. -/
def destruct (s : State) (t : Nat) : State :=
  match s.pendingTransaction with
  | none => setCaller s t .stopping
  | some i => setCaller s t (.aborting i)

/-- History: a push notes how many tasks are ahead of it. -/
def noteAhead (s : State) (t : Nat) : State :=
  match s.queue.client t with
  | .entered (.pushToQueue i) =>
    match s.tx i with
    | none => s
    | some o => setTx s i { o with ahead := s.queue.queue.length }
  | _ => s

/-- The worker's own code; while it is in the functor, the functor moves. -/
def workerStep (s : State) : Option State :=
  match s.queue.pc, s.functor with
  | .process i, _ => onQueue { s with functor := .assign i } .worker
  | .busy _, .done => onQueue { s with functor := .idle } .worker
  | .busy _, _ => none
  | _, _ => onQueue s .worker

/-- The code that the functor passes to `execute`. -/
def executeCode (o : Submission) (n : Nat) : ErrorCode :=
  if n < queueMaxLen then o.exec.tr.defaultError else trnErrorIfaceQueueFull

/-- The functor's call of `execute`: the transaction at its first wait, and the calls of `sendTo`
that `m_sender` has made. -/
def execute (o : Submission) (n : Nat) (sendTo : List UInt8 → Except Exc Unit) :
    Execution.State × List (List UInt8) :=
  Id.run ((Execution.enterWith o.exec (executeCode o n)
    (sendRequest (Log.noting fun message => (pure (sendTo message) : Id _)))).run [])

def channelUp : List UInt8 → Except Exc Unit := fun _ => .ok ()

def channelDown : List UInt8 → Except Exc Unit := fun _ => .error (.other "not connected")

/-- The calls of `sendTo` that it makes, with their transaction. -/
def sends (o : Submission) (n i : Nat) : List (Nat × List UInt8) :=
  (execute o n channelUp).2.map fun message => (i, message)

def functorStep (s : State) (sendTo : List UInt8 → Except Exc Unit) : Option State :=
  match s.functor with
  | .idle => none
  | .assign i => some { s with pendingTransaction := some i, functor := .size i }
  | .size i =>
    if s.queue.mutex = none then some { s with functor := .branch i s.queue.queue.length }
    else none
  | .branch i n =>
    match s.tx i with
    | none => none
    | some o =>
      if o.exec.pc = .idle then
        let (x, calls) := execute o n sendTo
        some { setTx s i { o with exec := x } with
          functor := .executing i
          sent := s.sent ++ calls.map fun message => (i, message) }
      else none
  | .executing i =>
    match s.tx i with
    | none => none
    | some o => if o.exec.pc = .returned then some { s with functor := .done } else none
  | .done => none

/-- The worker's events inside `execute()`. -/
def executionStep (s : State) (e : Execution.Event) : Option State :=
  match s.functor, e with
  | .executing i, .timeout | .executing i, .wake | .executing i, .resume => actOn s i e
  | _, _ => none

/-- `ResponseMessageHandler` up to the choice of the destination. -/
def deliver (s : State) (message : List UInt8) : Option State :=
  match s.receiver with
  | .idle _ =>
    match Frame.ofString message with
    | none => some { s with receiver := .idle .returned }
    | some f =>
      match s.registry.processAnyMessage f.message with
      | .blocked => none
      | .returned =>
        some { s with receiver := if isAsynchronous f.message then .async f else .lookup f }
      | o => some { s with receiver := .idle o }
  | _ => none

def receiverStep (s : State) : Option State :=
  match s.receiver with
  | .idle _ => none
  | .async f =>
    match s.registry.processAsynchronousMessage f.message with
    | (_, .blocked) => none
    | (r, o) => some { s with registry := r, receiver := .idle o }
  | .lookup f =>
    match s.pendingTransaction with
    | none => some { s with receiver := .crashed }
    | some i => some { s with receiver := .process i f }
  | .process i f => actOn { s with receiver := .idle .returned } i (.receive f)
  | .crashed => none

def setRegistry (s : State) (r : Option Registry) : Option State :=
  match r with
  | none => none
  | some r => some { s with registry := r }

def step (s : State) : Event → Option State
  | .executeDpaTransaction t request timeout defaultError =>
    if s.caller t = .ready ∧ outside s t = true then
      some (submit s t request timeout defaultError)
    else none
  | .getDpaQueueLen t => if s.caller t = .ready then onQueue s (.call t .size) else none
  | .destruct t => if s.caller t = .ready ∧ outside s t = true then some (destruct s t) else none
  | .caller t => callerStep s t
  | .client t => onQueue (noteAhead s t) (.client t)
  | .worker => workerStep s
  | .spurious => onQueue s .spurious
  | .functor sendTo => functorStep s sendTo
  | .execution e => executionStep s e
  | .deliver message => deliver s message
  | .receiver => receiverStep s
  | .abort i => actOn s i .abort
  | .setTimeout timeout =>
    some { s with defaultTimeout := if timeout < minimalTimeout then minimalTimeout else timeout }
  | .setRfCommunicationMode rfMode => some { s with rfMode := rfMode }
  | .setTimingParams params => some { s with timingParams := params }
  | .registerAsyncMessageHandler serviceId handler =>
    setRegistry s (s.registry.registerAsyncMessageHandler serviceId handler)
  | .unregisterAsyncMessageHandler serviceId =>
    setRegistry s (s.registry.unregisterAsyncMessageHandler serviceId)
  | .registerAnyMessageHandler serviceId handler =>
    setRegistry s ((s.registry.registerAnyMessageHandler serviceId handler).map Prod.fst)
  | .unregisterAnyMessageHandler serviceId =>
    setRegistry s (s.registry.unregisterAnyMessageHandler serviceId)

/-! ## Runs with an LED pulse -/

def submitLedPulse (t : Nat) : List Event :=
  [.executeDpaTransaction t ledPulse.message (-1) trnOk, .caller t, .client t, .client t,
    .client t]

/-- The worker from its start to the functor. -/
def dequeue : List Event := List.replicate 8 .worker

/-- The functor up to the first wait of `execute()`. -/
def executes (sendTo : List UInt8 → Except Exc Unit) : List Event :=
  List.replicate 3 (.functor sendTo)

end Handler
end ClibDpa
