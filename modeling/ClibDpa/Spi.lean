import ClibDpa.Channel
import ClibDpa.TaskQueue

/-!
# ClibDpa.Spi

`IqrfSpiChannel::Imp` with all its threads, as one machine: any number of callers of `sendTo` and
`getState`, the listening thread, the worker of `m_receiveMessageQueue` with its lambda, whoever
registers a handler, and the destructor. The queue is the machine of `TaskQueue`; the listening
thread is its only client.

Each call of the driver is a step of its own. What the driver answers, what the registered handler
does, and whether the Information level is traced when `sendTo` is called, is data of the event; a
`read` that succeeds fills what it was asked for, one that fails fills any part of it. The waits on
`m_commCondition` have a time-out and no predicate, so a waiting thread may go on at any time, and
`notify_one` changes nothing.

`log` (the driver's calls under `m_commMutex`), `sent` (each thread's finished calls of `sendTo`),
`handled` (what the lambda did with each frame) and `dangling` are history.

* `Effect` / `step_effect` — everything a step can do.
-/

namespace ClibDpa
namespace IqrfSpiChannel
namespace Imp

def bufsize : Nat := 1024

/-- `spi_iqrf_SPIStatus`; after a call that fails, whatever was there. -/
structure SPIStatus where
  isDataReady : Bool
  dataNotReadyStatus : DataNotReadyStatus
  dataReady : Nat
  deriving DecidableEq, Repr

/-- A function that takes `m_commMutex`, with its thread. -/
inductive Caller where
  | listen
  | sendTo (t : Nat)
  | getState (t : Nat)
  deriving DecidableEq, Repr

/-- A call of the driver with its answer. -/
inductive Access where
  | getSPIStatus (retval : Retval) (status : SPIStatus)
  | read (len : Nat) (retval : Retval) (data : List UInt8)
  | write (message : List UInt8) (retval : Retval)
  deriving DecidableEq, Repr

/-- What the driver would answer to the call of a step. -/
structure Answer where
  retval : Retval
  status : SPIStatus
  data : List UInt8

inductive ListenPc where
  | loop
  | lock
  | wait
  | waiting
  | getSPIStatus
  | read (len : Nat)
  | unlock (recData : Nat)
  | push (recData : Nat)
  | pushing
  | stopped
  deriving DecidableEq, Repr

/-- The locals of a call of `sendTo`; `met`, what the attempts have met, is history. -/
structure Sending where
  message : List UInt8
  attempt : Nat
  met : List Outcome

/-- `returned` keeps what the last `getState` returned; `dumping` is a first trace of `sendTo` that
does not end. -/
inductive ClientPc where
  | returned (state : Option Bool)
  | dumping
  | loop (d : Sending)
  | getSPIStatus (d : Sending)
  | write (d : Sending) (status : SPIStatus)
  | conflict (d : Sending) (status : SPIStatus)
  | waiting (d : Sending)
  | unlock (d : Sending) (breaks : Bool)
  | lock
  | first
  | second (status1 : SPIStatus)
  | leave (ready : Bool)

/-- The lambda of the queue. -/
inductive LambdaPc where
  | idle
  | test (msg : List UInt8)
  | call (msg : List UInt8)
  | done
  | terminated
  deriving DecidableEq, Repr

inductive DestructorPc where
  | alive
  | joining
  | destroying
  | freed
  deriving DecidableEq, Repr

structure State where
  receiveFromFunc : Bool
  runListenThread : Bool
  rx : List UInt8
  commMutex : Option Caller
  receiveMessageQueue : TaskQueue.State (List UInt8)
  listen : ListenPc
  client : Nat → ClientPc
  lambda : LambdaPc
  destructor : DestructorPc
  log : List (Caller × Access)
  sent : Nat → List (List UInt8 × List Outcome)
  handled : List (List UInt8 × Bool)
  dangling : Bool

/-- `receiveFrom` says how the registered handler returns. -/
inductive Event where
  | registerReceiveFromHandler (receiveFromFunc : Bool)
  | unregisterReceiveFromHandler
  | sendTo (t : Nat) (message : List UInt8) (tracerIsValid : Bool)
  | getState (t : Nat)
  | client (t : Nat) (a : Answer)
  | listen (a : Answer)
  | worker
  | spurious
  | receiveFrom (result : Except Exc Unit)
  | destructor

/-- The constructor, when the driver has been initialized. -/
def init : State :=
  { receiveFromFunc := false
    runListenThread := true
    rx := List.replicate bufsize 0
    commMutex := none
    receiveMessageQueue := TaskQueue.init
    listen := .loop
    client := fun _ => .returned none
    lambda := .idle
    destructor := .alive
    log := []
    sent := fun _ => []
    handled := []
    dangling := false }

/-! ## The callers -/

def setClient (s : State) (t : Nat) (pc : ClientPc) : State :=
  { s with client := Function.update s.client t pc }

/-- A thread calls the driver. -/
def access (s : State) (who : Caller) (a : Access) : State := { s with log := s.log ++ [(who, a)] }

/-- `sendTo` up to its loop: the trace of an empty message does not end (`trcInformation_iff`). -/
def enterSendTo (message : List UInt8) (tracerIsValid : Bool) : ClientPc :=
  if tracerIsValid && message.isEmpty then .dumping else .loop ⟨message, 0, []⟩

theorem enterSendTo_of_ne {message : List UInt8} (hne : message ≠ []) (tracerIsValid : Bool) :
    enterSendTo message tracerIsValid = .loop ⟨message, 0, []⟩ := by
  simp [enterSendTo, hne]

/-- The outcome of an attempt is known. -/
def Sending.meets (d : Sending) (o : Outcome) : Sending := { d with met := d.met ++ [o] }

/-- `sendTo` returns. -/
def finish (s : State) (t : Nat) (d : Sending) : State :=
  { setClient s t (.returned none) with
    sent := Function.update s.sent t (s.sent t ++ [(d.message, d.met)]) }

/-- The answer of `getState` to its two readings; only the second result code counts. -/
def ready (retval : Retval) (status1 status2 : SPIStatus) : Bool :=
  retval = .operOk && status1.dataNotReadyStatus = .readyComm &&
    status2.dataNotReadyStatus = .readyComm

def clientStep (s : State) (t : Nat) (a : Answer) : Option State :=
  match s.client t with
  | .returned _ | .dumping => none
  | .loop d =>
    if d.attempt < maxAttempts then
      if s.commMutex = none then
        some { setClient s t (.getSPIStatus { d with attempt := d.attempt + 1 }) with
          commMutex := some (.sendTo t) }
      else none
    else some (finish s t d)
  | .getSPIStatus d =>
    let s' := access s (.sendTo t) (.getSPIStatus a.retval a.status)
    if a.retval = .operOk ∧ a.status.dataNotReadyStatus = .readyComm then
      some (setClient s' t (.write d a.status))
    else
      let o : Outcome := ⟨a.retval, a.status.dataNotReadyStatus, .operOk⟩
      some (setClient s' t (.conflict (d.meets o) a.status))
  | .write d status =>
    let s' := access s (.sendTo t) (.write d.message a.retval)
    let d' := d.meets ⟨.operOk, .readyComm, a.retval⟩
    some (setClient s' t (if a.retval = .operOk then .unlock d' true else .conflict d' status))
  | .conflict d status =>
    if status.isDataReady then some { setClient s t (.waiting d) with commMutex := none }
    else some (setClient s t (.unlock d false))
  | .waiting d =>
    if s.commMutex = none then
      some { setClient s t (.unlock d false) with commMutex := some (.sendTo t) }
    else none
  | .unlock d breaks =>
    let s' := { s with commMutex := none }
    some (if breaks then finish s' t d else setClient s' t (.loop d))
  | .lock =>
    if s.commMutex = none then
      some { setClient s t .first with commMutex := some (.getState t) }
    else none
  | .first =>
    some (setClient (access s (.getState t) (.getSPIStatus a.retval a.status)) t
      (.second a.status))
  | .second status1 =>
    some (setClient (access s (.getState t) (.getSPIStatus a.retval a.status)) t
      (.leave (ready a.retval status1 a.status)))
  | .leave r =>
    some { setClient s t (.returned (some r)) with commMutex := none }

/-! ## The listening thread -/

/-- One step of the queue. -/
def onQueue (s : State) (e : TaskQueue.Event (List UInt8)) : Option State :=
  match TaskQueue.step s.receiveMessageQueue e with
  | none => none
  | some q => some { s with receiveMessageQueue := q }

/-- What the driver may have put into the buffer. -/
def Answer.fills (a : Answer) (len : Nat) : Bool :=
  if a.retval = .operOk then a.data.length = len else a.data.length ≤ len

def listenStep (s : State) (a : Answer) : Option State :=
  match s.listen with
  | .loop => some { s with listen := if s.runListenThread then .lock else .stopped }
  | .lock =>
    if s.commMutex = none then some { s with commMutex := some .listen, listen := .wait } else none
  | .wait => some { s with commMutex := none, listen := .waiting }
  | .waiting =>
    if s.commMutex = none then some { s with commMutex := some .listen, listen := .getSPIStatus }
    else none
  | .getSPIStatus =>
    let reads := a.retval = .operOk ∧ a.status.isDataReady = true ∧ a.status.dataReady ≤ bufsize
    some { access s .listen (.getSPIStatus a.retval a.status) with
      listen := if reads then .read a.status.dataReady else .unlock 0 }
  | .read len =>
    if a.fills len then
      some { access s .listen (.read len a.retval a.data) with
        rx := a.data ++ s.rx.drop a.data.length
        listen := .unlock (if a.retval = .operOk then len else 0) }
    else none
  | .unlock recData => some { s with commMutex := none, listen := .push recData }
  | .push recData =>
    if recData = 0 then some { s with listen := .loop }
    else onQueue { s with listen := .pushing } (.call 0 (.pushToQueue (s.rx.take recData)))
  | .pushing =>
    match s.receiveMessageQueue.client 0 with
    | .returned _ => some { s with listen := .loop }
    | _ => onQueue s (.client 0)
  | .stopped => none

/-! ## The worker of the queue -/

/-- The worker's own code; while it is in the lambda, the lambda moves. -/
def workerStep (s : State) : Option State :=
  match s.receiveMessageQueue.pc, s.lambda with
  | .process msg, _ => onQueue { s with lambda := .test msg } .worker
  | .busy _, .done => onQueue { s with lambda := .idle } .worker
  | .busy _, _ => none
  | _, _ => onQueue s .worker

/-- The lambda captures `this`. A call of an empty function throws, and what leaves the lambda
ends the process. -/
def lambdaStep (s : State) (result : Except Exc Unit) : Option State :=
  let s' : State := { s with dangling := s.dangling || decide (s.destructor = .freed) }
  match s.lambda with
  | .idle | .done | .terminated => none
  | .test msg =>
    some (if s.receiveFromFunc then { s' with lambda := .call msg }
      else { s' with lambda := .done, handled := s.handled ++ [(msg, false)] })
  | .call msg =>
    some (if s.receiveFromFunc then
        { s' with
          lambda := match result with
            | .ok _ => .done
            | .error _ => .terminated
          handled := s.handled ++ [(msg, true)] }
      else { s' with lambda := .terminated, handled := s.handled ++ [(msg, false)] })

def destructorStep (s : State) : Option State :=
  match s.destructor with
  | .alive => some { s with runListenThread := false, destructor := .joining }
  | .joining => if s.listen = .stopped then some { s with destructor := .destroying } else none
  | .destroying => some { s with destructor := .freed }
  | .freed => none

def step (s : State) : Event → Option State
  | .registerReceiveFromHandler receiveFromFunc =>
    some { s with receiveFromFunc := receiveFromFunc }
  | .unregisterReceiveFromHandler => some { s with receiveFromFunc := false }
  | .sendTo t message tracerIsValid =>
    match s.client t with
    | .returned _ => some (setClient s t (enterSendTo message tracerIsValid))
    | _ => none
  | .getState t =>
    match s.client t with
    | .returned _ => some (setClient s t .lock)
    | _ => none
  | .client t a => clientStep s t a
  | .listen a => listenStep s a
  | .worker => workerStep s
  | .spurious => onQueue s .spurious
  | .receiveFrom result => lambdaStep s result
  | .destructor => destructorStep s

/-! ## A conflict -/

/-- Three bytes are ready. -/
def threeBytes : Answer := ⟨.operOk, ⟨true, .other 0, 3⟩, [0x0a, 0x0b, 0x0c]⟩

/-- The module is ready for a message. -/
def readyForMessage : Answer := ⟨.operOk, ⟨false, .readyComm, 0⟩, []⟩

/-- From its loop the listening thread reads a frame, pushes it and is back. -/
def readsFrame : List Event := List.replicate 12 (.listen threeBytes)

/-- A send meets incoming data, lets the listening thread read and tries again. -/
def sendsInConflict (message : List UInt8) : List Event :=
  List.replicate 3 (.listen threeBytes) ++ [.sendTo 1 message true] ++
    List.replicate 3 (.client 1 threeBytes) ++ List.replicate 4 (.listen threeBytes) ++
    List.replicate 6 (.client 1 readyForMessage)

/-- The destructor, with the listening thread in its loop. -/
def destroys : List Event := [.destructor, .listen threeBytes, .destructor, .destructor]

/-! ## What a step does -/

/-- The next position of thread `t` with its calls of the driver, the send that returns, and the
mutex after the step. -/
inductive Move (s : State) (t : Nat) :
    List (Caller × Access) → Option Sending → ClientPc → Option Caller → Prop where
  | sendTo {r : Option Bool} {message : List UInt8} : s.client t = .returned r →
      Move s t [] none (.loop ⟨message, 0, []⟩) s.commMutex
  | dumps {r : Option Bool} : s.client t = .returned r → Move s t [] none .dumping s.commMutex
  | getState {r : Option Bool} : s.client t = .returned r → Move s t [] none .lock s.commMutex
  | attempt {d : Sending} : s.client t = .loop d → d.attempt < maxAttempts → s.commMutex = none →
      Move s t [] none (.getSPIStatus { d with attempt := d.attempt + 1 }) (some (.sendTo t))
  | exhausted {d : Sending} : s.client t = .loop d → ¬ d.attempt < maxAttempts →
      Move s t [] (some d) (.returned none) s.commMutex
  | ready {d : Sending} {status : SPIStatus} : s.client t = .getSPIStatus d →
      status.dataNotReadyStatus = .readyComm →
      Move s t [(.sendTo t, .getSPIStatus .operOk status)] none (.write d status) s.commMutex
  | notReady {d : Sending} {retval : Retval} {status : SPIStatus} : s.client t = .getSPIStatus d →
      ¬ (retval = .operOk ∧ status.dataNotReadyStatus = .readyComm) →
      Move s t [(.sendTo t, .getSPIStatus retval status)] none
        (.conflict (d.meets ⟨retval, status.dataNotReadyStatus, .operOk⟩) status) s.commMutex
  | written {d : Sending} {status : SPIStatus} : s.client t = .write d status →
      Move s t [(.sendTo t, .write d.message .operOk)] none
        (.unlock (d.meets ⟨.operOk, .readyComm, .operOk⟩) true) s.commMutex
  | refused {d : Sending} {status : SPIStatus} {retval : Retval} : s.client t = .write d status →
      retval ≠ .operOk →
      Move s t [(.sendTo t, .write d.message retval)] none
        (.conflict (d.meets ⟨.operOk, .readyComm, retval⟩) status) s.commMutex
  | postpone {d : Sending} {status : SPIStatus} : s.client t = .conflict d status →
      Move s t [] none (.waiting d) none
  | goOn {d : Sending} {status : SPIStatus} : s.client t = .conflict d status →
      Move s t [] none (.unlock d false) s.commMutex
  | waited {d : Sending} : s.client t = .waiting d → s.commMutex = none →
      Move s t [] none (.unlock d false) (some (.sendTo t))
  | again {d : Sending} : s.client t = .unlock d false → Move s t [] none (.loop d) none
  | done {d : Sending} : s.client t = .unlock d true →
      Move s t [] (some d) (.returned none) none
  | lock : s.client t = .lock → s.commMutex = none →
      Move s t [] none .first (some (.getState t))
  | first {retval : Retval} {status : SPIStatus} : s.client t = .first →
      Move s t [(.getState t, .getSPIStatus retval status)] none (.second status) s.commMutex
  | second {status1 : SPIStatus} {retval : Retval} {status : SPIStatus} :
      s.client t = .second status1 →
      Move s t [(.getState t, .getSPIStatus retval status)] none
        (.leave (Imp.ready retval status1 status)) s.commMutex
  | leave {r : Bool} : s.client t = .leave r → Move s t [] none (.returned (some r)) none

/-- The steps of the listening thread that leave its buffer and the queue alone. -/
inductive ListenMove (s : State) : List (Caller × Access) → ListenPc → Option Caller → Prop where
  | loop : s.listen = .loop → ListenMove s [] .lock s.commMutex
  | stop : s.listen = .loop → s.runListenThread = false → ListenMove s [] .stopped s.commMutex
  | lock : s.listen = .lock → s.commMutex = none → ListenMove s [] .wait (some .listen)
  | wait : s.listen = .wait → ListenMove s [] .waiting none
  | waited : s.listen = .waiting → s.commMutex = none →
      ListenMove s [] .getSPIStatus (some .listen)
  | dataReady {status : SPIStatus} : s.listen = .getSPIStatus → status.isDataReady = true →
      status.dataReady ≤ bufsize →
      ListenMove s [(.listen, .getSPIStatus .operOk status)] (.read status.dataReady) s.commMutex
  | notReady {retval : Retval} {status : SPIStatus} : s.listen = .getSPIStatus →
      ListenMove s [(.listen, .getSPIStatus retval status)] (.unlock 0) s.commMutex
  | unlock {recData : Nat} : s.listen = .unlock recData → ListenMove s [] (.push recData) none
  | nothing : s.listen = .push 0 → ListenMove s [] .loop s.commMutex
  | pushed {r : Option Nat} : s.listen = .pushing →
      s.receiveMessageQueue.client 0 = .returned r → ListenMove s [] .loop s.commMutex

/-- The steps of the lambda: its next position and what became of the frame. -/
inductive LambdaMove (s : State) : LambdaPc → List (List UInt8 × Bool) → Prop where
  | registered {msg : List UInt8} : s.lambda = .test msg → s.receiveFromFunc = true →
      LambdaMove s (.call msg) []
  | unregistered {msg : List UInt8} : s.lambda = .test msg → s.receiveFromFunc = false →
      LambdaMove s .done [(msg, false)]
  | returned {msg : List UInt8} : s.lambda = .call msg → s.receiveFromFunc = true →
      LambdaMove s .done [(msg, true)]
  | threw {msg : List UInt8} : s.lambda = .call msg → s.receiveFromFunc = true →
      LambdaMove s .terminated [(msg, true)]
  | badFunctionCall {msg : List UInt8} : s.lambda = .call msg → s.receiveFromFunc = false →
      LambdaMove s .terminated [(msg, false)]

def noteSent (s : State) (t : Nat) : Option Sending → Nat → List (List UInt8 × List Outcome)
  | none => s.sent
  | some d => Function.update s.sent t (s.sent t ++ [(d.message, d.met)])

/-- The thread of a client's event. -/
def Event.thread : Event → Option Nat
  | .sendTo t _ _ | .getState t | .client t _ => some t
  | _ => none

/-- Whether a handler is registered afterwards, for the events that decide about it. -/
def Event.registers : Event → Option Bool
  | .registerReceiveFromHandler receiveFromFunc => some receiveFromFunc
  | .unregisterReceiveFromHandler => some false
  | _ => none

inductive Effect (s : State) : Event → State → Prop where
  | register {e : Event} {b : Bool} : e.registers = some b →
      Effect s e { s with receiveFromFunc := b }
  | client {e : Event} {t : Nat} {l : List (Caller × Access)} {fin : Option Sending}
      {pc : ClientPc} {m : Option Caller} : e.thread = some t → Move s t l fin pc m →
      Effect s e
        { setClient s t pc with
          commMutex := m
          log := s.log ++ l
          sent := noteSent s t fin }
  | listen {a : Answer} {l : List (Caller × Access)} {pc : ListenPc} {m : Option Caller} :
      ListenMove s l pc m →
      Effect s (.listen a) { s with listen := pc, commMutex := m, log := s.log ++ l }
  | read {a : Answer} {len : Nat} : s.listen = .read len → a.fills len = true →
      Effect s (.listen a)
        { access s .listen (.read len a.retval a.data) with
          rx := a.data ++ s.rx.drop a.data.length
          listen := .unlock (if a.retval = .operOk then len else 0) }
  | push {a : Answer} {recData : Nat} {q : TaskQueue.State (List UInt8)} :
      s.listen = .push recData → recData ≠ 0 →
      TaskQueue.callStep s.receiveMessageQueue 0 (.pushToQueue (s.rx.take recData)) = some q →
      Effect s (.listen a) { s with listen := .pushing, receiveMessageQueue := q }
  | pushing {a : Answer} {q : TaskQueue.State (List UInt8)} : s.listen = .pushing →
      TaskQueue.clientStep s.receiveMessageQueue 0 = some q →
      Effect s (.listen a) { s with receiveMessageQueue := q }
  | enter {msg : List UInt8} {q : TaskQueue.State (List UInt8)} :
      s.receiveMessageQueue.pc = .process msg →
      TaskQueue.workerStep s.receiveMessageQueue = some q →
      Effect s .worker { s with lambda := .test msg, receiveMessageQueue := q }
  | leave {msg : List UInt8} {q : TaskQueue.State (List UInt8)} :
      s.receiveMessageQueue.pc = .busy msg → s.lambda = .done →
      TaskQueue.workerStep s.receiveMessageQueue = some q →
      Effect s .worker { s with lambda := .idle, receiveMessageQueue := q }
  | worker {q : TaskQueue.State (List UInt8)} :
      (∀ msg, s.receiveMessageQueue.pc ≠ .process msg) →
      (∀ msg, s.receiveMessageQueue.pc ≠ .busy msg) →
      TaskQueue.workerStep s.receiveMessageQueue = some q →
      Effect s .worker { s with receiveMessageQueue := q }
  | spurious : s.receiveMessageQueue.pc = .asleep →
      Effect s .spurious
        { s with receiveMessageQueue := TaskQueue.wakeUp s.receiveMessageQueue }
  | lambda {result : Except Exc Unit} {pc : LambdaPc} {h : List (List UInt8 × Bool)} :
      LambdaMove s pc h →
      Effect s (.receiveFrom result)
        { s with
          lambda := pc
          handled := s.handled ++ h
          dangling := s.dangling || decide (s.destructor = .freed) }
  | closing : s.destructor = .alive →
      Effect s .destructor { s with runListenThread := false, destructor := .joining }
  | joined : s.destructor = .joining → s.listen = .stopped →
      Effect s .destructor { s with destructor := .destroying }
  | freed : s.destructor = .destroying → Effect s .destructor { s with destructor := .freed }

section Inversion

variable {s s' : State}

theorem onQueue_some {e : TaskQueue.Event (List UInt8)} (h : onQueue s e = some s') :
    ∃ q, TaskQueue.step s.receiveMessageQueue e = some q ∧
      s' = { s with receiveMessageQueue := q } := by
  unfold onQueue at h
  split at h
  · cases h
  · rename_i q hq
    cases h
    exact ⟨q, hq, rfl⟩

/-- A client's move that calls no driver and ends no send. -/
theorem Effect.silent {e : Event} {t : Nat} {pc : ClientPc} {m : Option Caller}
    (ht : e.thread = some t) (h : Move s t [] none pc m) :
    Effect s e { setClient s t pc with commMutex := m } := by
  have := Effect.client ht h
  rwa [List.append_nil] at this

/-- A client's move that calls the driver. -/
theorem Effect.calls {e : Event} {t : Nat} {pc : ClientPc} {x : Caller × Access}
    (ht : e.thread = some t) (h : Move s t [x] none pc s.commMutex) :
    Effect s e (setClient (access s x.1 x.2) t pc) :=
  Effect.client ht h

/-- A client's move that ends a send. -/
theorem Effect.returns {e : Event} {t : Nat} {d : Sending} {m : Option Caller}
    (ht : e.thread = some t) (h : Move s t [] (some d) (.returned none) m) :
    Effect s e (finish { s with commMutex := m } t d) := by
  have := Effect.client ht h
  rwa [List.append_nil] at this

theorem clientStep_effect {t : Nat} {a : Answer} (h : clientStep s t a = some s') :
    Effect s (.client t a) s' := by
  unfold clientStep at h
  cases hc : s.client t with
  | returned r => rw [hc] at h; cases h
  | dumping => rw [hc] at h; cases h
  | loop d =>
    rw [hc] at h
    simp only at h
    split at h
    · split at h
      · cases h
        exact .silent rfl (.attempt hc ‹_› ‹_›)
      · cases h
    · cases h
      exact .returns rfl (.exhausted hc ‹_›)
  | getSPIStatus d =>
    rw [hc] at h
    simp only at h
    split at h
    · rename_i hready
      cases h
      rw [hready.1]
      exact .calls rfl (.ready hc hready.2)
    · cases h
      exact .calls rfl (.notReady hc ‹_›)
  | write d status =>
    rw [hc] at h
    simp only [Option.some.injEq] at h
    split at h
    · rename_i hok
      subst h
      rw [hok]
      exact .calls rfl (.written hc)
    · subst h
      exact .calls rfl (.refused hc ‹_›)
  | conflict d status =>
    rw [hc] at h
    simp only at h
    split at h
    · cases h
      exact .silent rfl (.postpone hc)
    · cases h
      exact .silent rfl (.goOn hc)
  | waiting d =>
    rw [hc] at h
    simp only at h
    split at h
    · cases h
      exact .silent rfl (.waited hc ‹_›)
    · cases h
  | unlock d breaks =>
    rw [hc] at h
    cases breaks with
    | true => cases h; exact .returns rfl (.done hc)
    | false => cases h; exact .silent rfl (.again hc)
  | lock =>
    rw [hc] at h
    simp only at h
    split at h
    · cases h
      exact .silent rfl (.lock hc ‹_›)
    · cases h
  | first =>
    rw [hc] at h
    cases h
    exact .calls rfl (.first hc)
  | second status1 =>
    rw [hc] at h
    cases h
    exact .calls rfl (.second hc)
  | leave r =>
    rw [hc] at h
    cases h
    exact .silent rfl (.leave hc)

theorem Effect.quiet {a : Answer} {pc : ListenPc} {m : Option Caller}
    (h : ListenMove s [] pc m) : Effect s (.listen a) { s with listen := pc, commMutex := m } := by
  have := Effect.listen (a := a) h
  rwa [List.append_nil] at this

theorem listenStep_effect {a : Answer} (h : listenStep s a = some s') :
    Effect s (.listen a) s' := by
  unfold listenStep at h
  cases hl : s.listen with
  | loop =>
    rw [hl] at h
    simp only [Option.some.injEq] at h
    subst h
    split
    · exact .quiet (.loop hl)
    · rename_i hrun
      exact .quiet (.stop hl (Bool.eq_false_iff.mpr hrun))
  | lock =>
    rw [hl] at h
    simp only at h
    split at h
    · cases h
      exact .quiet (.lock hl ‹_›)
    · cases h
  | wait =>
    rw [hl] at h
    cases h
    exact .quiet (.wait hl)
  | waiting =>
    rw [hl] at h
    simp only at h
    split at h
    · cases h
      exact .quiet (.waited hl ‹_›)
    · cases h
  | getSPIStatus =>
    rw [hl] at h
    simp only [Option.some.injEq] at h
    subst h
    split
    · rename_i hready
      rw [hready.1]
      exact .listen (.dataReady hl hready.2.1 hready.2.2)
    · exact .listen (.notReady hl)
  | read len =>
    rw [hl] at h
    simp only at h
    split at h
    · cases h
      exact .read hl ‹_›
    · cases h
  | unlock recData =>
    rw [hl] at h
    cases h
    exact .quiet (.unlock hl)
  | push recData =>
    rw [hl] at h
    simp only at h
    split at h
    · rename_i hzero
      subst hzero
      cases h
      exact .quiet (.nothing hl)
    · obtain ⟨q, hq, rfl⟩ := onQueue_some h
      exact .push hl ‹_› hq
  | pushing =>
    rw [hl] at h
    simp only at h
    split at h
    · rename_i r hr
      cases h
      exact .quiet (.pushed hl hr)
    · obtain ⟨q, hq, rfl⟩ := onQueue_some h
      exact .pushing hl hq
  | stopped => rw [hl] at h; cases h

theorem workerStep_effect (h : workerStep s = some s') : Effect s .worker s' := by
  unfold workerStep at h
  split at h
  · rename_i msg _ hpc
    obtain ⟨q, hq, rfl⟩ := onQueue_some h
    exact .enter hpc hq
  · rename_i msg hpc hdone
    obtain ⟨q, hq, rfl⟩ := onQueue_some h
    exact .leave hpc hdone hq
  · cases h
  · rename_i hproc hbusy _
    obtain ⟨q, hq, rfl⟩ := onQueue_some h
    exact .worker (fun msg hm => hproc msg hm) (fun msg hm => hbusy msg hm) hq

/-- A move of the lambda that leaves the frame with it. -/
theorem Effect.takesUp {result : Except Exc Unit} {pc : LambdaPc} (h : LambdaMove s pc []) :
    Effect s (.receiveFrom result)
      { s with lambda := pc, dangling := s.dangling || decide (s.destructor = .freed) } := by
  have heffect : Effect s (.receiveFrom result) _ := .lambda h
  rwa [List.append_nil] at heffect

theorem lambdaStep_effect {result : Except Exc Unit} (h : lambdaStep s result = some s') :
    Effect s (.receiveFrom result) s' := by
  unfold lambdaStep at h
  cases hl : s.lambda with
  | idle => rw [hl] at h; cases h
  | done => rw [hl] at h; cases h
  | terminated => rw [hl] at h; cases h
  | test msg =>
    rw [hl] at h
    simp only [Option.some.injEq] at h
    subst h
    split
    · exact .takesUp (.registered hl ‹_›)
    · rename_i hno
      exact .lambda (.unregistered hl (Bool.eq_false_iff.mpr hno))
  | call msg =>
    rw [hl] at h
    simp only [Option.some.injEq] at h
    subst h
    split
    · cases result with
      | ok _ => exact .lambda (.returned hl ‹_›)
      | error _ => exact .lambda (.threw hl ‹_›)
    · rename_i hno
      exact .lambda (.badFunctionCall hl (Bool.eq_false_iff.mpr hno))

theorem step_effect {e : Event} (h : step s e = some s') : Effect s e s' := by
  cases e with
  | registerReceiveFromHandler b => cases h; exact .register rfl
  | unregisterReceiveFromHandler => cases h; exact .register rfl
  | sendTo t message tracerIsValid =>
    simp only [step] at h
    split at h
    · cases h
      unfold enterSendTo
      split
      · exact .silent rfl (.dumps ‹_›)
      · exact .silent rfl (.sendTo ‹_›)
    · cases h
  | getState t =>
    simp only [step] at h
    split at h
    · cases h
      exact .silent rfl (.getState ‹_›)
    · cases h
  | client t a => exact clientStep_effect h
  | listen a => exact listenStep_effect h
  | worker => exact workerStep_effect h
  | spurious =>
    simp only [step] at h
    obtain ⟨q, hq, rfl⟩ := onQueue_some h
    simp only [TaskQueue.step] at hq
    split at hq
    · cases hq
      exact .spurious ‹_›
    · cases hq
  | receiveFrom result => exact lambdaStep_effect h
  | destructor =>
    simp only [step, destructorStep] at h
    split at h
    · cases h
      exact .closing ‹_›
    · split at h
      · cases h
        exact .joined ‹_› ‹_›
      · cases h
    · cases h
      exact .freed ‹_›
    · cases h

end Inversion

end Imp
end IqrfSpiChannel
end ClibDpa
