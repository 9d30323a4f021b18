import ClibDpa.Clients
import ClibDpa.SpiReceive

/-!
# ClibDpa.Gateway

`DpaHandler2` over `IqrfSpiChannel`: the machines of `Clients` and of `IqrfSpiChannel.Imp`, joined
where one calls the other.

* `execute()` calls `m_sender`, which is `sendTo` of the channel: many steps, in which the worker
  holds the transaction's mutex (`sending`). Nobody else gets into that transaction meanwhile.
* The lambda of the receive queue calls what the constructor of the handler has registered, which
  is `ResponseMessageHandler`; it returns, or throws, into the lambda (`delivering`).

The worker of the transaction queue is thread 0 among the callers of the channel; others may call
`sendTo` and `getState` too. Nobody else registers with the channel, and it outlives the handler.
A process that was terminated, or that went through a null pointer, takes no more steps.

`calls` is history: the messages that `ResponseMessageHandler` was called with. It grows where the
handler takes a step, by what that step is called with.

* `Effect` / `step_effect` — everything a step can do.
* `parts_reachable`        — a run of the whole is a run of each part.
* `delivered_in_order`     — what the handler is called with.
-/

namespace ClibDpa
namespace Gateway

open IqrfSpiChannel

structure State where
  channel : Imp.State
  clients : Clients.State
  sending : Option Nat
  delivering : Bool
  calls : List (List UInt8)

inductive Event where
  | channel (e : Imp.Event)
  | clients (e : Clients.Event)
  | sendTo (tracerIsValid : Bool)
  | sent
  | deliver
  | returned

/-- Both constructors have run. -/
def init : State :=
  { channel := { Imp.init with receiveFromFunc := true }
    clients := Clients.init
    sending := none
    delivering := false
    calls := [] }

/-- The worker of the transaction queue, as a caller of the channel. -/
def worker : Nat := 0

def running (s : State) : Bool :=
  match s.channel.lambda, s.clients.handler.receiver with
  | .terminated, _ => false
  | _, .crashed => false
  | _, _ => true

/-! ## The parts of a step -/

/-- The steps of the channel that are not calls of the handler or from it. -/
def channelOwn (c : Imp.State) : Imp.Event → Bool
  | .sendTo t _ _ | .getState t => t ≠ worker
  | .client _ _ | .listen _ | .worker | .spurious => true
  | .receiveFrom _ =>
    match c.lambda with
    | .test _ => true
    | _ => false
  | .registerReceiveFromHandler _ | .unregisterReceiveFromHandler | .destructor => false

/-- The functor is where `execute()` calls `m_sender`: the transaction and the message. -/
def atSender (h : Handler.State) : Option (Nat × List UInt8) :=
  match h.functor with
  | .branch i n =>
    match h.tx i with
    | none => none
    | some o => (Handler.sends o n i).head?
  | _ => none

/-- The transaction whose mutex the step takes. -/
def locks (c : Clients.State) : Clients.Event → Option Nat
  | .handler e => (Clients.acted c.handler e).map Prod.fst
  | .get i | .getWake i _ => some i

/-- The steps of the handler and its callers that are not calls of the channel or from it, and
that the worker in `m_sender` does not hold up. -/
def clientsOwn (s : State) (e : Clients.Event) : Bool :=
  match e with
  | .handler (.deliver _) => false
  | .handler (.functor _) => (atSender s.clients.handler).isNone
  | e => s.sending.isNone || locks s.clients e != s.sending

def onChannel (s : State) (e : Imp.Event) : Option State :=
  match Imp.step s.channel e with
  | none => none
  | some c => some { s with channel := c }

/-- The message of a call of `ResponseMessageHandler`. -/
def delivered : Clients.Event → Option (List UInt8)
  | .handler (.deliver message) => some message
  | _ => none

def onClients (s : State) (e : Clients.Event) : Option State :=
  match Clients.step s.clients e with
  | none => none
  | some c => some { s with clients := c, calls := s.calls ++ (delivered e).toList }

def move (s : State) : Event → Option State
  | .channel e => if channelOwn s.channel e then onChannel s e else none
  | .clients e => if clientsOwn s e then onClients s e else none
  | .sendTo tracerIsValid =>
    match s.sending, atSender s.clients.handler with
    | none, some (i, message) =>
      onChannel { s with sending := some i } (.sendTo worker message tracerIsValid)
    | _, _ => none
  | .sent =>
    match s.sending, s.channel.client worker with
    | some _, .returned _ =>
      onClients { s with sending := none } (.handler (.functor Handler.channelUp))
    | _, _ => none
  | .deliver =>
    match s.delivering, s.channel.lambda with
    | false, .call message =>
      onClients { s with delivering := true } (.handler (.deliver message))
    | _, _ => none
  | .returned =>
    match s.delivering, s.clients.handler.receiver with
    | true, .idle .returned => onChannel { s with delivering := false } (.receiveFrom (.ok ()))
    | true, .idle (.threw e) => onChannel { s with delivering := false } (.receiveFrom (.error e))
    | _, _ => none

def step (s : State) (e : Event) : Option State := if running s then move s e else none

/-! ## What a step does -/

inductive Effect (s : State) : Event → State → Prop where
  | channel {e : Imp.Event} {c : Imp.State} : channelOwn s.channel e = true →
      Imp.step s.channel e = some c → Effect s (.channel e) { s with channel := c }
  | clients {e : Clients.Event} {c : Clients.State} : clientsOwn s e = true →
      Clients.step s.clients e = some c → Effect s (.clients e) { s with clients := c }
  | sendTo {i : Nat} {message : List UInt8} {tracerIsValid : Bool} {c : Imp.State} :
      s.sending = none → atSender s.clients.handler = some (i, message) →
      Imp.step s.channel (.sendTo worker message tracerIsValid) = some c →
      Effect s (.sendTo tracerIsValid) { s with channel := c, sending := some i }
  | sent {i : Nat} {r : Option Bool} {c : Clients.State} : s.sending = some i →
      s.channel.client worker = .returned r →
      Clients.step s.clients (.handler (.functor Handler.channelUp)) = some c →
      Effect s .sent { s with clients := c, sending := none }
  | deliver {message : List UInt8} {c : Clients.State} : s.delivering = false →
      s.channel.lambda = .call message →
      Clients.step s.clients (.handler (.deliver message)) = some c →
      Effect s .deliver
        { s with clients := c, delivering := true, calls := s.calls ++ [message] }
  | returned {result : Except Exc Unit} {c : Imp.State} : s.delivering = true →
      Imp.step s.channel (.receiveFrom result) = some c →
      Effect s .returned { s with channel := c, delivering := false }

section Inversion

variable {s s' : State}

theorem onChannel_some {e : Imp.Event} (h : onChannel s e = some s') :
    ∃ c, Imp.step s.channel e = some c ∧ s' = { s with channel := c } := by
  unfold onChannel at h
  split at h
  · cases h
  · rename_i c hc
    cases h
    exact ⟨c, hc, rfl⟩

theorem onClients_some {e : Clients.Event} (h : onClients s e = some s') :
    ∃ c, Clients.step s.clients e = some c ∧
      s' = { s with clients := c, calls := s.calls ++ (delivered e).toList } := by
  unfold onClients at h
  split at h
  · cases h
  · rename_i c hc
    cases h
    exact ⟨c, hc, rfl⟩

theorem clientsOwn_delivered {e : Clients.Event} (h : clientsOwn s e = true) :
    delivered e = none := by
  cases e with
  | handler e =>
    cases e with
    | deliver message => cases h
    | _ => rfl
  | _ => rfl

theorem step_move {e : Event} (h : step s e = some s') :
    running s = true ∧ move s e = some s' := by
  unfold step at h
  split at h
  · exact ⟨‹_›, h⟩
  · cases h

theorem step_effect {e : Event} (h : step s e = some s') : Effect s e s' := by
  obtain ⟨_, h⟩ := step_move h
  cases e with
  | channel e =>
    simp only [move] at h
    split at h
    · obtain ⟨c, hc, rfl⟩ := onChannel_some h
      exact .channel ‹_› hc
    · cases h
  | clients e =>
    simp only [move] at h
    split at h
    · rename_i hown
      obtain ⟨c, hc, rfl⟩ := onClients_some h
      rw [clientsOwn_delivered hown]
      simp only [Option.toList_none, List.append_nil]
      exact .clients hown hc
    · cases h
  | sendTo tracerIsValid =>
    simp only [move] at h
    split at h
    · obtain ⟨c, hc, rfl⟩ := onChannel_some h
      exact .sendTo ‹_› ‹_› hc
    · cases h
  | sent =>
    simp only [move] at h
    split at h
    · obtain ⟨c, hc, rfl⟩ := onClients_some h
      simp only [delivered, Option.toList_none, List.append_nil]
      exact .sent ‹_› ‹_› hc
    · cases h
  | deliver =>
    simp only [move] at h
    split at h
    · obtain ⟨c, hc, rfl⟩ := onClients_some h
      exact .deliver ‹_› ‹_› hc
    · cases h
  | returned =>
    simp only [move] at h
    split at h
    · obtain ⟨c, hc, rfl⟩ := onChannel_some h
      exact .returned ‹_› hc
    · obtain ⟨c, hc, rfl⟩ := onChannel_some h
      exact .returned ‹_› hc
    · cases h

/-- A step of the handler's own, made. -/
theorem step_clients {e : Clients.Event} {c : Clients.State} (hrun : running s = true)
    (ho : clientsOwn s e = true) (hc : Clients.step s.clients e = some c) :
    step s (.clients e) = some { s with clients := c } := by
  simp [step, hrun, move, ho, onClients, hc, clientsOwn_delivered ho]

theorem step_deliver {message : List UInt8} {c : Clients.State} (hrun : running s = true)
    (hd : s.delivering = false) (hl : s.channel.lambda = .call message)
    (hc : Clients.step s.clients (.handler (.deliver message)) = some c) :
    step s .deliver =
      some { s with clients := c, delivering := true, calls := s.calls ++ [message] } := by
  simp [step, hrun, move, hd, hl, onClients, hc, delivered]

end Inversion

/-! ## The parts -/

section Parts

variable {s s' : State}

/-- What the channel does by itself, for the handler registered with it: it may come to call it. -/
inductive Own (c c' : Imp.State) : Prop where
  | same : c'.lambda = c.lambda → c'.handled = c.handled → Own c c'
  | enter {message : List UInt8} : c.receiveMessageQueue.pc = .process message →
      c'.lambda = .test message → c'.handled = c.handled → Own c c'
  | call {message : List UInt8} : c.lambda = .test message → c'.lambda = .call message →
      c'.handled = c.handled → Own c c'
  | leave : c.lambda = .done → c'.lambda = .idle → c'.handled = c.handled → Own c c'

theorem channel_own {c c' : Imp.State} {e : Imp.Event} (hreg : c.receiveFromFunc = true)
    (ho : channelOwn c e = true) (he : Imp.step c e = some c') :
    c'.receiveFromFunc = true ∧ Own c c' := by
  cases Imp.step_effect he with
  | register hr =>
    cases e with
    | registerReceiveFromHandler b => cases ho
    | unregisterReceiveFromHandler => cases ho
    | _ => cases hr
  | client _ _ => exact ⟨hreg, .same rfl rfl⟩
  | listen _ => exact ⟨hreg, .same rfl rfl⟩
  | read _ _ => exact ⟨hreg, .same rfl rfl⟩
  | push _ _ _ => exact ⟨hreg, .same rfl rfl⟩
  | pushing _ _ => exact ⟨hreg, .same rfl rfl⟩
  | enter hpc _ => exact ⟨hreg, .enter hpc rfl rfl⟩
  | leave _ hl _ => exact ⟨hreg, .leave hl rfl rfl⟩
  | worker _ _ _ => exact ⟨hreg, .same rfl rfl⟩
  | spurious _ => exact ⟨hreg, .same rfl rfl⟩
  | lambda hm =>
    cases hm with
    | registered hl _ => exact ⟨hreg, .call hl rfl (by simp)⟩
    | unregistered _ hno => rw [hreg] at hno; cases hno
    | returned hl _ => simp [channelOwn, hl] at ho
    | threw hl _ => simp [channelOwn, hl] at ho
    | badFunctionCall hl _ => simp [channelOwn, hl] at ho
  | closing _ => cases ho
  | joined _ _ => cases ho
  | freed _ => cases ho

/-- The call that has not returned. -/
def inCall (s : State) : List (List UInt8) := if s.delivering then s.channel.lambda.inHand else []

structure Parts (s : State) : Prop where
  channel : Machine.Reachable Imp.step Imp.init s.channel
  registered : s.channel.receiveFromFunc = true
  calling : s.delivering = true → ∃ message, s.channel.lambda = .call message
  clients : ∃ cs, Machine.exec Clients.step Clients.init cs = some s.clients ∧
    cs.filterMap delivered = s.calls
  calls : s.calls = s.channel.handled.map Prod.fst ++ inCall s

theorem parts_init : Parts init where
  channel := ⟨[.registerReceiveFromHandler true], rfl⟩
  registered := rfl
  calling := fun h => by cases h
  clients := ⟨[], rfl, rfl⟩
  calls := rfl

theorem exec_snoc {cs : List Clients.Event} {e : Clients.Event} {c c' : Clients.State}
    (h : Machine.exec Clients.step Clients.init cs = some c) (he : Clients.step c e = some c') :
    Machine.exec Clients.step Clients.init (cs ++ [e]) = some c' :=
  Machine.exec_append_iff.mpr ⟨c, h, by rw [Machine.exec_single]; exact he⟩

/-- A call of `sendTo` begins. -/
theorem channel_sendTo {c c' : Imp.State} {t : Nat} {message : List UInt8}
    {tracerIsValid : Bool} (h : Imp.step c (.sendTo t message tracerIsValid) = some c') :
    (∃ r, c.client t = .returned r) ∧
      c' = Imp.setClient c t (Imp.enterSendTo message tracerIsValid) := by
  simp only [Imp.step] at h
  split at h
  · cases h
    exact ⟨⟨_, ‹_›⟩, rfl⟩
  · cases h

/-- The call of the registered handler ends. -/
theorem channel_receiveFrom {c c' : Imp.State} {message : List UInt8} {result : Except Exc Unit}
    (hreg : c.receiveFromFunc = true) (hl : c.lambda = .call message)
    (h : Imp.step c (.receiveFrom result) = some c') :
    c'.receiveFromFunc = true ∧ c'.handled = c.handled ++ [(message, true)] ∧
      c'.client = c.client ∧ c'.sent = c.sent := by
  simp only [Imp.step, Imp.lambdaStep, hl, hreg, if_true] at h
  cases h
  exact ⟨rfl, rfl, rfl, rfl⟩

theorem inCall_idle (h : s.delivering = false) : inCall s = [] := by simp [inCall, h]

theorem inCall_call {message : List UInt8} (h : s.delivering = true)
    (hl : s.channel.lambda = .call message) : inCall s = [message] := by
  simp [inCall, h, hl, Imp.LambdaPc.inHand]

/-- The lambda is busy with the call, so it does not take up another frame. -/
theorem Parts.calling_own (h : Parts s) (hd : s.delivering = true) {c : Imp.State}
    (ho : Own s.channel c) : c.lambda = s.channel.lambda ∧ c.handled = s.channel.handled := by
  obtain ⟨m, hm⟩ := h.calling hd
  cases ho with
  | same hl hh => exact ⟨hl, hh⟩
  | enter hpc _ _ =>
    have hbusy := (Imp.receive_reachable h.channel).busy.mpr (by rw [hm]; simp)
    obtain ⟨m', hm'⟩ := hbusy
    rw [hpc] at hm'
    cases hm'
  | call hl _ _ => rw [hm] at hl; cases hl
  | leave hl _ _ => rw [hm] at hl; cases hl

theorem Own.handled {c c' : Imp.State} (h : Own c c') : c'.handled = c.handled := by
  cases h <;> assumption

theorem parts_step {e : Event} (h : Parts s) (he : Effect s e s') : Parts s' := by
  obtain ⟨cs, hexec, hcs⟩ := h.clients
  have hcalls := h.calls
  cases he with
  | @channel e c ho hc =>
    obtain ⟨hreg, hown⟩ := channel_own h.registered ho hc
    by_cases hd : s.delivering = true
    · obtain ⟨hl, hh⟩ := h.calling_own hd hown
      obtain ⟨m, hm⟩ := h.calling hd
      refine ⟨h.channel.next hc, hreg, fun _ => ⟨m, hl.trans hm⟩, h.clients, ?_⟩
      rw [inCall_call hd hm] at hcalls
      rw [inCall_call (s := { s with channel := c }) hd (hl.trans hm), hcalls, hh]
    · have hno : s.delivering = false := Bool.eq_false_iff.mpr hd
      refine ⟨h.channel.next hc, hreg, fun hd' => absurd hd' hd, h.clients, ?_⟩
      rw [inCall_idle hno] at hcalls
      rw [inCall_idle (s := { s with channel := c }) hno, hcalls, hown.handled]
  | @clients e c ho hc =>
    refine ⟨h.channel, h.registered, h.calling, ⟨cs ++ [e], exec_snoc hexec hc, ?_⟩, hcalls⟩
    rw [List.filterMap_append, List.filterMap_cons_none (clientsOwn_delivered ho),
      List.filterMap_nil, List.append_nil]
    exact hcs
  | sendTo _ _ hc =>
    obtain ⟨_, rfl⟩ := channel_sendTo hc
    exact ⟨h.channel.next hc, h.registered, h.calling, h.clients, hcalls⟩
  | sent _ _ hc =>
    refine ⟨h.channel, h.registered, h.calling, ⟨_, exec_snoc hexec hc, ?_⟩, hcalls⟩
    rw [List.filterMap_append]
    exact (List.append_nil _).trans hcs
  | @deliver message c hd hl hc =>
    refine ⟨h.channel, h.registered, fun _ => ⟨message, hl⟩, ⟨_, exec_snoc hexec hc, ?_⟩, ?_⟩
    · rw [List.filterMap_append, hcs]
      rfl
    · rw [inCall_idle hd, List.append_nil] at hcalls
      rw [hcalls]
      exact congrArg _ (inCall_call
        (s := { s with clients := c, delivering := true, calls := s.calls ++ [message] }) rfl
        hl).symm
  | @returned result c hd hc =>
    obtain ⟨m, hm⟩ := h.calling hd
    obtain ⟨hreg, hh, _⟩ := channel_receiveFrom h.registered hm hc
    refine ⟨h.channel.next hc, hreg, fun hd' => (by cases hd'), h.clients, ?_⟩
    rw [inCall_call hd hm] at hcalls
    rw [inCall_idle (s := { s with channel := c, delivering := false }) rfl, hcalls, hh]
    simp

theorem parts_reachable (h : Machine.Reachable step init s) : Parts s :=
  h.inv (fun _ _ _ hI he => parts_step hI (step_effect he)) parts_init

theorem Parts.inv (h : Parts s) : Clients.Inv s.clients := by
  obtain ⟨cs, hexec, _⟩ := h.clients
  exact Clients.inv_reachable ⟨cs, hexec⟩

/-- Who calls `ResponseMessageHandler`: the lambda alone, with the frame that it is at. -/
inductive Made (s : State) : Event → State → Prop where
  | call {message : List UInt8} {s' : State} : s.channel.lambda = .call message →
      Clients.step s.clients (.handler (.deliver message)) = some s'.clients →
      s'.calls = s.calls ++ [message] → Made s .deliver s'
  | none {e : Event} {s' : State} : e ≠ .deliver → s'.calls = s.calls →
      (s'.clients = s.clients ∨
        ∃ e', delivered e' = none ∧ Clients.step s.clients e' = some s'.clients) → Made s e s'

theorem step_made {e : Event} (h : step s e = some s') : Made s e s' := by
  cases step_effect h with
  | channel _ _ => exact .none nofun rfl (.inl rfl)
  | clients ho hc => exact .none nofun rfl (.inr ⟨_, clientsOwn_delivered ho, hc⟩)
  | sendTo _ _ _ => exact .none nofun rfl (.inl rfl)
  | sent _ _ hc => exact .none nofun rfl (.inr ⟨_, rfl, hc⟩)
  | deliver _ hl hc => exact .call hl hc rfl
  | returned _ _ => exact .none nofun rfl (.inl rfl)

/-- What `ResponseMessageHandler` was called with, followed by what is still on its way. -/
theorem Parts.account (h : Parts s) :
    ∃ rest, s.calls ++ rest = Imp.frames s.channel.log ∧
      inCall s ++ rest = Imp.pending s.channel := by
  have hfront : ∃ rest, inCall s ++ rest = Imp.pending s.channel := by
    unfold inCall
    split
    · simp only [Imp.pending, List.append_assoc]
      exact ⟨_, rfl⟩
    · exact ⟨_, rfl⟩
  obtain ⟨rest, hrest⟩ := hfront
  refine ⟨rest, ?_, hrest⟩
  rw [h.calls, List.append_assoc, hrest]
  exact (Imp.receive_reachable h.channel).account

/-- A frame is ready to be read. -/
def frameReady (f : Frame) : Imp.Answer := ⟨.operOk, ⟨true, .other 0, f.bytes.length⟩, f.bytes⟩

/-- The caller submits the request and waits; the worker sends it. -/
def sendsLedPulse : List Event :=
  (Handler.submitLedPulse 0 ++ Handler.dequeue ++
    List.replicate 2 (Handler.Event.functor Handler.channelUp)).map
      (fun e => .clients (.handler e)) ++
    [.clients (.get 0), .sendTo true] ++
    List.replicate 4 (.channel (.client worker Imp.readyForMessage)) ++ [.sent]

/-- The response is read and comes to the handler. -/
def readsResponse : List Event :=
  List.replicate 12 (.channel (.listen (frameReady ledPulseResponse))) ++
    List.replicate 8 (.channel .worker) ++ [.channel (.receiveFrom (.ok ())), .deliver] ++
    List.replicate 2 (.clients (.handler .receiver)) ++ [.returned]

/-- The worker ends the transaction, and `get()` returns. -/
def returnsLedPulse : List Event :=
  [.clients (.handler (.execution .timeout)), .clients (.handler (.execution .resume)),
    .clients (.getWake 0 false)]

end Parts

end Gateway
end ClibDpa
