import ClibDpa.Final
import ClibDpa.GatewayDelivers
import ClibDpa.SpiListens

/-!
# ClibDpa.GatewaySucceeds

The way of an answer, from the module to the caller of `get()`. While the worker waits in
`execute()`, a response that answers the request is read by the listening thread, goes through the
queue to the lambda and through `ResponseMessageHandler` to the transaction; the worker ends it, and
`get()` returns it.

The threads of the channel get as far as the call of the handler whatever that is doing, also when
its destructor has returned: it does not unregister.

* `handler_called`   — the way up to the call.
* `gateway_succeeds` — the whole way, with the bound on the steps.
-/

namespace ClibDpa

namespace Execution

open DpaTransaction2

section Ends

variable {s : State} {tr' : DpaTransaction2} {code : ErrorCode} {f : Frame}

/-- After a response the end of a wait ends the transaction. -/
theorem evaluate_answered (tr : DpaTransaction2) (m : DpaMessage) :
    ∃ tr', (tr.processResponse m).evaluate true = (tr', some trnOk) ∧
      tr'.result = tr.result.setResponse m := by
  rcases processResponse_state tr m with hs | ⟨hs, _⟩
  · exact ⟨tr.processResponse m, by simp [evaluate, hs], by simp⟩
  · exact ⟨{ tr.processResponse m with state := .processed }, by simp [evaluate, hs], by simp⟩

/-- A response that has to be waited out has a duration. -/
theorem waits_expected {tr : DpaTransaction2} {m : DpaMessage}
    (h : (tr.processResponse m).state ≠ .processed) :
    (tr.processResponse m).state = .receivedResponse ∧
      0 < (tr.processResponse m).expectedDurationMs := by
  refine ⟨((processResponse_state tr m).resolve_left h).1, ?_⟩
  unfold processResponse at h ⊢
  split at h
  · exact absurd rfl h
  · split at h
    · simp only at h ⊢
      rename_i hs hi
      rw [if_neg hs, if_pos hi]
      by_contra hzero
      exact h (if_pos (by simpa using hzero))
    · exact absurd rfl h

theorem expired_ends (hpc : s.pc = .woken true) (he : s.tr.evaluate true = (tr', some code)) :
    step s .resume = some { s with tr := tr'.finish code, pc := .returned } := by
  simp [step, hpc, afterWait, he]

theorem waiting_ends (hpc : s.pc = .waiting) (he : s.tr.evaluate true = (tr', some code)) :
    Machine.exec step s [.timeout, .resume] =
      some { s with tr := tr'.finish code, pc := .returned } := by
  have ht : step s .timeout = some { s with pc := .woken true } := by simp [step, hpc]
  rw [Machine.exec_cons_some ht, Machine.exec_single]
  exact expired_ends rfl he

/-- The worker's own steps end a transaction that has its response; a wait that was notified before
may have to be taken up again. -/
theorem response_ends (hwait : s.pc = .waiting ∨ ∃ x, s.pc = .woken x)
    (ha : s.tr.Accepts f.message .response) :
    ∃ ws x, (∀ e ∈ ws, isWorkerEvent e = true) ∧
      Machine.exec step (received s f.message) ws = some x ∧ x.tr.isFinished = true ∧
      x.tr.result = (s.tr.result.setResponse f.message).setErrorCode trnOk ∧ ws.length ≤ 3 := by
  have htr : (received s f.message).tr = s.tr.processResponse f.message :=
    processReceivedMessage_response ha
  have hpc : (received s f.message).pc = s.pc := rfl
  obtain ⟨tr', he, hres⟩ := evaluate_answered s.tr f.message
  have he' : (received s f.message).tr.evaluate true = (tr', some trnOk) := htr ▸ he
  have hend : (tr'.finish trnOk).result =
      (s.tr.result.setResponse f.message).setErrorCode trnOk := by rw [finish, hres]
  obtain ⟨x, hx⟩ : ∃ x : State, x =
      { received s f.message with tr := tr'.finish trnOk, pc := .returned } := ⟨_, rfl⟩
  have hfinished : x.tr.isFinished = true := by rw [hx]; rfl
  have hresult : x.tr.result = (s.tr.result.setResponse f.message).setErrorCode trnOk := by
    rw [hx]
    exact hend
  rcases hwait with hw | ⟨expired, hw⟩
  · have hrun := waiting_ends (hpc.trans hw) he'
    rw [← hx] at hrun
    exact ⟨_, x, by simp [isWorkerEvent], hrun, hfinished, hresult, by simp⟩
  · cases expired with
    | true =>
      have hrun := expired_ends (hpc.trans hw) he'
      rw [← hx] at hrun
      exact ⟨[.resume], x, by simp [isWorkerEvent], Machine.exec_single.trans hrun, hfinished,
        hresult, by simp⟩
    | false =>
      by_cases hnow : (s.tr.processResponse f.message).state = .processed
      · have hdone : (s.tr.processResponse f.message).evaluate false =
            (s.tr.processResponse f.message, some trnOk) := by simp only [evaluate, hnow]
        refine ⟨[.resume], { received s f.message with
          tr := (s.tr.processResponse f.message).finish trnOk
          pc := .returned }, by simp [isWorkerEvent], ?_, rfl, by simp [finish], by simp⟩
        rw [Machine.exec_single]
        simp only [step, hpc.trans hw, afterWait, htr, hdone]
      · obtain ⟨hs, hpos⟩ := waits_expected hnow
        have hon : (s.tr.processResponse f.message).evaluate false =
            (s.tr.processResponse f.message, none) := by simp [evaluate, hs]
        have hresume : step (received s f.message) .resume =
            some { received s f.message with pc := .waiting } := by
          simp [step, hpc.trans hw, afterWait, htr, hon, loopHead, hpos]
        have hrun := @waiting_ends { received s f.message with pc := .waiting } _ _ rfl he'
        rw [← Machine.exec_cons_some hresume, ← hx] at hrun
        exact ⟨_, x, by simp [isWorkerEvent], hrun, hfinished, hresult, by simp⟩

end Ends

end Execution

namespace Handler

section Taken

variable {s s' : State} {i : Nat}

/-- The transaction that the functor has made the pending one. -/
def FunctorPc.taken : FunctorPc → Option Nat
  | .size i | .branch i _ | .executing i => some i
  | _ => none

theorem taken_step {e : Event} (h : ∀ i, s.functor.taken = some i → s.pendingTransaction = some i)
    (he : Effect s e s') (ht : s'.functor.taken = some i) : s'.pendingTransaction = some i := by
  cases he with
  | submit _ =>
    rw [submit_functor] at ht
    rw [submit_pendingTransaction]
    exact h i ht
  | @client t q _ =>
    obtain ⟨tx, htx⟩ := noteAhead_fields s t
    rw [htx] at ht ⊢
    exact h i ht
  | start _ _ => cases ht
  | finish _ _ _ => cases ht
  | assign hf => cases ht; rfl
  | size hf _ => exact h i (by rw [hf]; exact ht)
  | execute hf _ _ => exact h i (by rw [hf]; exact ht)
  | done _ _ _ => cases ht
  | push _ _ => exact h i ht
  | call _ _ _ => exact h i ht
  | caller _ => exact h i ht
  | worker _ _ _ => exact h i ht
  | spurious _ => exact h i ht
  | act _ _ _ _ => exact h i ht
  | front _ => exact h i ht

theorem taken_reachable (h : Machine.Reachable step init s) (ht : s.functor.taken = some i) :
    s.pendingTransaction = some i := by
  have hinv := h.inv (I := fun s => ∀ i, s.functor.taken = some i → s.pendingTransaction = some i)
    (fun _ _ _ hI he _ ht => taken_step hI (step_effect he) ht) fun _ ht => by cases ht
  exact hinv i ht

end Taken

end Handler

namespace Gateway

open IqrfSpiChannel

/-- The threads of the channel on the way of a frame, with the answers of the driver. -/
inductive Reads (drv : Imp.State → Imp.Answer) (s : State) : Event → Prop where
  | listens {e : Imp.Event} : Imp.Listens drv s.channel e → Reads drv s (.channel e)
  | hands {e : Imp.Event} : Imp.Hands (fun _ => .ok ()) s.channel e → Reads drv s (.channel e)

/-- From there to the end of the transaction. -/
inductive Brings (drv : Imp.State → Imp.Answer) (s : State) : Event → Prop where
  | reads {e : Event} : Reads drv s e → Brings drv s e
  | deliver : Brings drv s .deliver
  | receiver : Brings drv s (.clients (.handler .receiver))
  | worker {e : Execution.Event} : Execution.isWorkerEvent e = true →
      Brings drv s (.clients (.handler (.execution e)))

section Succeeds

variable {s s' : State} {drv : Imp.State → Imp.Answer} {i : Nat} {o : Handler.Submission}
  {f : Frame}

/-! ## Up to the call -/

/-- The channel outlives the handler. -/
theorem alive_reachable (h : Machine.Reachable step init s) : s.channel.destructor = .alive := by
  refine h.inv (I := fun s => s.channel.destructor = .alive) ?_ rfl
  intro s e s' halive he
  cases step_effect he with
  | @channel e c ho hc =>
    cases Imp.step_effect hc with
    | closing _ => cases ho
    | joined _ _ => cases ho
    | freed _ => cases ho
    | _ => exact halive
  | clients _ _ => exact halive
  | sendTo _ _ hc =>
    obtain ⟨_, rfl⟩ := channel_sendTo hc
    exact halive
  | sent _ _ _ => exact halive
  | deliver _ _ _ => exact halive
  | returned _ hc =>
    cases Imp.step_effect hc with
    | register hr => cases hr
    | client ht _ => cases ht
    | lambda _ => exact halive

theorem listens_own {c : Imp.State} {e : Imp.Event} (h : Imp.Listens drv c e) :
    channelOwn c e = true := by
  cases h <;> rfl

/-- On the way to the call only the channel moves. -/
structure ToCall (s x : State) : Prop where
  reachable : Machine.Reachable step init x
  running : running x = true
  channel : x = { s with channel := x.channel }
  pending : Imp.pending x.channel = Imp.pending s.channel
  log : x.channel.log = s.channel.log

/-- A frame that is on its way comes to the call. -/
theorem call_within (h : Machine.Reachable step init s) (hrun : running s = true)
    (hpending : Imp.pending s.channel ≠ []) (drv : Imp.State → Imp.Answer) :
    ∃ x message, Machine.Within step (Reads drv) (Imp.toHandle s.channel) s x ∧ ToCall s x ∧
      x.channel.lambda = .call message := by
  obtain ⟨es, x, hsteps, hexec, hx, ⟨message, hl⟩, hlen⟩ :=
    @Machine.reaches _ _ step (ToCall s) (fun x => ∃ message, x.channel.lambda = .call message)
      (Reads drv) (fun x => Imp.toHandle x.channel) (by
        intro x hx hnot
        obtain ⟨e, c, ho, he, hlog, hsame, hlt, hrun'⟩ := hands_moves hx.reachable hx.running
          (by rw [hx.pending]; exact hpending) fun message hl => hnot ⟨message, hl⟩
        exact ⟨_, _, .hands ho, he, ⟨hx.reachable.next he, hrun', by rw [hx.channel],
          hsame.trans hx.pending, hlog.trans hx.log⟩, hlt⟩) s ⟨h, hrun, rfl, rfl, rfl⟩
  exact ⟨x, message, ⟨es, hsteps, hexec, by omega⟩, hx, hl⟩

/-- A frame that has been read is the last on its way. -/
theorem pending_read {c c' : Imp.State} {frame : List UInt8} (h : Imp.Receive c)
    (h' : Imp.Receive c') (hhandled : c'.handled = c.handled)
    (hframes : Imp.frames c'.log = Imp.frames c.log ++ [frame]) :
    Imp.pending c' = Imp.pending c ++ [frame] := by
  have hs := h.account
  have hs' := h'.account
  rw [hhandled, hframes, ← hs, List.append_assoc] at hs'
  exact List.append_cancel_left hs'

/-- The listening thread reads a frame, and only the channel moves. -/
theorem frame_read (h : Machine.Reachable step init s) (hrun : running s = true)
    (hdrv : Imp.Offers drv) :
    ∃ c x, Machine.Within step (Reads drv) 130 s { s with channel := c } ∧
      running { s with channel := c } = true ∧ x.listen = .read (drv x).data.length ∧
      Imp.pending c = Imp.pending s.channel ++ [(drv x).data] ∧
      Imp.frames c.log = Imp.frames s.channel.log ++ [(drv x).data] ∧
      (s.channel.listen = .read (drv x).data.length ∨
        ∃ y, y.listen = .getSPIStatus ∧ (drv y).status.dataReady = (drv x).data.length) ∧
      c.lambda = s.channel.lambda := by
  have hp := parts_reachable h
  obtain ⟨es, c, x, hsteps, hexec, hread, _, hframes, hannounced, hlambda, hhandled, _, hlen⟩ :=
    Imp.listen_reads hp.channel (alive_reachable h) hdrv
  obtain ⟨hwithin, hrun'⟩ := own_within (Q := Reads drv) (fun _ _ => listens_own)
    (fun c _ => Reads.listens (s := { s with channel := c })) hrun hp.registered
    ⟨es, hsteps, hexec, hlen⟩
  have hc := parts_reachable (hwithin.reachable h)
  exact ⟨c, x, hwithin, hrun', hread,
    pending_read (Imp.receive_reachable hp.channel) (Imp.receive_reachable hc.channel) hhandled
      hframes, hframes, hannounced, hlambda⟩

/-- The oldest frame on its way is the one that the handler is called with, and it can be. -/
theorem call_open (h : Machine.Reachable step init s) (hrun : running s = true)
    (hd : s.delivering = false) (hpending : Imp.pending s.channel ≠ [])
    (drv : Imp.State → Imp.Answer) :
    ∃ x message, Machine.Within step (Reads drv) (Imp.toHandle s.channel) s x ∧
      x.clients = s.clients ∧ x.channel.lambda = .call message ∧
      (∃ x', step x .deliver = some x') ∧ (Imp.pending s.channel).head? = some message := by
  obtain ⟨x, message, hwithin, hcall, hl⟩ := call_within h hrun hpending drv
  have hdelivering : x.delivering = false := by rw [hcall.channel]; exact hd
  obtain ⟨last, hidle⟩ := (calls_reachable hcall.reachable).outside hdelivering
  obtain ⟨h', hh⟩ :=
    Handler.deliver_enabled (parts_reachable hcall.reachable).inv.handler hidle message
  have hclients : Clients.step x.clients (.handler (.deliver message)) =
      some { Clients.note x.clients (.deliver message) with handler := h' } := by
    simp [Clients.step, hh]
  refine ⟨x, message, hwithin, by rw [hcall.channel], hl,
    ⟨_, step_deliver hcall.running hdelivering hl hclients⟩, ?_⟩
  rw [← hcall.pending]
  simp [Imp.pending, hl, Imp.LambdaPc.inHand]

/-- From every reachable state in which the process runs and the handler is not in a call, the
threads of the channel bring a frame to the next call of the handler, the oldest on its way or else
the one that the driver has to give; and nothing in the handler decides about it: it is as it was,
be it alive or destroyed. -/
theorem handler_called (h : Machine.Reachable step init s) (hrun : running s = true)
    (hd : s.delivering = false) (hdrv : Imp.pending s.channel = [] → Imp.Offers drv) :
    ∃ es s' message, Machine.Steps step (Reads drv) s es ∧ Machine.exec step s es = some s' ∧
      s'.clients = s.clients ∧ s'.channel.lambda = .call message ∧
      (∃ s'', step s' .deliver = some s'') ∧
      (∃ x, (Imp.pending s.channel ++ [(drv x).data]).head? = some message) ∧
      es.length ≤ 12 * (Imp.pending s.channel).length + 213 := by
  by_cases hnone : Imp.pending s.channel = []
  · obtain ⟨c, x, hfirst, hrun1, _, hpending, _⟩ := frame_read h hrun (hdrv hnone)
    obtain ⟨s', message, hnext, hclients, hl, hopen, hhead⟩ :=
      call_open (hfirst.reachable h) hrun1 hd (by rw [hpending]; simp) drv
    obtain ⟨es, hsteps, hexec, hlen⟩ := hfirst.trans hnext
    refine ⟨es, s', message, hsteps, hexec, hclients, hl, hopen, ⟨x, hpending ▸ hhead⟩, ?_⟩
    have hle := Imp.toHandle_le c
    rw [hpending, List.length_append, List.length_singleton] at hle
    change es.length ≤ 130 + Imp.toHandle c at hlen
    omega
  · obtain ⟨s', message, ⟨es, hsteps, hexec, hlen⟩, hclients, hl, hopen, hhead⟩ :=
      call_open h hrun hd hnone drv
    refine ⟨es, s', message, hsteps, hexec, hclients, hl, hopen, ⟨s.channel, ?_⟩, ?_⟩
    · rw [List.head?_append, hhead]
      rfl
    · have hle := Imp.toHandle_le s.channel
      omega

/-- The destructor of the handler, in the thread of its one caller. -/
def deletesHandler : List Event :=
  ([Handler.Event.destruct 0, .caller 0, .client 0, .client 0, .client 0, .caller 0, .client 0,
    .client 0, .client 0, .worker, .client 0]).map fun e => .clients (.handler e)

/-- The destructor has returned; the next frame is a call of the handler all the same. -/
theorem handler_called_deleted : ∃ s es s' message, Machine.exec step init deletesHandler = some s ∧
    s.clients.handler.caller 0 = .deleted ∧
    (∃ retval, s.clients.handler.queue.client 0 = .returned retval) ∧
    Machine.exec step s es = some s' ∧ s'.clients = s.clients ∧
    s'.channel.lambda = .call message := by
  have hrun : ∃ s, Machine.exec step init deletesHandler = some s ∧
      s.clients.handler.caller 0 = .deleted ∧
      (∃ retval, s.clients.handler.queue.client 0 = .returned retval) ∧ running s = true ∧
      s.delivering = false := ⟨_, rfl, rfl, ⟨_, rfl⟩, rfl, rfl⟩
  obtain ⟨s, hexec, hdeleted, hreturned, hrun, hd⟩ := hrun
  obtain ⟨es, s', message, _, hes, hclients, hl, _⟩ := handler_called ⟨_, hexec⟩ hrun hd
    (fun _ => @Imp.gives_offers ledPulseResponse.bytes (by decide) (by decide))
  exact ⟨s, es, s', message, hexec, hdeleted, hreturned, hes, hclients, hl⟩

/-! ## From the call to the end of `get()` -/

/-- The worker is in `execute()` of the transaction. -/
structure Executes (i : Nat) (o : Handler.Submission) (s : State) : Prop where
  reachable : Machine.Reachable step init s
  running : running s = true
  functor : s.clients.handler.functor = .executing i
  tx : s.clients.handler.tx i = some o

/-- Past `m_sender` the worker is not in the channel. -/
theorem Executes.sending (h : Executes i o s) : s.sending = none := by
  have hnone : atSender s.clients.handler = none := by simp [atSender, h.functor]
  cases sender_reachable h.reachable with
  | idle hs _ _ => exact hs
  | calling _ ha _ _ => rw [hnone] at ha; cases ha
  | called _ ha _ _ => rw [hnone] at ha; cases ha

/-- An unfinished transaction whose `execute()` has begun is in one of its waits. -/
theorem Executes.waits (h : Executes i o s) (hopen : o.exec.tr.isFinished = false) :
    o.exec.pc = .waiting ∨ ∃ x, o.exec.pc = .woken x := by
  have hr := (parts_reachable h.reachable).inv.handler
  have hok := Handler.txOk hr h.tx
  obtain ⟨pre, hs⟩ := (Handler.ok_reachable hr).serial
  cases hpc : o.exec.pc with
  | waiting => exact .inl rfl
  | woken x => exact .inr ⟨x, rfl⟩
  | idle =>
    refine absurd hpc ((hs.entered i o h.tx).mpr (List.mem_append_right _ ?_))
    rw [h.functor]
    exact List.mem_singleton_self i
  | spinning => exact absurd hpc hok.timed.waits
  | returned =>
    rw [hok.wf.finished_iff.mpr hpc] at hopen
    cases hopen

/-- A step of the handler that calls nobody. -/
theorem handler_follows {e : Handler.Event} {h' : Handler.State} (hrun : running s = true)
    (hs : s.sending = none) (hown : clientsOwn s (.handler e) = true)
    (he : Handler.step s.clients.handler e = some h') (hsafe : h'.receiver ≠ .crashed) :
    ∃ s', step s (.clients (.handler e)) = some s' ∧ Follows s h' s' := by
  have hclients : Clients.step s.clients (.handler e) =
      some { Clients.note s.clients e with handler := h' } := by simp [Clients.step, he]
  exact ⟨_, step_clients hrun hown hclients, rfl, Clients.note_get he, hs,
    running_iff.mpr ⟨(running_iff.mp hrun).1, hsafe⟩⟩

/-- The handler is called with the response, and the transaction gets it. -/
theorem answer_delivered (h : Executes i o s) (hd : s.delivering = false)
    (hl : s.channel.lambda = .call f.bytes) (hharm : s.clients.handler.registry.Harmless)
    (hasync : isAsynchronous f.message = false) (drv : Imp.State → Imp.Answer) :
    ∃ s', Machine.Within step (Brings drv) 3 s s' ∧
      Executes i { o with exec := Execution.received o.exec f.message } s' ∧
      s'.clients.get = s.clients.get := by
  have hr := (parts_reachable h.reachable).inv.handler
  obtain ⟨last, hidle⟩ := (calls_reachable h.reachable).outside hd
  have hpending : s.clients.handler.pendingTransaction = some i :=
    Handler.taken_reachable hr (by rw [h.functor]; rfl)
  have hspin : o.exec.pc ≠ .spinning := (Handler.txOk hr h.tx).timed.waits
  have hframe : Frame.ofString f.bytes = some f := by
    obtain ⟨f', hf', hbytes⟩ := Frame.ofString_whole f.nonempty f.fits
    cases f
    cases f'
    cases hbytes
    exact hf'
  -- the three steps of the handler
  have h1 : Handler.step s.clients.handler (.deliver f.bytes) =
      some { s.clients.handler with receiver := .lookup f } := by
    simp [Handler.step, Handler.deliver, hidle, hframe, hharm.processAnyMessage, hasync]
  have h2 : Handler.step { s.clients.handler with receiver := .lookup f } .receiver =
      some { s.clients.handler with receiver := .process i f } := by
    simp [Handler.step, Handler.receiverStep, hpending]
  have h3 : Handler.step { s.clients.handler with receiver := .process i f } .receiver =
      some (Handler.setTx { s.clients.handler with receiver := .idle .returned } i
        { o with exec := Execution.received o.exec f.message }) := by
    simp [Handler.step, Handler.receiverStep, Handler.actOn, h.tx, Execution.step, hspin]
  -- and those of the whole
  have he1 := step_deliver h.running hd hl (c :=
    { Clients.note s.clients (.deliver f.bytes) with
      handler := { s.clients.handler with receiver := .lookup f } }) (by simp [Clients.step, h1])
  obtain ⟨s1, hs1, hf1⟩ : ∃ s1, step s .deliver = some s1 ∧
      Follows s { s.clients.handler with receiver := .lookup f } s1 :=
    ⟨_, he1, rfl, Clients.note_get h1, h.sending,
      running_iff.mpr ⟨(running_iff.mp h.running).1, by simp⟩⟩
  rw [← hf1.handler] at h2
  obtain ⟨s2, hs2, hf2⟩ := handler_follows hf1.running hf1.idle (by simp [clientsOwn, hf1.idle]) h2
    (by simp)
  rw [← hf2.handler] at h3
  obtain ⟨s3, hs3, hf3⟩ := handler_follows hf2.running hf2.idle (by simp [clientsOwn, hf2.idle]) h3
    (by simp [Handler.setTx])
  have hw : Machine.Within step (Brings drv) 3 s s3 :=
    ((Machine.Within.single .deliver hs1).trans (.single .receiver hs2)).trans
      (.single .receiver hs3)
  refine ⟨s3, hw, ⟨hw.reachable h.reachable, hf3.running, ?_, ?_⟩,
    hf3.get.trans (hf2.get.trans hf1.get)⟩
  · rw [hf3.handler]
    exact h.functor
  · rw [hf3.handler]
    simp [Handler.setTx]

/-- The worker's own events. -/
theorem worker_run {ws : List Execution.Event} : ∀ {s : State} {o : Handler.Submission}
    {x : Execution.State}, Executes i o s → (∀ e ∈ ws, Execution.isWorkerEvent e = true) →
    Machine.exec Execution.step o.exec ws = some x →
    ∃ s', Machine.Within step (Brings drv) ws.length s s' ∧ Executes i { o with exec := x } s' ∧
      s'.clients.get = s.clients.get := by
  induction ws with
  | nil =>
    intro s o x h _ hexec
    cases hexec
    exact ⟨s, .refl s, h, rfl⟩
  | cons e ws ih =>
    intro s o x h hws hexec
    obtain ⟨x1, h1, hrest⟩ := Machine.exec_cons_iff.mp hexec
    have hworker := hws e List.mem_cons_self
    have hh : Handler.step s.clients.handler (.execution e) =
        some (Handler.setTx s.clients.handler i { o with exec := x1 }) := by
      cases e with
      | timeout => simp [Handler.step, Handler.executionStep, h.functor, Handler.actOn, h.tx, h1]
      | wake => simp [Handler.step, Handler.executionStep, h.functor, Handler.actOn, h.tx, h1]
      | resume => simp [Handler.step, Handler.executionStep, h.functor, Handler.actOn, h.tx, h1]
      | _ => cases hworker
    obtain ⟨s1, he, hf⟩ := handler_follows h.running h.sending (by simp [clientsOwn, h.sending]) hh
      (running_iff.mp h.running).2
    have hone : Machine.Within step (Brings drv) 1 s s1 := .single (.worker hworker) he
    have h' : Executes i { o with exec := x1 } s1 := by
      refine ⟨hone.reachable h.reachable, hf.running, ?_, ?_⟩
      · rw [hf.handler]
        exact h.functor
      · rw [hf.handler]
        simp [Handler.setTx]
    obtain ⟨s', hw, hs', hget⟩ := ih h' (fun e' he' => hws e' (List.mem_cons_of_mem e he')) hrest
    refine ⟨s', (hone.trans hw).mono ?_, hs', hget.trans hf.get⟩
    rw [List.length_cons]
    omega

/-- The frame that the module has comes to the call alone. -/
theorem answer_called (h : Executes i o s) (hnone : Imp.pending s.channel = [])
    (hread : ∀ len, s.channel.listen ≠ .read len) :
    ∃ s', Machine.Within step (Reads (Imp.gives f.bytes)) 213 s s' ∧ Executes i o s' ∧
      s'.clients = s.clients ∧ s'.delivering = false ∧ s'.channel.lambda = .call f.bytes := by
  have hd : s.delivering = false := by
    refine Bool.eq_false_iff.mpr fun hd => ?_
    obtain ⟨message, hl⟩ := (parts_reachable h.reachable).calling hd
    simp [Imp.pending, hl, Imp.LambdaPc.inHand] at hnone
  have hoffers : Imp.Offers (Imp.gives f.bytes) :=
    Imp.gives_offers (List.length_pos_iff.mp f.nonempty) (f.fits.trans (by decide))
  obtain ⟨c, x, hfirst, hrun1, hl, hpending, _, hannounced, _⟩ :=
    frame_read h.reachable h.running hoffers
  -- what is read was announced by this driver
  have hlen : f.bytes.length = (Imp.gives f.bytes x).data.length := by
    rcases hannounced with hnow | ⟨y, _, hy⟩
    · exact absurd hnow (hread _)
    · exact hy
  rw [← hlen] at hl
  rw [hnone, List.nil_append, Imp.gives_whole hl] at hpending
  obtain ⟨s', message, hnext, hcall, hmessage⟩ := call_within (hfirst.reachable h.reachable) hrun1
    (by rw [hpending]; simp) (Imp.gives f.bytes)
  have hclients : s'.clients = s.clients := by rw [hcall.channel]
  have hsame : message = f.bytes := by
    have hfront := hcall.pending
    rw [show Imp.pending _ = _ from hpending] at hfront
    simp only [Imp.pending, hmessage, Imp.LambdaPc.inHand, List.cons_append,
      List.cons.injEq] at hfront
    exact hfront.1
  refine ⟨s', (hfirst.trans hnext).mono ?_, ⟨hcall.reachable, hcall.running, ?_, ?_⟩, hclients,
    by rw [hcall.channel]; exact hd, by rw [hmessage, hsame]⟩
  · have hle := Imp.toHandle_le c
    rw [hpending, List.length_singleton] at hle
    change 130 + Imp.toHandle c ≤ 213
    omega
  · rw [hclients]
    exact h.functor
  · rw [hclients]
    exact h.tx

/-- From every reachable state in which the worker is in `execute()` of a transaction and nothing is
on its way from the module, a response that answers the request comes to the caller who waits in
`get()`: the threads of the channel, the handler's receive thread and the worker bring it there, and
`get()` returns it with its response code. -/
theorem gateway_succeeds (h : Machine.Reachable step init s) (hrun : running s = true)
    (hf : s.clients.handler.functor = .executing i) (ho : s.clients.handler.tx i = some o)
    (ha : o.exec.tr.Accepts f.message .response) (hasync : isAsynchronous f.message = false)
    (hharm : s.clients.handler.registry.Harmless) (hnone : Imp.pending s.channel = [])
    (hread : ∀ len, s.channel.listen ≠ .read len)
    (hwait : s.clients.get i = .waitStart ∨ s.clients.get i = .waitFinish) (expired : Bool) :
    ∃ es s' r, Machine.Steps step (Brings (Imp.gives f.bytes)) s es ∧
      Machine.exec step s (es ++ [.clients (.getWake i expired)]) = some s' ∧
      s'.clients.get i = .returned r ∧ r.request = o.request.copy ∧ r.response = f.message ∧
      r.isResponded = true ∧ r.getErrorCode = f.message.responseCodeField.toNat ∧
      es.length ≤ 219 := by
  have hexecutes : Executes i o s := ⟨h, hrun, hf, ho⟩
  obtain ⟨s1, hw1, h1, hclients, hd, hl⟩ := @answer_called s i o f hexecutes hnone hread
  obtain ⟨s2, hw2, h2, hget2⟩ := answer_delivered h1 hd hl (by rw [hclients]; exact hharm) hasync
    (Imp.gives f.bytes)
  obtain ⟨ws, x, hworker, hws, hfinished, hresult, hlen⟩ :=
    Execution.response_ends (hexecutes.waits ha.1) ha
  obtain ⟨s3, hw3, h3, hget3⟩ := worker_run h2 hworker hws
  -- the caller of `get()` finds it finished
  have hi3 := (parts_reachable h3.reachable).inv
  have hwait3 : s3.clients.get i = .waitStart ∨ s3.clients.get i = .waitFinish := by
    rw [hget3, hget2, hclients]
    exact hwait
  obtain ⟨c, hwake, hret⟩ := Clients.getWake_finished hi3 h3.tx hfinished hwait3 expired
  have hlast := step_clients h3.running (by simp [clientsOwn, h3.sending]) hwake
  obtain ⟨es, hsteps, hes, hbound⟩ := ((hw1.imp fun _ _ => .reads).trans hw2).trans hw3
  obtain ⟨hresponded, hcode⟩ :=
    DpaTransactionResult2.setResponse_of_pos (r := o.exec.tr.result) f.message_length_pos
  refine ⟨es, { s3 with clients := c }, x.tr.result, hsteps,
    Machine.exec_append_iff.mpr ⟨s3, hes, by rw [Machine.exec_single]; exact hlast⟩, hret, ?_, ?_,
    ?_, ?_, by omega⟩
  · rw [hresult, DpaTransactionResult2.setErrorCode_request,
      DpaTransactionResult2.setResponse_request]
    exact (Handler.txOk (parts_reachable h).inv.handler ho).request
  · rw [hresult, DpaTransactionResult2.setErrorCode_response,
      DpaTransactionResult2.setResponse_response, Frame.message_copy]
  · rw [hresult, DpaTransactionResult2.setErrorCode_isResponded]
    exact hresponded
  · rw [hresult, DpaTransactionResult2.getErrorCode_setErrorCode_ok]
    exact hcode

/-- The request has been sent, and its caller waits. -/
theorem gateway_succeeds_ledPulse : ∃ s es s' r, Machine.exec step init sendsLedPulse = some s ∧
    s.clients.get 0 = .waitFinish ∧ Machine.exec step s es = some s' ∧
    s'.clients.get 0 = .returned r ∧ r.response = ledPulseResponse.message ∧
    r.getErrorCode = trnOk := by
  have hrun : ∃ s o, Machine.exec step init sendsLedPulse = some s ∧
      s.clients.get 0 = .waitFinish ∧ running s = true ∧
      s.clients.handler.functor = .executing 0 ∧ s.clients.handler.tx 0 = some o ∧
      o.exec.tr.Accepts ledPulseResponse.message .response ∧
      s.clients.handler.registry = .init ∧ Imp.pending s.channel = [] ∧
      s.channel.listen = .loop :=
    ⟨_, _, rfl, rfl, rfl, rfl, rfl, by decide, rfl, rfl, rfl⟩
  obtain ⟨s, o, hexec, hwait, hrun, hf, ho, ha, hregistry, hnone, hloop⟩ := hrun
  obtain ⟨es, s', r, _, hes, hret, _, hresponse, _, hcode, _⟩ := gateway_succeeds ⟨_, hexec⟩ hrun hf
    ho ha (by decide) (by rw [hregistry]; exact Registry.harmless_init) hnone
    (fun len hl => by rw [hloop] at hl; cases hl) (.inr hwait) true
  exact ⟨s, _, s', r, hexec, hwait, hes, hret, hresponse, by rw [hcode]; rfl⟩

end Succeeds

end Gateway
end ClibDpa
