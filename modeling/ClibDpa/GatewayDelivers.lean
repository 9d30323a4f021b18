import ClibDpa.GatewayReturns
import ClibDpa.Route
import ClibDpa.SpiDelivers

/-!
# ClibDpa.GatewayDelivers

Every frame that was read from the module comes to `ResponseMessageHandler`, and the call returns.
Besides the receive side of the channel, the worker may have to come back from `sendTo` first: it
holds the mutex of the transaction that the frame is for.

The process may end on the way, in two cases only: a frame is for the pending transaction and there
is none, or a registered handler throws.

* `Calls` / `calls_step` — the receive thread of the handler, next to the lambda that calls it.
* `gateway_delivers`     — the bound on the steps.
-/

namespace ClibDpa

namespace Handler

section Receiver

variable {s s' : State}

/-- The mutex of the asynchronous handler is left locked by an exception only. -/
theorem asyncMessageMutex_step {e : Event} (he : step s e = some s')
    (hm : s'.registry.asyncMessageMutex = true) :
    s.registry.asyncMessageMutex = true ∨ ∃ x, s'.receiver = .idle (.threw x) := by
  have heff := step_registry he
  cases step_receives he with
  | asyncThrew _ => exact .inr ⟨_, rfl⟩
  | other hr _ =>
    left
    generalize s'.registry = r at heff hm
    cases heff with
    | same => exact hm
    | async => exact absurd rfl hr
    | registerAsync h => rw [Registry.registerAsync_some h] at hm; exact hm
    | unregisterAsync h => rw [Registry.unregisterAsync_some h] at hm; exact hm
    | registerAny h => rw [Registry.registerAny_some h] at hm; exact hm
    | unregisterAny h => rw [Registry.unregisterAny_some h] at hm; exact hm
  | _ => exact .inl hm

/-- A call of `ResponseMessageHandler` that has ended has returned or thrown. -/
theorem ended_reachable (h : Machine.Reachable step init s) {last : Outcome}
    (hl : s.receiver = .idle last) : last = .returned ∨ ∃ x, last = .threw x := by
  have hinv : ∀ last, s.receiver = .idle last → last = .returned ∨ ∃ x, last = .threw x := by
    refine h.inv (I := fun s => ∀ last, s.receiver = .idle last →
      last = .returned ∨ ∃ x, last = .threw x) ?_ fun _ hl => by cases hl; exact .inl rfl
    intro s e s' hI he last hl
    cases step_receives he with
    | other _ hsame => rw [hsame] at hl; exact hI last hl
    | anyThrew _ _ => cases hl; exact .inr ⟨_, rfl⟩
    | asyncThrew _ => cases hl; exact .inr ⟨_, rfl⟩
    | chosen _ _ =>
      simp only at hl
      split at hl <;> cases hl
    | crash _ _ => cases hl
    | lookup _ _ => cases hl
    | _ => cases hl; exact .inl rfl
  exact hinv last hl

theorem crashed_step {e : Event} (he : step s e = some s') (hc : s'.receiver = .crashed) :
    s.receiver = .crashed ∨ s'.pendingTransaction = none := by
  cases step_receives he with
  | other _ hsame => exact .inl (hsame.symm.trans hc)
  | crash _ hp => exact .inr hp
  | chosen _ _ =>
    simp only at hc
    split at hc <;> cases hc
  | _ => cases hc

theorem tx_kept {e : Event} (hb : Base s) (he : Effect s e s') {i : Nat} (h : s.tx i ≠ none) :
    s'.tx i ≠ none := by
  have htx := step_tx hb he i
  generalize s.tx i = old at htx h
  generalize s'.tx i = new at htx
  cases htx with
  | same => exact h
  | _ => exact Option.some_ne_none _

/-- The transaction that a frame is for exists. -/
theorem process_known (h : Machine.Reachable step init s) {i : Nat} {f : Frame}
    (hp : s.receiver = .process i f) : s.tx i ≠ none := by
  have hinv : Machine.Reachable step init s ∧ ∀ i f, s.receiver = .process i f → s.tx i ≠ none := by
    refine h.inv (I := fun s => Machine.Reachable step init s ∧
      ∀ i f, s.receiver = .process i f → s.tx i ≠ none) ?_ ⟨.refl _, fun i f h => by cases h⟩
    rintro s e s' ⟨hr, hI⟩ he
    refine ⟨hr.next he, fun i f hp => ?_⟩
    refine tx_kept (base_reachable hr) (step_effect he) ?_
    cases step_receives he with
    | other _ hsame => rw [hsame] at hp; exact hI i f hp
    | lookup _ hpending => cases hp; exact pendingKnown_reachable hr _ hpending
    | chosen _ _ =>
      simp only at hp
      split at hp <;> cases hp
    | _ => cases hp
  exact hinv.2 i f hp

/-- How far a call of `ResponseMessageHandler` is from its end. -/
def ReceiverPc.rank : ReceiverPc → Nat
  | .lookup _ => 2
  | .async _ | .process _ _ => 1
  | .idle _ | .crashed => 0

/-- In a call the receive thread can move. -/
theorem receiver_steps (h : Machine.Reachable step init s)
    (hcall : ∀ last, s.receiver ≠ .idle last) (hsafe : s.receiver ≠ .crashed)
    (hfree : s.registry.asyncMessageMutex = false) :
    ∃ s', step s .receiver = some s' ∧ s'.receiver.rank < s.receiver.rank := by
  simp only [step, receiverStep]
  cases hr : s.receiver with
  | idle last => exact absurd hr (hcall last)
  | crashed => exact absurd hr hsafe
  | async f =>
    rcases s.registry.processAsynchronousMessage_cases f.message with
      ⟨hlocked, _⟩ | ⟨_, _, hrun⟩ | ⟨_, _, x, hrun⟩
    · rw [hfree] at hlocked
      cases hlocked
    · simp only [hrun]
      exact ⟨_, rfl, Nat.one_pos⟩
    · simp only [hrun]
      exact ⟨_, rfl, Nat.one_pos⟩
  | lookup f =>
    cases hp : s.pendingTransaction with
    | none => exact ⟨_, rfl, by simp [ReceiverPc.rank]⟩
    | some i => exact ⟨_, rfl, by simp [ReceiverPc.rank]⟩
  | process i f =>
    obtain ⟨o, ho⟩ := Option.ne_none_iff_exists'.mp (process_known h hr)
    have hspin : o.exec.pc ≠ .spinning := (txOk h ho).timed.waits
    refine ⟨setTx { s with receiver := .idle .returned } i
      { o with exec := Execution.received o.exec f.message }, ?_, by simp [setTx, ReceiverPc.rank]⟩
    simp [actOn, ho, Execution.step, hspin]

/-- There is a pending transaction, and no registered handler throws. -/
structure Calm (s : State) : Prop where
  pending : s.pendingTransaction ≠ none
  registry : s.registry.Harmless
  receiver : ∀ x, s.receiver ≠ .idle (.threw x)

theorem Calm.next {e : Event} (h : Calm s) (he : step s e = some s') (hC : Harmless e) :
    Calm s' := by
  have hregistry := registry_step h.registry hC he
  refine ⟨?_, hregistry, fun x hx => ?_⟩
  · rcases pending_effect (step_effect he) with hsame | ⟨i, _, hi⟩
    · rw [hsame]
      exact h.pending
    · rw [hi]
      exact Option.some_ne_none i
  · cases step_receives he with
    | other _ hsame => exact h.receiver x (hsame.symm.trans hx)
    | anyThrew _ hany =>
      rw [h.registry.processAnyMessage] at hany
      cases hany
    | asyncThrew _ =>
      have hfree := hregistry.asyncFree
      cases hfree
    | chosen _ _ =>
      simp only at hx
      split at hx <;> cases hx
    | _ => cases hx

theorem Calm.safe {e : Event} (h : Calm s) (he : step s e = some s') (hC : Harmless e)
    (hsafe : s.receiver ≠ .crashed) : s'.receiver ≠ .crashed := fun hc =>
  (crashed_step he hc).elim hsafe (h.next he hC).pending

/-- The entry of `ResponseMessageHandler` is open. -/
theorem deliver_enabled (h : Machine.Reachable step init s) {last : Outcome}
    (hl : s.receiver = .idle last) (message : List UInt8) :
    ∃ s', step s (.deliver message) = some s' := by
  simp only [step, deliver, hl]
  split
  · exact ⟨_, rfl⟩
  · rename_i f _
    have hfree := (tidy_reachable h).anyFree
    rcases processAnyMessage_outcome s.registry f.message with ho | ho | ⟨x, ho⟩
    · simp only [Registry.processAnyMessage_eq, hfree, Bool.false_eq_true, if_false] at ho
      split at ho <;> cases ho
    · rw [ho]
      exact ⟨_, rfl⟩
    · rw [ho]
      exact ⟨_, rfl⟩

end Receiver

end Handler

namespace Gateway

open IqrfSpiChannel

section Delivers

variable {s s' : State} {drv : Imp.State → Imp.Answer}

/-- The receive thread of the handler is the lambda's. -/
structure Calls (s : State) : Prop where
  outside : s.delivering = false → ∃ last, s.clients.handler.receiver = .idle last
  locked : s.clients.handler.registry.asyncMessageMutex = true →
    ∃ x, s.clients.handler.receiver = .idle (.threw x)
  threw : ∀ x, s.clients.handler.receiver = .idle (.threw x) →
    s.delivering = true ∨ s.channel.lambda = .terminated
  terminated : s.channel.lambda = .terminated →
    ∃ x, s.clients.handler.receiver = .idle (.threw x)
  crashed : s.clients.handler.receiver = .crashed → s.clients.handler.pendingTransaction = none

theorem calls_init : Calls init where
  outside := fun _ => ⟨_, rfl⟩
  locked := fun h => by cases h
  threw := fun _ h => by cases h
  terminated := fun h => by cases h
  crashed := fun h => by cases h

/-- Outside a call the receive thread does not move. -/
theorem receiver_idle {h h' : Handler.State} {e : Handler.Event} {last : Outcome}
    (hl : h.receiver = .idle last) (hd : ∀ message, e ≠ .deliver message)
    (he : Handler.step h e = some h') : h'.receiver = .idle last := by
  by_cases hr : e = .receiver
  · subst hr
    simp [Handler.step, Handler.receiverStep, hl] at he
  · exact (Handler.receiver_kept hd hr he).trans hl

/-- A step of a caller in `get`. -/
theorem Calls.quiet {c : Clients.State} (h : Calls s) (hsame : c.handler = s.clients.handler)
    (calls : List (List UInt8)) : Calls { s with clients := c, calls := calls } where
  outside := hsame ▸ h.outside
  locked := hsame ▸ h.locked
  threw := hsame ▸ h.threw
  terminated := hsame ▸ h.terminated
  crashed := hsame ▸ h.crashed

/-- A step of the handler that is not its entry. -/
theorem Calls.handler {e : Handler.Event} {h' : Handler.State} (h : Calls s)
    (hrun : running s = true) (hd : ∀ message, e ≠ .deliver message)
    (he : Handler.step s.clients.handler e = some h') (hh : s'.clients.handler = h')
    (hdelivering : s'.delivering = s.delivering)
    (hlambda : s'.channel.lambda = s.channel.lambda) : Calls s' := by
  obtain ⟨halive, hsafe⟩ := running_iff.mp hrun
  subst hh
  refine ⟨fun hno => ?_, fun hm => ?_, fun x hx => ?_, fun ht => ?_, fun hc => ?_⟩
  · obtain ⟨last, hl⟩ := h.outside (hdelivering.symm.trans hno)
    exact ⟨last, receiver_idle hl hd he⟩
  · rcases Handler.asyncMessageMutex_step he hm with hm | hx
    · obtain ⟨x, hx⟩ := h.locked hm
      exact ⟨x, receiver_idle hx hd he⟩
    · exact hx
  · rw [hdelivering]
    by_contra hno
    obtain ⟨hdel, _⟩ := not_or.mp hno
    obtain ⟨last, hl⟩ := h.outside (Bool.eq_false_iff.mpr hdel)
    rw [receiver_idle hl hd he] at hx
    cases hx
    exact (h.threw x hl).elim hdel halive
  · exact absurd (hlambda.symm.trans ht) halive
  · exact (Handler.crashed_step he hc).resolve_left hsafe

/-- The call that has ended, and what becomes of the lambda. -/
theorem returned_some (hreg : s.channel.receiveFromFunc = true)
    (hcall : s.delivering = true → ∃ message, s.channel.lambda = .call message)
    (he : step s .returned = some s') :
    s'.clients = s.clients ∧ s'.delivering = false ∧
      ((s.clients.handler.receiver = .idle .returned ∧ s'.channel.lambda = .done) ∨
        ∃ x, s.clients.handler.receiver = .idle (.threw x) ∧
          s'.channel.lambda = .terminated) := by
  obtain ⟨_, hm⟩ := step_move he
  simp only [move] at hm
  split at hm
  · rename_i hd hr
    obtain ⟨message, hl⟩ := hcall hd
    obtain ⟨c, hc, rfl⟩ := onChannel_some hm
    simp only [Imp.step, Imp.lambdaStep, hl, hreg, if_true] at hc
    cases hc
    exact ⟨rfl, rfl, .inl ⟨hr, rfl⟩⟩
  · rename_i x hd hr
    obtain ⟨message, hl⟩ := hcall hd
    obtain ⟨c, hc, rfl⟩ := onChannel_some hm
    simp only [Imp.step, Imp.lambdaStep, hl, hreg, if_true] at hc
    cases hc
    exact ⟨rfl, rfl, .inr ⟨x, hr, rfl⟩⟩
  · cases hm

theorem calls_step {e : Event} (hp : Parts s) (h : Calls s) (he : step s e = some s') :
    Calls s' := by
  obtain ⟨hrun, _⟩ := step_move he
  obtain ⟨halive, hsafe⟩ := running_iff.mp hrun
  have heffect := step_effect he
  cases heffect with
  | @channel e c ho hc =>
    have hnot : c.lambda ≠ .terminated := (channel_own hp.registered ho hc).2.alive halive
    exact ⟨h.outside, h.locked, fun x hx => .inl ((h.threw x hx).resolve_right halive),
      fun ht => absurd ht hnot, h.crashed⟩
  | @clients e c ho hc =>
    cases e with
    | handler e =>
      obtain ⟨h', hh, rfl⟩ := Clients.handler_some hc
      refine h.handler hrun (fun message heq => ?_) hh rfl rfl rfl
      subst heq
      cases ho
    | get i => exact h.quiet (Clients.onGet_handler hp.inv (fun ev hev => by cases hev) hc) _
    | getWake i expired =>
      exact h.quiet (Clients.onGet_handler hp.inv (fun ev hev => by cases hev) hc) _
  | sendTo _ _ hc =>
    obtain ⟨_, rfl⟩ := channel_sendTo hc
    exact ⟨h.outside, h.locked, h.threw, h.terminated, h.crashed⟩
  | sent _ _ hc =>
    obtain ⟨h', hh, rfl⟩ := Clients.handler_some hc
    exact h.handler hrun (fun message heq => by cases heq) hh rfl rfl rfl
  | @deliver message c hd hl hc =>
    obtain ⟨h', hh, rfl⟩ := Clients.handler_some hc
    refine ⟨fun hno => (by cases hno), fun hm => ?_, fun _ _ => .inl rfl,
      fun ht => absurd ht halive, fun hcrash => ?_⟩
    · rcases Handler.asyncMessageMutex_step hh hm with hm | hx
      · obtain ⟨x, hx⟩ := h.locked hm
        rcases h.threw x hx with hd' | ht
        · rw [hd] at hd'
          cases hd'
        · exact absurd ht halive
      · exact hx
    · exact (Handler.crashed_step hh hcrash).resolve_left hsafe
  | returned _ _ =>
    obtain ⟨hclients, hd, hends⟩ := returned_some hp.registered hp.calling he
    rcases hends with ⟨hr, hl⟩ | ⟨x, hr, hl⟩
    · refine ⟨fun _ => ⟨_, hr⟩, fun hm => ?_, fun x hx => ?_, fun ht => ?_, fun hc => ?_⟩
      · obtain ⟨x, hx⟩ := h.locked hm
        exact ⟨x, hx⟩
      · cases hr.symm.trans hx
      · rw [hl] at ht
        cases ht
      · cases hr.symm.trans hc
    · exact ⟨fun _ => ⟨_, hr⟩, fun _ => ⟨x, hr⟩, fun _ _ => .inr hl, fun _ => ⟨x, hr⟩,
        fun hc => by cases hr.symm.trans hc⟩

theorem calls_reachable (h : Machine.Reachable step init s) : Calls s := by
  have hinv : Machine.Reachable step init s ∧ Calls s := by
    refine h.inv (I := fun s => Machine.Reachable step init s ∧ Calls s) ?_ ⟨.refl _, calls_init⟩
    rintro s e s' ⟨hr, hI⟩ he
    exact ⟨hr.next he, calls_step (parts_reachable hr) hI he⟩
  exact hinv.2

/-! ## The way of a frame -/

/-- The receive side of the channel, the calls of the handler and their way through it, and what
brings the worker back from `sendTo`. -/
inductive Carries (drv : Imp.State → Imp.Answer) (s : State) : Event → Prop where
  | sends {e : Event} : Sends drv s e → Carries drv s e
  | hands {e : Imp.Event} : Imp.Hands (fun _ => .ok ()) s.channel e → Carries drv s (.channel e)
  | deliver : Carries drv s .deliver
  | receiver : Carries drv s (.clients (.handler .receiver))
  | returned : Carries drv s .returned

/-- What is left to do for the frames on their way. -/
def toDeliver (s : State) : Nat :=
  5 * Imp.toHandle s.channel + if s.delivering then s.clients.handler.receiver.rank + 1 else 4

/-- What holds on the way from `s`, with the worker not in `sendTo`. -/
structure Carried (s x : State) : Prop where
  reachable : Machine.Reachable step init x
  sending : x.sending = none
  log : x.channel.log = s.channel.log
  calm : Handler.Calm s.clients.handler → Handler.Calm x.clients.handler ∧ running x = true

theorem rank_le (pc : Handler.ReceiverPc) : pc.rank ≤ 2 := by
  cases pc <;> simp [Handler.ReceiverPc.rank]

theorem toDeliver_le (s : State) :
    toDeliver s ≤ 60 * (Imp.pending s.channel).length + 359 := by
  have hle := Imp.toHandle_le s.channel
  have hrank := rank_le s.clients.handler.receiver
  unfold toDeliver
  split <;> omega

/-- Between the calls the steps of the receive side are the channel's own. -/
theorem hands_own {ret : Imp.State → Except Exc Unit} {c c' : Imp.State} {e : Imp.Event}
    (ho : Imp.Hands ret c e) (he : Imp.step c e = some c')
    (hcall : ∀ message, c.lambda ≠ .call message) : channelOwn c e = true := by
  cases ho with
  | worker => rfl
  | listen a _ => rfl
  | receiveFrom =>
    simp only [Imp.step, Imp.lambdaStep] at he
    cases hl : c.lambda with
    | test message => simp [channelOwn, hl]
    | call message => exact absurd hl (hcall message)
    | idle => rw [hl] at he; cases he
    | done => rw [hl] at he; cases he
    | terminated => rw [hl] at he; cases he

/-- With a frame on its way and no call, the receive side of the channel moves. -/
theorem hands_moves {x : State} (h : Machine.Reachable step init x) (hrun : running x = true)
    (hpending : Imp.pending x.channel ≠ []) (hcall : ∀ message, x.channel.lambda ≠ .call message) :
    ∃ e c, Imp.Hands (fun _ => .ok ()) x.channel e ∧
      step x (.channel e) = some { x with channel := c } ∧ c.log = x.channel.log ∧
      Imp.pending c = Imp.pending x.channel ∧ Imp.toHandle c < Imp.toHandle x.channel ∧
      running { x with channel := c } = true := by
  have hp := parts_reachable h
  have hr := Imp.receive_reachable hp.channel
  obtain ⟨halive, hsafe⟩ := running_iff.mp hrun
  obtain ⟨e, c, ho, he, hlog, hlt⟩ : ∃ e c, Imp.Hands (fun _ => .ok ()) x.channel e ∧
      Imp.step x.channel e = some c ∧ c.log = x.channel.log ∧
      Imp.toHandle c < Imp.toHandle x.channel := by
    by_cases hl : x.channel.lambda = .idle
    · obtain ⟨e, c, ho, he, hlog, _, hlt, _⟩ :=
        Imp.idle_steps hp.channel hl hpending fun _ => .ok ()
      exact ⟨e, c, ho, he, hlog, hlt⟩
    · obtain ⟨e, c, ho, he, hlog, _, hlt, _⟩ := Imp.lambda_steps hr hl halive fun _ => .ok ()
      exact ⟨e, c, ho, he, hlog, hlt⟩
  have hown := hands_own ho he hcall
  obtain ⟨_, hc⟩ := channel_own hp.registered hown he
  refine ⟨e, c, ho, by simp [step, hrun, move, hown, onChannel, he], hlog, ?_, hlt,
    running_iff.mpr ⟨hc.alive halive, hsafe⟩⟩
  exact Imp.pending_same hr (Imp.receive_reachable (hp.channel.next he)) hc.handled hlog

/-- The receive side of the channel moves. -/
theorem Carried.hands {x : State} (h : Carried s x) (hrun : running x = true)
    (hpending : Imp.pending x.channel ≠ []) (hcall : ∀ message, x.channel.lambda ≠ .call message) :
    ∃ e x', Carries drv x e ∧ step x e = some x' ∧ Carried s x' ∧ toDeliver x' < toDeliver x := by
  obtain ⟨e, c, ho, he, hlog, _, hlt, hrun'⟩ := hands_moves h.reachable hrun hpending hcall
  refine ⟨_, _, .hands ho, he, ⟨h.reachable.next he, h.sending, hlog.trans h.log,
    fun hcalm => ⟨(h.calm hcalm).1, hrun'⟩⟩, ?_⟩
  simp only [toDeliver]
  omega

/-- The lambda calls the handler. -/
theorem Carried.deliver {x : State} (h : Carried s x) (hrun : running x = true)
    (hd : x.delivering = false) {message : List UInt8} (hl : x.channel.lambda = .call message) :
    ∃ e x', Carries drv x e ∧ step x e = some x' ∧ Carried s x' ∧ toDeliver x' < toDeliver x := by
  obtain ⟨halive, hsafe⟩ := running_iff.mp hrun
  have hi := (parts_reachable h.reachable).inv
  obtain ⟨last, hidle⟩ := (calls_reachable h.reachable).outside hd
  obtain ⟨h', hh⟩ := Handler.deliver_enabled hi.handler hidle message
  have hstep : step x .deliver = some
      { x with
        clients := { Clients.note x.clients (.deliver message) with handler := h' }
        delivering := true
        calls := x.calls ++ [message] } := by
    refine step_deliver hrun hd hl ?_
    simp [Clients.step, hh]
  refine ⟨_, _, .deliver, hstep, ⟨h.reachable.next hstep, h.sending, h.log, fun hcalm => ?_⟩, ?_⟩
  · have hx := (h.calm hcalm).1
    exact ⟨hx.next hh trivial, running_iff.mpr ⟨halive, hx.safe hh trivial hsafe⟩⟩
  · have hrank := rank_le h'.receiver
    simp only [toDeliver, hd, if_true, Bool.false_eq_true, if_false]
    omega

/-- The handler moves, or its call returns. -/
theorem Carried.call {x : State} (h : Carried s x) (hrun : running x = true)
    (hd : x.delivering = true) :
    ∃ e x', Carries drv x e ∧ step x e = some x' ∧ Carried s x' ∧ toDeliver x' < toDeliver x := by
  have hp := parts_reachable h.reachable
  obtain ⟨halive, hsafe⟩ := running_iff.mp hrun
  obtain ⟨message, hl⟩ := hp.calling hd
  by_cases hidle : ∃ last, x.clients.handler.receiver = .idle last
  · obtain ⟨last, hr⟩ := hidle
    obtain ⟨result, hmove, hok⟩ : ∃ result : Except Exc Unit,
        move x .returned = onChannel { x with delivering := false } (.receiveFrom result) ∧
        ((∀ e, x.clients.handler.receiver ≠ .idle (.threw e)) → result.isOk = true) := by
      rcases Handler.ended_reachable hp.inv.handler hr with rfl | ⟨e, rfl⟩
      · exact ⟨.ok (), by simp [move, hd, hr], fun _ => rfl⟩
      · exact ⟨.error e, by simp [move, hd, hr], fun hno => absurd hr (hno e)⟩
    obtain ⟨c, he, hlog, _, hlt, hne⟩ := Imp.call_ends hl result
    have hstep : step x .returned = some { x with channel := c, delivering := false } := by
      simp [step, hrun, hmove, onChannel, he]
    refine ⟨_, _, .returned, hstep,
      ⟨h.reachable.next hstep, h.sending, hlog.trans h.log, fun hcalm => ?_⟩, ?_⟩
    · have hx := (h.calm hcalm).1
      exact ⟨hx, running_iff.mpr ⟨hne hp.registered (hok hx.receiver), hsafe⟩⟩
    · simp only [toDeliver, hd, if_true, Bool.false_eq_true, if_false]
      omega
  · have hcall : ∀ last, x.clients.handler.receiver ≠ .idle last := fun last hr => hidle ⟨last, hr⟩
    have hfree : x.clients.handler.registry.asyncMessageMutex = false := by
      refine Bool.eq_false_iff.mpr fun hm => ?_
      obtain ⟨e, hr⟩ := (calls_reachable h.reachable).locked hm
      exact hcall _ hr
    obtain ⟨h', hh, hlt⟩ := Handler.receiver_steps hp.inv.handler hcall hsafe hfree
    have hstep : step x (.clients (.handler .receiver)) = some
        { x with clients := { Clients.note x.clients .receiver with handler := h' } } := by
      refine step_clients hrun (by simp [clientsOwn, h.sending]) ?_
      simp [Clients.step, hh]
    refine ⟨_, _, .receiver, hstep, ⟨h.reachable.next hstep, h.sending, h.log, fun hcalm => ?_⟩, ?_⟩
    · have hx := (h.calm hcalm).1
      exact ⟨hx.next hh trivial, running_iff.mpr ⟨halive, hx.safe hh trivial hsafe⟩⟩
    · simp only [toDeliver, hd, if_true]
      omega

theorem Carried.steps {x : State} (h : Carried s x)
    (hnot : ¬ (running x = false ∨ Imp.pending x.channel = [])) :
    ∃ e x', Carries drv x e ∧ step x e = some x' ∧ Carried s x' ∧ toDeliver x' < toDeliver x := by
  obtain ⟨hrun, hpending⟩ := not_or.mp hnot
  have hrun := Bool.eq_true_of_not_eq_false hrun
  cases hd : x.delivering with
  | true => exact h.call hrun hd
  | false =>
    by_cases hcall : ∃ message, x.channel.lambda = .call message
    · obtain ⟨message, hl⟩ := hcall
      exact h.deliver hrun hd hl
    · exact h.hands hrun hpending fun message hl => hcall ⟨message, hl⟩

/-- No event of a call of the channel runs the handler. -/
theorem drives_kept {c c' : Imp.State} {e : Imp.Event} (h : Imp.Drives drv worker c e)
    (he : Imp.step c e = some c') : c'.handled = c.handled := by
  cases Imp.step_effect he with
  | lambda _ => cases h
  | _ => rfl

theorem sends_handled {e : Event} (hd : Sends drv s e) (he : step s e = some s') :
    s'.channel.handled = s.channel.handled := by
  cases hd with
  | channel _ hd =>
    cases step_effect he with
    | channel _ hc => exact drives_kept hd hc
  | sent =>
    cases step_effect he with
    | sent _ _ _ => rfl

/-- A call of the channel that is on its way comes back first; nothing is handled meanwhile. -/
theorem comes_back (h : Machine.Reachable step init s) (hrun : running s = true)
    (hdrv : ∀ x len, x.listen = .read len → (drv x).fills len = true) :
    ∃ s1, Machine.Within step (Carries drv) 315 s s1 ∧ Carried s1 s1 ∧ running s1 = true ∧
      s1.channel.handled = s.channel.handled ∧
      (Handler.Calm s.clients.handler → Handler.Calm s1.clients.handler) := by
  cases hs : s.sending with
  | none =>
    exact ⟨s, (Machine.Within.refl s).mono (by omega), ⟨h, hs, rfl, fun hcalm => ⟨hcalm, hrun⟩⟩,
      hrun, rfl, id⟩
  | some i =>
    obtain ⟨h1, s1, hh, hw, hf⟩ := execute_follows h hrun hs hdrv
    refine ⟨s1, hw.imp fun _ _ => .sends,
      ⟨hw.reachable h, hf.idle, rfl, fun hcalm => ⟨hcalm, hf.running⟩⟩, hf.running, ?_,
      fun hcalm => ?_⟩
    · refine hw.inv (I := fun x => x.channel.handled = s.channel.handled) ?_ rfl
      rintro x e x' hx hd he
      rw [← hx]
      exact sends_handled hd he
    · rw [hf.handler]
      exact hcalm.next hh trivial

theorem frames_grow {e : Event} (he : step s e = some s') :
    Imp.frames s.channel.log <+: Imp.frames s'.channel.log := by
  have hgrow : ∀ {e : Imp.Event} {c : Imp.State}, Imp.step s.channel e = some c →
      Imp.frames s.channel.log <+: Imp.frames c.log := by
    intro e c hc
    obtain ⟨rest, hrest⟩ := log_grows hc
    rw [← hrest, Imp.frames_append]
    exact List.prefix_append _ _
  cases step_effect he with
  | channel _ hc => exact hgrow hc
  | clients _ _ => exact List.prefix_refl _
  | sendTo _ _ hc => exact hgrow hc
  | sent _ _ _ => exact List.prefix_refl _
  | deliver _ _ _ => exact List.prefix_refl _
  | returned _ hc => exact hgrow hc

def Event.isDeliver : Event → Bool
  | .deliver => true
  | _ => false

/-- A run calls the handler once in each of its steps `.deliver`, by induction on it. -/
theorem calls_run {es : List Event} : ∀ {s s' : State}, Machine.exec step s es = some s' →
    s'.calls.length = s.calls.length + es.countP Event.isDeliver := by
  induction es with
  | nil =>
    intro s s' hexec
    cases hexec
    rfl
  | cons e es ih =>
    intro s s' hexec
    obtain ⟨s1, h1, hrest⟩ := Machine.exec_cons_iff.mp hexec
    rw [ih hrest]
    cases step_made h1 with
    | call _ _ hcalls =>
      rw [hcalls, List.length_append, List.countP_cons_of_pos rfl, List.length_singleton]
      omega
    | none hne hcalls _ =>
      have hno : ¬ Event.isDeliver e = true := by
        intro he
        cases e <;> first | exact hne rfl | cases he
      rw [hcalls, List.countP_cons_of_neg hno]

end Delivers

end Gateway
end ClibDpa
