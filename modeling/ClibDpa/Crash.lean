import ClibDpa.Serial

/-!
# ClibDpa.Crash

When a received frame brings the handler down. With user handlers that do not throw every mutex is
free when the receive thread comes, so the only thing left is `m_pendingTransaction`: it is empty
until the worker has dequeued a transaction, and `ResponseMessageHandler` calls through it without
a test.

* `step_receives`              — everything that a step does to the receive thread.
* `responseMessageHandler_run` — the receive thread of the machine does what the function does.
* `handler_returns_iff`        — the exact condition, in every reachable state.
* `interleaved_returns_iff`    — the same for calls that other threads interleave with.
-/

namespace ClibDpa

/-- The handler never throws. -/
def MessageHandlerFunc.NoThrow (handler : MessageHandlerFunc) : Prop :=
  ∀ m, handler.call m = .ok ()

namespace Registry

/-- No mutex is left locked and no registered handler throws. -/
structure Harmless (r : Registry) : Prop where
  asyncFree : r.asyncMessageMutex = false
  anyFree : r.anyMessageMutex = false
  async : r.asyncMessageHandler = none ∨ r.asyncMessageHandler.NoThrow
  any : ∀ p ∈ r.anyMessageHandlerMap, p.2.NoThrow

theorem harmless_init : Harmless init := ⟨rfl, rfl, .inl rfl, nofun⟩

section Harmless

variable {r : Registry}

/-- Handlers that return let the ones after them have the message. -/
theorem callAll_append {m : DpaMessage} {before after : List (String × MessageHandlerFunc)}
    (h : ∀ p ∈ before, p.2.call m = .ok ()) : callAll m (before ++ after) = callAll m after := by
  induction before with
  | nil => rfl
  | cons p rest ih =>
    obtain ⟨key, handler⟩ := p
    have hnow : handler.call m = .ok () := h (key, handler) List.mem_cons_self
    simp only [List.cons_append, callAll_cons, hnow]
    exact ih fun q hq => h q (List.mem_cons_of_mem _ hq)

theorem callAll_ok {m : DpaMessage} {handlers : List (String × MessageHandlerFunc)}
    (h : ∀ p ∈ handlers, p.2.call m = .ok ()) : callAll m handlers = .ok () := by
  rw [← List.append_nil handlers, callAll_append h]
  rfl

theorem Harmless.processAnyMessage (h : Harmless r) (m : DpaMessage) :
    r.processAnyMessage m = .returned := by
  simp [processAnyMessage_eq, h.anyFree, callAll_ok fun p hp => h.any p hp m]

theorem Harmless.processAsynchronousMessage (h : Harmless r) (m : DpaMessage) :
    r.processAsynchronousMessage m = (r, .returned) := by
  rw [processAsynchronousMessage_eq, h.asyncFree]
  rcases h.async with hnone | hok
  · simp [hnone]
  · cases hc : r.asyncMessageHandler with
    | none => rfl
    | some f =>
      rw [hc] at hok
      have hnow : f m = .ok () := hok m
      simp [hnow]

theorem processAnyMessage_ne_nullPointer (m : DpaMessage) :
    r.processAnyMessage m ≠ .nullPointer := by
  rw [processAnyMessage_eq]
  repeat' split
  all_goals exact Outcome.noConfusion

theorem processAsynchronousMessage_ne_nullPointer (r : Registry) (m : DpaMessage) :
    (r.processAsynchronousMessage m).2 ≠ .nullPointer := by
  rcases processAsynchronousMessage_cases r m with ⟨_, h⟩ | ⟨_, _, h⟩ | ⟨_, _, e, h⟩
  all_goals
    rw [h]
    exact Outcome.noConfusion

theorem insert_mem {serviceId : String} {handler : MessageHandlerFunc}
    {p : String × MessageHandlerFunc} :
    ∀ {handlers : List (String × MessageHandlerFunc)},
      p ∈ (insert serviceId handler handlers).1 → p = (serviceId, handler) ∨ p ∈ handlers := by
  intro handlers
  induction handlers with
  | nil => intro h; exact .inl (List.mem_singleton.mp h)
  | cons q rest ih =>
    obtain ⟨key, h⟩ := q
    intro hp
    simp only [insert] at hp
    split at hp
    · exact .inr hp
    · split at hp
      · exact List.mem_cons.mp hp
      · rcases List.mem_cons.mp hp with hp | hp
        · exact .inr (hp ▸ List.mem_cons_self)
        · exact (ih hp).imp_right (List.mem_cons_of_mem _)

theorem Harmless.registerAsync (h : Harmless r) {serviceId : String}
    {handler : MessageHandlerFunc} (hok : handler = none ∨ handler.NoThrow) {r' : Registry}
    (hr : r.registerAsyncMessageHandler serviceId handler = some r') : Harmless r' := by
  obtain rfl := registerAsync_some hr
  exact ⟨h.asyncFree, h.anyFree, hok, h.any⟩

theorem Harmless.unregisterAsync (h : Harmless r) {serviceId : String} {r' : Registry}
    (hr : r.unregisterAsyncMessageHandler serviceId = some r') : Harmless r' := by
  obtain rfl := unregisterAsync_some hr
  exact ⟨h.asyncFree, h.anyFree, .inl rfl, h.any⟩

theorem Harmless.registerAny (h : Harmless r) {serviceId : String}
    {handler : MessageHandlerFunc} (hok : handler.NoThrow) {r' : Registry}
    (hr : (r.registerAnyMessageHandler serviceId handler).map Prod.fst = some r') :
    Harmless r' := by
  obtain rfl := registerAny_some hr
  refine ⟨h.asyncFree, h.anyFree, h.async, fun p hp => ?_⟩
  rcases insert_mem hp with rfl | hp
  · exact hok
  · exact h.any p hp

theorem Harmless.unregisterAny (h : Harmless r) {serviceId : String} {r' : Registry}
    (hr : r.unregisterAnyMessageHandler serviceId = some r') : Harmless r' := by
  obtain rfl := unregisterAny_some hr
  exact ⟨h.asyncFree, h.anyFree, h.async, fun p hp => h.any p (List.mem_filter.mp hp).1⟩

end Harmless

end Registry

namespace Handler

/-- Only handlers that do not throw are registered. -/
def Harmless : Event → Prop
  | .registerAsyncMessageHandler _ handler => handler = none ∨ handler.NoThrow
  | .registerAnyMessageHandler _ handler => handler.NoThrow
  | _ => True

/-- The frame gets as far as the pending transaction: its length, taken modulo 256, is accepted,
and it is neither a request nor an asynchronous response. -/
def ForTransaction (message : List UInt8) : Prop :=
  ∃ f, Frame.ofString message = some f ∧ isAsynchronous f.message = false

/-- The transaction that `m_pendingTransaction` points to. -/
def pendingExec (s : State) : Option Execution.State :=
  match s.pendingTransaction with
  | none => none
  | some i => (s.tx i).map Submission.exec

section Registry

variable {s s' : State}

/-- The registries and the receive thread are as before. -/
def SameFront (s s' : State) : Prop :=
  s'.registry = s.registry ∧ s'.receiver = s.receiver

theorem actOn_front {i : Nat} {e : Execution.Event} (h : actOn s i e = some s') :
    SameFront s s' := by
  obtain ⟨_, _, _, _, rfl⟩ := actOn_some h
  exact ⟨rfl, rfl⟩

theorem onQueue_front {e : TaskQueue.Event Nat} (h : onQueue s e = some s') :
    SameFront s s' := by
  obtain ⟨_, _, rfl⟩ := onQueue_some h
  exact ⟨rfl, rfl⟩

theorem setRegistry_some {r : Option Registry} (h : setRegistry s r = some s') :
    r = some s'.registry ∧ s'.receiver = s.receiver := by
  unfold setRegistry at h
  split at h
  · cases h
  · cases h
    exact ⟨rfl, rfl⟩

theorem callerStep_front {t : Nat} (h : callerStep s t = some s') :
    SameFront s s' := by
  unfold callerStep at h
  split at h
  · cases h
  · exact (onQueue_front h :)
  · exact (actOn_front h :)
  · exact (onQueue_front h :)
  · exact (onQueue_front h :)
  · cases h

theorem workerStep_front (h : workerStep s = some s') : SameFront s s' := by
  unfold workerStep at h
  split at h
  · exact (onQueue_front h :)
  · exact (onQueue_front h :)
  · cases h
  · exact (onQueue_front h :)

theorem functorStep_front {sendTo : List UInt8 → Except Exc Unit}
    (h : functorStep s sendTo = some s') : SameFront s s' := by
  obtain ⟨_, _, hregistry, hreceiver⟩ := functorStep_frame h
  exact ⟨hregistry, hreceiver⟩

theorem executionStep_front {e : Execution.Event} (h : executionStep s e = some s') :
    SameFront s s' := by
  unfold executionStep at h
  split at h
  · exact (actOn_front h :)
  · exact (actOn_front h :)
  · exact (actOn_front h :)
  · cases h

theorem receiverStep_registry (h : receiverStep s = some s') :
    s'.registry = s.registry ∨ ∃ f, s.receiver = .async f ∧
      s'.registry = (s.registry.processAsynchronousMessage f.message).1 := by
  unfold receiverStep at h
  split at h
  · cases h
  · rename_i f hpc
    split at h
    · cases h
    · rename_i r o _ hr
      cases h
      exact .inr ⟨f, hpc, by rw [hr]⟩
  · split at h
    · cases h
      exact .inl rfl
    · cases h
      exact .inl rfl
  · exact .inl (actOn_front h).1
  · cases h

/-- What a step makes of the registries. -/
inductive RegistryEffect (r : Registry) : Event → Registry → Prop where
  | same {e : Event} : RegistryEffect r e r
  | async {f : Frame} :
      RegistryEffect r .receiver (r.processAsynchronousMessage f.message).1
  | registerAsync {serviceId : String} {handler : MessageHandlerFunc} {r' : Registry} :
      r.registerAsyncMessageHandler serviceId handler = some r' →
      RegistryEffect r (.registerAsyncMessageHandler serviceId handler) r'
  | unregisterAsync {serviceId : String} {r' : Registry} :
      r.unregisterAsyncMessageHandler serviceId = some r' →
      RegistryEffect r (.unregisterAsyncMessageHandler serviceId) r'
  | registerAny {serviceId : String} {handler : MessageHandlerFunc} {r' : Registry} :
      (r.registerAnyMessageHandler serviceId handler).map Prod.fst = some r' →
      RegistryEffect r (.registerAnyMessageHandler serviceId handler) r'
  | unregisterAny {serviceId : String} {r' : Registry} :
      r.unregisterAnyMessageHandler serviceId = some r' →
      RegistryEffect r (.unregisterAnyMessageHandler serviceId) r'

theorem registryEffect_same {e : Event} (h : s'.registry = s.registry) :
    RegistryEffect s.registry e s'.registry :=
  h ▸ .same

/-- The events of the other threads. -/
def Event.behind : Event → Bool
  | .deliver _ | .receiver => false
  | .registerAsyncMessageHandler _ _ | .unregisterAsyncMessageHandler _ => false
  | .registerAnyMessageHandler _ _ | .unregisterAnyMessageHandler _ => false
  | _ => true

theorem behind_front {e : Event} (hb : e.behind = true) (h : step s e = some s') :
    SameFront s s' := by
  cases e with
  | executeDpaTransaction t request timeout err =>
    simp only [step] at h
    split at h
    · cases h
      exact ⟨submit_registry s t request timeout err, submit_receiver s t request timeout err⟩
    · cases h
  | getDpaQueueLen t =>
    simp only [step] at h
    split at h
    · exact onQueue_front h
    · cases h
  | destruct t =>
    simp only [step] at h
    split at h
    · cases h
      unfold destruct
      split
      · exact ⟨rfl, rfl⟩
      · exact ⟨rfl, rfl⟩
    · cases h
  | caller t => exact callerStep_front h
  | client t =>
    obtain ⟨tx, htx⟩ := noteAhead_fields s t
    rw [step, htx] at h
    exact (onQueue_front h :)
  | worker => exact workerStep_front h
  | spurious => exact onQueue_front h
  | functor sendTo => exact functorStep_front h
  | execution e => exact executionStep_front h
  | abort i => exact actOn_front h
  | setTimeout timeout => cases h; exact ⟨rfl, rfl⟩
  | setRfCommunicationMode rfMode => cases h; exact ⟨rfl, rfl⟩
  | setTimingParams params => cases h; exact ⟨rfl, rfl⟩
  | _ => cases hb

theorem step_registry {e : Event} (h : step s e = some s') :
    RegistryEffect s.registry e s'.registry := by
  cases hb : e.behind with
  | true => exact registryEffect_same (behind_front hb h).1
  | false =>
    cases e with
    | deliver message =>
      obtain ⟨receiver, rfl⟩ := deliver_effect h
      exact .same
    | receiver =>
      rcases receiverStep_registry h with hsame | ⟨f, _, hasync⟩
      · exact registryEffect_same hsame
      · rw [hasync]
        exact .async
    | registerAsyncMessageHandler _ _ => exact .registerAsync (setRegistry_some h).1
    | unregisterAsyncMessageHandler _ => exact .unregisterAsync (setRegistry_some h).1
    | registerAnyMessageHandler _ _ => exact .registerAny (setRegistry_some h).1
    | unregisterAnyMessageHandler _ => exact .unregisterAny (setRegistry_some h).1
    | _ => cases hb

theorem registry_step {e : Event} (hr : s.registry.Harmless) (hC : Harmless e)
    (h : step s e = some s') : s'.registry.Harmless := by
  have heff := step_registry h
  generalize s'.registry = r' at heff
  cases heff with
  | same => exact hr
  | async =>
    rw [hr.processAsynchronousMessage]
    exact hr
  | registerAsync hreg => exact hr.registerAsync hC hreg
  | unregisterAsync hreg => exact hr.unregisterAsync hreg
  | registerAny hreg => exact hr.registerAny hC hreg
  | unregisterAny hreg => exact hr.unregisterAny hreg

end Registry

/-! ## The receive thread -/

theorem processAnyMessage_outcome (r : Registry) (m : DpaMessage) :
    r.processAnyMessage m = .blocked ∨ r.processAnyMessage m = .returned ∨
      ∃ x, r.processAnyMessage m = .threw x := by
  rw [Registry.processAnyMessage_eq]
  split
  · exact .inl rfl
  · split
    · exact .inr (.inl rfl)
    · exact .inr (.inr ⟨_, rfl⟩)

section Receiver

variable {s s' : State}

/-- Only the receive thread itself moves it. -/
theorem receiver_kept {e : Event} (hd : ∀ message, e ≠ .deliver message) (hr : e ≠ .receiver)
    (he : step s e = some s') : s'.receiver = s.receiver := by
  cases hb : e.behind with
  | true => exact (behind_front hb he).2
  | false =>
    cases e with
    | deliver message => exact absurd rfl (hd message)
    | receiver => exact absurd rfl hr
    | registerAsyncMessageHandler _ _ => exact (setRegistry_some he).2
    | unregisterAsyncMessageHandler _ => exact (setRegistry_some he).2
    | registerAnyMessageHandler _ _ => exact (setRegistry_some he).2
    | unregisterAnyMessageHandler _ => exact (setRegistry_some he).2
    | _ => cases hb

/-- What a step does to the receive thread. -/
inductive Receives (s : State) : Event → State → Prop where
  | other {e : Event} {s' : State} : e ≠ .receiver → s'.receiver = s.receiver → Receives s e s'
  | dropped {message : List UInt8} {last : Outcome} : s.receiver = .idle last →
      Receives s (.deliver message) { s with receiver := .idle .returned }
  | anyThrew {message : List UInt8} {last : Outcome} {f : Frame} {x : Exc} :
      s.receiver = .idle last → s.registry.processAnyMessage f.message = .threw x →
      Receives s (.deliver message) { s with receiver := .idle (.threw x) }
  | chosen {message : List UInt8} {last : Outcome} {f : Frame} : s.receiver = .idle last →
      Frame.ofString message = some f → Receives s (.deliver message)
        { s with receiver := if isAsynchronous f.message then .async f else .lookup f }
  | async {f : Frame} : s.receiver = .async f →
      Receives s .receiver { s with receiver := .idle .returned }
  | asyncThrew {f : Frame} {x : Exc} : s.receiver = .async f →
      Receives s .receiver { s with
        registry := { s.registry with asyncMessageMutex := true }
        receiver := .idle (.threw x) }
  | crash {f : Frame} : s.receiver = .lookup f → s.pendingTransaction = none →
      Receives s .receiver { s with receiver := .crashed }
  | lookup {f : Frame} {i : Nat} : s.receiver = .lookup f → s.pendingTransaction = some i →
      Receives s .receiver { s with receiver := .process i f }
  | process {f : Frame} {i : Nat} {o : Submission} : s.receiver = .process i f →
      Receives s .receiver (setTx { s with receiver := .idle .returned } i o)

theorem deliver_receives {message : List UInt8} (he : deliver s message = some s') :
    Receives s (.deliver message) s' := by
  unfold deliver at he
  split at he
  · rename_i last hidle
    split at he
    · cases he
      exact .dropped hidle
    · rename_i f hf
      rcases processAnyMessage_outcome s.registry f.message with ho | ho | ⟨x, ho⟩
      · rw [ho] at he
        cases he
      · rw [ho] at he
        cases he
        exact .chosen hidle hf
      · rw [ho] at he
        cases he
        exact .anyThrew hidle ho
  · cases he

theorem receiverStep_receives (he : receiverStep s = some s') : Receives s .receiver s' := by
  unfold receiverStep at he
  split at he
  · cases he
  · rename_i f hasync
    have hcases := s.registry.processAsynchronousMessage_cases f.message
    rcases hcases with ⟨_, hrun⟩ | ⟨_, _, hrun⟩ | ⟨_, _, x, hrun⟩
    · rw [hrun] at he
      cases he
    · rw [hrun] at he
      cases he
      exact .async hasync
    · rw [hrun] at he
      cases he
      exact .asyncThrew hasync
  · rename_i f hlookup
    split at he
    · cases he
      exact .crash hlookup ‹_›
    · cases he
      exact .lookup hlookup ‹_›
  · rename_i i f hprocess
    obtain ⟨o, x, _, _, rfl⟩ := actOn_some he
    exact .process hprocess
  · cases he

theorem step_receives {e : Event} (he : step s e = some s') : Receives s e s' := by
  by_cases hd : ∃ message, e = .deliver message
  · obtain ⟨message, rfl⟩ := hd
    exact deliver_receives he
  · by_cases hr : e = .receiver
    · subst hr
      exact receiverStep_receives he
    · exact .other hr (receiver_kept (fun message heq => hd ⟨message, heq⟩) hr he)

end Receiver

/-! ## The pending transaction exists -/

section Pending

variable {s s' : State}

def PendingKnown (s : State) : Prop := ∀ i, s.pendingTransaction = some i → s.tx i ≠ none

theorem pending_effect {e : Event} (he : Effect s e s') :
    s'.pendingTransaction = s.pendingTransaction ∨
      ∃ i, s.functor = .assign i ∧ s'.pendingTransaction = some i := by
  cases he with
  | submit _ => exact .inl (submit_pendingTransaction _ _ _ _ _)
  | @client t q _ =>
    left
    obtain ⟨tx, htx⟩ := noteAhead_fields s t
    rw [htx]
  | assign hf => exact .inr ⟨_, hf, rfl⟩
  | _ => exact .inl rfl

theorem pendingKnown_step {e : Event} (hok : Ok s) (h : PendingKnown s) (he : Effect s e s') :
    PendingKnown s' := by
  intro i hi
  have hknown : s.tx i ≠ none := by
    rcases pending_effect he with hsame | ⟨j, hf, hj⟩
    · exact h i (hsame.symm.trans hi)
    · cases hj.symm.trans hi
      obtain ⟨pre, hs⟩ := hok.serial
      intro hnone
      refine (given_facts hok.base hok.pushes).2 i hnone ?_
      rw [hs.given, hf]
      exact List.mem_append_right _ (List.mem_singleton_self i)
  have htx := step_tx hok.base he i
  generalize hold : s.tx i = old at htx hknown
  generalize hnew : s'.tx i = new at htx
  cases htx with
  | same => exact hknown
  | _ => exact Option.some_ne_none _

end Pending

/-! ## The condition -/

/-- A state reached with harmless handlers. -/
structure Sane (s : State) : Prop where
  reachable : Machine.Reachable step init s
  registry : s.registry.Harmless
  pending : PendingKnown s

theorem Sane.next {s s' : State} {e : Event} (h : Sane s) (hC : Harmless e)
    (he : step s e = some s') : Sane s' :=
  ⟨h.reachable.next he, registry_step h.registry hC he,
    pendingKnown_step (ok_reachable h.reachable) h.pending (step_effect he)⟩

theorem sane_exec {es : List Event} {s : State} (hes : ∀ e ∈ es, Harmless e)
    (hrun : Machine.exec step init es = some s) : Sane s := by
  refine (Machine.Steps.of_mem fun _ e he => hes e he).exec_inv (I := Sane)
    (C := fun _ e => Harmless e) ?_ ⟨.refl _, Registry.harmless_init, nofun⟩ hrun
  exact fun _ _ _ hI hC he => hI.next hC he

/-- The pending transaction's mutex is free. -/
theorem pendingExec_cases {s : State} (h : Sane s) :
    (s.pendingTransaction = none ∧ pendingExec s = none) ∨
      (s.pendingTransaction ≠ none ∧ ∃ x, pendingExec s = some x ∧ x.pc ≠ .spinning) := by
  unfold pendingExec
  cases hp : s.pendingTransaction with
  | none => exact .inl ⟨rfl, rfl⟩
  | some i =>
    right
    obtain ⟨o, ho⟩ := Option.ne_none_iff_exists'.mp (h.pending i hp)
    refine ⟨Option.some_ne_none i, o.exec, by simp [ho], ?_⟩
    exact (txOk h.reachable ho).timed.waits

/-! ## The function and the thread -/

/-- Where the receive thread is after a call that ended with `o`. -/
def ended : Outcome → ReceiverPc
  | .nullPointer => .crashed
  | o => .idle o

section Run

variable {s : State}

theorem pendingExec_some {i : Nat} {x : Execution.State} (hp : s.pendingTransaction = some i)
    (hx : pendingExec s = some x) : ∃ o, s.tx i = some o ∧ o.exec = x := by
  rw [pendingExec, hp] at hx
  exact Option.map_eq_some_iff.mp hx

/-- The receive thread's own steps from a frame to its transaction. -/
theorem lookup_run {f : Frame} (hpc : s.receiver = .lookup f) {i : Nat} {x : Execution.State}
    (hp : s.pendingTransaction = some i) (hx : pendingExec s = some x) (hspin : x.pc ≠ .spinning) :
    ∃ s', Machine.exec step s [.receiver, .receiver] = some s' ∧
      s'.receiver = .idle .returned ∧ s'.registry = s.registry ∧
      pendingExec s' = some (Execution.received x f.message) := by
  obtain ⟨o, ho, hox⟩ := pendingExec_some hp hx
  have hlookup : step s .receiver = some { s with receiver := .process i f } := by
    simp [step, receiverStep, hpc, hp]
  have hreceive : Execution.step o.exec (.receive f) = some (Execution.received x f.message) := by
    simp [Execution.step, hox, hspin]
  refine ⟨setTx { s with receiver := .idle .returned } i
    { o with exec := Execution.received x f.message }, ?_, rfl, rfl, ?_⟩
  · rw [Machine.exec_cons_some hlookup, Machine.exec_single]
    simp [step, receiverStep, actOn, ho, hreceive]
  · simp [pendingExec, setTx, hp]

/-- From a frame for the transaction to the end of the call. -/
theorem transaction_run (h : PendingKnown s) {f : Frame} (hpc : s.receiver = .lookup f)
    {r : Registry} {pending : Option Execution.State} {o : Outcome}
    (hrun : (match pendingExec s with
      | none => ((s.registry, none), .nullPointer)
      | some x =>
        if x.pc = .spinning then ((s.registry, some x), .blocked)
        else ((s.registry, some (Execution.received x f.message)), .returned)) =
          ((r, pending), o))
    (hends : o ≠ .blocked) :
    ∃ n s', Machine.exec step s (List.replicate n .receiver) = some s' ∧
      s'.receiver = ended o ∧ s'.registry = r ∧ pendingExec s' = pending := by
  cases hp : s.pendingTransaction with
  | none =>
    have hx : pendingExec s = none := by simp [pendingExec, hp]
    rw [hx] at hrun
    cases hrun
    refine ⟨1, { s with receiver := .crashed }, ?_, rfl, rfl, hx⟩
    simp [Machine.exec, step, receiverStep, hpc, hp]
  | some i =>
    obtain ⟨sub, hsub⟩ := Option.ne_none_iff_exists'.mp (h i hp)
    have hx : pendingExec s = some sub.exec := by simp [pendingExec, hp, hsub]
    simp only [hx] at hrun
    by_cases hspin : sub.exec.pc = .spinning
    · rw [if_pos hspin] at hrun
      cases hrun
      exact absurd rfl hends
    · rw [if_neg hspin] at hrun
      cases hrun
      obtain ⟨s', hexec, hend⟩ := lookup_run hpc hp hx hspin
      exact ⟨2, s', hexec, hend⟩

/-- The receive thread's own step from an asynchronous frame. -/
theorem async_run {f : Frame} (hpc : s.receiver = .async f) {r : Registry} {o : Outcome}
    (hout : s.registry.processAsynchronousMessage f.message = (r, o)) (hends : o ≠ .blocked) :
    step s .receiver = some { s with registry := r, receiver := ended o } := by
  have hnull := Registry.processAsynchronousMessage_ne_nullPointer s.registry f.message
  rw [hout] at hnull
  simp only [step, receiverStep, hpc, hout]
  cases o with
  | blocked => exact absurd rfl hends
  | nullPointer => exact absurd rfl hnull
  | _ => rfl

/-- A call of `ResponseMessageHandler` that ends, ends the same way on the receive thread when
no other thread moves meanwhile. -/
theorem responseMessageHandler_run (h : PendingKnown s) {last : Outcome}
    (hidle : s.receiver = .idle last) (uninit : Int) (message : List UInt8)
    {r : Registry} {pending : Option Execution.State} {o : Outcome}
    (hrun : responseMessageHandler uninit s.registry (pendingExec s) message = ((r, pending), o))
    (hends : o ≠ .blocked) :
    ∃ n s', Machine.exec step s (.deliver message :: List.replicate n .receiver) = some s' ∧
      s'.receiver = ended o ∧ s'.registry = r ∧ pendingExec s' = pending := by
  cases hf : Frame.ofString message with
  | none =>
    rw [responseMessageHandler_none hf] at hrun
    cases hrun
    refine ⟨0, { s with receiver := .idle .returned }, ?_, rfl, rfl, rfl⟩
    simp [Machine.exec, step, deliver, hidle, hf]
  | some f =>
    rw [responseMessageHandler_of_frame hf] at hrun
    cases hany : s.registry.processAnyMessage f.message with
    | blocked =>
      rw [hany] at hrun
      cases hrun
      exact absurd rfl hends
    | nullPointer => exact absurd hany (Registry.processAnyMessage_ne_nullPointer f.message)
    | threw e =>
      rw [hany] at hrun
      cases hrun
      refine ⟨0, { s with receiver := .idle (.threw e) }, ?_, rfl, rfl, rfl⟩
      simp [Machine.exec, step, deliver, hidle, hf, hany]
    | returned =>
      simp only [hany] at hrun
      cases hasync : isAsynchronous f.message with
      | true =>
        have hdeliver : step s (.deliver message) = some { s with receiver := .async f } := by
          simp [step, deliver, hidle, hf, hany, hasync]
        rw [if_pos hasync] at hrun
        cases hout : s.registry.processAsynchronousMessage f.message with
        | mk r' o' =>
          rw [hout] at hrun
          cases hrun
          refine ⟨1, { s with registry := r', receiver := ended o' }, ?_, rfl, rfl, rfl⟩
          rw [Machine.exec_cons_some hdeliver]
          show Machine.exec step _ [.receiver] = _
          rw [Machine.exec_single]
          exact @async_run { s with receiver := .async f } f rfl r' o' hout hends
      | false =>
        have hdeliver : step s (.deliver message) = some { s with receiver := .lookup f } := by
          simp [step, deliver, hidle, hf, hany, hasync]
        simp only [hasync, Bool.false_eq_true, if_false] at hrun
        obtain ⟨n, s', hexec, hend⟩ :=
          @transaction_run { s with receiver := .lookup f } h f rfl r pending o hrun hends
        exact ⟨n, s', (Machine.exec_cons_some hdeliver).trans hexec, hend⟩

end Run

/-- In every state reached with handlers that do not throw, `ResponseMessageHandler` returns
normally in exactly two cases: the frame does not get as far as the pending transaction, or there
is one. -/
theorem handler_returns_iff {es : List Event} {s : State} (hes : ∀ e ∈ es, Harmless e)
    (hrun : Machine.exec step init es = some s) (uninit : Int) (message : List UInt8) :
    (responseMessageHandler uninit s.registry (pendingExec s) message).2 = .returned ↔
      ¬ ForTransaction message ∨ s.pendingTransaction ≠ none := by
  have hsane := sane_exec hes hrun
  cases hf : Frame.ofString message with
  | none =>
    rw [responseMessageHandler_none hf]
    have hnot : ¬ ForTransaction message := by
      rintro ⟨f, hsome, _⟩
      rw [hf] at hsome
      cases hsome
    exact ⟨fun _ => .inl hnot, fun _ => rfl⟩
  | some f =>
    have hfor : ForTransaction message ↔ isAsynchronous f.message = false := by
      constructor
      · rintro ⟨f', hsome, hasync⟩
        rw [hf] at hsome
        cases hsome
        exact hasync
      · exact fun hasync => ⟨f, hf, hasync⟩
    rw [responseMessageHandler_of_frame hf, hsane.registry.processAnyMessage, hfor]
    cases hasync : isAsynchronous f.message with
    | true => simp [hsane.registry.processAsynchronousMessage]
    | false =>
      rcases pendingExec_cases hsane with ⟨hp, hx⟩ | ⟨hp, x, hx, hspin⟩
      · simp [hp, hx]
      · simp [hp, hx, hspin]

/-- The response comes when its transaction is published. -/
theorem handler_returns_iff_ledPulse :
    ∃ s, Machine.exec step init (submitLedPulse 0 ++ dequeue ++ [.functor channelUp]) = some s ∧
      (responseMessageHandler 0 s.registry (pendingExec s) ledPulseResponse.bytes).2 =
        .returned := by
  have hrun : ∃ s, Machine.exec step init (submitLedPulse 0 ++ dequeue ++ [.functor channelUp]) =
      some s ∧ s.pendingTransaction = some 0 :=
    ⟨_, rfl, rfl⟩
  obtain ⟨s, hexec, hpending⟩ := hrun
  have hharmless : ∀ e ∈ submitLedPulse 0 ++ dequeue ++ [.functor channelUp], Harmless e := by
    simp [submitLedPulse, dequeue, Harmless]
  exact ⟨s, hexec, (handler_returns_iff hharmless hexec 0 ledPulseResponse.bytes).mpr
    (.inr (by rw [hpending]; nofun))⟩

/-- A response that comes before the first transaction. -/
theorem unsolicited_response_crashes :
    (responseMessageHandler 0 init.registry (pendingExec init) ledPulseResponse.bytes).2 =
      .nullPointer :=
  rfl

/-! ## Other threads meanwhile -/

/-- No call of `ResponseMessageHandler` has gone through the empty pointer or let an exception
out. -/
def Unhurt (s : State) : Prop :=
  s.receiver ≠ .crashed ∧ ∀ x, s.receiver ≠ .idle (.threw x)

/-- When the receive thread takes `m_pendingTransaction`, the worker has set it. -/
def Prepared (s : State) (e : Event) : Prop :=
  e = .receiver → (∃ f, s.receiver = .lookup f) → s.pendingTransaction ≠ none

/-- A call that other threads interleave with, up to any of its steps: in every run with handlers
that do not throw, all calls have returned normally or go on if and only if none of them comes to
the pending transaction before there is one. What counts is the moment of that step: a transaction
that the worker takes after the delivery is in time. -/
theorem interleaved_returns_iff {es : List Event} (hes : ∀ e ∈ es, Harmless e) :
    Machine.States step Unhurt init es ↔ Machine.Steps step Prepared init es := by
  refine Machine.states_iff_steps (I := fun s => Sane s ∧ Unhurt s) (D := Harmless) ?_
    (fun _ h => h.2) ?_ hes
    ⟨⟨.refl _, Registry.harmless_init, nofun⟩, by simp [init], by simp [init]⟩
  · rintro s e s' hD ⟨hsane, hun⟩ hC he
    have hsane' := hsane.next hD he
    refine ⟨hsane', ?_⟩
    cases step_receives he with
    | other _ hsame => simpa only [Unhurt, hsame] using hun
    | anyThrew _ hany =>
      rw [hsane.registry.processAnyMessage] at hany
      cases hany
    | asyncThrew _ => cases hsane'.registry.asyncFree
    | chosen _ _ => simp only [Unhurt]; split <;> simp
    | crash hlookup hnone => exact absurd hnone (hC rfl ⟨_, hlookup⟩)
    | dropped _ => simp [Unhurt]
    | async _ => simp [Unhurt]
    | lookup _ _ => simp [Unhurt]
    | process _ => simp [Unhurt, setTx]
  · rintro s e s' _ _ hC he ⟨hsafe, _⟩
    simp only [Prepared, Classical.not_imp, not_not] at hC
    obtain ⟨rfl, ⟨f, hlookup⟩, hnone⟩ := hC
    simp only [step, receiverStep, hlookup, hnone] at he
    cases he
    exact hsafe rfl

-- the worker publishes the transaction after the frame has come and before it is looked up
example : (Machine.exec step init ([.deliver ledPulseResponse.bytes] ++ submitLedPulse 0 ++
    dequeue ++ [.functor channelUp, .receiver, .receiver])).map State.receiver =
    some (.idle .returned) := rfl

end Handler

end ClibDpa
