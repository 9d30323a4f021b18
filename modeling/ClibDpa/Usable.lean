import ClibDpa.Route

/-!
# ClibDpa.Usable

What a user handler that throws leaves behind. `processAnyMessage` and the four registration methods
hold their mutex in a `lock_guard`, so an exception lets it go. `processAsynchronousMessage` locks
and unlocks by hand, and the exception of the asynchronous handler passes over its `unlock()`.

* `Usable`            — both mutexes are free, the registries are as before, and every later call
  is processed as after a call whose handlers returned.
* `ThrowsOn`          — the frame gets as far as the asynchronous handler, and that throws.
* `responseMessageHandler_usable_iff` — one call of `ResponseMessageHandler`, by that condition.
* `dispatches_iff`    — the same over the runs of the whole handler.
* `stuck_reachable`   — what a mutex that was left locked does to the receive thread.
-/

namespace ClibDpa

open Registry Services

/-- The call has returned, or an exception has left it. -/
def Outcome.Ended : Outcome → Prop
  | .returned | .threw _ => True
  | .blocked | .nullPointer => False

namespace Registry

/-- No mutex was left locked. -/
structure Free (r : Registry) : Prop where
  async : r.asyncMessageMutex = false
  any : r.anyMessageMutex = false

/-- The dispatcher between two calls, with these handlers. -/
def holding (async : MessageHandlerFunc) (any : Handlers) : Registry := ⟨async, false, any, false⟩

theorem holding_free (async : MessageHandlerFunc) (any : Handlers) : (holding async any).Free :=
  ⟨rfl, rfl⟩

/-- The frame is accepted, it is for the asynchronous handler, no any-message handler keeps it from
getting there, and that handler throws. -/
def ThrowsOn (r : Registry) (message : List UInt8) : Prop :=
  ∃ f, Frame.ofString message = some f ∧ isAsynchronous f.message = true ∧
    r.AllReturn f.message ∧ r.AsyncThrows f.message

/-- The handlers, each made to return. -/
def returning (r : Registry) : Registry :=
  { r with
    asyncMessageHandler := r.asyncMessageHandler.map fun _ _ => .ok ()
    anyMessageHandlerMap := r.anyMessageHandlerMap.map fun p => (p.1, some fun _ => .ok ()) }

/-- The registries with the locks as the same call leaves them when every handler returns. -/
def asIfReturned (uninit : Int) (r : Registry) (pending : Option Execution.State)
    (message : List UInt8) : Registry :=
  let after := (responseMessageHandler uninit r.returning pending message).1.1
  { r with
    asyncMessageMutex := after.asyncMessageMutex
    anyMessageMutex := after.anyMessageMutex }

/-- `before` and `after` the call; `asIf` is what it leaves when its handlers return. -/
structure Usable (before after asIf : Registry) : Prop where
  free : after.Free
  async : after.asyncMessageHandler = before.asyncMessageHandler
  any : after.anyMessageHandlerMap = before.anyMessageHandlerMap
  later : ∀ (s : Services.State) (es : List Services.Event),
    Machine.exec Services.step { s with registry := after } es =
      Machine.exec Services.step { s with registry := asIf } es

/-! ## One call -/

section Call

variable {r : Registry} {m : DpaMessage} {message : List UInt8}

theorem callAll_ok_iff {handlers : Handlers} :
    callAll m handlers = .ok () ↔ ∀ p ∈ handlers, p.2.call m = .ok () := by
  refine ⟨fun h => ?_, callAll_ok⟩
  rcases first_throws handlers m with hall | ⟨before, key, handler, after, e, rfl, hbefore, herr⟩
  · exact hall
  · rw [callAll_append hbefore] at h
    simp only [callAll_cons, herr] at h
    cases h

theorem processAnyMessage_returned_iff (hfree : r.anyMessageMutex = false) :
    r.processAnyMessage m = .returned ↔ r.AllReturn m := by
  rw [AllReturn, ← callAll_ok_iff]
  simp only [processAnyMessage_eq, hfree, Bool.false_eq_true, if_false]
  cases callAll m r.anyMessageHandlerMap with
  | ok _ => simp
  | error e => simp

theorem processAsynchronousMessage_locked (hfree : r.asyncMessageMutex = false)
    (h : r.AsyncThrows m) :
    ∃ e, r.processAsynchronousMessage m = ({ r with asyncMessageMutex := true }, .threw e) := by
  rcases processAsynchronousMessage_cases r m with ⟨hlock, _⟩ | ⟨_, hnot, _⟩ | ⟨_, _, hrun⟩
  · rw [hfree] at hlock
    cases hlock
  · exact absurd h hnot
  · exact hrun

theorem registry_kept (hfree : r.Free) (h : ¬ r.ThrowsOn message) (uninit : Int)
    (pending : Option Execution.State) :
    (responseMessageHandler uninit r pending message).1.1 = r := by
  rcases responseMessageHandler_registry uninit r pending message with
    hsame | ⟨f, hf, hasync, hany, heq⟩
  · exact hsame
  · rw [heq]
    refine processAsynchronousMessage_kept fun hthrows => h ⟨f, hf, hasync, ?_, hthrows⟩
    exact (processAnyMessage_returned_iff hfree.any).mp hany

theorem registry_locked (hfree : r.Free) (h : r.ThrowsOn message) (uninit : Int)
    (pending : Option Execution.State) :
    ∃ e, responseMessageHandler uninit r pending message =
      (({ r with asyncMessageMutex := true }, pending), .threw e) := by
  obtain ⟨f, hf, hasync, hall, hthrows⟩ := h
  obtain ⟨e, hlocked⟩ := processAsynchronousMessage_locked hfree.async hthrows
  refine ⟨e, ?_⟩
  rw [responseMessageHandler_of_frame hf, (processAnyMessage_returned_iff hfree.any).mpr hall,
    hlocked]
  simp [hasync]

theorem returning_not_throwsOn (r : Registry) (message : List UInt8) :
    ¬ r.returning.ThrowsOn message := by
  rintro ⟨f, _, _, _, h, e, hh, he⟩
  obtain ⟨_, _, rfl⟩ := Option.map_eq_some_iff.mp hh
  cases he

/-- Handlers that return leave the locks as they were. -/
theorem asIfReturned_eq (hfree : r.Free) (uninit : Int) (pending : Option Execution.State)
    (message : List UInt8) : asIfReturned uninit r pending message = r := by
  have hreturning : r.returning.Free := ⟨hfree.async, hfree.any⟩
  rw [asIfReturned, registry_kept hreturning (returning_not_throwsOn r message)]
  rfl

theorem usable_refl (hfree : r.Free) : Usable r r r := ⟨hfree, rfl, rfl, fun _ _ => rfl⟩

/-- A call leaves the dispatcher usable unless its frame gets to an asynchronous handler that
throws on it. -/
theorem responseMessageHandler_usable_iff (hfree : r.Free) (uninit : Int)
    (pending : Option Execution.State) (message : List UInt8) :
    ((responseMessageHandler uninit r pending message).2.Ended →
      Usable r (responseMessageHandler uninit r pending message).1.1
        (asIfReturned uninit r pending message)) ↔ ¬ r.ThrowsOn message := by
  constructor
  · intro h hthrows
    obtain ⟨e, heq⟩ := registry_locked hfree hthrows uninit pending
    rw [heq] at h
    have hlocked : true = false := (h trivial).free.async
    cases hlocked
  · intro h _
    rw [registry_kept hfree h, asIfReturned_eq hfree]
    exact usable_refl hfree

end Call

end Registry

/-! ## Every run of the handler -/

namespace Handler

/-- The receive thread does not call an asynchronous handler that throws. -/
def AsyncReturns (s : State) : Event → Prop
  | .receiver => ∀ f, s.receiver = .async f → ¬ s.registry.AsyncThrows f.message
  | _ => True

/-- Both mutexes are free: no call of the registries waits for one, and no frame does. -/
structure Dispatches (s : State) : Prop where
  free : s.registry.Free
  registers : ∀ serviceId handler,
    step s (.registerAsyncMessageHandler serviceId handler) ≠ none ∧
      step s (.registerAnyMessageHandler serviceId handler) ≠ none
  unregisters : ∀ serviceId,
    step s (.unregisterAsyncMessageHandler serviceId) ≠ none ∧
      step s (.unregisterAnyMessageHandler serviceId) ≠ none
  delivers : ∀ last, s.receiver = .idle last → ∀ message, step s (.deliver message) ≠ none
  calls : ∀ f, s.receiver = .async f → step s .receiver ≠ none

section Run

variable {s s' : State} {r r' : Registry} {e : Event}

theorem free_dispatches (h : s.registry.Free) : Dispatches s where
  free := h
  registers := by
    intro serviceId handler
    simp [step, setRegistry, registerAsyncMessageHandler, registerAnyMessageHandler, h.async, h.any]
  unregisters := by
    intro serviceId
    simp [step, setRegistry, unregisterAsyncMessageHandler, unregisterAnyMessageHandler, h.async,
      h.any]
  delivers := by
    intro last hidle message
    simp only [step, deliver, hidle]
    cases Frame.ofString message with
    | none => simp
    | some f =>
      simp only [processAnyMessage_eq, h.any]
      cases callAll f.message s.registry.anyMessageHandlerMap with
      | ok _ => simp
      | error e => simp
  calls := by
    intro f hpc
    have hends := processAsynchronousMessage_ne_blocked h.async f.message
    simp only [step, receiverStep, hpc]
    exact Option.some_ne_none _

/-- Only the receive thread can leave a mutex locked, and only the one of the asynchronous
handler. -/
theorem RegistryEffect.mutexes (h : RegistryEffect r e r') :
    r'.anyMessageMutex = r.anyMessageMutex ∧
      (r'.asyncMessageMutex = r.asyncMessageMutex ∨
        e = .receiver ∧ r.asyncMessageMutex = false) := by
  cases h with
  | same => exact ⟨rfl, .inl rfl⟩
  | @async f =>
    rcases processAsynchronousMessage_cases r f.message with
      ⟨_, hrun⟩ | ⟨_, _, hrun⟩ | ⟨hfree, _, exc, hrun⟩
    · rw [hrun]
      exact ⟨rfl, .inl rfl⟩
    · rw [hrun]
      exact ⟨rfl, .inl rfl⟩
    · rw [hrun]
      exact ⟨rfl, .inr ⟨rfl, hfree⟩⟩
  | registerAsync hr =>
    obtain rfl := registerAsync_some hr
    exact ⟨rfl, .inl rfl⟩
  | unregisterAsync hr =>
    obtain rfl := unregisterAsync_some hr
    exact ⟨rfl, .inl rfl⟩
  | registerAny hr =>
    obtain rfl := registerAny_some hr
    exact ⟨rfl, .inl rfl⟩
  | unregisterAny hr =>
    obtain rfl := unregisterAny_some hr
    exact ⟨rfl, .inl rfl⟩

theorem free_step (h : s.registry.Free) (hC : AsyncReturns s e) (he : step s e = some s') :
    s'.registry.Free := by
  by_cases hrec : e = .receiver
  · subst hrec
    rcases receiverStep_registry he with hsame | ⟨f, hpc, hasync⟩
    · rw [hsame]
      exact h
    · rw [hasync, processAsynchronousMessage_kept (hC f hpc)]
      exact h
  · obtain ⟨hany, hasync⟩ := (step_registry he).mutexes
    have hsame := hasync.resolve_right fun hr => hrec hr.1
    exact ⟨hsame.trans h.async, hany.trans h.any⟩

theorem locked_step (h : s.registry.Free) (hC : ¬ AsyncReturns s e) (he : step s e = some s') :
    ¬ s'.registry.Free := by
  cases e with
  | receiver =>
    simp only [AsyncReturns, not_forall, not_not] at hC
    obtain ⟨f, hpc, hthrows⟩ := hC
    obtain ⟨exc, hlocked⟩ := processAsynchronousMessage_locked h.async hthrows
    simp only [step, receiverStep, hpc, hlocked, Option.some.injEq] at he
    subst he
    intro hfree
    have hasync : true = false := hfree.async
    cases hasync
  | _ => exact absurd trivial hC

/-- A receive thread that waits for a mutex that was left locked waits for ever, and so does who
registers or unregisters an asynchronous handler. -/
theorem stuck_step {f : Frame} (hlock : s.registry.asyncMessageMutex = true)
    (hpc : s.receiver = .async f) (he : step s e = some s') :
    s'.registry.asyncMessageMutex = true ∧ s'.receiver = .async f := by
  have hmutex : s'.registry.asyncMessageMutex = true := by
    rcases (step_registry he).mutexes.2 with hsame | ⟨_, hfree⟩
    · exact hsame.trans hlock
    · rw [hlock] at hfree
      cases hfree
  refine ⟨hmutex, ?_⟩
  cases hb : e.behind with
  | true => exact (behind_front hb he).2.trans hpc
  | false =>
    cases e with
    | deliver message => simp [step, deliver, hpc] at he
    | receiver => simp [step, receiverStep, hpc, processAsynchronousMessage_eq, hlock] at he
    | registerAsyncMessageHandler _ _ => exact (setRegistry_some he).2.trans hpc
    | unregisterAsyncMessageHandler _ => exact (setRegistry_some he).2.trans hpc
    | registerAnyMessageHandler _ _ => exact (setRegistry_some he).2.trans hpc
    | unregisterAnyMessageHandler _ => exact (setRegistry_some he).2.trans hpc
    | _ => cases hb

theorem dispatches_iff (es : List Event) :
    Machine.States step Dispatches init es ↔ Machine.Steps step AsyncReturns init es :=
  Machine.states_iff_steps (I := fun s => s.registry.Free) (D := fun _ => True)
    (fun _ _ _ _ h hC he => free_step h hC he) (fun _ h => free_dispatches h)
    (fun _ _ _ _ h hC he hd => locked_step h hC he hd.free) (fun _ _ => trivial) ⟨rfl, rfl⟩

/-- The deadlock shows at the next asynchronous frame, and nothing resolves it. -/
theorem stuck_reachable {f : Frame} (hlock : s.registry.asyncMessageMutex = true)
    (hpc : s.receiver = .async f) (h : Machine.Reachable step s s') :
    s'.registry.asyncMessageMutex = true ∧ s'.receiver = .async f ∧ step s' .receiver = none := by
  obtain ⟨hlock', hpc'⟩ := h.inv
    (I := fun s => s.registry.asyncMessageMutex = true ∧ s.receiver = .async f)
    (fun _ _ _ hI he => stuck_step hI.1 hI.2 he) ⟨hlock, hpc⟩
  refine ⟨hlock', hpc', ?_⟩
  simp [step, receiverStep, hpc', processAsynchronousMessage_eq, hlock']

end Run

/-- Whatever handlers are registered and whichever of them throw, a call of
`ResponseMessageHandler` that ends leaves the dispatcher usable unless its frame gets to an
asynchronous handler that throws. With all threads: the dispatcher is usable throughout a run in
which the receive thread meets no such handler, and in no other. -/
theorem dispatcher_usable_iff (async : MessageHandlerFunc) (any : Handlers) (uninit : Int)
    (pending : Option Execution.State) (message : List UInt8) (es : List Event) :
    (((responseMessageHandler uninit (holding async any) pending message).2.Ended →
      Usable (holding async any)
        (responseMessageHandler uninit (holding async any) pending message).1.1
        (asIfReturned uninit (holding async any) pending message)) ↔
      ¬ (holding async any).ThrowsOn message) ∧
    (Machine.States step Dispatches init es ↔ Machine.Steps step AsyncReturns init es) :=
  ⟨responseMessageHandler_usable_iff (holding_free async any) uninit pending message,
    dispatches_iff es⟩

/-- The asynchronous handler throws on a request: nobody can register or unregister one any more,
and the next request blocks the thread that brings it. -/
theorem throwing_handler_locks :
    ∃ after,
      responseMessageHandler 0 (holding (some throws) []) none ledPulse.bytes =
        ((after, none), .threw (.other "failed")) ∧
      after.asyncMessageMutex = true ∧
      after.registerAsyncMessageHandler "a" returns = none ∧
      after.unregisterAsyncMessageHandler "a" = none ∧
      (responseMessageHandler 0 after none ledPulse.bytes).2 = .blocked ∧
      ¬ Usable (holding (some throws) []) after
        (asIfReturned 0 (holding (some throws) []) none ledPulse.bytes) := by
  refine ⟨⟨some throws, true, [], false⟩, rfl, rfl, rfl, rfl, rfl, fun h => ?_⟩
  have hlocked : true = false := h.free.async
  cases hlocked

end Handler

end ClibDpa
