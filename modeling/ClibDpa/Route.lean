import ClibDpa.Services

/-!
# ClibDpa.Route

Where a received frame goes, over its raw bytes and in every reachable state of the handler with a
pending transaction. The any-message handlers come first, in the order of their services; the one
that throws ends the call. If none does the frame goes on to one place.

* `GoesToTransaction` — the rule, over bytes and length; `goes_iff` compares it with the code's.
* `Routed`            — the three ways a call of `ResponseMessageHandler` ends.
* `frame_routed`      — every call is one of them.
-/

namespace ClibDpa

open Registry Services

/-- A response without the asynchronous bit, as far as it has a ResponseCode, or a confirmation. -/
def GoesToTransaction (b : List UInt8) : Prop :=
  (4 ≤ b.length ∧ b.getD 3 0 &&& 0x80 ≠ 0 ∧ (b.length < 7 ∨ b.getD 6 0 &&& 0x80 = 0)) ∨
  (7 ≤ b.length ∧ b.getD 3 0 &&& 0x80 = 0 ∧ b.getD 6 0 = 0xff)

/-- A frame that is no response and no confirmation is a request. -/
theorem request_iff (m : DpaMessage) : m.messageDirection = .request ↔
    m.messageDirection ≠ .response ∧ m.messageDirection ≠ .confirmation := by
  unfold DpaMessage.messageDirection
  split
  · simp
  · split
    · simp
    · split <;> simp

/-- A frame that ends before ResponseCode has the asynchronous bit clear. -/
theorem Frame.async_bit (f : Frame) :
    f.message.responseCodeField &&& statusAsyncResponse = 0 ↔
      f.bytes.length < 7 ∨ f.bytes.getD 6 0 &&& 0x80 = 0 := by
  rw [f.responseCodeField_eq]
  constructor
  · exact fun h => .inr h
  · rintro (hlen | hbit)
    · have hzero : f.bytes.getD 6 0 = 0 := by
        simp [List.getElem?_eq_none (show f.bytes.length ≤ 6 by omega)]
      rw [hzero]
      decide
    · exact hbit

theorem goes_iff (f : Frame) : isAsynchronous f.message = false ↔ GoesToTransaction f.bytes := by
  have hcode : statusConfirmation = 0xff := rfl
  have hsplit : isAsynchronous f.message = false ↔
      (f.message.messageDirection = .response ∧
        f.message.responseCodeField &&& statusAsyncResponse = 0) ∨
      f.message.messageDirection = .confirmation := by
    simp only [isAsynchronous, Bool.or_eq_false_iff, Bool.and_eq_false_iff,
      decide_eq_false_iff_not, request_iff]
    by_cases hr : f.message.messageDirection = .response
    · simp [hr]
    · simp [hr]
  rw [hsplit, f.response_iff, f.confirmation_iff, f.async_bit, hcode, GoesToTransaction, and_assoc]

/-! ## The any-message handlers -/

namespace Registry

/-- Every any-message handler is callable and returns. -/
def AllReturn (r : Registry) (m : DpaMessage) : Prop :=
  ∀ p ∈ r.anyMessageHandlerMap, p.2.call m = .ok ()

/-- Each of them is called. -/
theorem anyCalls_length {r : Registry} {m : DpaMessage} (h : r.AllReturn m) :
    (anyCalls m r.anyMessageHandlerMap).length = r.anyMessageHandlerMap.length := by
  refine List.filterMap_length_eq_length.mpr fun p hp => ?_
  obtain ⟨g, hg, _⟩ := call_ok_some (h p hp)
  simp [hg]

/-- All return, or there is a first one that throws. -/
theorem first_throws (handlers : Handlers) (m : DpaMessage) :
    (∀ p ∈ handlers, p.2.call m = .ok ()) ∨
      ∃ before key handler after e, handlers = before ++ (key, handler) :: after ∧
        (∀ p ∈ before, p.2.call m = .ok ()) ∧ handler.call m = .error e := by
  induction handlers with
  | nil => exact .inl nofun
  | cons p rest ih =>
    obtain ⟨key, handler⟩ := p
    cases hcall : handler.call m with
    | error e => exact .inr ⟨[], key, handler, rest, e, rfl, nofun, hcall⟩
    | ok _ =>
      rcases ih with hall | ⟨before, key', handler', after, e, rfl, hbefore, herr⟩
      · exact .inl (List.forall_mem_cons.mpr ⟨hcall, hall⟩)
      · exact .inr ⟨(key, handler) :: before, key', handler', after, e, rfl,
          List.forall_mem_cons.mpr ⟨hcall, hbefore⟩, herr⟩

/-- The any-message mutex is free, and the map has each service once. -/
structure Tidy (r : Registry) : Prop where
  anyFree : r.anyMessageMutex = false
  sorted : Sorted r.anyMessageHandlerMap

theorem tidy_init : Tidy init := ⟨rfl, List.Pairwise.nil⟩

section Tidy

variable {r r' : Registry} {serviceId : String} {handler : MessageHandlerFunc}

theorem Tidy.registerAsync (h : Tidy r)
    (hr : r.registerAsyncMessageHandler serviceId handler = some r') : Tidy r' := by
  obtain rfl := registerAsync_some hr
  exact ⟨h.anyFree, h.sorted⟩

theorem Tidy.unregisterAsync (h : Tidy r)
    (hr : r.unregisterAsyncMessageHandler serviceId = some r') : Tidy r' := by
  obtain rfl := unregisterAsync_some hr
  exact ⟨h.anyFree, h.sorted⟩

theorem Tidy.processAsynchronousMessage (h : Tidy r) (m : DpaMessage) :
    Tidy (r.processAsynchronousMessage m).1 := by
  rcases processAsynchronousMessage_cases r m with ⟨_, hrun⟩ | ⟨_, _, hrun⟩ | ⟨_, _, e, hrun⟩
  · rw [hrun]
    exact h
  · rw [hrun]
    exact h
  · rw [hrun]
    exact ⟨h.anyFree, h.sorted⟩

theorem Tidy.registerAny (h : Tidy r)
    (hr : (r.registerAnyMessageHandler serviceId handler).map Prod.fst = some r') : Tidy r' := by
  obtain rfl := registerAny_some hr
  exact ⟨h.anyFree, insert_sorted h.sorted⟩

theorem Tidy.unregisterAny (h : Tidy r)
    (hr : r.unregisterAnyMessageHandler serviceId = some r') : Tidy r' := by
  obtain rfl := unregisterAny_some hr
  exact ⟨h.anyFree, h.sorted.filter _⟩

theorem tidy_step {e : Handler.Event} (h : Tidy r) (he : Handler.RegistryEffect r e r') :
    Tidy r' := by
  cases he with
  | same => exact h
  | async => exact h.processAsynchronousMessage _
  | registerAsync hr => exact h.registerAsync hr
  | unregisterAsync hr => exact h.unregisterAsync hr
  | registerAny hr => exact h.registerAny hr
  | unregisterAny hr => exact h.unregisterAny hr

end Tidy

theorem processAsynchronousMessage_ne_blocked {r : Registry} (h : r.asyncMessageMutex = false)
    (m : DpaMessage) : (r.processAsynchronousMessage m).2 ≠ .blocked := by
  rcases processAsynchronousMessage_cases r m with ⟨hlock, _⟩ | ⟨_, _, hrun⟩ | ⟨_, _, e, hrun⟩
  · rw [h] at hlock
    cases hlock
  · rw [hrun]
    exact Outcome.noConfusion
  · rw [hrun]
    exact Outcome.noConfusion

end Registry

/-! ## The ways of a frame -/

/-- The calls that are made with the message, the pending transaction afterwards, and the end of the
call of `ResponseMessageHandler`. -/
inductive Routed (r : Registry) (x : Execution.State) (m : DpaMessage) :
    List Delivery → Option Execution.State → Outcome → Prop where
  | transaction : r.AllReturn m → GoesToTransaction m.bytes →
      Routed r x m (anyCalls m r.anyMessageHandlerMap ++ [.transaction m])
        (some (Execution.received x m)) .returned
  | async : r.AllReturn m → ¬ GoesToTransaction m.bytes →
      Routed r x m
        (anyCalls m r.anyMessageHandlerMap ++
          r.asyncMessageHandler.toList.map fun g => .async g m)
        (some x) (r.processAsynchronousMessage m).2
  | stopped {before after : Handlers} {key : String} {handler : MessageHandlerFunc} {e : Exc} :
      r.anyMessageHandlerMap = before ++ (key, handler) :: after →
      (∀ p ∈ before, p.2.call m = .ok ()) → handler.call m = .error e →
      Routed r x m (anyCalls m (before ++ [(key, handler)])) (some x) (.threw e)

theorem anyCalls_append (m : DpaMessage) (before after : Handlers) :
    anyCalls m (before ++ after) = anyCalls m before ++ anyCalls m after :=
  List.filterMap_append

/-- The one that throws is called, unless it is empty. -/
theorem callAllDeliveries_throws {m : DpaMessage} {key : String} {handler : MessageHandlerFunc}
    {after : Handlers} {e : Exc} (h : handler.call m = .error e) :
    callAllDeliveries m ((key, handler) :: after) = anyCalls m [(key, handler)] := by
  cases handler with
  | none => rfl
  | some g =>
    have hg : g m = .error e := h
    rw [callAllDeliveries_cons, hg]
    rfl

/-- Only the asynchronous handler's mutex could keep the call from ending. -/
theorem Routed.ends {r : Registry} {x : Execution.State} {m : DpaMessage} {calls : List Delivery}
    {after : Option Execution.State} {out : Outcome} (h : Routed r x m calls after out)
    (hfree : r.asyncMessageMutex = false ∨ GoesToTransaction m.bytes) : out ≠ .blocked := by
  cases h with
  | transaction _ _ => exact Outcome.noConfusion
  | async _ hnot => exact processAsynchronousMessage_ne_blocked (hfree.resolve_right hnot) m
  | stopped _ _ _ => exact Outcome.noConfusion

theorem routed {r : Registry} (ht : r.Tidy) {x : Execution.State} (hx : x.pc ≠ .spinning)
    {w : List UInt8} {f : Frame} (hf : Frame.ofString w = some f)
    (hfree : r.asyncMessageMutex = false ∨ GoesToTransaction f.bytes) (uninit : Int) :
    Routed r x f.message (deliveries uninit r (some x) w)
      (responseMessageHandler uninit r (some x) w).1.2
      (responseMessageHandler uninit r (some x) w).2 := by
  have hgoes := goes_iff f
  rw [← f.message_bytes] at hgoes
  rw [deliveries_of_frame hf, responseMessageHandler_of_frame hf, anyDeliveries_eq, ht.anyFree]
  simp only [Bool.false_eq_true, if_false]
  rcases first_throws r.anyMessageHandlerMap f.message with
    hall | ⟨before, key, handler, after, e, hmap, hbefore, herr⟩
  · have hany : r.processAnyMessage f.message = .returned := by
      simp [processAnyMessage_eq, ht.anyFree, callAll_ok hall]
    rw [hany, callAllDeliveries_ok hall]
    cases hasync : isAsynchronous f.message with
    | false =>
      simp only [Bool.false_eq_true, if_false, if_neg hx]
      exact .transaction hall (hgoes.mp hasync)
    | true =>
      have hnot : ¬ GoesToTransaction f.message.bytes := fun h => by
        rw [hgoes.mpr h] at hasync
        cases hasync
      have hmutex : r.asyncMessageMutex = false :=
        hfree.resolve_right fun h => hnot (f.message_bytes ▸ h)
      simp only [if_true, asyncDeliveries_of_free hmutex]
      exact .async hall hnot
  · have hany : r.processAnyMessage f.message = .threw e := by
      simp [processAnyMessage_eq, ht.anyFree, hmap, callAll_append hbefore, callAll_cons, herr]
    rw [hany, hmap, callAllDeliveries_append hbefore, callAllDeliveries_throws herr,
      ← anyCalls_append, List.append_nil]
    exact .stopped hmap hbefore herr

namespace Handler

theorem tidy_reachable {s : State} (h : Machine.Reachable step init s) : s.registry.Tidy :=
  h.inv (I := fun s => s.registry.Tidy) (fun _ _ _ hI he => tidy_step hI (step_registry he))
    tidy_init

theorem pendingKnown_reachable {s : State} (h : Machine.Reachable step init s) :
    PendingKnown s := by
  have hinv : Machine.Reachable step init s ∧ PendingKnown s := by
    refine h.inv (I := fun s => Machine.Reachable step init s ∧ PendingKnown s) ?_ ⟨.refl _, nofun⟩
    rintro s e s' ⟨hr, hp⟩ hstep
    exact ⟨hr.next hstep, pendingKnown_step (ok_reachable hr) hp (step_effect hstep)⟩
  exact hinv.2

/-- In every reachable state with a pending transaction, a frame of 1 to 64 bytes goes to the
any-message handlers, each at most once and in their order, up to the first that throws; if none
does, each has been called and the frame goes to exactly one place, by the rule over its bytes. The
receive thread alone does the same. -/
theorem frame_routed {s : State} (h : Machine.Reachable step init s) {i : Nat}
    (hp : s.pendingTransaction = some i) {b : List UInt8} (h1 : 1 ≤ b.length)
    (h64 : b.length ≤ 64)
    (hfree : s.registry.asyncMessageMutex = false ∨ GoesToTransaction b) (uninit : Int) :
    ∃ (x : Execution.State) (m : DpaMessage),
      pendingExec s = some x ∧ m.getLength = b.length ∧ m.bytes = b ∧
      (s.registry.anyMessageHandlerMap.map Prod.fst).Nodup ∧
      (s.registry.AllReturn m → (anyCalls m s.registry.anyMessageHandlerMap).length =
        s.registry.anyMessageHandlerMap.length) ∧
      Routed s.registry x m (deliveries uninit s.registry (some x) b)
        (responseMessageHandler uninit s.registry (some x) b).1.2
        (responseMessageHandler uninit s.registry (some x) b).2 ∧
      ∀ last, s.receiver = .idle last →
        ∃ n s', Machine.exec step s (.deliver b :: List.replicate n .receiver) = some s' ∧
          s'.receiver = ended (responseMessageHandler uninit s.registry (some x) b).2 ∧
          pendingExec s' = (responseMessageHandler uninit s.registry (some x) b).1.2 := by
  have hknown := pendingKnown_reachable h
  have htidy := tidy_reachable h
  obtain ⟨o, ho⟩ := Option.ne_none_iff_exists'.mp (hknown i hp)
  have hx : pendingExec s = some o.exec := by simp [pendingExec, hp, ho]
  obtain ⟨f, hf, hbytes⟩ := Frame.ofString_whole h1 h64
  have hroute := routed htidy (txOk h ho).timed.waits hf (by rwa [hbytes]) uninit
  refine ⟨o.exec, f.message, hx, ?_, ?_, sorted_nodup htidy.sorted, anyCalls_length, hroute,
    fun last hidle => ?_⟩
  · rw [← hbytes]
    rfl
  · rw [f.message_bytes, hbytes]
  · have hends := hroute.ends (by rwa [f.message_bytes, hbytes])
    rw [← hx] at hends ⊢
    obtain ⟨n, s', hrun, hrec, _, hpend⟩ :=
      responseMessageHandler_run hknown hidle uninit b rfl hends
    exact ⟨n, s', hrun, hrec, hpend⟩

/-- An LED pulse is being executed, and two services are registered. -/
def twoServices (a b : MessageHandlerFunc) : List Event :=
  submitLedPulse 0 ++ dequeue ++ executes channelUp ++
    [.registerAnyMessageHandler "a" a, .registerAnyMessageHandler "b" b]

/-- The response reaches both services and then the transaction. -/
theorem frame_routed_ledPulse :
    ∃ s x m, Machine.exec step init (twoServices returns returns) = some s ∧
      pendingExec s = some x ∧ m.bytes = ledPulseResponse.bytes ∧
      Routed s.registry x m (deliveries 0 s.registry (some x) ledPulseResponse.bytes)
        (responseMessageHandler 0 s.registry (some x) ledPulseResponse.bytes).1.2
        (responseMessageHandler 0 s.registry (some x) ledPulseResponse.bytes).2 := by
  have hrun : ∃ s, Machine.exec step init (twoServices returns returns) = some s ∧
      s.pendingTransaction = some 0 ∧ s.registry.asyncMessageMutex = false := ⟨_, rfl, rfl, rfl⟩
  obtain ⟨s, hexec, hp, hfree⟩ := hrun
  obtain ⟨x, m, hx, _, hm, _, _, hroute, _⟩ :=
    frame_routed ⟨_, hexec⟩ hp (b := ledPulseResponse.bytes) (by decide) (by decide) (.inl hfree) 0
  exact ⟨s, x, m, hexec, hx, hm, hroute⟩

def throws : DpaMessage → Except Exc Unit := fun _ => .error (.other "failed")

/-- The first service throws: the second one does not get the response, and neither does the
transaction. -/
theorem handler_throws_stops_frame :
    ∃ s, Machine.exec step init (twoServices (some throws) returns) = some s ∧
      s.pendingTransaction = some 0 ∧
      s.registry.anyMessageHandlerMap.map Prod.fst = ["a", "b"] ∧
      GoesToTransaction ledPulseResponse.bytes ∧
      deliveries 0 s.registry (pendingExec s) ledPulseResponse.bytes =
        [.any "a" throws ledPulseResponse.message] := by
  have hrun : ∃ s, Machine.exec step init (twoServices (some throws) returns) = some s ∧
      s.pendingTransaction = some 0 ∧ s.registry.anyMessageMutex = false ∧
      s.registry.anyMessageHandlerMap = [("a", some throws), ("b", returns)] :=
    ⟨_, rfl, rfl, rfl, rfl⟩
  obtain ⟨s, hexec, hp, hfree, hmap⟩ := hrun
  refine ⟨s, hexec, hp, by rw [hmap]; rfl, .inl (by decide), ?_⟩
  have hf : Frame.ofString ledPulseResponse.bytes = some ledPulseResponse := rfl
  have hthrows : MessageHandlerFunc.call (some throws) ledPulseResponse.message =
      .error (.other "failed") := rfl
  rw [deliveries_of_frame hf, anyDeliveries_eq, processAnyMessage_eq, hfree, hmap,
    callAllDeliveries_throws hthrows]
  rfl

end Handler

end ClibDpa
