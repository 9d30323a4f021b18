import ClibDpa.Dispatch

/-!
# ClibDpa.Deliver

Who gets a received frame: `deliveries` are the calls that `ResponseMessageHandler` makes with the
message, in their order.

* `responseMessageHandler_notes` — noting the calls changes nothing in what it comes back with.
* `deliveries_of_frame` — a frame goes to the any-message handlers, and then to one place.
* `whole_iff`           — which byte strings are taken whole or not at all. The length passes
  through `static_cast<uint8_t>` before it is checked: a string that is too long for a message is
  refused only if its length does not wrap to an acceptable one.
-/

namespace ClibDpa

open DpaTransaction2

namespace Delivery

def message : Delivery → DpaMessage
  | any _ _ m => m
  | async _ m => m
  | transaction m => m

/-- The call is one of a registered handler. -/
def toHandler : Delivery → Bool
  | any _ _ _ => true
  | async _ _ => true
  | transaction _ => false

end Delivery

namespace Registry

/-- The calls of `callAll`. -/
def callAllDeliveries (m : DpaMessage) (handlers : List (String × MessageHandlerFunc)) :
    List Delivery :=
  (Log.noted (Delivery.run none) (callAllWith · m handlers)).2

/-- The calls of `processAnyMessage`. -/
def anyDeliveries (r : Registry) (m : DpaMessage) : List Delivery :=
  (Log.noted (Delivery.run none) (r.processAnyMessageWith · m)).2

/-- The calls of `processAsynchronousMessage`. -/
def asyncDeliveries (r : Registry) (m : DpaMessage) : List Delivery :=
  (Log.noted (Delivery.run none) (r.processAsynchronousMessageWith · m)).2

section Notes

variable (pending : Option Execution.State) (r : Registry) (m : DpaMessage)

/-- A function of the map is called; if it returns, those after it are. -/
theorem callAllWith_notes {serviceId : String} {h : DpaMessage → Except Exc Unit}
    {rest : List (String × MessageHandlerFunc)}
    (hrest : Log.Notes (Delivery.run pending) (callAllWith · m rest) (callAll m rest)
      (callAllDeliveries m rest)) :
    Log.Notes (Delivery.run pending) (callAllWith · m ((serviceId, some h) :: rest))
      (callAll m ((serviceId, some h) :: rest))
      (.any serviceId h m ::
        match h m with
        | .ok _ => callAllDeliveries m rest
        | .error _ => []) := by
  rw [callAll_cons]
  refine (Log.Notes.call (Delivery.any serviceId h m)).bind ?_
  simp only [Delivery.run_any, MessageHandlerFunc.call]
  cases h m with
  | ok _ => exact hrest
  | error e => exact .pure _

theorem callAll_notes (handlers : List (String × MessageHandlerFunc)) :
    Log.Notes (Delivery.run pending) (callAllWith · m handlers) (callAll m handlers)
      (callAllDeliveries m handlers) := by
  induction handlers generalizing pending with
  | nil => exact .pure _
  | cons p rest ih =>
    obtain ⟨serviceId, handler⟩ := p
    cases handler with
    | none => exact .pure _
    | some h =>
      rw [callAllDeliveries, (callAllWith_notes none m (ih none)).noted]
      exact callAllWith_notes pending m (ih pending)

theorem callAllDeliveries_cons (serviceId : String) (h : DpaMessage → Except Exc Unit)
    (rest : List (String × MessageHandlerFunc)) :
    callAllDeliveries m ((serviceId, some h) :: rest) =
      .any serviceId h m ::
        match h m with
        | .ok _ => callAllDeliveries m rest
        | .error _ => [] := by
  rw [callAllDeliveries, (callAllWith_notes none m (callAll_notes none m rest)).noted]

theorem processAnyMessageWith_notes :
    Log.Notes (Delivery.run pending) (r.processAnyMessageWith · m) (r.processAnyMessage m)
      (if r.anyMessageMutex then [] else callAllDeliveries m r.anyMessageHandlerMap) := by
  unfold processAnyMessageWith
  rw [processAnyMessage_eq]
  split
  · exact .pure _
  · rw [← List.append_nil (callAllDeliveries m r.anyMessageHandlerMap)]
    refine (callAll_notes pending m r.anyMessageHandlerMap).bind ?_
    cases callAll m r.anyMessageHandlerMap <;> exact .pure _

theorem anyDeliveries_eq : r.anyDeliveries m =
    if r.anyMessageMutex then [] else callAllDeliveries m r.anyMessageHandlerMap := by
  rw [anyDeliveries, (processAnyMessageWith_notes none r m).noted]

theorem processAsynchronousMessageWith_notes :
    Log.Notes (Delivery.run pending) (r.processAsynchronousMessageWith · m)
      (r.processAsynchronousMessage m)
      (if r.asyncMessageMutex then [] else r.asyncMessageHandler.toList.map (.async · m)) := by
  unfold processAsynchronousMessageWith
  rw [processAsynchronousMessage_eq]
  split
  · exact .pure _
  · cases r.asyncMessageHandler with
    | none => exact .pure _
    | some h =>
      refine (Log.Notes.call (Delivery.async h m)).bind ?_
      simp only [Delivery.run_async]
      cases h m <;> exact .pure _

theorem asyncDeliveries_eq : r.asyncDeliveries m =
    if r.asyncMessageMutex then [] else r.asyncMessageHandler.toList.map (.async · m) := by
  rw [asyncDeliveries, (processAsynchronousMessageWith_notes none r m).noted]

theorem asyncDeliveries_of_free {r : Registry} (h : r.asyncMessageMutex = false)
    (m : DpaMessage) : r.asyncDeliveries m = r.asyncMessageHandler.toList.map (.async · m) := by
  simp [asyncDeliveries_eq, h]

end Notes

end Registry

/-- The calls of `ResponseMessageHandler`. -/
def deliveries (uninit : Int) (r : Registry) (pending : Option Execution.State)
    (message : List UInt8) : List Delivery :=
  (Log.noted (Delivery.run pending) (responseMessageHandlerWith · uninit r pending message)).2

/-! ## Where a frame goes -/

section Frames

variable {w : List UInt8} {f : Frame}

theorem toPendingTransactionWith_notes (hf : Frame.ofString w = some f) (uninit : Int)
    (pending : Option Execution.State) :
    Log.Notes (Delivery.run pending) (toPendingTransactionWith · uninit pending w)
      (Id.run (toPendingTransactionWith (fun d => pure (d.run pending)) uninit pending w))
      (match pending with
        | none => []
        | some x => if x.pc = .spinning then [] else [.transaction f.message]) := by
  rw [toPendingTransaction_run hf]
  unfold toPendingTransactionWith
  cases pending with
  | none => exact .pure _
  | some x =>
    simp only [ofString_frame uninit hf]
    by_cases hx : x.pc = .spinning
    · simp only [if_pos hx]
      exact .pure _
    · simp only [if_neg hx]
      refine (Log.Notes.call (Delivery.transaction f.message)).bind ?_
      have hcaught := processReceivedMessage_caught x.tr f.message
      simp only [Delivery.run_transaction]
      cases h : (x.tr.processReceivedMessage f.message).2 with
      | ok _ => exact .pure _
      | error e =>
        rw [h] at hcaught
        simp only [hcaught]
        exact .pure _

/-- With the calls noted, the function comes back as it does. -/
theorem responseMessageHandler_notes (hf : Frame.ofString w = some f) (uninit : Int)
    (r : Registry) (pending : Option Execution.State) :
    Log.Notes (Delivery.run pending) (responseMessageHandlerWith · uninit r pending w)
      (responseMessageHandler uninit r pending w)
      (r.anyDeliveries f.message ++
        match r.processAnyMessage f.message with
        | .returned =>
          if isAsynchronous f.message = true then r.asyncDeliveries f.message
          else
            match pending with
            | none => []
            | some x => if x.pc = .spinning then [] else [.transaction f.message]
        | _ => []) := by
  rw [Registry.anyDeliveries_eq, responseMessageHandler, responseMessageHandlerWith_of_frame _ hf,
    Id.run_bind, Registry.processAnyMessageWith_run]
  simp only [responseMessageHandlerWith_of_frame _ hf]
  refine (r.processAnyMessageWith_notes pending f.message).bind ?_
  cases r.processAnyMessage f.message with
  | returned =>
    simp only
    split
    · rw [Registry.asyncDeliveries_eq]
      exact (r.processAsynchronousMessageWith_notes pending f.message).map _
    · exact (toPendingTransactionWith_notes hf uninit pending).map _
  | _ => exact .pure _

theorem deliveries_none (hf : Frame.ofString w = none) (uninit : Int) (r : Registry)
    (pending : Option Execution.State) : deliveries uninit r pending w = [] := by
  simp only [deliveries, responseMessageHandlerWith_none _ hf]
  rfl

theorem deliveries_of_frame (hf : Frame.ofString w = some f) (uninit : Int) (r : Registry)
    (pending : Option Execution.State) :
    deliveries uninit r pending w =
      r.anyDeliveries f.message ++
        match r.processAnyMessage f.message with
        | .returned =>
          if isAsynchronous f.message = true then r.asyncDeliveries f.message
          else
            match pending with
            | none => []
            | some x => if x.pc = .spinning then [] else [.transaction f.message]
        | _ => [] := by
  rw [deliveries, (responseMessageHandler_notes hf uninit r pending).noted]

end Frames

/-! ## Whole or not at all -/

section Whole

variable {w : List UInt8} {f : Frame} {r : Registry}

namespace Registry

theorem mem_callAllDeliveries {m : DpaMessage} {d : Delivery} :
    ∀ {handlers : List (String × MessageHandlerFunc)},
      d ∈ callAllDeliveries m handlers → d.message = m := by
  intro handlers
  induction handlers with
  | nil => intro h; cases h
  | cons p rest ih =>
    obtain ⟨serviceId, handler⟩ := p
    intro h
    cases handler with
    | none => cases h
    | some g =>
      rw [callAllDeliveries_cons] at h
      rcases List.mem_cons.mp h with rfl | h
      · rfl
      · split at h
        · exact ih h
        · cases h

theorem mem_anyDeliveries {m : DpaMessage} {d : Delivery} (h : d ∈ r.anyDeliveries m) :
    d.message = m := by
  rw [anyDeliveries_eq] at h
  split at h
  · cases h
  · exact mem_callAllDeliveries h

theorem mem_asyncDeliveries {m : DpaMessage} {d : Delivery} (h : d ∈ r.asyncDeliveries m) :
    d.message = m := by
  rw [asyncDeliveries_eq] at h
  split at h
  · cases h
  · obtain ⟨g, _, rfl⟩ := List.mem_map.mp h
    rfl

end Registry

/-- Everyone sees the message of the frame. -/
theorem mem_deliveries (hf : Frame.ofString w = some f) {uninit : Int}
    {pending : Option Execution.State} {d : Delivery} (h : d ∈ deliveries uninit r pending w) :
    d.message = f.message := by
  rw [deliveries_of_frame hf] at h
  rcases List.mem_append.mp h with h | h
  · exact Registry.mem_anyDeliveries h
  · split at h
    · split at h
      · exact Registry.mem_asyncDeliveries h
      · split at h
        · cases h
        · split at h
          · cases h
          · rw [List.mem_singleton.mp h]
            rfl
    · cases h

/-- The string is taken whole, or reaches nobody and leaves the pending transaction alone. -/
def Whole (w : List UInt8) : Prop :=
  ∀ (uninit : Int) (r : Registry) (pending : Option Execution.State),
    (1 ≤ w.length ∧ w.length ≤ 64 →
      ∃ m, DpaMessage.empty.fillFromResponse (some w) (DpaMessage.castLength w) = .ok m ∧
        DpaMessage.ofString uninit w = .ok m ∧ m.getLength = w.length ∧ m.bytes = w ∧
        ∀ d ∈ deliveries uninit r pending w, d.message = m) ∧
    (¬ (1 ≤ w.length ∧ w.length ≤ 64) →
      (∀ d ∈ deliveries uninit r pending w, d.toHandler = false) ∧
      (responseMessageHandler uninit r pending w).1.2.map (fun x => (x.tr.state, x.tr.result)) =
        pending.map fun x => (x.tr.state, x.tr.result))

/-- A registry whose only handler returns. -/
def listening : Registry :=
  { Registry.init with anyMessageHandlerMap := [("", some fun _ => .ok ())] }

/-- Exactly the strings are rejected whole, or taken whole, whose length is not too long or wraps
to one that is refused. -/
theorem whole_iff (w : List UInt8) :
    Whole w ↔ w.length ≤ 64 ∨ w.length % 256 = 0 ∨ 64 < w.length % 256 := by
  constructor
  · intro h
    by_contra hn
    have hlong : 0 < w.length % 256 ∧ w.length % 256 ≤ 64 := by omega
    obtain ⟨hnone, _⟩ := (h 0 listening none).2 (by omega)
    have hf : ∃ f, Frame.ofString w = some f := ⟨_, dif_pos hlong⟩
    obtain ⟨f, hf⟩ := hf
    have hmem : Delivery.any "" (fun _ => .ok ()) f.message ∈ deliveries 0 listening none w := by
      rw [deliveries_of_frame hf]
      exact List.mem_append_left _ List.mem_cons_self
    cases hnone _ hmem
  · intro h uninit r pending
    constructor
    · rintro ⟨h0, h64⟩
      obtain ⟨f, hf, hbytes⟩ := Frame.ofString_whole h0 h64
      refine ⟨f.message, fillFromResponse_frame hf, ofString_frame uninit hf, ?_, ?_,
        fun d hd => mem_deliveries hf hd⟩
      · rw [← hbytes]
        rfl
      · rw [f.message_bytes, hbytes]
    · intro hlen
      have hf : Frame.ofString w = none := Frame.ofString_refused (by omega)
      rw [deliveries_none hf, responseMessageHandler_none hf]
      exact ⟨nofun, rfl⟩

/-- A string of 257 bytes reaches a handler as a message of one byte. -/
theorem wrapped_length_delivered :
    ∃ d ∈ deliveries 0 listening none (List.replicate 257 0x01),
      d.toHandler = true ∧ d.message.getLength = 1 := by
  have hlen : (List.replicate 257 (0x01 : UInt8)).length = 257 := List.length_replicate
  obtain ⟨f, hf⟩ : ∃ f, Frame.ofString (List.replicate 257 0x01) = some f :=
    ⟨_, dif_pos (by rw [hlen]; decide)⟩
  refine ⟨.any "" (fun _ => .ok ()) f.message, ?_, rfl, ?_⟩
  · rw [deliveries_of_frame hf]
    exact List.mem_append_left _ List.mem_cons_self
  · show (f.bytes.length : Int) = 1
    rw [Frame.ofString_bytes hf, List.length_take, hlen]
    rfl

end Whole

end ClibDpa
