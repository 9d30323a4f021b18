import ClibDpa.Crash
import ClibDpa.Gateway
import ClibDpa.Truncated

/-!
# ClibDpa.GatewayAnswers

Where the answers in a result come from. A transaction stores what `processReceivedMessage` has
accepted, the receive thread brings frames that the channel has read, and `get()` hands over what
was stored; so every answer that a caller sees is a frame that was read from the module.

* `Answered`            — a result whose answers come from frames with a property.
* `answers_from_module` — that property for the frames that were read.
-/

namespace ClibDpa

/-! ## A transaction -/

/-- The answers of the result are frames that satisfy `P` and answer its request. -/
structure Answered (P : Frame → Prop) (r : DpaTransactionResult2) : Prop where
  response : r.isResponded = true → ∃ f, P f ∧ f.message.messageDirection = .response ∧
    Execution.Answers r.request f.message ∧ r.response = f.message.copy ∧
    r.responseCode = f.message.responseCodeField.toNat
  confirmation : r.isConfirmed = true → ∃ f, P f ∧ f.message.messageDirection = .confirmation ∧
    Execution.Answers r.request f.message ∧ r.confirmation = f.message.copy

section Transaction

variable {P Q : Frame → Prop}

theorem Answered.mono {r : DpaTransactionResult2} (h : Answered P r) (hPQ : ∀ f, P f → Q f) :
    Answered Q r where
  response := by
    intro hr
    obtain ⟨f, hf, hrest⟩ := h.response hr
    exact ⟨f, hPQ f hf, hrest⟩
  confirmation := by
    intro hc
    obtain ⟨f, hf, hrest⟩ := h.confirmation hc
    exact ⟨f, hPQ f hf, hrest⟩

theorem answered_create (request : DpaMessage) : Answered P (.create request) where
  response := fun h => by cases h
  confirmation := fun h => by cases h

/-- The answers and the request stay as they are. -/
theorem Answered.kept {r r' : DpaTransactionResult2} (h : Answered P r)
    (hrequest : r'.request = r.request) (hresponse : r'.response = r.response)
    (hconfirmation : r'.confirmation = r.confirmation) (hcode : r'.responseCode = r.responseCode)
    (hresponded : r'.isResponded = r.isResponded) (hconfirmed : r'.isConfirmed = r.isConfirmed) :
    Answered P r' where
  response := by
    rw [hresponded, hrequest, hresponse, hcode]
    exact h.response
  confirmation := by
    rw [hconfirmed, hrequest, hconfirmation]
    exact h.confirmation

theorem answered_received {x : Execution.State} {f : Frame} (h : Answered P x.tr.result)
    (hf : P f) : Answered P (Execution.received x f.message).tr.result := by
  have hr := Execution.received_effect x f.message
  generalize Execution.received x f.message = x1 at hr ⊢
  cases hr with
  | ignored _ => exact h
  | confirmation ha =>
    refine ⟨?_, fun _ => ?_⟩
    · simp only [Execution.processConfirmation_result,
        DpaTransactionResult2.setConfirmation_isResponded,
        DpaTransactionResult2.setConfirmation_request,
        DpaTransactionResult2.setConfirmation_response,
        DpaTransactionResult2.setConfirmation_responseCode]
      exact h.response
    · refine ⟨f, hf, (Execution.checkReceived_ok_iff.mp ha.2).1, ?_, ?_⟩
      · simpa using Execution.accepts_answers ha rfl
      · simp
  | response ha =>
    have hpos := DpaTransactionResult2.setResponse_of_pos (r := x.tr.result) f.message_length_pos
    refine ⟨fun _ => ?_, ?_⟩
    · refine ⟨f, hf, (Execution.checkReceived_ok_iff.mp ha.2).1, ?_, ?_, ?_⟩
      · simpa using Execution.accepts_answers ha rfl
      · simp
      · simpa using hpos.2
    · simp only [Execution.processResponse_result, DpaTransactionResult2.setResponse_isConfirmed,
        DpaTransactionResult2.setResponse_request, DpaTransactionResult2.setResponse_confirmation]
      exact h.confirmation

theorem answered_exec {x x' : Execution.State} {e : Execution.Event}
    (h : Answered P x.tr.result) (hP : ∀ f, e = .receive f → P f)
    (he : Execution.step x e = some x') : Answered P x'.tr.result := by
  by_cases hr : ∃ f, e = .receive f
  · obtain ⟨f, rfl⟩ := hr
    cases Execution.step_effect he with
    | receive _ => exact answered_received h (hP f rfl)
  · have hne : ∀ f, e ≠ .receive f := fun f heq => hr ⟨f, heq⟩
    obtain ⟨hconfirmed, hresponded, _⟩ := Execution.step_silent hne he
    obtain ⟨hresponse, hconfirmation⟩ := Execution.step_stored hne he
    have hcode : x'.tr.result.responseCode = x.tr.result.responseCode := by
      cases Execution.step_effect he with
      | execute _ hs => simpa using hs.responseCode
      | receive _ => exact absurd rfl (hne _)
      | abort _ => rfl
      | timeout _ => rfl
      | wake _ => rfl
      | resume _ hs => exact hs.responseCode
    exact h.kept (Execution.step_const he).1 hresponse hconfirmation hcode hresponded hconfirmed

end Transaction

/-! ## The handler -/

namespace Handler

/-- The frame that the receive thread is at work on. -/
def ReceiverPc.frame : ReceiverPc → Option Frame
  | .async f | .lookup f | .process _ f => some f
  | .idle _ | .crashed => none

section Receiver

variable {s s' : State}

/-- The frame at work is the one that was delivered. -/
theorem receiver_frame {e : Event} (he : step s e = some s') {f : Frame}
    (hf : s'.receiver.frame = some f) :
    s.receiver.frame = some f ∨ ∃ message, e = .deliver message ∧
      Frame.ofString message = some f := by
  cases step_receives he with
  | other _ hsame => rw [hsame] at hf; exact .inl hf
  | @chosen message _ g _ hg =>
    right
    simp only at hf
    split at hf <;> cases hf <;> exact ⟨message, rfl, hg⟩
  | lookup hlookup _ => rw [hlookup]; exact .inl hf
  | _ => cases hf

/-- The frames in the handler satisfy `P`: the one at work and the answers. -/
structure Held (P : Frame → Prop) (s : State) : Prop where
  receiver : ∀ f, s.receiver.frame = some f → P f
  answers : ∀ i o, s.tx i = some o → Answered P o.exec.tr.result

theorem held_init (P : Frame → Prop) : Held P init where
  receiver := fun _ h => by cases h
  answers := fun _ _ h => by cases h

theorem Held.mono {P Q : Frame → Prop} (h : Held P s) (hPQ : ∀ f, P f → Q f) : Held Q s where
  receiver := fun f hf => hPQ f (h.receiver f hf)
  answers := fun i o ho => (h.answers i o ho).mono hPQ

theorem held_step {P : Frame → Prop} {e : Event} (hb : Base s) (h : Held P s)
    (hP : ∀ message f, e = .deliver message → Frame.ofString message = some f → P f)
    (he : step s e = some s') : Held P s' where
  receiver := by
    intro f hf
    rcases receiver_frame he hf with hf | ⟨message, hd, hw⟩
    · exact h.receiver f hf
    · exact hP message f hd hw
  answers := by
    intro i o' ho'
    have htx := step_tx hb (step_effect he) i
    rw [ho'] at htx
    generalize hold : s.tx i = old at htx
    cases htx with
    | same => exact h.answers i o' hold
    | submit _ _ => exact answered_create _
    | @ahead _ o _ _ => exact h.answers i o hold
    | execute _ _ hx =>
      exact answered_exec (h.answers i _ hold) (fun f hf => by cases hf) hx
    | act ha hx =>
      refine answered_exec (h.answers i _ hold) (fun f hf => ?_) hx
      cases ha with
      | receive hr =>
        cases hf
        exact h.receiver f (by rw [hr]; rfl)
      | timeout _ => cases hf
      | wake _ => cases hf
      | resume _ => cases hf
      | abort => cases hf
      | destruct _ => cases hf

end Receiver

end Handler

/-! ## The whole -/

namespace Gateway

open IqrfSpiChannel

/-- The frame was read from the module. -/
def FromModule (c : Imp.State) (f : Frame) : Prop :=
  ∃ message ∈ Imp.frames c.log, Frame.ofString message = some f

section Answers

variable {s s' : State}

theorem log_grows {c c' : Imp.State} {e : Imp.Event} (he : Imp.step c e = some c') :
    c.log <+: c'.log := by
  cases Imp.step_effect he with
  | client _ _ => exact List.prefix_append _ _
  | listen _ => exact List.prefix_append _ _
  | read _ _ => exact List.prefix_append _ _
  | _ => exact List.prefix_refl _

theorem fromModule_grows {c c' : Imp.State} {e : Imp.Event} (he : Imp.step c e = some c')
    {f : Frame} (hf : FromModule c f) : FromModule c' f := by
  obtain ⟨message, hmem, hw⟩ := hf
  obtain ⟨rest, hrest⟩ := log_grows he
  refine ⟨message, ?_, hw⟩
  rw [← hrest, Imp.frames_append]
  exact List.mem_append_left _ hmem

/-- What the lambda calls the handler with was read from the module. -/
theorem Parts.call_read (h : Parts s) {message : List UInt8}
    (hl : s.channel.lambda = .call message) : message ∈ Imp.frames s.channel.log := by
  rw [← (Imp.receive_reachable h.channel).account]
  refine List.mem_append_right _ ?_
  simp [Imp.pending, hl, Imp.LambdaPc.inHand]

theorem held_clients {P : Frame → Prop} {e : Clients.Event} {c c' : Clients.State}
    (hi : Clients.Inv c) (h : Handler.Held P c.handler)
    (hP : ∀ message f, e = .handler (.deliver message) → Frame.ofString message = some f → P f)
    (he : Clients.step c e = some c') : Handler.Held P c'.handler := by
  cases e with
  | get j =>
    rw [Clients.onGet_handler hi (fun ev hev => by cases hev) he]
    exact h
  | getWake j expired =>
    rw [Clients.onGet_handler hi (fun ev hev => by cases hev) he]
    exact h
  | handler e =>
    obtain ⟨h', hh, rfl⟩ := Clients.handler_some he
    refine Handler.held_step (Handler.base_reachable hi.handler) h (fun message f heq hw => ?_) hh
    exact hP message f (by rw [heq]) hw

theorem held_effect {e : Event} (hp : Parts s)
    (h : Handler.Held (FromModule s.channel) s.clients.handler) (he : Effect s e s') :
    Handler.Held (FromModule s'.channel) s'.clients.handler := by
  cases he with
  | channel _ hc => exact h.mono fun f hf => fromModule_grows hc hf
  | clients ho hc =>
    refine held_clients hp.inv h (fun message f heq _ => ?_) hc
    subst heq
    cases ho
  | sendTo _ _ hc => exact h.mono fun f hf => fromModule_grows hc hf
  | sent _ _ hc => exact held_clients hp.inv h (fun message f heq _ => by cases heq) hc
  | @deliver message c _ hl hc =>
    refine held_clients hp.inv h (fun message' f heq hw => ?_) hc
    cases heq
    exact ⟨message, hp.call_read hl, hw⟩
  | returned _ hc => exact h.mono fun f hf => fromModule_grows hc hf

end Answers

end Gateway
end ClibDpa
