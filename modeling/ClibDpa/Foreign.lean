import ClibDpa.Dispatch

/-!
# ClibDpa.Foreign

Frames that are not for a transaction. `processReceivedMessage` makes all its checks before it
writes anything, so a frame that fails one of them leaves no trace; and `ResponseMessageHandler`
gives the pending transaction nothing but confirmations and synchronous responses.

`Noted` counts, next to the machine of one transaction, the calls of `notify_all` that wake
`execute()`.

* `foreign_filter`   — a run without its foreign frames ends in the same state.
* `foreign_received` — one foreign frame: nothing changes, nobody is notified.
* `foreign_dispatch` — the pending transaction under `ResponseMessageHandler`.
-/

namespace ClibDpa
namespace Execution

open DpaTransaction2

/-- Neither a response nor a confirmation, or of another node, peripheral or command. -/
def Foreign (request m : DpaMessage) : Prop :=
  (m.messageDirection ≠ .response ∧ m.messageDirection ≠ .confirmation) ∨
  m.nodeAddress ≠ request.nodeAddress ∨
  m.peripheralType ≠ request.peripheralType ∨
  m.peripheralCommand &&& ~~~0x80 ≠ request.peripheralCommand

instance (request m : DpaMessage) : Decidable (Foreign request m) :=
  inferInstanceAs (Decidable (_ ∨ _))

theorem checkReceived_foreign {request m : DpaMessage} (h : Foreign request m) :
    ∃ e, checkReceived request m = .error e := by
  cases hc : checkReceived request m with
  | error e => exact ⟨e, rfl⟩
  | ok kind =>
    obtain ⟨rfl, hk, hn, ht, hp⟩ := checkReceived_ok_iff.mp hc
    rcases h with ⟨hr, hf⟩ | h | h | h
    · exact absurd hk (not_or.mpr ⟨hr, hf⟩)
    · exact absurd hn h
    · exact absurd ht h
    · exact absurd hp h

/-- `processReceivedMessage` gets to its `notify_all`: neither the early return nor a `throw`. -/
def notifies (tr : DpaTransaction2) (m : DpaMessage) : Bool :=
  !tr.isFinished && (tr.processReceivedMessage m).2.isOk

structure Noted where
  s : State
  notified : Nat

namespace Noted

def init (tr : DpaTransaction2) : Noted := ⟨Execution.init tr, 0⟩

def notifiedAfter (n : Noted) : Event → Nat
  | .receive f => if notifies n.s.tr f.message then n.notified + 1 else n.notified
  | .abort => n.notified + 1
  | _ => n.notified

def step (n : Noted) (e : Event) : Option Noted :=
  match Execution.step n.s e with
  | some s' => some ⟨s', n.notifiedAfter e⟩
  | none => none

theorem step_cases {n n' : Noted} {e : Event} (h : step n e = some n') :
    ∃ s', Execution.step n.s e = some s' ∧ n' = ⟨s', n.notifiedAfter e⟩ := by
  unfold step at h
  split at h
  · rename_i s' hs
    cases h
    exact ⟨s', hs, rfl⟩
  · cases h

end Noted

/-- Not a frame that is foreign to the request. -/
def own (request : DpaMessage) : Event → Bool
  | .receive f => !decide (Foreign request f.message)
  | _ => true

theorem foreign_not_accepted {tr : DpaTransaction2} {m : DpaMessage}
    (h : Foreign tr.result.request m) (kind : MessageType) : ¬ tr.Accepts m kind := by
  obtain ⟨e, hc⟩ := checkReceived_foreign h
  rintro ⟨_, hok⟩
  rw [hc] at hok
  cases hok

theorem foreign_processed {tr : DpaTransaction2} {m : DpaMessage}
    (h : Foreign tr.result.request m) :
    (tr.processReceivedMessage m).1 = tr ∧ notifies tr m = false := by
  obtain ⟨e, hc⟩ := checkReceived_foreign h
  cases hf : tr.isFinished <;> simp [processReceivedMessage, notifies, hf, hc, Except.isOk,
    Except.toBool]

/-- A foreign frame changes nothing and does not notify. -/
theorem foreign_received {s : State} {m : DpaMessage} (h : Foreign s.tr.result.request m) :
    received s m = s ∧ notifies s.tr m = false := by
  refine ⟨?_, (foreign_processed h).2⟩
  rw [received, (foreign_processed h).1, if_neg (foreign_not_accepted h _)]

theorem foreign_step {n n' : Noted} {e : Event} (hown : own n.s.tr.result.request e = false)
    (he : Noted.step n e = some n') : n' = n := by
  obtain ⟨s', hs, rfl⟩ := Noted.step_cases he
  cases e with
  | receive f =>
    have hfor : Foreign n.s.tr.result.request f.message := by simpa [own] using hown
    cases step_effect hs with
    | receive _ =>
      obtain ⟨hsame, hnot⟩ := foreign_received hfor
      rw [hsame]
      simp [Noted.notifiedAfter, hnot]
  | execute _ _ => cases hown
  | abort => cases hown
  | timeout => cases hown
  | wake => cases hown
  | resume => cases hown

/-- The pending transaction under `ResponseMessageHandler`: a frame that is foreign to it, or that
is asynchronous, leaves it alone. -/
theorem foreign_dispatch (uninit : Int) (r : Registry) {x : State} {w : List UInt8} {f : Frame}
    (hf : Frame.ofString w = some f)
    (h : Foreign x.tr.result.request f.message ∨ isAsynchronous f.message = true) :
    (responseMessageHandler uninit r (some x) w).1.2 = some x := by
  rw [responseMessageHandler_of_frame hf]
  cases r.processAnyMessage f.message with
  | returned =>
    by_cases ha : isAsynchronous f.message = true
    · simp [ha]
    · have hfor := h.resolve_right ha
      by_cases hx : x.pc = .spinning
      · simp [ha, hx]
      · simp [ha, hx, (foreign_received hfor).1]
  | threw _ => rfl
  | blocked => rfl
  | nullPointer => rfl

/-- Foreign frames do not interfere: not with a run, not one by one, and not through the
dispatch. -/
theorem foreign_filter {tr : DpaTransaction2} {es : List Event} {n : Noted}
    (hrun : Machine.exec Noted.step (Noted.init tr) es = some n) :
    Machine.exec Noted.step (Noted.init tr) (es.filter (own tr.result.request)) = some n ∧
    (∀ f : Frame, Foreign tr.result.request f.message →
      received n.s f.message = n.s ∧ notifies n.s.tr f.message = false) ∧
    ∀ uninit r w (f : Frame), Frame.ofString w = some f →
      (Foreign tr.result.request f.message ∨ isAsynchronous f.message = true) →
      (responseMessageHandler uninit r (some n.s) w).1.2 = some n.s := by
  have hkeep : ∀ n e n', n.s.tr.result.request = tr.result.request → Noted.step n e = some n' →
      n'.s.tr.result.request = tr.result.request := by
    intro n e n' hn he
    obtain ⟨s', hs, rfl⟩ := Noted.step_cases he
    exact (step_const hs).1.trans hn
  have hreq : n.s.tr.result.request = tr.result.request :=
    Machine.exec_inv (I := fun n : Noted => n.s.tr.result.request = tr.result.request) hkeep rfl
      hrun
  refine ⟨?_, ?_, ?_⟩
  · exact Machine.exec_filter (I := fun n : Noted => n.s.tr.result.request = tr.result.request)
      hkeep (fun n e n' hn hown he => foreign_step (hn ▸ hown) he) rfl hrun
  · intro f hfor
    exact foreign_received (hreq ▸ hfor)
  · intro uninit r w f hw hfor
    exact foreign_dispatch uninit r hw (hreq ▸ hfor)

/-- A response of node 2. -/
def otherNodeResponse : Frame :=
  ⟨[0x02, 0x00, 0x06, 0x83, 0xff, 0xff, 0x00, 0x37], by decide, by decide⟩

theorem foreign_filter_ledPulse :
    ∃ n, Machine.exec Noted.step (Noted.init ledPulseTransaction)
        [.execute trnOk (.ok ()), .receive otherNodeResponse, .receive ledPulseConfirmation, .wake,
          .receive ledPulse, .resume, .receive ledPulseResponse, .timeout, .resume] = some n ∧
      n.s.tr.result.getErrorCode = trnOk ∧ n.notified = 2 ∧
      Machine.exec Noted.step (Noted.init ledPulseTransaction)
        ([.execute trnOk (.ok ()), .receive otherNodeResponse, .receive ledPulseConfirmation, .wake,
          .receive ledPulse, .resume, .receive ledPulseResponse, .timeout, .resume].filter
            (own ledPulseTransaction.result.request)) = some n :=
  ⟨_, rfl, by decide, by decide, (foreign_filter rfl).1⟩

end Execution
end ClibDpa
