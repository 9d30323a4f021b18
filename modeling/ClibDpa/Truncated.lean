import ClibDpa.Success

/-!
# ClibDpa.Truncated

Frames that end before the fields of an answer. A response carries 8 bytes at least (the header,
ResponseCode and DpaValue), a confirmation 11 (Hops, TimeSlotLength and HopsResponse after them).
`messageDirection` tests the length against the index of PCMD only, and for a confirmation against
the index of ResponseCode, so that shorter frames are taken for answers and the rest is read from
the zeros of the buffer.

* `accepts_whole_iff` — for one transaction and one frame, when an acceptance is of a whole frame.
* `whole_answers_iff` — the same over runs, with the answers that the result stores.
-/

namespace ClibDpa
namespace Execution

open DpaTransaction2

/-- Bytes of a response up to DpaValue. -/
def responseLength : Nat := 8
/-- Bytes of a confirmation up to HopsResponse. -/
def confirmationLength : Nat := 11

/-- What is accepted has every field of what it is accepted as. -/
def AcceptsWhole (tr : DpaTransaction2) (f : Frame) : Prop :=
  (tr.Accepts f.message .response → responseLength ≤ f.bytes.length) ∧
  (tr.Accepts f.message .confirmation → confirmationLength ≤ f.bytes.length)

/-- PCMD is there and has the bit of a response, but the fields of one are not all there. -/
def ShortResponse (f : Frame) : Prop :=
  4 ≤ f.bytes.length ∧ f.bytes.length < responseLength ∧ f.bytes.getD 3 0 &&& 0x80 ≠ 0

/-- The byte of ResponseCode is there and is that of a confirmation. -/
def ShortConfirmation (f : Frame) : Prop :=
  7 ≤ f.bytes.length ∧ f.bytes.length < confirmationLength ∧ f.bytes.getD 3 0 &&& 0x80 = 0 ∧
    f.bytes.getD 6 0 = statusConfirmation

/-- Nothing to accept, or nothing missing. -/
def NotShort (tr : DpaTransaction2) (f : Frame) : Prop :=
  tr.isFinished = true ∨ ¬ Answers tr.result.request f.message ∨
    ¬ (ShortResponse f ∨ ShortConfirmation f)

theorem accepts_iff {tr : DpaTransaction2} {m : DpaMessage} {kind : MessageType}
    (hk : kind = .response ∨ kind = .confirmation) :
    tr.Accepts m kind ↔
      tr.isFinished = false ∧ m.messageDirection = kind ∧ Answers tr.result.request m := by
  constructor
  · intro h
    exact ⟨h.1, (checkReceived_ok_iff.mp h.2).1, accepts_answers h rfl⟩
  · rintro ⟨hf, hd, hn, ht, hc⟩
    exact ⟨hf, checkReceived_ok_iff.mpr ⟨hd, hk, hn, ht, hc⟩⟩

theorem shortResponse_iff (f : Frame) :
    ShortResponse f ↔ f.message.messageDirection = .response ∧ f.bytes.length < responseLength := by
  rw [f.response_iff, ShortResponse]
  tauto

theorem shortConfirmation_iff (f : Frame) :
    ShortConfirmation f ↔
      f.message.messageDirection = .confirmation ∧ f.bytes.length < confirmationLength := by
  rw [f.confirmation_iff, ShortConfirmation]
  tauto

theorem accepts_whole_iff (tr : DpaTransaction2) (f : Frame) :
    AcceptsWhole tr f ↔ NotShort tr f := by
  rw [AcceptsWhole, NotShort, accepts_iff (.inl rfl), accepts_iff (.inr rfl), shortResponse_iff,
    shortConfirmation_iff]
  constructor
  · rintro ⟨hr, hc⟩
    by_cases hf : tr.isFinished = true
    · exact .inl hf
    by_cases ha : Answers tr.result.request f.message
    · refine .inr (.inr ?_)
      have hf' : tr.isFinished = false := by simpa using hf
      rintro (⟨hd, hlt⟩ | ⟨hd, hlt⟩)
      · exact absurd (hr ⟨hf', hd, ha⟩) (Nat.not_le.mpr hlt)
      · exact absurd (hc ⟨hf', hd, ha⟩) (Nat.not_le.mpr hlt)
    · exact .inr (.inl ha)
  · intro h
    constructor
    · rintro ⟨hf, hd, ha⟩
      rcases h with h | h | h
      · rw [h] at hf
        cases hf
      · exact absurd ha h
      · exact Nat.not_lt.mp fun hlt => h (.inl ⟨hd, hlt⟩)
    · rintro ⟨hf, hd, ha⟩
      rcases h with h | h | h
      · rw [h] at hf
        cases hf
      · exact absurd ha h
      · exact Nat.not_lt.mp fun hlt => h (.inr ⟨hd, hlt⟩)

/-! ## Over runs -/

/-- What the result stores as an answer was received with all its fields. -/
def StoredWhole (s : State) : Prop :=
  (s.tr.result.isResponded = true → (responseLength : Int) ≤ s.tr.result.response.getLength) ∧
  (s.tr.result.isConfirmed = true →
    (confirmationLength : Int) ≤ s.tr.result.confirmation.getLength)

/-- The condition on a step. -/
def WholeStep (s : State) (e : Event) : Prop := ∀ f, e = .receive f → NotShort s.tr f

theorem Settled.stored {tr tr' : DpaTransaction2} {wait : Option Bool} {pc : ExecPc}
    (h : Settled tr wait tr' pc) : tr'.result.response = tr.result.response ∧
      tr'.result.confirmation = tr.result.confirmation := by
  cases h <;> simp

/-- Only a received message is stored. -/
theorem step_stored {s s' : State} {e : Event} (hne : ∀ f, e ≠ .receive f)
    (he : step s e = some s') : s'.tr.result.response = s.tr.result.response ∧
      s'.tr.result.confirmation = s.tr.result.confirmation := by
  cases step_effect he with
  | execute _ hs => simpa using hs.stored
  | receive _ => exact absurd rfl (hne _)
  | abort _ => exact ⟨rfl, rfl⟩
  | timeout _ => exact ⟨rfl, rfl⟩
  | wake _ => exact ⟨rfl, rfl⟩
  | resume _ hs => exact hs.stored

theorem frame_length (f : Frame) : f.message.copy.getLength = f.bytes.length := rfl

/-- What is stored after a frame is what was stored before it, or that frame. -/
theorem received_stored {s : State} {f : Frame} (h : StoredWhole s) :
    StoredWhole (received s f.message) ↔ AcceptsWhole s.tr f := by
  have hpos := DpaTransactionResult2.setResponse_of_pos (r := s.tr.result) f.message_length_pos
  have hr := received_effect s f.message
  generalize received s f.message = s1 at hr ⊢
  cases hr with
  | ignored hno =>
    exact ⟨fun _ => ⟨fun ha => absurd ha (hno _), fun ha => absurd ha (hno _)⟩, fun _ => h⟩
  | confirmation ha =>
    have hnot := not_accepts_response ha
    simp only [StoredWhole, AcceptsWhole, processConfirmation_result,
      DpaTransactionResult2.setConfirmation_isResponded,
      DpaTransactionResult2.setConfirmation_response,
      DpaTransactionResult2.setConfirmation_confirmation, frame_length, Nat.cast_le]
    exact ⟨fun hs => ⟨fun ha' => absurd ha' hnot, fun _ => hs.2 rfl⟩,
      fun hw => ⟨h.1, fun _ => hw.2 ha⟩⟩
  | response ha =>
    have hnot : ¬ s.tr.Accepts f.message .confirmation := fun ha' => not_accepts_response ha' ha
    simp only [StoredWhole, AcceptsWhole, processResponse_result,
      DpaTransactionResult2.setResponse_isConfirmed,
      DpaTransactionResult2.setResponse_response,
      DpaTransactionResult2.setResponse_confirmation, frame_length, Nat.cast_le]
    exact ⟨fun hs => ⟨fun _ => hs.1 hpos.1, fun ha' => absurd ha' hnot⟩,
      fun hw => ⟨fun _ => hw.1 ha, h.2⟩⟩

theorem stored_step {s s' : State} {e : Event} (h : StoredWhole s) (he : step s e = some s') :
    StoredWhole s' ↔ WholeStep s e := by
  by_cases hr : ∃ f, e = .receive f
  · obtain ⟨f, rfl⟩ := hr
    cases step_effect he with
    | receive _ =>
      rw [received_stored h, accepts_whole_iff]
      exact ⟨by rintro hn _ ⟨⟩; exact hn, fun hn => hn f rfl⟩
  · have hne : ∀ f, e ≠ .receive f := fun f heq => hr ⟨f, heq⟩
    obtain ⟨hconf, hresp, _⟩ := step_silent hne he
    obtain ⟨h1, h2⟩ := step_stored hne he
    have hkept : StoredWhole s' ↔ StoredWhole s := by
      rw [StoredWhole, StoredWhole, hconf, hresp, h1, h2]
    exact ⟨fun _ f heq => absurd heq (hne f), fun _ => hkept.mpr h⟩

theorem stored_create (request : DpaMessage) (mode : RfMode) (params : TimingParams)
    (defaultTimeout userTimeout : Int32) (err : ErrorCode) :
    StoredWhole (init (create request mode params defaultTimeout userTimeout err)) :=
  ⟨by rintro ⟨⟩, by rintro ⟨⟩⟩

/-- In every run: each answer accepted, and each answer stored in a state reached, has all its
fields, exactly when no step receives a short frame that answers the open request. -/
theorem whole_answers_iff (request : DpaMessage) (mode : RfMode) (params : TimingParams)
    (defaultTimeout userTimeout : Int32) (err : ErrorCode) (es : List Event) :
    (Machine.Steps step (fun s e => ∀ f, e = .receive f → AcceptsWhole s.tr f)
        (init (create request mode params defaultTimeout userTimeout err)) es ∧
      Machine.States step StoredWhole
        (init (create request mode params defaultTimeout userTimeout err)) es) ↔
      Machine.Steps step WholeStep
        (init (create request mode params defaultTimeout userTimeout err)) es := by
  have hsame : (fun (s : State) (e : Event) => ∀ f, e = .receive f → AcceptsWhole s.tr f) =
      WholeStep := by
    funext s e
    simp only [accepts_whole_iff, WholeStep]
  have hruns : Machine.States step StoredWhole
      (init (create request mode params defaultTimeout userTimeout err)) es ↔
      Machine.Steps step WholeStep
        (init (create request mode params defaultTimeout userTimeout err)) es :=
    Machine.states_iff_steps (I := StoredWhole) (D := fun _ => True)
      (fun _ _ _ _ hI hC he => (stored_step hI he).mpr hC) (fun _ h => h)
      (fun _ _ _ _ hI hC he hP => hC ((stored_step hI he).mp hP)) (fun _ _ => trivial)
      (stored_create request mode params defaultTimeout userTimeout err)
  rw [hsame, hruns, and_self]

/-- NADR, PNUM and PCMD alone. -/
def headOnly : Frame := ⟨[0x01, 0x00, 0x06, 0x83], by decide, by decide⟩

/-- The transaction succeeds on the four bytes: the ResponseCode read is a zero that was never
received. -/
theorem head_only_accepted :
    ∃ s s', Machine.exec step (init ledPulseTransaction) [.execute trnOk (.ok ())] = some s ∧
      s.tr.Accepts headOnly.message .response ∧ headOnly.bytes.length = 4 ∧
      Machine.exec step s [.receive headOnly, .timeout, .resume] = some s' ∧
      s'.tr.isFinished = true ∧ s'.tr.result.getErrorCode = trnOk ∧
      ¬ AcceptsWhole s.tr headOnly ∧ ¬ StoredWhole s' := by
  refine ⟨_, _, rfl, by decide, rfl, rfl, by decide, by decide, ?_, ?_⟩
  · intro h
    exact absurd (h.1 (by decide)) (by decide)
  · intro h
    exact absurd (h.1 (by decide)) (by decide)

end Execution
end ClibDpa
