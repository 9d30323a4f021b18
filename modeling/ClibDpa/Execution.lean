import ClibDpa.Lib.Log
import ClibDpa.Lib.Machine
import ClibDpa.Transaction

/-!
# ClibDpa.Execution

One transaction and the threads that work on it, as a machine whose events are the critical
sections of `m_conditionVariableMutex`.

The worker calls `execute()` once. It holds the mutex except in `wait_for`, so its own events are
the entry up to the first wait (`execute`), the end of a wait by expiry (`timeout`) or by a
notification or a spurious wake-up (`wake`), and the evaluation once the mutex is held again
(`resume`). Between the last two the receive thread (`receive`) and any caller of `abort()` may
take the mutex. An iteration that does not wait and does not end would keep the mutex for ever;
that is the worker's position `spinning`.

`handed` and `lastResponse` are history: the messages given to `m_sender`, and the last response
accepted since `execute()` was entered.

* `Settled tr wait tr' pc`  — what the loop makes of `tr` from its head or from the end of a wait.
* `Effect` / `step_effect`  — everything a step can do.
* `WellFormed`              — the invariant of every run.
-/

namespace ClibDpa
namespace Execution

open DpaTransaction2

inductive ExecPc where
  | idle
  | waiting
  | woken (expired : Bool)
  | spinning
  | returned
  deriving DecidableEq, Repr

structure State where
  tr : DpaTransaction2
  pc : ExecPc
  handed : List DpaMessage
  lastResponse : Option DpaMessage

inductive Event where
  | execute (defaultError : ErrorCode) (sent : Except Exc Unit)
  | receive (f : Frame)
  | abort
  | timeout
  | wake
  | resume

def init (tr : DpaTransaction2) : State := ⟨tr, .idle, [], none⟩

/-- The loop from its head: wait, or evaluate at once when there is nothing to wait for. -/
def loopHead (tr : DpaTransaction2) : DpaTransaction2 × ExecPc :=
  if 0 < tr.expectedDurationMs then (tr, .waiting)
  else
    match tr.evaluate false with
    | (tr', some code) => (tr'.finish code, .returned)
    | (tr', none) => (tr', .spinning)

/-- The loop from the end of a wait. -/
def afterWait (tr : DpaTransaction2) (expired : Bool) : DpaTransaction2 × ExecPc :=
  match tr.evaluate expired with
  | (tr', some code) => (tr'.finish code, .returned)
  | (tr', none) => loopHead tr'

/-- `execute()` up to its first wait; what is given to `m_sender` is noted. -/
def enterWith {m : Type → Type} [Monad m] (s : State) (defaultError : ErrorCode)
    (sender : DpaMessage → m (Except Exc Unit)) : m State := do
  let (tr, handed) ← (s.tr.beginWith defaultError (Log.noting sender)).run s.handed
  let p := loopHead tr
  return { tr := p.1, pc := p.2, handed := handed, lastResponse := none }

def enter (s : State) (defaultError : ErrorCode) (sent : Except Exc Unit) : State :=
  Id.run (enterWith s defaultError fun _ => pure sent)

def received (s : State) (m : DpaMessage) : State :=
  { s with
    tr := (s.tr.processReceivedMessage m).1
    lastResponse := if s.tr.Accepts m .response then some m else s.lastResponse }

def step (s : State) : Event → Option State
  | .execute defaultError sent => if s.pc = .idle then some (enter s defaultError sent) else none
  | .receive f => if s.pc = .spinning then none else some (received s f.message)
  | .abort => if s.pc = .spinning then none else some { s with tr := s.tr.abort }
  | .timeout => if s.pc = .waiting then some { s with pc := .woken true } else none
  | .wake => if s.pc = .waiting then some { s with pc := .woken false } else none
  | .resume =>
    match s.pc with
    | .woken expired =>
      some { s with tr := (afterWait s.tr expired).1, pc := (afterWait s.tr expired).2 }
    | _ => none

/-! ## What the entry does -/

theorem enter_eq (s : State) (defaultError : ErrorCode) (sent : Except Exc Unit) :
    enter s defaultError sent =
      { tr := (loopHead (s.tr.begin defaultError sent)).1
        pc := (loopHead (s.tr.begin defaultError sent)).2
        handed := if defaultError = trnOk then s.handed ++ [s.tr.result.request] else s.handed
        lastResponse := none } := by
  unfold enter enterWith
  rw [beginWith_eq]
  by_cases hcode : defaultError = trnOk
  · simp [hcode]
  · simp [hcode, begin_eq]

/-- Whatever `m_sender` does, it is called once or not at all. -/
theorem enterWith_eq {m : Type → Type} [Monad m] [LawfulMonad m] (s : State)
    (defaultError : ErrorCode) (sender : DpaMessage → m (Except Exc Unit)) :
    enterWith s defaultError sender =
      if defaultError = trnOk then enter s defaultError <$> sender s.tr.result.request
      else pure (enter s defaultError (.ok ())) := by
  unfold enterWith
  rw [beginWith_eq]
  by_cases hcode : defaultError = trnOk
  · have henter : enter s trnOk = _ := funext fun sent => enter_eq s trnOk sent
    simp [hcode, henter]
  · simp [hcode, enter_eq]

/-! ## What the loop does -/

/-- `wait` is `none` on entry of the loop, else how the wait ended. -/
inductive Settled (tr : DpaTransaction2) : Option Bool → DpaTransaction2 → ExecPc → Prop where
  | enters : 0 < tr.expectedDurationMs → Settled tr none tr .waiting
  | goesOn {expired : Bool} : (tr.evaluate expired).2 = none → 0 < tr.expectedDurationMs →
      Settled tr (some expired) tr .waiting
  | spins {wait : Option Bool} : (tr.evaluate (wait.getD false)).2 = none →
      tr.expectedDurationMs = 0 → Settled tr wait tr .spinning
  | ends {wait : Option Bool} {code : ErrorCode} :
      (tr.evaluate (wait.getD false)).2 = some code →
      (wait = none → tr.expectedDurationMs = 0) →
      Settled tr wait ((tr.evaluate (wait.getD false)).1.finish code) .returned

/-- An evaluation that goes on leaves the object alone. -/
theorem evaluate_none {tr : DpaTransaction2} {expired : Bool}
    (h : (tr.evaluate expired).2 = none) : (tr.evaluate expired).1 = tr := by
  cases hs : tr.state <;> cases expired <;> cases hi : tr.infinitTimeout <;>
    simp_all [evaluate]

/-- A state that an expired wait leaves undecided is undecided after a wake-up too. -/
theorem evaluate_none_of_expired {tr : DpaTransaction2} {expired : Bool}
    (h : (tr.evaluate expired).2 = none) : (tr.evaluate false).2 = none := by
  cases hs : tr.state <;> cases expired <;> simp_all [evaluate]

theorem evaluate_fields (tr : DpaTransaction2) (expired : Bool) :
    (tr.evaluate expired).1 = { tr with state := (tr.evaluate expired).1.state } := by
  cases hs : tr.state <;> cases expired <;> cases hi : tr.infinitTimeout <;>
    simp [evaluate, hs, hi] <;> cases tr <;> simp_all

/-- The codes the loop ends with, and the states it ends from. -/
theorem evaluate_some {tr : DpaTransaction2} {expired : Bool} {code : ErrorCode}
    (h : (tr.evaluate expired).2 = some code) :
    (code = trnOk ∧ (tr.state = .processed ∨
      expired = true ∧ (tr.state = .receivedResponse ∨ tr.state = .confirmationBroadcast))) ∨
    (code = trnErrorTimeout ∧ (tr.state = .timeout ∨
      expired = true ∧ tr.infinitTimeout = false ∧
        (tr.state = .sent ∨ tr.state = .sentCoordinator ∨ tr.state = .confirmation))) ∨
    (code = trnErrorAborted ∧ tr.state = .aborted) ∨
    (code = trnErrorIface ∧ (tr.state = .interfaceError ∨ tr.state = .created)) ∨
    (code = tr.defaultError ∧ tr.state = .defaultError) := by
  cases hs : tr.state <;> cases expired <;> cases hi : tr.infinitTimeout <;>
    simp [evaluate, hs, hi] at h <;> subst h <;> simp

theorem loopHead_settled (tr : DpaTransaction2) :
    Settled tr none (loopHead tr).1 (loopHead tr).2 := by
  unfold loopHead
  split
  · exact .enters ‹_›
  · rename_i hd
    split
    · rename_i tr' code heq
      have hc : (tr.evaluate false).2 = some code := by rw [heq]
      have hs := @Settled.ends tr none code hc fun _ => by omega
      rwa [Option.getD_none, heq] at hs
    · rename_i tr' heq
      have hn : (tr.evaluate false).2 = none := by rw [heq]
      have htr : tr' = tr := by have h := evaluate_none hn; rwa [heq] at h
      rw [htr]
      exact .spins hn (by omega)

theorem afterWait_settled (tr : DpaTransaction2) (expired : Bool) :
    Settled tr (some expired) (afterWait tr expired).1 (afterWait tr expired).2 := by
  unfold afterWait
  split
  · rename_i tr' code heq
    have hc : (tr.evaluate expired).2 = some code := by rw [heq]
    have hs := @Settled.ends tr (some expired) code hc (by simp)
    rwa [Option.getD_some, heq] at hs
  · rename_i tr' heq
    have hn : (tr.evaluate expired).2 = none := by rw [heq]
    have htr : tr' = tr := by have h := evaluate_none hn; rwa [heq] at h
    rw [htr]
    have hf := evaluate_none_of_expired hn
    have hs := loopHead_settled tr
    generalize hw : (none : Option Bool) = wait at hs
    cases hp : loopHead tr with
    | mk tr1 pc1 =>
      rw [hp] at hs
      cases hs with
      | enters hd => exact .goesOn hn hd
      | goesOn _ _ => cases hw
      | spins _ hd => exact .spins hn hd
      | ends hc _ =>
        subst hw
        rw [Option.getD_none, hf] at hc
        cases hc

/-- An evaluation that yields a code ends the loop, unless there is a time to wait first. -/
theorem Settled.ended {tr tr' : DpaTransaction2} {wait : Option Bool} {pc : ExecPc}
    {code : ErrorCode} (h : Settled tr wait tr' pc)
    (hc : (tr.evaluate (wait.getD false)).2 = some code)
    (hd : wait = none → tr.expectedDurationMs = 0) :
    pc = .returned ∧ tr' = (tr.evaluate (wait.getD false)).1.finish code := by
  cases h with
  | enters hpos => exact absurd (hd rfl) (Nat.ne_of_gt hpos)
  | goesOn hn _ =>
    rw [Option.getD_some, hn] at hc
    cases hc
  | spins hn _ =>
    rw [hn] at hc
    cases hc
  | ends hc' _ =>
    rw [hc'] at hc
    cases hc
    exact ⟨rfl, rfl⟩

/-- The loop touches the state, the end mark and the error code only. -/
theorem Settled.fields {tr tr' : DpaTransaction2} {wait : Option Bool} {pc : ExecPc}
    (h : Settled tr wait tr' pc) :
    tr' = { tr with
      state := tr'.state
      isFinished := tr'.isFinished
      result := { tr.result with errorCode := tr'.result.errorCode } } := by
  cases h with
  | enters _ => rfl
  | goesOn _ _ => rfl
  | spins _ _ => rfl
  | ends _ _ =>
    rw [evaluate_fields]
    rfl

/-! ## What a step does -/

inductive Effect (s : State) : Event → State → Prop where
  | execute {err : ErrorCode} {sent : Except Exc Unit} {tr' : DpaTransaction2} {pc' : ExecPc} :
      s.pc = .idle → Settled (s.tr.begin err sent) none tr' pc' →
      Effect s (.execute err sent)
        ⟨tr', pc', if err = trnOk then s.handed ++ [s.tr.result.request] else s.handed, none⟩
  | receive {f : Frame} : s.pc ≠ .spinning → Effect s (.receive f) (received s f.message)
  | abort : s.pc ≠ .spinning → Effect s .abort { s with tr := s.tr.abort }
  | timeout : s.pc = .waiting → Effect s .timeout { s with pc := .woken true }
  | wake : s.pc = .waiting → Effect s .wake { s with pc := .woken false }
  | resume {expired : Bool} {tr' : DpaTransaction2} {pc' : ExecPc} :
      s.pc = .woken expired → Settled s.tr (some expired) tr' pc' →
      Effect s .resume { s with tr := tr', pc := pc' }

theorem step_effect {s s' : State} {e : Event} (h : step s e = some s') : Effect s e s' := by
  cases e with
  | execute err sent =>
    simp only [step] at h
    split at h
    · cases h
      rw [enter_eq]
      exact .execute ‹_› (loopHead_settled _)
    · cases h
  | receive f =>
    simp only [step] at h
    split at h
    · cases h
    · cases h
      exact .receive ‹_›
  | abort =>
    simp only [step] at h
    split at h
    · cases h
    · cases h
      exact .abort ‹_›
  | timeout =>
    simp only [step] at h
    split at h
    · cases h
      exact .timeout ‹_›
    · cases h
  | wake =>
    simp only [step] at h
    split at h
    · cases h
      exact .wake ‹_›
    · cases h
  | resume =>
    simp only [step] at h
    split at h
    · cases h
      exact .resume ‹_› (afterWait_settled _ _)
    · cases h

/-! ## What the methods leave alone -/

theorem begin_cases (tr : DpaTransaction2) (err : ErrorCode) (sent : Except Exc Unit) :
    (err = trnOk ∧ (tr.begin err sent).expectedDurationMs = tr.expectedDurationMs ∧
      ((tr.begin err sent).state = .sent ∨ (tr.begin err sent).state = .sentCoordinator)) ∨
    (err = trnOk ∧ (tr.begin err sent).state = .interfaceError) ∨
    (err ≠ trnOk ∧ (tr.begin err sent).state = .defaultError) := by
  rw [begin_eq]
  by_cases he : err = trnOk
  · cases sent with
    | ok _ => by_cases ha : tr.result.request.addressByte = coordinatorAddress <;> simp [he, ha]
    | error _ => simp [he]
  · simp [he]

theorem begin_fields (tr : DpaTransaction2) (err : ErrorCode) (sent : Except Exc Unit) :
    tr.begin err sent =
      { tr with
        defaultError := err
        expectedDurationMs := (tr.begin err sent).expectedDurationMs
        state := (tr.begin err sent).state } := by
  rw [begin_eq]
  split
  · split <;> rfl
  · rfl

@[simp] theorem begin_result (tr : DpaTransaction2) (err : ErrorCode) (sent : Except Exc Unit) :
    (tr.begin err sent).result = tr.result := by rw [begin_fields]

@[simp] theorem begin_isFinished (tr : DpaTransaction2) (err : ErrorCode)
    (sent : Except Exc Unit) : (tr.begin err sent).isFinished = tr.isFinished := by
  rw [begin_fields]

@[simp] theorem begin_infinitTimeout (tr : DpaTransaction2) (err : ErrorCode)
    (sent : Except Exc Unit) : (tr.begin err sent).infinitTimeout = tr.infinitTimeout := by
  rw [begin_fields]

@[simp] theorem begin_defaultError (tr : DpaTransaction2) (err : ErrorCode)
    (sent : Except Exc Unit) : (tr.begin err sent).defaultError = err := by rw [begin_fields]

@[simp] theorem evaluate_result (tr : DpaTransaction2) (expired : Bool) :
    (tr.evaluate expired).1.result = tr.result := by rw [evaluate_fields]

@[simp] theorem evaluate_infinitTimeout (tr : DpaTransaction2) (expired : Bool) :
    (tr.evaluate expired).1.infinitTimeout = tr.infinitTimeout := by rw [evaluate_fields]

@[simp] theorem finish_result (tr : DpaTransaction2) (code : ErrorCode) :
    (tr.finish code).result = tr.result.setErrorCode code := rfl
@[simp] theorem finish_isFinished (tr : DpaTransaction2) (code : ErrorCode) :
    (tr.finish code).isFinished = true := rfl
@[simp] theorem finish_infinitTimeout (tr : DpaTransaction2) (code : ErrorCode) :
    (tr.finish code).infinitTimeout = tr.infinitTimeout := rfl

@[simp] theorem abort_result (tr : DpaTransaction2) : tr.abort.result = tr.result := rfl
@[simp] theorem abort_isFinished (tr : DpaTransaction2) : tr.abort.isFinished = tr.isFinished := rfl
@[simp] theorem abort_state (tr : DpaTransaction2) : tr.abort.state = .aborted := rfl
@[simp] theorem abort_infinitTimeout (tr : DpaTransaction2) :
    tr.abort.infinitTimeout = tr.infinitTimeout := rfl

/-! ## What a received message does -/

theorem checkReceived_ok_iff {request m : DpaMessage} {kind : MessageType} :
    checkReceived request m = .ok kind ↔
      m.messageDirection = kind ∧ (kind = .response ∨ kind = .confirmation) ∧
        m.nodeAddress = request.nodeAddress ∧ m.peripheralType = request.peripheralType ∧
        m.peripheralCommand &&& ~~~0x80 = request.peripheralCommand := by
  unfold checkReceived
  constructor
  · intro h
    split at h
    · cases h
    · rename_i hd
      split at h
      · cases h
      · rename_i hn
        split at h
        · cases h
        · rename_i ht
          split at h
          · cases h
          · rename_i hc
            cases h
            refine ⟨rfl, ?_, not_not.mp hn, not_not.mp ht, not_not.mp hc⟩
            rcases not_and_or.mp hd with hr | hk
            · exact .inl (not_not.mp hr)
            · exact .inr (not_not.mp hk)
  · rintro ⟨rfl, hk, hn, ht, hc⟩
    rw [if_neg (by tauto), if_neg (by simp [hn]), if_neg (by simp [ht]), if_neg (by simp [hc])]

/-- The three things that can happen to the object when a message is received. -/
inductive Processed (tr : DpaTransaction2) (m : DpaMessage) : DpaTransaction2 → Prop where
  | unchanged : (∀ kind, ¬ tr.Accepts m kind) → Processed tr m tr
  | confirmation : tr.Accepts m .confirmation → Processed tr m (tr.processConfirmation m)
  | response : tr.Accepts m .response → Processed tr m (tr.processResponse m)

theorem processReceivedMessage_processed (tr : DpaTransaction2) (m : DpaMessage) :
    Processed tr m (tr.processReceivedMessage m).1 := by
  unfold processReceivedMessage
  split
  · rename_i hf
    exact .unchanged fun kind h => by rw [h.1] at hf; cases hf
  · rename_i hf
    have hf' : tr.isFinished = false := by simpa using hf
    split
    · rename_i e hc
      exact .unchanged fun kind h => by rw [h.2] at hc; cases hc
    · rename_i hc
      exact .confirmation ⟨hf', hc⟩
    · rename_i kind hne hc
      obtain ⟨_, hk, _⟩ := checkReceived_ok_iff.mp hc
      rcases hk with rfl | rfl
      · exact .response ⟨hf', hc⟩
      · exact absurd rfl hne

@[simp] theorem processConfirmation_result (tr : DpaTransaction2) (m : DpaMessage) :
    (tr.processConfirmation m).result = tr.result.setConfirmation m := rfl
@[simp] theorem processConfirmation_isFinished (tr : DpaTransaction2) (m : DpaMessage) :
    (tr.processConfirmation m).isFinished = tr.isFinished := rfl
@[simp] theorem processConfirmation_infinitTimeout (tr : DpaTransaction2) (m : DpaMessage) :
    (tr.processConfirmation m).infinitTimeout = tr.infinitTimeout := rfl
@[simp] theorem processConfirmation_state (tr : DpaTransaction2) (m : DpaMessage) :
    (tr.processConfirmation m).state =
      if m.addressByte = broadcastAddress then .confirmationBroadcast else .confirmation := rfl

theorem processResponse_fields (tr : DpaTransaction2) (m : DpaMessage) :
    tr.processResponse m =
      { tr with
        expectedDurationMs := (tr.processResponse m).expectedDurationMs
        state := (tr.processResponse m).state
        result := tr.result.setResponse m } := by
  unfold processResponse
  split
  · rfl
  · split <;> rfl

@[simp] theorem processResponse_result (tr : DpaTransaction2) (m : DpaMessage) :
    (tr.processResponse m).result = tr.result.setResponse m := by rw [processResponse_fields]
@[simp] theorem processResponse_isFinished (tr : DpaTransaction2) (m : DpaMessage) :
    (tr.processResponse m).isFinished = tr.isFinished := by rw [processResponse_fields]
@[simp] theorem processResponse_infinitTimeout (tr : DpaTransaction2) (m : DpaMessage) :
    (tr.processResponse m).infinitTimeout = tr.infinitTimeout := by rw [processResponse_fields]

theorem processResponse_state (tr : DpaTransaction2) (m : DpaMessage) :
    (tr.processResponse m).state = .processed ∨
      (tr.processResponse m).state = .receivedResponse ∧ tr.infinitTimeout = false := by
  unfold processResponse
  split
  · exact .inl rfl
  · split
    · rename_i hi
      by_cases he : toUint32 (tr.estimateFrom (responseDataLength m)) ≤ 0
      · exact .inl (by simp only [if_pos he])
      · exact .inr ⟨by simp only [if_neg he], by simpa using hi⟩
    · exact .inl rfl

section Processed

variable {tr tr' : DpaTransaction2} {m : DpaMessage}

theorem Processed.isFinished (h : Processed tr m tr') : tr'.isFinished = tr.isFinished := by
  cases h <;> simp

theorem Processed.request (h : Processed tr m tr') : tr'.result.request = tr.result.request := by
  cases h <;> simp

theorem Processed.infinitTimeout (h : Processed tr m tr') :
    tr'.infinitTimeout = tr.infinitTimeout := by
  cases h <;> simp

end Processed

theorem not_accepts_response {tr : DpaTransaction2} {m : DpaMessage}
    (h : tr.Accepts m .confirmation) : ¬ tr.Accepts m .response := by
  intro h'
  have := h.2.symm.trans h'.2
  cases this

theorem processReceivedMessage_confirmation {tr : DpaTransaction2} {m : DpaMessage}
    (h : tr.Accepts m .confirmation) :
    (tr.processReceivedMessage m).1 = tr.processConfirmation m := by
  simp [processReceivedMessage, h.1, h.2]

theorem processReceivedMessage_response {tr : DpaTransaction2} {m : DpaMessage}
    (h : tr.Accepts m .response) : (tr.processReceivedMessage m).1 = tr.processResponse m := by
  simp [processReceivedMessage, h.1, h.2]

/-- An accepted message has the address of the request. -/
theorem accepts_addressByte {tr : DpaTransaction2} {m : DpaMessage} {kind : MessageType}
    (h : tr.Accepts m kind) : m.addressByte = tr.result.request.addressByte := by
  obtain ⟨_, _, hn, _⟩ := checkReceived_ok_iff.mp h.2
  rw [DpaMessage.addressByte, hn, DpaMessage.addressByte]

/-- The same for the machine. -/
inductive Received (s : State) (m : DpaMessage) : State → Prop where
  | ignored : (∀ kind, ¬ s.tr.Accepts m kind) → Received s m s
  | confirmation : s.tr.Accepts m .confirmation →
      Received s m { s with tr := s.tr.processConfirmation m }
  | response : s.tr.Accepts m .response →
      Received s m { s with tr := s.tr.processResponse m, lastResponse := some m }

theorem received_effect (s : State) (m : DpaMessage) : Received s m (received s m) := by
  have hp := processReceivedMessage_processed s.tr m
  unfold received
  generalize (s.tr.processReceivedMessage m).1 = tr' at hp ⊢
  cases hp with
  | unchanged hno =>
    rw [if_neg (hno _)]
    exact .ignored hno
  | confirmation ha =>
    rw [if_neg (not_accepts_response ha)]
    exact .confirmation ha
  | response ha =>
    rw [if_pos ha]
    exact .response ha

/-- What no step changes. -/
theorem step_const {s s' : State} {e : Event} (he : step s e = some s') :
    s'.tr.result.request = s.tr.result.request ∧ s'.tr.infinitTimeout = s.tr.infinitTimeout := by
  cases step_effect he with
  | execute _ hs => exact ⟨by rw [hs.fields, begin_result], by rw [hs.fields, begin_infinitTimeout]⟩
  | @receive f _ =>
    have hp := processReceivedMessage_processed s.tr f.message
    exact ⟨hp.request, hp.infinitTimeout⟩
  | abort _ => exact ⟨rfl, rfl⟩
  | timeout _ => exact ⟨rfl, rfl⟩
  | wake _ => exact ⟨rfl, rfl⟩
  | resume _ hs => exact ⟨by rw [hs.fields], by rw [hs.fields]⟩

/-- What a step other than the entry of `execute` leaves alone. -/
structure Later (s s' : State) : Prop where
  idle : s'.pc = .idle ↔ s.pc = .idle
  returned : s.pc = .returned → s'.pc = .returned
  defaultError : s'.tr.defaultError = s.tr.defaultError
  handed : s'.handed = s.handed

theorem Settled.defaultError {tr tr' : DpaTransaction2} {wait : Option Bool} {pc : ExecPc}
    (h : Settled tr wait tr' pc) : tr'.defaultError = tr.defaultError := by rw [h.fields]

theorem Settled.not_idle {tr tr' : DpaTransaction2} {wait : Option Bool} {pc : ExecPc}
    (h : Settled tr wait tr' pc) : pc ≠ .idle := by
  cases h <;> exact ExecPc.noConfusion

theorem Processed.defaultError {tr tr' : DpaTransaction2} {m : DpaMessage}
    (h : Processed tr m tr') : tr'.defaultError = tr.defaultError := by
  cases h with
  | unchanged _ => rfl
  | confirmation _ => rfl
  | response _ => rw [processResponse_fields]

theorem step_execute {s s' : State} {err : ErrorCode} {sent : Except Exc Unit}
    (he : step s (.execute err sent) = some s') :
    s.pc = .idle ∧ s'.pc ≠ .idle ∧ s'.tr.defaultError = err := by
  cases step_effect he with
  | execute hpc hs => exact ⟨hpc, hs.not_idle, by rw [hs.defaultError, begin_defaultError]⟩

theorem step_later {s s' : State} {e : Event} (hne : ∀ err sent, e ≠ .execute err sent)
    (he : step s e = some s') : Later s s' := by
  cases step_effect he with
  | execute _ _ => exact absurd rfl (hne _ _)
  | @receive f _ =>
    have hp := processReceivedMessage_processed s.tr f.message
    exact ⟨Iff.rfl, id, hp.defaultError, rfl⟩
  | abort _ => exact ⟨Iff.rfl, id, rfl, rfl⟩
  | timeout hpc => exact ⟨by simp [hpc], by simp [hpc], rfl, rfl⟩
  | wake hpc => exact ⟨by simp [hpc], by simp [hpc], rfl, rfl⟩
  | resume hpc hs =>
    exact ⟨by simp [hpc, hs.not_idle], by simp [hpc], hs.defaultError, rfl⟩

theorem step_receive_tr {s s' : State} {f : Frame} (he : step s (.receive f) = some s') :
    s'.tr = (s.tr.processReceivedMessage f.message).1 := by
  cases step_effect he with
  | receive _ => rfl

/-- A message that is not accepted changes nothing. -/
theorem step_receive_ignored {s s' : State} {f : Frame}
    (hno : ∀ kind, ¬ s.tr.Accepts f.message kind) (he : step s (.receive f) = some s') :
    s' = s := by
  cases step_effect he with
  | receive _ =>
    have hr := received_effect s f.message
    generalize received s f.message = s1 at hr ⊢
    cases hr with
    | ignored _ => rfl
    | confirmation ha => exact absurd ha (hno _)
    | response ha => exact absurd ha (hno _)

/-- An accepted message is recorded. -/
theorem step_receive_recorded {s s' : State} {f : Frame} {kind : MessageType}
    (ha : s.tr.Accepts f.message kind) (he : step s (.receive f) = some s') :
    s'.pc = s.pc ∧ (s'.tr.result.isConfirmed = true ∨ s'.tr.result.isResponded = true) := by
  cases step_effect he with
  | receive _ =>
    have hr := received_effect s f.message
    generalize received s f.message = s1 at hr ⊢
    cases hr with
    | ignored hno => exact absurd ha (hno kind)
    | confirmation _ => exact ⟨rfl, .inl rfl⟩
    | response _ =>
      refine ⟨rfl, .inr ?_⟩
      simp only [processResponse_result]
      exact (DpaTransactionResult2.setResponse_of_pos f.message_length_pos).1

theorem Settled.responseCode {tr tr' : DpaTransaction2} {wait : Option Bool} {pc : ExecPc}
    (h : Settled tr wait tr' pc) : tr'.result.responseCode = tr.result.responseCode := by
  rw [h.fields]

/-- The loop records nothing and leaves the duration alone. -/
theorem Settled.silent {tr tr' : DpaTransaction2} {wait : Option Bool} {pc : ExecPc}
    (h : Settled tr wait tr' pc) : tr'.result.isConfirmed = tr.result.isConfirmed ∧
      tr'.result.isResponded = tr.result.isResponded ∧
      tr'.expectedDurationMs = tr.expectedDurationMs := by
  rw [h.fields]
  exact ⟨rfl, rfl, rfl⟩

/-- Only a received message is recorded or changes the duration of a transaction at rest. -/
theorem step_silent {s s' : State} {e : Event} (hne : ∀ f, e ≠ .receive f)
    (he : step s e = some s') : s'.tr.result.isConfirmed = s.tr.result.isConfirmed ∧
      s'.tr.result.isResponded = s.tr.result.isResponded ∧
      (s'.pc = .idle → s'.tr.expectedDurationMs = s.tr.expectedDurationMs) := by
  cases step_effect he with
  | execute _ hs =>
    obtain ⟨hc, hr, _⟩ := hs.silent
    exact ⟨by rw [hc, begin_result], by rw [hr, begin_result], fun h => absurd h hs.not_idle⟩
  | receive _ => exact absurd rfl (hne _)
  | abort _ => exact ⟨rfl, rfl, fun _ => rfl⟩
  | timeout _ => exact ⟨rfl, rfl, fun _ => rfl⟩
  | wake _ => exact ⟨rfl, rfl, fun _ => rfl⟩
  | resume _ hs =>
    obtain ⟨hc, hr, _⟩ := hs.silent
    exact ⟨hc, hr, fun h => absurd h hs.not_idle⟩

/-- `execute` with an error ends at once, with that error. -/
theorem settled_begin_error {tr tr' : DpaTransaction2} {err : ErrorCode} {sent : Except Exc Unit}
    {pc : ExecPc} (herr : err ≠ trnOk) (h : Settled (tr.begin err sent) none tr' pc) :
    pc = .returned ∧ tr'.isFinished = true ∧ tr'.result.getErrorCode = err := by
  have hst : (tr.begin err sent).state = .defaultError := by simp [begin_eq, herr]
  have hd : (tr.begin err sent).expectedDurationMs = 0 := by simp [begin_eq, herr]
  have hev : ((tr.begin err sent).evaluate false).2 = some err := by
    simp [evaluate, hst]
  obtain ⟨hpc, rfl⟩ := h.ended hev fun _ => hd
  refine ⟨hpc, rfl, ?_⟩
  rw [finish_result]
  exact DpaTransactionResult2.getErrorCode_setErrorCode_of_ne herr

/-- An entry that fails ends `execute()` at once. -/
theorem begin_error_returns {tr tr' : DpaTransaction2} {err : ErrorCode} {sent : Except Exc Unit}
    {pc : ExecPc} (h : (tr.begin err sent).state = .interfaceError ∨
      (tr.begin err sent).state = .defaultError)
    (hs : Settled (tr.begin err sent) none tr' pc) : pc = .returned := by
  have hd : (tr.begin err sent).expectedDurationMs = 0 := by
    revert h
    rw [begin_eq]
    split
    · split
      · split <;> rintro (h | h) <;> cases h
      · exact fun _ => rfl
    · exact fun _ => rfl
  rcases h with h | h
  · have hev : ((tr.begin err sent).evaluate false).2 = some trnErrorIface := by
      simp [evaluate, h]
    exact (hs.ended hev fun _ => hd).1
  · have hev : ((tr.begin err sent).evaluate false).2 = some (tr.begin err sent).defaultError := by
      simp [evaluate, h]
    exact (hs.ended hev fun _ => hd).1

/-- An entry with an error, as a step. -/
theorem step_execute_error {s s' : State} {err : ErrorCode} {sent : Except Exc Unit}
    (herr : err ≠ trnOk) (he : step s (.execute err sent) = some s') :
    s'.pc = .returned ∧ s'.tr.isFinished = true ∧ s'.tr.result.getErrorCode = err := by
  cases step_effect he with
  | execute _ hs => exact settled_begin_error herr hs

/-! ## The invariant of every run -/

structure WellFormed (s : State) : Prop where
  finished_iff : s.tr.isFinished = true ↔ s.pc = .returned

theorem WellFormed.unfinished {s : State} (h : WellFormed s) (hp : s.pc ≠ .returned) :
    s.tr.isFinished = false :=
  Bool.eq_false_iff.mpr fun hf => hp (h.finished_iff.mp hf)

theorem WellFormed.at_entry {s : State} (h : WellFormed s) (hpc : s.pc = .idle) :
    s.tr.isFinished = false :=
  h.unfinished (by rw [hpc]; exact ExecPc.noConfusion)

theorem WellFormed.at_resume {s : State} {expired : Bool} (h : WellFormed s)
    (hpc : s.pc = .woken expired) : s.tr.isFinished = false :=
  h.unfinished (by rw [hpc]; exact ExecPc.noConfusion)

theorem wellFormed_init {tr : DpaTransaction2} (h : tr.isFinished = false) :
    WellFormed (init tr) := ⟨by simp [init, h]⟩

theorem Settled.finished_iff {tr tr' : DpaTransaction2} {wait : Option Bool} {pc : ExecPc}
    (h : Settled tr wait tr' pc) (hf : tr.isFinished = false) :
    tr'.isFinished = true ↔ pc = .returned := by
  cases h with
  | enters _ => simp [hf]
  | goesOn _ _ => simp [hf]
  | spins _ _ => simp [hf]
  | ends _ _ => simp

theorem wellFormed_step {s s' : State} {e : Event} (h : WellFormed s) (he : step s e = some s') :
    WellFormed s' := by
  have hopen : s.pc ≠ .returned → s.tr.isFinished = false := h.unfinished
  cases step_effect he with
  | execute hpc hs => exact ⟨hs.finished_iff (by simp [hopen, hpc])⟩
  | @receive f hpc =>
    refine ⟨?_⟩
    have hsame := (processReceivedMessage_processed s.tr f.message).isFinished
    simp only [received, hsame]
    exact h.finished_iff
  | abort _ => exact ⟨by simpa using h.finished_iff⟩
  | timeout hpc => exact ⟨by simp [hopen, hpc]⟩
  | wake hpc => exact ⟨by simp [hopen, hpc]⟩
  | resume hpc hs => exact ⟨hs.finished_iff (by simp [hopen, hpc])⟩

def ledPulseTransaction : DpaTransaction2 :=
  create ledPulse.message .std ⟨"4.02D"⟩ 500 (-1) trnOk

end Execution
end ClibDpa
