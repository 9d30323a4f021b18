import ClibDpa.TraceHex
import ClibDpa.Lib.Retry

/-!
# ClibDpa.Channel

`sendTo` of the two channels, `IqrfSpiChannel` and `IqrfCdcChannel`, over a driver that answers each
attempt in an arbitrary way. `Outcome` holds what the driver would return to the calls of one
attempt; the driver has taken the message when its write returns OK.

Each begins with the trace of its message, which does not end for the empty one. The SPI loop's wait
for the reader after a conflict with incoming data changes nothing here and is left out, and so are
the traces of the loops. With them goes the use of `attempt` after the SPI loop: it decides whether
the drop is traced.

* `Contract`              — what a caller of `sendTo` relies on.
* `send_contract_iff`     — which channel keeps it, and when.
* `hex_dump_faithful_iff` — what the dump is for the two `sendTo`.
-/

namespace ClibDpa

inductive DriverCall where
  | getSPIStatus
  | write (message : List UInt8) (accepted : Bool)
  deriving DecidableEq, Repr

def DriverCall.accepted : DriverCall → Bool
  | .getSPIStatus => false
  | .write _ accepted => accepted

/-- A call of `sendTo`. -/
structure SendRun where
  attempts : Nat
  calls : List DriverCall
  result : Except Exc Unit

/-- The trace comes first; the loop of attempts starts when it has ended. -/
def traced (sendLoop : List UInt8 → SendRun) (tracerIsValid : Bool) (beyond : Nat → UInt8)
    (message : List UInt8) (fuel : Nat) : Option SendRun :=
  (trcInformation tracerIsValid beyond message fuel).map fun _ => sendLoop message

/-! ## SPI -/

namespace IqrfSpiChannel

/-- `BASE_TYPES_OPER_OK` and the other result codes of the driver. -/
inductive Retval where
  | operOk
  | other (code : Int)
  deriving DecidableEq, Repr

/-- `SPI_IQRF_SPI_READY_COMM` and the other values of `dataNotReadyStatus`. -/
inductive DataNotReadyStatus where
  | readyComm
  | other (code : Int)
  deriving DecidableEq, Repr

structure Outcome where
  getSPIStatus : Retval
  dataNotReadyStatus : DataNotReadyStatus
  write : Retval

def maxAttempts : Nat := 8

/-- The calls of one attempt. -/
def calls (message : List UInt8) (o : Outcome) : List DriverCall :=
  if o.getSPIStatus = .operOk then
    if o.dataNotReadyStatus = .readyComm then
      [.getSPIStatus, .write message (o.write = .operOk)]
    else [.getSPIStatus]
  else [.getSPIStatus]

/-- The attempt gets to the `break`. -/
def breaks (o : Outcome) : Bool :=
  o.getSPIStatus = .operOk && o.dataNotReadyStatus = .readyComm && o.write = .operOk

/-- `sendTo` behind its first trace. -/
def sendLoop (outcome : Nat → Outcome) (message : List UInt8) : SendRun :=
  let met := Retry.attempts breaks outcome maxAttempts 0
  { attempts := met.length
    calls := met.flatMap (calls message)
    result := .ok () }

def sendTo (outcome : Nat → Outcome) (tracerIsValid : Bool) (beyond : Nat → UInt8)
    (message : List UInt8) (fuel : Nat) : Option SendRun :=
  traced (sendLoop outcome) tracerIsValid beyond message fuel

end IqrfSpiChannel

/-! ## CDC -/

namespace IqrfCdcChannel

inductive DSResponse where
  | ok
  | busy
  | other (code : Int)
  deriving DecidableEq, Repr

def maxAttempts : Nat := 4

/-- `m_cdc.sendData( message )` is the only call of an attempt. -/
def calls (message : List UInt8) (dsResponse : DSResponse) : List DriverCall :=
  [.write message (dsResponse = .ok)]

def breaks (dsResponse : DSResponse) : Bool := dsResponse ≠ .busy

/-- `sendTo` behind its first trace. `text` is what `operator<<` makes of a `DSResponse`, which is
the driver's. -/
def sendLoop (text : DSResponse → String) (outcome : Nat → DSResponse) (message : List UInt8) :
    SendRun :=
  let met := Retry.attempts breaks outcome maxAttempts 0
  let dsResponse := met.getLastD .busy
  { attempts := met.length
    calls := met.flatMap (calls message)
    result :=
      if dsResponse ≠ .ok then
        .error (.other ("CDC send faileddsResponse=\"" ++ text dsResponse ++ "\" "))
      else .ok () }

def sendTo (text : DSResponse → String) (outcome : Nat → DSResponse) (tracerIsValid : Bool)
    (beyond : Nat → UInt8) (message : List UInt8) (fuel : Nat) : Option SendRun :=
  traced (sendLoop text outcome) tracerIsValid beyond message fuel

end IqrfCdcChannel

/-! ## The contract of `sendTo` -/

structure Contract (limit : Nat) (message : List UInt8) (run : SendRun) : Prop where
  attempts : run.attempts ≤ limit
  message : ∀ m accepted, DriverCall.write m accepted ∈ run.calls → m = message
  once : (run.calls.filter DriverCall.accepted).length ≤ 1
  stops : ∀ pre call post, run.calls = pre ++ call :: post → call.accepted = true → post = []
  returns : run.result = .ok () ↔ ∃ call ∈ run.calls, call.accepted = true

/-- What the two loops share: an attempt writes the message, its accepted write is its last call
and ends the loop. Then all that is left of the contract is the report. -/
theorem contract_iff {α : Type} {calls : α → List DriverCall} {breaks : α → Bool}
    {message : List UInt8}
    (hmessage : ∀ o m accepted, DriverCall.write m accepted ∈ calls o → m = message)
    (hbreaks : ∀ o call, call ∈ calls o → call.accepted = true → breaks o = true)
    (hlast : ∀ o pre call post, calls o = pre ++ call :: post → call.accepted = true → post = [])
    (outcome : Nat → α) (limit : Nat) (result : Except Exc Unit) :
    Contract limit message
        { attempts := (Retry.attempts breaks outcome limit 0).length
          calls := (Retry.attempts breaks outcome limit 0).flatMap calls
          result := result } ↔
      (result = .ok () ↔ ∃ o ∈ Retry.attempts breaks outcome limit 0,
        ∃ call ∈ calls o, call.accepted = true) := by
  have hends : Retry.Ends breaks limit (Retry.attempts breaks outcome limit 0) :=
    Retry.attempts_ends limit 0
  have hreport : (∃ call ∈ (Retry.attempts breaks outcome limit 0).flatMap calls,
      call.accepted = true) ↔ ∃ o ∈ Retry.attempts breaks outcome limit 0,
        ∃ call ∈ calls o, call.accepted = true := by
    constructor
    · rintro ⟨call, hmem, hc⟩
      obtain ⟨o, ho, hco⟩ := List.mem_flatMap.mp hmem
      exact ⟨o, ho, call, hco, hc⟩
    · rintro ⟨o, ho, call, hco, hc⟩
      exact ⟨call, List.mem_flatMap.mpr ⟨o, ho, hco⟩, hc⟩
  rw [← hreport]
  constructor
  · exact fun h => h.returns
  · intro hreturns
    have hstops : ∀ pre call post,
        (Retry.attempts breaks outcome limit 0).flatMap calls = pre ++ call :: post →
        call.accepted = true → post = [] :=
      fun _ _ _ heq hc => hends.flatMap_last hbreaks hlast heq hc
    refine ⟨hends.length_le, ?_, Retry.filter_le_one hstops, hstops, hreturns⟩
    intro m accepted hmem
    obtain ⟨o, _, ho⟩ := List.mem_flatMap.mp hmem
    exact hmessage o m accepted ho

namespace IqrfSpiChannel

theorem exists_accepted_iff (message : List UInt8) (o : Outcome) :
    (∃ call ∈ calls message o, call.accepted = true) ↔ breaks o = true := by
  unfold calls breaks
  by_cases h1 : o.getSPIStatus = .operOk
  · by_cases h2 : o.dataNotReadyStatus = .readyComm
    · simp [h1, h2, DriverCall.accepted]
    · simp [h1, h2, DriverCall.accepted]
  · simp [h1, DriverCall.accepted]

theorem calls_last {message : List UInt8} {o : Outcome} {pre post : List DriverCall}
    {call : DriverCall} (heq : calls message o = pre ++ call :: post)
    (hc : call.accepted = true) : post = [] := by
  have hstatus : [DriverCall.getSPIStatus] = pre ++ call :: post → post = [] := by
    intro h
    cases pre with
    | nil => exact (List.cons.inj h).2.symm
    | cons _ pre => cases pre <;> cases h
  unfold calls at heq
  split at heq
  · split at heq
    · cases pre with
      | nil =>
        obtain ⟨rfl, _⟩ := List.cons.inj heq
        cases hc
      | cons _ pre =>
        cases pre with
        | nil =>
          cases heq
          rfl
        | cons _ pre => cases pre <;> cases heq
    · exact hstatus heq
  · exact hstatus heq

theorem calls_message {message m : List UInt8} {accepted : Bool} {o : Outcome}
    (h : DriverCall.write m accepted ∈ calls message o) : m = message := by
  unfold calls at h
  split at h
  · split at h
    · simp only [List.mem_cons, reduceCtorEq, DriverCall.write.injEq, List.not_mem_nil, or_false,
        false_or] at h
      exact h.1
    · simp at h
  · simp at h

/-- `sendTo` never throws, so it keeps the contract when some attempt succeeds. -/
theorem contract_sendLoop_iff (outcome : Nat → Outcome) (message : List UInt8) :
    Contract maxAttempts message (sendLoop outcome message) ↔
      ∃ k < maxAttempts, breaks (outcome k) = true := by
  have hiff := @contract_iff _ (calls message) breaks message
    (fun _ _ _ h => calls_message h)
    (fun o call hmem hc => (exists_accepted_iff message o).mp ⟨call, hmem, hc⟩)
    (fun _ _ _ _ heq hc => calls_last heq hc) outcome maxAttempts (.ok ())
  have hstop := @Retry.exists_stop_iff _ breaks outcome maxAttempts 0
  simp only [exists_accepted_iff, hstop, Nat.zero_le, Nat.zero_add, true_and, true_iff] at hiff
  exact hiff

end IqrfSpiChannel

namespace IqrfCdcChannel

theorem exists_accepted_iff (message : List UInt8) (dsResponse : DSResponse) :
    (∃ call ∈ calls message dsResponse, call.accepted = true) ↔ dsResponse = .ok := by
  simp [calls, DriverCall.accepted]

/-- The last response is OK when one of them is. -/
theorem getLastD_ok_iff {as : List DSResponse} {n : Nat} (h : Retry.Ends breaks n as) :
    as.getLastD .busy = .ok ↔ ∃ dsResponse ∈ as, dsResponse = .ok := by
  have hbusy : ∀ {front : List DSResponse}, (∀ b ∈ front, breaks b = false) →
      ∀ b ∈ front, b ≠ .ok := by
    rintro front hf b hb rfl
    exact absurd (hf _ hb) (by decide)
  cases h with
  | @stopped front a hf _ _ =>
    rw [List.getLastD_concat]
    constructor
    · rintro rfl
      exact ⟨.ok, List.mem_append_right _ (List.mem_singleton_self _), rfl⟩
    · rintro ⟨b, hb, rfl⟩
      rcases List.mem_append.mp hb with hb | hb
      · exact absurd rfl (hbusy hf _ hb)
      · exact (List.mem_singleton.mp hb).symm
  | exhausted hf _ =>
    constructor
    · intro hlast
      rcases List.eq_nil_or_concat as with rfl | ⟨front, a, rfl⟩
      · cases hlast
      · rw [List.concat_eq_append, List.getLastD_concat] at hlast
        exact ⟨a, by simp, hlast⟩
    · rintro ⟨b, hb, hok⟩
      exact absurd hok (hbusy hf b hb)

theorem contract_sendLoop (text : DSResponse → String) (outcome : Nat → DSResponse)
    (message : List UInt8) : Contract maxAttempts message (sendLoop text outcome message) := by
  refine (@contract_iff _ (calls message) breaks message ?_ ?_ ?_ outcome maxAttempts _).mpr ?_
  · intro o m accepted h
    simp only [calls, List.mem_singleton, DriverCall.write.injEq] at h
    exact h.1
  · intro o call hmem hc
    have hok := (exists_accepted_iff message o).mp ⟨call, hmem, hc⟩
    subst hok
    rfl
  · intro o pre call post heq _
    cases pre with
    | nil => exact (List.cons.inj heq).2.symm
    | cons _ pre => cases pre <;> cases heq
  · simp only [exists_accepted_iff]
    rw [← getLastD_ok_iff (Retry.attempts_ends maxAttempts 0)]
    split
    · rename_i hne
      exact ⟨(by rintro ⟨⟩), fun h => absurd h hne⟩
    · rename_i hok
      exact ⟨fun _ => not_not.mp hok, fun _ => rfl⟩

end IqrfCdcChannel

/-! ## `sendTo` with its trace -/

section Traced

variable {sendLoop : List UInt8 → SendRun} {tracerIsValid : Bool} {beyond : Nat → UInt8}
  {message : List UInt8}

/-- With its trace `sendTo` does what it does without, unless the message is empty. -/
theorem traced_iff : (∃ fuel, traced sendLoop tracerIsValid beyond message fuel =
    some (sendLoop message)) ↔ (tracerIsValid = true → message ≠ []) := by
  rw [← trcInformation_iff tracerIsValid beyond message]
  refine exists_congr fun fuel => ?_
  unfold traced
  cases trcInformation tracerIsValid beyond message fuel <;> simp

/-- The contract is kept by calls that come back. -/
theorem traced_contract_iff (limit : Nat) :
    (∃ fuel run, traced sendLoop tracerIsValid beyond message fuel = some run ∧
      Contract limit message run) ↔
    (tracerIsValid = true → message ≠ []) ∧ Contract limit message (sendLoop message) := by
  rw [← @traced_iff sendLoop]
  constructor
  · rintro ⟨fuel, run, hrun, hc⟩
    obtain ⟨_, _, rfl⟩ := Option.map_eq_some_iff.mp hrun
    exact ⟨⟨fuel, hrun⟩, hc⟩
  · rintro ⟨⟨fuel, hrun⟩, hc⟩
    exact ⟨fuel, _, hrun, hc⟩

end Traced

/-- A message that is empty and traced is the one that `sendTo` does not come back from. With any
other the CDC channel keeps the contract whatever the driver does, and the SPI channel exactly when
the driver takes the message in one of the attempts. -/
theorem send_contract_iff (tracerIsValid : Bool) (beyond : Nat → UInt8) (message : List UInt8) :
    (∀ (text : IqrfCdcChannel.DSResponse → String) (outcome : Nat → IqrfCdcChannel.DSResponse),
      (∃ fuel run,
        IqrfCdcChannel.sendTo text outcome tracerIsValid beyond message fuel = some run ∧
        Contract IqrfCdcChannel.maxAttempts message run) ↔
      (tracerIsValid = true → message ≠ [])) ∧
    ∀ outcome : Nat → IqrfSpiChannel.Outcome,
      (∃ fuel run, IqrfSpiChannel.sendTo outcome tracerIsValid beyond message fuel = some run ∧
        Contract IqrfSpiChannel.maxAttempts message run) ↔
      (tracerIsValid = true → message ≠ []) ∧
        ∃ k < IqrfSpiChannel.maxAttempts, (outcome k).getSPIStatus = .operOk ∧
          (outcome k).dataNotReadyStatus = .readyComm ∧ (outcome k).write = .operOk := by
  refine ⟨fun text outcome => ?_, fun outcome => ?_⟩
  · exact (traced_contract_iff IqrfCdcChannel.maxAttempts).trans
      (and_iff_left (IqrfCdcChannel.contract_sendLoop text outcome message))
  · refine (traced_contract_iff IqrfSpiChannel.maxAttempts).trans (and_congr_right fun _ => ?_)
    rw [IqrfSpiChannel.contract_sendLoop_iff]
    simp only [IqrfSpiChannel.breaks, Bool.and_eq_true, decide_eq_true_eq, and_assoc]

/-- The module is never ready: the message is dropped and `sendTo` returns. And the empty message is
traced for ever, on both channels. -/
theorem spi_drops_silently :
    (∃ run, IqrfSpiChannel.sendTo (fun _ => ⟨.operOk, .other 0, .operOk⟩) false (fun _ => 0)
        [0x01, 0x00, 0x06, 0x03, 0xff, 0xff] 0 = some run ∧
      run.result = .ok () ∧ run.calls = List.replicate 8 .getSPIStatus ∧
      ¬ Contract IqrfSpiChannel.maxAttempts [0x01, 0x00, 0x06, 0x03, 0xff, 0xff] run) ∧
    (∀ outcome beyond fuel, IqrfSpiChannel.sendTo outcome true beyond [] fuel = none) ∧
    ∀ text outcome beyond fuel, IqrfCdcChannel.sendTo text outcome true beyond [] fuel = none := by
  refine ⟨⟨_, rfl, rfl, rfl, fun h => ?_⟩, fun outcome beyond fuel => ?_,
    fun text outcome beyond fuel => ?_⟩
  · obtain ⟨call, hmem, hc⟩ := h.returns.mp rfl
    have hstatus : call ∈ List.replicate 8 DriverCall.getSPIStatus := hmem
    obtain ⟨_, rfl⟩ := List.mem_replicate.mp hstatus
    cases hc
  · rw [IqrfSpiChannel.sendTo, traced, trcInformation_empty, Option.map_none]
  · rw [IqrfCdcChannel.sendTo, traced, trcInformation_empty, Option.map_none]

/-- The dump reads a buffer from its first byte to its last and writes it so that it can be read
back, unless the buffer is empty; and the empty message is what a traced `sendTo` of either channel
does not get past. -/
theorem hex_dump_faithful_iff (buffer : List UInt8) (beyond : Nat → UInt8) (separator : Char)
    (tracerIsValid : Bool) (spi : Nat → IqrfSpiChannel.Outcome)
    (text : IqrfCdcChannel.DSResponse → String) (cdc : Nat → IqrfCdcChannel.DSResponse) :
    ((∃ fuel s, TracerMemHex.construct (TracerMemHex.memory buffer beyond) buffer.length separator
        fuel = some s ∧ TracerMemHex.Dumped buffer separator s) ↔ buffer ≠ []) ∧
    ((∃ fuel, IqrfSpiChannel.sendTo spi tracerIsValid beyond buffer fuel =
        some (IqrfSpiChannel.sendLoop spi buffer)) ↔ (tracerIsValid = true → buffer ≠ [])) ∧
    ((∃ fuel, IqrfCdcChannel.sendTo text cdc tracerIsValid beyond buffer fuel =
        some (IqrfCdcChannel.sendLoop text cdc buffer)) ↔
      (tracerIsValid = true → buffer ≠ [])) :=
  ⟨TracerMemHex.construct_iff buffer beyond separator, traced_iff, traced_iff⟩

/-- The first pass over an empty buffer reads behind it and goes on, and no pass is the last, so
a traced `sendTo` of the empty message does not get to its driver. -/
theorem empty_dump_overruns :
    (∀ beyond : Nat → UInt8,
      (∃ s, TracerMemHex.body (TracerMemHex.memory [] beyond) 0 '.' TracerMemHex.start = .again s ∧
        s.reads = [0]) ∧
      ∀ fuel, TracerMemHex.construct (TracerMemHex.memory [] beyond) 0 '.' fuel = none) ∧
    ∀ outcome beyond fuel, IqrfSpiChannel.sendTo outcome true beyond [] fuel = none := by
  refine ⟨fun beyond => ⟨⟨_, rfl, rfl⟩, TracerMemHex.construct_never (Int.le_refl 0)⟩, ?_⟩
  intro outcome beyond fuel
  rw [IqrfSpiChannel.sendTo, traced, trcInformation_empty, Option.map_none]

end ClibDpa
