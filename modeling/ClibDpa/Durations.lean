import ClibDpa.Lib.Checked
import ClibDpa.Serial

/-!
# ClibDpa.Durations

The times of a transaction, in every reachable state of the handler: whenever `execute()` goes on
there is a positive time to wait, and no time overflows on its way from the timeouts and the bytes
of a confirmation to `m_expectedDurationMs`.

`estimatedTimeoutMs` is the estimation in the arithmetic of `int`, where an overflow has no value.

* `Bounded`     — the times of the object fit an `int32_t`.
* `never_spins` — over runs of the handler.
-/

namespace ClibDpa

open Checked

/-- `( hopsRequest + 1 ) * timeslotReq * 10`, then `+=` the response part and the reserve. -/
def estimatedTimeoutMs (hopsRequest timeslotReq hopsResponse : UInt8)
    (responseTimeSlotLengthMs : Int) : Option Int := do
  let hops ← add (signed 32) hopsRequest.toNat 1
  let slots ← mul (signed 32) hops timeslotReq.toNat
  let request ← mul (signed 32) slots 10
  let hops ← add (signed 32) hopsResponse.toNat 1
  let slots ← mul (signed 32) hops responseTimeSlotLengthMs
  let response ← add (signed 32) slots safetyTimeoutMs
  add (signed 32) request response

theorem estimatedTimeoutMs_eq {h t r : UInt8} {slot : Int} (hs : 40 ≤ slot ∧ slot ≤ 200) :
    estimatedTimeoutMs h t r slot = some (estimatedTimeout h t r slot) := by
  have hlo : (signed 32).lo ≤ 0 := by decide
  have h1 : (h.toNat : Int) ≤ 255 := by have := h.toNat_lt; omega
  have h2 : (t.toNat : Int) ≤ 255 := by have := t.toNat_lt; omega
  have h3 : (r.toNat : Int) ≤ 255 := by have := r.toNat_lt; omega
  have hreq : (0 : Int) ≤ (h.toNat + 1) * t.toNat := by positivity
  have hreq' : ((h.toNat : Int) + 1) * t.toNat ≤ 256 * 255 := by
    apply mul_le_mul <;> omega
  have hresp : (0 : Int) ≤ (r.toNat + 1) * slot := mul_nonneg (by omega) (by omega)
  have hresp' : ((r.toNat : Int) + 1) * slot ≤ 256 * 200 := by
    apply mul_le_mul <;> omega
  have hsafe : safetyTimeoutMs = 40 := rfl
  unfold estimatedTimeoutMs
  rw [add_of_le hlo (Int.natCast_nonneg _) h1 (by decide) (le_refl 1) (by decide),
    add_of_le hlo (Int.natCast_nonneg _) h3 (by decide) (le_refl 1) (by decide)]
  simp only [Option.bind_eq_bind, Option.bind_some]
  rw [mul_of_le hlo (by omega) (show (h.toNat : Int) + 1 ≤ 256 by omega)
      (Int.natCast_nonneg _) h2 (by decide),
    mul_of_le hlo (by omega) (show (r.toNat : Int) + 1 ≤ 256 by omega) (by omega) hs.2
      (by decide)]
  simp only [Option.bind_some]
  rw [mul_of_le hlo hreq hreq' (by decide) (le_refl 10) (by decide),
    add_of_le hlo hresp hresp' (by decide) (le_of_eq hsafe) (by decide)]
  simp only [Option.bind_some]
  rw [add_of_le hlo (by omega) (show _ ≤ 256 * 255 * 10 by omega) (by omega)
    (show _ ≤ 256 * 200 + 40 by omega) (by decide)]
  rfl

/-! ## The times of a transaction -/

namespace Execution

open DpaTransaction2

structure Bounded (tr : DpaTransaction2) : Prop where
  user : tr.userTimeoutMs ≤ 2147483647
  expected : tr.expectedDurationMs ≤ 2147483647

section Bounded

variable {tr tr' : DpaTransaction2} {m : DpaMessage}

theorem bounded_create (request : DpaMessage) (mode : RfMode) (params : TimingParams)
    {defaultTimeout : Int32} (userTimeout : Int32) (err : ErrorCode)
    (h : 0 < defaultTimeout.toInt) :
    Bounded (create request mode params defaultTimeout userTimeout err) := by
  have hd := defaultTimeout.toInt_lt
  have hu := userTimeout.toInt_lt
  have hbond : bondTimeoutMs ≤ 2147483647 := by decide
  obtain ⟨huser, hexp⟩ := create_times request mode params userTimeout err h
  refine ⟨?_, ?_⟩
  · split_ifs at huser <;> omega
  · split_ifs at hexp <;> omega

theorem bounded_begin (h : Bounded tr) (err : ErrorCode) (sent : Except Exc Unit) :
    Bounded (tr.begin err sent) := by
  rw [begin_eq]
  split
  · split
    · exact ⟨h.user, h.expected⟩
    · exact ⟨h.user, Nat.zero_le _⟩
  · exact ⟨h.user, Nat.zero_le _⟩

theorem bounded_settled {wait : Option Bool} {pc : ExecPc} (h : Bounded tr)
    (hs : Settled tr wait tr' pc) : Bounded tr' := by
  rw [hs.fields]
  exact ⟨h.user, h.expected⟩

theorem bounded_processed (h : Bounded tr) (hp : Processed tr m tr') : Bounded tr' := by
  cases hp with
  | unchanged _ => exact h
  | confirmation _ =>
    have hest := (toUint32_estimateFrom_bounds (tr.saveHops m) (-1)).2
    refine ⟨h.user, ?_⟩
    simp only [processConfirmation]
    split
    · split
      · omega
      · exact h.user
    · exact h.expected
  | response _ =>
    have hest := (toUint32_estimateFrom_bounds tr (responseDataLength m)).2
    unfold processResponse
    split
    · exact ⟨h.user, h.expected⟩
    · split
      · exact ⟨h.user, by simp only; omega⟩
      · exact ⟨h.user, h.expected⟩

theorem bounded_step {s s' : State} {e : Event} (h : Bounded s.tr) (he : step s e = some s') :
    Bounded s'.tr := by
  cases step_effect he with
  | execute _ hs => exact bounded_settled (bounded_begin h _ _) hs
  | @receive f _ => exact bounded_processed h (processReceivedMessage_processed s.tr f.message)
  | abort _ => exact ⟨h.user, h.expected⟩
  | timeout _ => exact h
  | wake _ => exact h
  | resume _ hs => exact bounded_settled h hs

end Bounded

/-- From the entry of the loop or the end of a wait the worker gets to the next wait, with a time to
wait, or to the end. -/
def Blocks (s : State) : Prop :=
  ∀ e s', step s e = some s' → (e = .resume ∨ ∃ err sent, e = .execute err sent) →
    (s'.pc = .waiting ∧ 0 < s'.tr.expectedDurationMs) ∨ s'.pc = .returned

theorem settled_blocks {tr tr' : DpaTransaction2} {wait : Option Bool} {pc : ExecPc}
    (h : Settled tr wait tr' pc) (hne : pc ≠ .spinning) :
    (pc = .waiting ∧ 0 < tr'.expectedDurationMs) ∨ pc = .returned := by
  cases h with
  | enters hd => exact .inl ⟨rfl, hd⟩
  | goesOn _ hd => exact .inl ⟨rfl, hd⟩
  | spins _ _ => exact absurd rfl hne
  | ends _ _ => exact .inr rfl

theorem blocks_of_timed {s : State} (hw : WellFormed s) (ht : Timed s) : Blocks s := by
  intro e s' he hloop
  have hne := (timed_step hw ht he).waits
  cases step_effect he with
  | execute _ hs => exact settled_blocks hs hne
  | resume _ hs => exact settled_blocks hs hne
  | _ =>
    rcases hloop with h | ⟨_, _, h⟩ <;> cases h

end Execution

namespace Handler

open DpaTransaction2

/-- The confirmation of an LED pulse with the largest hop counts and time slot. -/
def slowConfirmation : Frame :=
  ⟨[0x01, 0x00, 0x06, 0x03, 0xff, 0xff, 0xff, 0x00, 0xff, 0xff, 0xff], by decide, by decide⟩

/-- In every reachable state of the handler, whatever `setTimeout` was called with, each
transaction: does not spin, and gets from an evaluation to a wait of a positive time or to the end;
decides to go on only with such a time; keeps its times within `int32_t`; and computes its estimates
without overflow, for all confirmation bytes and response lengths, to a value that the conversion to
`uint32_t` keeps. -/
theorem never_spins {s : State} (h : Machine.Reachable step init s) {i : Nat} {o : Submission}
    (ho : s.tx i = some o) :
    (o.exec.pc ≠ .spinning ∧ Execution.Blocks o.exec) ∧
    (o.exec.tr.isFinished = false → ∀ expired, (o.exec.tr.evaluate expired).2 = none →
      0 < o.exec.tr.expectedDurationMs) ∧
    Execution.Bounded o.exec.tr ∧
    ∀ (h t r : UInt8) (n : Int8),
      let mode := o.exec.tr.currentCommunicationMode
      let params := o.exec.tr.currentTimingParams
      estimatedTimeoutMs h t r (responseSlot mode params t n) =
          some (estimate mode params h t r n) ∧
        0 < estimate mode params h t r n ∧
        (toUint32 (estimate mode params h t r n) : Int) = estimate mode params h t r n := by
  have hok := txOk h ho
  refine ⟨⟨hok.timed.waits, Execution.blocks_of_timed hok.wf hok.timed⟩, ?_, ?_, ?_⟩
  · intro hopen expired hnone
    by_contra hd
    exact hok.timed.ends hopen (by omega) (Execution.evaluate_none_of_expired hnone)
  · refine tx_inv (P := fun o => Execution.Bounded o.exec.tr) ?_ (fun _ _ hb => hb)
      (fun _ _ _ hb hx => Execution.bounded_step hb hx) h ho
    intro s request timeout err hd
    exact Execution.bounded_create _ _ _ _ _
      (Int.lt_of_lt_of_le (by decide) (Int32.le_iff_toInt_le.mp hd))
  · intro h t r n mode params
    have hb := estimate_bounds mode params h t r n
    refine ⟨?_, by omega, ?_⟩
    · rw [estimate_eq]
      exact estimatedTimeoutMs_eq (responseSlot_bounds mode params t n)
    · rw [toUint32_of_nonneg (by omega) (by omega)]
      omega

/-- With the shortest default timeout and a confirmation of the longest times. -/
theorem never_spins_ledPulse :
    ∃ s o, Machine.exec step init
        (.setTimeout (-5) :: submitLedPulse 0 ++ dequeue ++ executes channelUp ++
          [.deliver slowConfirmation.bytes, .receiver, .receiver]) = some s ∧
      s.tx 0 = some o ∧ o.exec.tr.expectedDurationMs = 668200 ∧ o.exec.pc ≠ .spinning ∧
      Execution.Bounded o.exec.tr := by
  have hrun : ∃ s o, Machine.exec step init
      (.setTimeout (-5) :: submitLedPulse 0 ++ dequeue ++ executes channelUp ++
        [.deliver slowConfirmation.bytes, .receiver, .receiver]) = some s ∧
      s.tx 0 = some o ∧ o.exec.tr.expectedDurationMs = 668200 :=
    ⟨_, _, rfl, rfl, rfl⟩
  obtain ⟨s, o, hexec, ho, hd⟩ := hrun
  obtain ⟨hblocks, _, hbounded, _⟩ := never_spins ⟨_, hexec⟩ ho
  exact ⟨s, o, hexec, ho, hd, hblocks.1, hbounded⟩

end Handler

end ClibDpa
