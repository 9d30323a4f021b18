import ClibDpa.Progress

/-!
# ClibDpa.Stale

A wait that expired, and what was accepted before it is judged. `execute()` takes the status of
`wait_for` and applies it to the state it finds once it holds the mutex again; a frame accepted in
between has computed a waiting period of its own, which is not waited.

`Watched` adds to the machine of one transaction whether a frame was accepted since the wait began.

* `Judged`      — the states that an expired wait ends, with the code the expiry gives them.
* `Fresh`       — no evaluation judges a frame by a wait that began before it.
* `Prompt`      — the condition on a step.
* `fresh_iff`   — over runs.
-/

namespace ClibDpa
namespace Execution

open DpaTransaction2

/-- An expired wait ends the transaction here: `kTimeout`, or `kProcessed`. -/
def Judged (tr : DpaTransaction2) : Prop :=
  (tr.infinitTimeout = false ∧
    (tr.state = .sent ∨ tr.state = .sentCoordinator ∨ tr.state = .confirmation)) ∨
  tr.state = .confirmationBroadcast ∨ tr.state = .receivedResponse

/-- The states where it matters how the wait ended. -/
theorem judged_iff (tr : DpaTransaction2) :
    Judged tr ↔ (tr.evaluate true).2 ≠ (tr.evaluate false).2 := by
  cases hs : tr.state <;> cases hi : tr.infinitTimeout <;> simp [Judged, evaluate, hs, hi]

structure Watched where
  s : State
  /-- A frame was accepted since the wait began. -/
  accepted : Bool

namespace Watched

def init (tr : DpaTransaction2) : Watched := ⟨Execution.init tr, false⟩

/-- A new wait begins on entry and when an evaluation goes on. -/
def acceptedAfter (w : Watched) : Event → Bool
  | .receive f => w.accepted ||
      decide (w.s.tr.Accepts f.message .response ∨ w.s.tr.Accepts f.message .confirmation)
  | .execute _ _ => false
  | .resume => false
  | _ => w.accepted

def step (w : Watched) (e : Event) : Option Watched :=
  match Execution.step w.s e with
  | some s' => some ⟨s', w.acceptedAfter e⟩
  | none => none

theorem step_cases {w w' : Watched} {e : Event} (h : step w e = some w') :
    ∃ s', Execution.step w.s e = some s' ∧ w' = ⟨s', w.acceptedAfter e⟩ := by
  unfold step at h
  split at h
  · rename_i s' hs
    cases h
    exact ⟨s', hs, rfl⟩
  · cases h

/-- The runs are those of the transaction. -/
theorem exec_s (w : Watched) (es : List Event) :
    (Machine.exec step w es).map Watched.s = Machine.exec Execution.step w.s es := by
  induction es generalizing w with
  | nil => rfl
  | cons e es ih =>
    cases hs : Execution.step w.s e with
    | none => simp [Machine.exec, step, hs]
    | some s' =>
      have hw : step w e = some ⟨s', w.acceptedAfter e⟩ := by simp [step, hs]
      rw [Machine.exec_cons_some hw, Machine.exec_cons_some hs]
      exact ih _

end Watched

/-- An evaluation at this moment would not judge an accepted frame by the older wait. -/
def Fair (w : Watched) : Prop :=
  w.s.pc = .woken true → Judged w.s.tr → w.accepted = false

/-- What ends on the strength of an expired wait has accepted no frame since the wait began. -/
def Fresh (w : Watched) (e : Event) : Prop :=
  e = .resume → w.s.pc = .woken true → Judged w.s.tr → w.accepted = false

/-- The frame leaves nothing for the expired wait to judge. -/
def Settles (tr : DpaTransaction2) (f : Frame) : Prop :=
  (tr.Accepts f.message .confirmation →
    tr.infinitTimeout = true ∧ f.message.addressByte ≠ broadcastAddress) ∧
  (tr.Accepts f.message .response → tr.state = .sentCoordinator ∨ tr.infinitTimeout = true)

/-- A wait does not expire over an accepted frame that the expiry would judge, and between the
expiry and the evaluation no such frame is accepted. -/
def Prompt (w : Watched) : Event → Prop
  | .timeout => ¬ (w.accepted = true ∧ Judged w.s.tr)
  | .receive f => w.s.pc = .woken true → Settles w.s.tr f
  | _ => True

theorem processConfirmation_judged (tr : DpaTransaction2) (m : DpaMessage) :
    Judged (tr.processConfirmation m) ↔
      ¬ (tr.infinitTimeout = true ∧ m.addressByte ≠ broadcastAddress) := by
  rw [Judged, processConfirmation_infinitTimeout, processConfirmation_state]
  by_cases hb : m.addressByte = broadcastAddress
  · simp [hb]
  · cases hi : tr.infinitTimeout <;> simp [hb]

/-- The estimate for a response is never zero, so its state is one that waits. -/
theorem processResponse_judged (tr : DpaTransaction2) (m : DpaMessage) :
    Judged (tr.processResponse m) ↔
      ¬ (tr.state = .sentCoordinator ∨ tr.infinitTimeout = true) := by
  by_cases hs : tr.state = .sentCoordinator
  · simp [Judged, processResponse, hs]
  · cases hi : tr.infinitTimeout with
    | true => simp [Judged, processResponse, hs, hi]
    | false =>
      have hpos := (toUint32_estimateFrom_bounds tr (responseDataLength m)).1
      have hne : ¬ toUint32 (tr.estimateFrom (responseDataLength m)) ≤ 0 := by omega
      simp [Judged, processResponse, hs, hi, hne]

/-- Once a frame is accepted, fair means that the expired wait has nothing to judge. -/
theorem fair_accepted_iff {s : State} (hpc : s.pc = .woken true) :
    Fair ⟨s, true⟩ ↔ ¬ Judged s.tr := by
  constructor
  · intro hfair hj
    exact Bool.noConfusion (hfair hpc hj)
  · intro hnot _ hj
    exact absurd hj hnot

/-- A frame taken in the window between the expiry and the evaluation. -/
theorem fair_receive {w : Watched} {f : Frame} (h : Fair w) (hpc : w.s.pc = .woken true) :
    Fair ⟨received w.s f.message, w.acceptedAfter (.receive f)⟩ ↔ Settles w.s.tr f := by
  have hr := received_effect w.s f.message
  generalize received w.s f.message = s' at hr ⊢
  cases hr with
  | ignored hno =>
    have hsame : w.acceptedAfter (.receive f) = w.accepted := by
      simp [Watched.acceptedAfter, hno]
    rw [hsame]
    exact ⟨fun _ => ⟨fun ha => absurd ha (hno _), fun ha => absurd ha (hno _)⟩, fun _ => h⟩
  | confirmation ha =>
    have hnot := not_accepts_response ha
    have htrue : w.acceptedAfter (.receive f) = true := by simp [Watched.acceptedAfter, ha]
    rw [htrue, fair_accepted_iff (by exact hpc), processConfirmation_judged, not_not]
    exact ⟨fun hset => ⟨fun _ => hset, fun ha' => absurd ha' hnot⟩, fun hset => hset.1 ha⟩
  | response ha =>
    have hnot : ¬ w.s.tr.Accepts f.message .confirmation := fun ha' => not_accepts_response ha' ha
    have htrue : w.acceptedAfter (.receive f) = true := by simp [Watched.acceptedAfter, ha]
    rw [htrue, fair_accepted_iff (by exact hpc), processResponse_judged, not_not]
    exact ⟨fun hset => ⟨fun ha' => absurd ha' hnot, fun _ => hset⟩, fun hset => hset.2 ha⟩

/-- A step keeps the evaluation fair exactly when it meets the condition. -/
theorem fair_step {w w' : Watched} {e : Event} (h : Fair w) (he : Watched.step w e = some w') :
    Fair w' ↔ Prompt w e := by
  obtain ⟨s', hs, rfl⟩ := Watched.step_cases he
  cases step_effect hs with
  | execute _ _ => exact ⟨fun _ => trivial, fun _ _ _ => rfl⟩
  | receive _ =>
    by_cases hw : w.s.pc = .woken true
    · rw [fair_receive h hw]
      exact ⟨fun hset _ => hset, fun hp => hp hw⟩
    · exact ⟨fun _ hw' => absurd hw' hw, fun _ hw' => absurd hw' hw⟩
  | abort _ =>
    refine ⟨fun _ => trivial, fun _ _ hj => ?_⟩
    rcases hj with ⟨_, hj | hj | hj⟩ | hj | hj <;> cases hj
  | timeout _ =>
    constructor
    · rintro hfair ⟨hacc, hj⟩
      exact Bool.noConfusion (hacc.symm.trans (hfair rfl hj))
    · intro hp _ hj
      exact Bool.eq_false_iff.mpr fun hacc => hp ⟨hacc, hj⟩
  | wake _ => exact ⟨fun _ => trivial, by rintro _ ⟨⟩⟩
  | resume _ _ => exact ⟨fun _ => trivial, fun _ _ _ => rfl⟩

/-- In every run, no state has an accepted frame at the mercy of an older wait exactly when every
step is prompt; and then no transaction ends on the strength of a stale expiry. -/
theorem fresh_iff (tr : DpaTransaction2) (es : List Event) :
    (Machine.States Watched.step Fair (Watched.init tr) es ↔
      Machine.Steps Watched.step Prompt (Watched.init tr) es) ∧
    (Machine.Steps Watched.step Prompt (Watched.init tr) es →
      Machine.Steps Watched.step Fresh (Watched.init tr) es) := by
  have hiff : Machine.States Watched.step Fair (Watched.init tr) es ↔
      Machine.Steps Watched.step Prompt (Watched.init tr) es :=
    Machine.states_iff_steps (I := Fair) (D := fun _ => True)
      (fun _ _ _ _ hI hC he => (fair_step hI he).mpr hC) (fun _ h => h)
      (fun _ _ _ _ hI hC he hP => hC ((fair_step hI he).mp hP)) (fun _ _ => trivial)
      (by rintro ⟨⟩)
  exact ⟨hiff, fun h => Machine.States.steps (C := Fresh) (fun _ _ hfair _ => hfair) (hiff.mpr h)⟩

/-- The wait for the confirmation expires, the confirmation takes the mutex first, and the
transaction ends with `TRN_ERROR_TIMEOUT`. -/
theorem confirmation_judged_late :
    ∃ w w', Machine.exec Watched.step (Watched.init ledPulseTransaction)
        [.execute trnOk (.ok ()), .timeout, .receive ledPulseConfirmation] = some w ∧
      Watched.step w .resume = some w' ∧ w.s.tr.state = .confirmation ∧
      w'.s.tr.isFinished = true ∧ w'.s.tr.result.getErrorCode = trnErrorTimeout ∧
      ¬ Fresh w .resume := by
  refine ⟨_, _, rfl, rfl, by decide, by decide, by decide, ?_⟩
  intro h
  exact absurd (h rfl rfl (.inl (by decide))) (by decide)

end Execution
end ClibDpa
