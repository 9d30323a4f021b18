import ClibDpa.Serial

/-!
# ClibDpa.Early

Frames that are processed for a transaction before its request was sent.

The worker publishes a transaction in `m_pendingTransaction` before it enters `execute`, and
`processReceivedMessage` looks at `m_finish` only. `NotEarly` excludes the one step that records
such a frame; `no_early_answer_iff` shows that it is the only one.
-/

namespace ClibDpa
namespace Handler

/-- Nothing is recorded in a transaction that was not sent, and no frame has changed its
duration. -/
def NoEarlyAnswer (s : State) : Prop :=
  ∀ i o, s.tx i = some o → i ∉ sentIds s →
    o.exec.tr.result.isConfirmed = false ∧ o.exec.tr.result.isResponded = false ∧
    (o.exec.pc = .idle → o.exec.tr.expectedDurationMs = o.created.expectedDurationMs)

/-- The step does not process a matching frame for a transaction whose `execute` was not
entered. -/
def NotEarly (s : State) (e : Event) : Prop :=
  ∀ i f o, e = .receiver → s.receiver = .process i f → s.tx i = some o → o.exec.pc = .idle →
    ∀ kind, ¬ o.exec.tr.Accepts f.message kind

section Early

variable {s s' : State}

/-- An unsent transaction waits for its `execute` or has finished. -/
theorem unsent_cases (h : Ok s) {i : Nat} {o : Submission} (ho : s.tx i = some o)
    (hsent : i ∉ sentIds s) : o.exec.pc = .idle ∨ o.exec.tr.isFinished = true := by
  obtain ⟨pre, hs⟩ := h.serial
  have hok := h.tx i o ho
  by_cases hpc : o.exec.pc = .idle
  · exact .inl hpc
  · have herr := (not_congr (hs.decided i o ho hpc)).mp hsent
    exact .inr (hok.wf.finished_iff.mpr (hok.refused hpc herr))

theorem idle_unsent (h : Ok s) {i : Nat} {o : Submission} (ho : s.tx i = some o)
    (hpc : o.exec.pc = .idle) : i ∉ sentIds s := by
  obtain ⟨pre, hs⟩ := h.serial
  exact fun hm => (hs.entered i o ho).mpr (hs.order.subset hm) hpc

theorem sentIds_mono {e : Event} (he : Effect s e s') {i : Nat} (h : i ∉ sentIds s') :
    i ∉ sentIds s := by
  intro hm
  apply h
  by_cases hne : s'.sent = s.sent
  · rw [sentIds, hne]
    exact hm
  · obtain ⟨_, _, _, _, hsent⟩ := sent_step he hne
    rw [sentIds, hsent, List.map_append]
    exact List.mem_append_left _ hm

theorem noEarlyAnswer_step {e : Event} (hok : Ok s) (h : NoEarlyAnswer s) (hC : NotEarly s e)
    (he : Effect s e s') : NoEarlyAnswer s' := by
  intro i o' ho' hsent'
  have hsent := sentIds_mono he hsent'
  have htx := step_tx hok.base he i
  rw [ho'] at htx
  generalize hold : s.tx i = old at htx
  cases htx with
  | same => exact h i o' hold hsent
  | submit _ _ => exact ⟨rfl, rfl, fun _ => rfl⟩
  | @ahead _ o _ _ => exact h i o hold hsent
  | @execute n sendTo o x _ _ hx =>
    obtain ⟨hc, hr, _⟩ := h i o hold hsent
    obtain ⟨hc', hr', hd'⟩ := Execution.step_silent (by nofun) hx
    obtain ⟨_, hne, _⟩ := Execution.step_execute hx
    exact ⟨hc'.trans hc, hr'.trans hr, fun hidle => absurd hidle hne⟩
  | @act ev o x ha hx =>
    by_cases hrec : ∃ f, ev = .receive f
    · obtain ⟨f, rfl⟩ := hrec
      have hno : ∀ kind, ¬ o.exec.tr.Accepts f.message kind := by
        rcases unsent_cases hok hold hsent with hidle | hfin
        · cases ha with
          | receive hr => exact hC i f o rfl hr hold hidle
        · intro kind hacc
          rw [hacc.1] at hfin
          cases hfin
      rw [Execution.step_receive_ignored hno hx]
      exact h i o hold hsent
    · obtain ⟨hc, hr, hd⟩ := h i o hold hsent
      obtain ⟨hc', hr', hd'⟩ := Execution.step_silent (fun f heq => hrec ⟨f, heq⟩) hx
      refine ⟨hc'.trans hc, hr'.trans hr, fun hidle => ?_⟩
      exact (hd' hidle).trans (hd ((kept_act ha hx).idle.mp hidle))

/-- A step against the condition records the frame in the unsent transaction. -/
theorem early_recorded {e : Event} (hok : Ok s) (hC : ¬ NotEarly s e)
    (he : step s e = some s') : ¬ NoEarlyAnswer s' := by
  unfold NotEarly at hC
  push Not at hC
  obtain ⟨i, f, o, rfl, hr, ho, hidle, kind, hacc⟩ := hC
  have hstep : actOn { s with receiver := .idle .returned } i (.receive f) = some s' := by
    simpa only [step, receiverStep, hr] using he
  obtain ⟨o', x, ho', hx, rfl⟩ := actOn_some hstep
  cases ho.symm.trans ho'
  obtain ⟨hpc, hrec⟩ := Execution.step_receive_recorded hacc hx
  intro hP
  have hnow := hP i { o with exec := x } (by simp [setTx]) (idle_unsent hok ho hidle)
  rcases hrec with hrec | hrec
  · rw [hnow.1] at hrec
    cases hrec
  · rw [hnow.2.1] at hrec
    cases hrec

end Early

/-- No frame is answered early in exactly the runs that process no matching frame for a
transaction before its `execute` is entered. -/
theorem no_early_answer_iff (es : List Event) :
    Machine.States step NoEarlyAnswer init es ↔ Machine.Steps step NotEarly init es := by
  refine Machine.states_iff_steps (D := fun _ => True)
    (I := fun s => Machine.Reachable step init s ∧ NoEarlyAnswer s) ?_ (fun _ h => h.2) ?_
    (fun _ _ => trivial) ⟨.refl _, fun _ _ ho => by cases ho⟩
  · rintro s e s' _ ⟨hr, hP⟩ hC he
    exact ⟨hr.next he, noEarlyAnswer_step (ok_reachable hr) hP hC (step_effect he)⟩
  · rintro s e s' _ ⟨hr, _⟩ hC he
    exact early_recorded (ok_reachable hr) hC he

/-- The response to a request that timed out arrives when the next, equal request is published but
not sent: it is recorded in the result of that one. -/
theorem late_response_taken :
    ∃ s o, Machine.exec step init
        (submitLedPulse 0 ++ submitLedPulse 1 ++ dequeue ++ executes channelUp ++
          [.execution .timeout, .execution .resume, .functor channelUp] ++
          List.replicate 6 .worker ++
          [.functor channelUp, .deliver ledPulseResponse.bytes, .receiver, .receiver]) = some s ∧
      sentIds s = [0] ∧ s.tx 1 = some o ∧ o.exec.tr.result.isResponded = true :=
  ⟨_, _, rfl, rfl, rfl, rfl⟩

end Handler
end ClibDpa
