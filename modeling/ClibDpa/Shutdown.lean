import ClibDpa.Abort
import ClibDpa.Orphan

/-!
# ClibDpa.Shutdown

`~Imp()`: the `abort()` of the pending transaction, then `stopQueue()`, then `delete` of the queue,
which joins the worker. What it leaves behind is decided when `abort()` returns: nothing on the way
to the join completes a transaction that is still queued, and the worker may start the next one
before it is told to stop.

* `Completes`          — what is promised for the states after `abort()` has returned.
* `Drained`            — what has to hold when `abort()` is called.
* `Undisturbed`        — the condition on the steps that follow.
* `shutdown_completes` — over runs.
-/

namespace ClibDpa
namespace Handler

def Finished (s : State) (i : Nat) : Prop :=
  ∃ o, s.tx i = some o ∧ o.exec.tr.isFinished = true

/-- The step with which the `abort()` of the destructor in thread `t` returns, and the transaction
it was called on; with no pending transaction there is nothing to call. -/
def abortReturns (s : State) (t : Nat) : Event → Option (Option Nat)
  | .caller t' =>
    if t' = t then
      match s.caller t with
      | .aborting p => some (some p)
      | _ => none
    else none
  | .destruct t' => if t' = t ∧ s.pendingTransaction = none then some none else none
  | _ => none

/-- `delete` of the queue has returned. -/
structure Completed (s : State) (t : Nat) : Prop where
  caller : s.caller t = .deleted
  returned : ∃ retval, s.queue.client t = .returned retval

/-- `m` is the state in which `abort()` has returned. -/
structure Completes (m : State) (t : Nat) (s : State) : Prop where
  sent : s.sent = m.sent
  finished : Completed s t → ∀ i ∈ s.queue.pushed,
    ∃ o, s.tx i = some o ∧ o.exec.tr.isFinished = true ∧
      (¬ Finished m i → o.exec.tr.result.getErrorCode = trnErrorAborted)

/-- All that was pushed has finished, but for the transaction that `abort()` is called on, and that
one is in its `execute()`. -/
def Drained (s : State) (p : Option Nat) : Prop :=
  ∀ i ∈ s.queue.pushed,
    Finished s i ∨ (p = some i ∧ ∃ o, s.tx i = some o ∧ o.exec.pc ≠ .idle)

/-- The step pushes nothing, and does not overwrite an abort. -/
structure Undisturbed (s : State) (e : Event) : Prop where
  push : ∀ t i, e = .caller t → s.caller t ≠ .constructed i
  keeps : ∀ i ev o, Acts s e i ev → s.tx i = some o → Execution.KeepsAbort o.exec ev

/-- The destructor at work. -/
structure Closing (m s : State) : Prop where
  reachable : Machine.Reachable step init s
  sent : s.sent = m.sent
  tx : ∀ i ∈ s.queue.pushed, ∃ o, s.tx i = some o ∧ o.exec.pc ≠ .idle ∧
    (Finished m i → o.exec.tr.isFinished = true) ∧
    (¬ Finished m i → Execution.Aborted false o.exec)

section Shutdown

variable {m s s' : State}

/-! ## When `abort()` returns -/

inductive AbortReturns (s : State) (t : Nat) : Option Nat → State → Prop where
  | called {p : Nat} {o : Submission} {x : Execution.State} : s.tx p = some o →
      Execution.step o.exec .abort = some x →
      AbortReturns s t (some p) (setTx (setCaller s t .stopping) p { o with exec := x })
  | nothing : AbortReturns s t none (setCaller s t .stopping)

theorem abortReturns_effect {t : Nat} {e : Event} {p : Option Nat}
    (h : abortReturns s t e = some p) (he : step s e = some s') : AbortReturns s t p s' := by
  unfold abortReturns at h
  split at h
  · split at h
    · rename_i t' ht
      subst ht
      split at h
      · rename_i p' hc
        cases h
        simp only [step, callerStep, hc] at he
        obtain ⟨o, x, ho, hx, rfl⟩ := actOn_some he
        exact .called ho hx
      · cases h
    · cases h
  · split at h
    · rename_i t' ht
      cases h
      obtain ⟨rfl, hp⟩ := ht
      simp only [step, destruct, hp] at he
      split at he
      · cases he
        exact .nothing
      · cases he
    · cases h
  · cases h

/-- What was finished stays so, and the transaction that was aborted is in `kAborted`. -/
theorem AbortReturns.keeps {t : Nat} {p : Option Nat} (h : AbortReturns s t p s') {i : Nat}
    {o : Submission} (ho : s.tx i = some o) :
    ∃ o', s'.tx i = some o' ∧ o'.exec.pc = o.exec.pc ∧
      o'.exec.tr.isFinished = o.exec.tr.isFinished ∧
      (p = some i → o'.exec.tr.state = .aborted) := by
  cases h with
  | @called p o1 x ho1 hx =>
    cases Execution.step_effect hx with
    | abort _ =>
      rcases setTx_cases (setCaller s t .stopping) p i
        { o1 with exec := { o1.exec with tr := o1.exec.tr.abort } } with ⟨rfl, hn⟩ | ⟨hne, hn⟩
      · cases ho.symm.trans ho1
        exact ⟨_, hn, rfl, rfl, fun _ => rfl⟩
      · refine ⟨o, hn.trans ho, rfl, rfl, fun hp => absurd ?_ hne⟩
        exact (Option.some.inj hp).symm
  | nothing => exact ⟨o, ho, rfl, rfl, nofun⟩

theorem AbortReturns.queue {t : Nat} {p : Option Nat} (h : AbortReturns s t p s') :
    s'.queue = s.queue := by
  cases h <;> rfl

theorem closing_start {t : Nat} {p : Option Nat}
    (h' : Machine.Reachable step init s') (hdrained : Drained s p) (ha : AbortReturns s t p s') :
    Closing s' s' := by
  refine ⟨h', rfl, fun i hi => ?_⟩
  rw [ha.queue] at hi
  have hwf' : ∀ o', s'.tx i = some o' → Execution.WellFormed o'.exec :=
    fun o' ho' => ((ok_reachable h').tx i o' ho').wf
  rcases hdrained i hi with ⟨o, ho, hf⟩ | ⟨hp, o, ho, hpc⟩
  · obtain ⟨o', ho', _, hfin, _⟩ := ha.keeps ho
    have hf' : o'.exec.tr.isFinished = true := hfin.trans hf
    refine ⟨o', ho', ?_, fun _ => hf', fun hnot => absurd ⟨o', ho', hf'⟩ hnot⟩
    rw [(hwf' o' ho').finished_iff.mp hf']
    exact Execution.ExecPc.noConfusion
  · obtain ⟨o', ho', hpc', _, hst⟩ := ha.keeps ho
    refine ⟨o', ho', by rw [hpc']; exact hpc, ?_, fun hnot => ?_⟩
    · rintro ⟨o1, ho1, hf⟩
      cases ho'.symm.trans ho1
      exact hf
    · exact ⟨hwf' o' ho', fun _ => hst hp, fun hf => absurd ⟨o', ho', hf⟩ hnot, nofun⟩

/-! ## Until the worker is joined -/

theorem pushed_step {e : Event} (he : Effect s e s')
    (hne : ∀ t i, e = .caller t → s.caller t ≠ .constructed i) :
    s'.queue.pushed = s.queue.pushed := by
  cases push_effect he with
  | submit _ => rw [submit_queue]
  | push hc _ => exact absurd hc (hne _ _ rfl)
  | frame hpushed _ _ => exact hpushed

/-- Every `execute()` has been entered, so the functor is not about to enter one. -/
theorem Closing.not_branch (h : Closing m s) (i n : Nat) : s.functor ≠ .branch i n := by
  intro hf
  have hacc : Accounted s i := .executed (.inr (by rw [hf]; exact List.mem_singleton_self i))
  obtain ⟨o, ho, hpc, _⟩ := h.tx i (hacc.pushed (ok_reachable h.reachable))
  exact hpc (execute_once h.reachable hf ho)

theorem closing_step {e : Event} (h : Closing m s) (hC : Undisturbed s e)
    (he : step s e = some s') : Closing m s' := by
  have heff := step_effect he
  have hok := ok_reachable h.reachable
  have hreach := h.reachable.next he
  refine ⟨hreach, ?_, fun i hi => ?_⟩
  · by_contra hne
    obtain ⟨i, n, _, hf, _⟩ := sent_step heff fun hsame => hne (hsame.trans h.sent)
    exact h.not_branch i n hf
  · rw [pushed_step heff hC.push] at hi
    obtain ⟨o, ho, hpc, hfin, hab⟩ := h.tx i hi
    have hkept := txKept_step hok.base heff (fun i n _ _ => h.not_branch i n) i
    obtain ⟨o', ho', hk⟩ := hkept.forward ho
    refine ⟨o', ho', fun hidle => hpc (hk.idle.mp hidle), fun hm => ?_, fun hm => ?_⟩
    · have hreturned := (hok.tx i o ho).wf.finished_iff.mp (hfin hm)
      exact ((ok_reachable hreach).tx i o' ho').wf.finished_iff.mpr (hk.returned hreturned)
    · have htx := step_tx hok.base heff i
      rw [ho, ho'] at htx
      cases htx with
      | same => exact hab hm
      | ahead _ _ => exact hab hm
      | execute _ hf _ => exact absurd hf (h.not_branch i _)
      | act ha hx => exact Execution.aborted_step (hab hm) (hC.keeps i _ o ha ho) hx

/-- The worker has gone, so whatever it entered it has finished. -/
theorem Closing.completes (h : Closing m s) (t : Nat) : Completes m t s := by
  refine ⟨h.sent, fun hdone i hi => ?_⟩
  have hok := ok_reachable h.reachable
  obtain ⟨pre, hs⟩ := hok.serial
  have hexited : s.queue.pc = .exited := by
    refine ((callersOk_reachable h.reachable).joined t hdone.caller).resolve_left ?_
    obtain ⟨retval, hr⟩ := hdone.returned
    rw [hr]
    exact Bool.false_ne_true
  have hidle : s.functor = .idle := by
    by_contra hne
    obtain ⟨j, hj⟩ := hs.busy.mpr hne
    rw [hexited] at hj
    cases hj
  obtain ⟨o, ho, hpc, _, hab⟩ := h.tx i hi
  have hpre := (hs.entered i o ho).mp hpc
  rw [hidle, FunctorPc.running, List.append_nil] at hpre
  obtain ⟨o', ho', hreturned⟩ := hs.finished i hpre
  cases ho.symm.trans ho'
  have hf := (hok.tx i o ho).wf.finished_iff.mpr hreturned
  exact ⟨o, ho, hf, fun hm => (hab hm).reported.code hf⟩

/-- The destructor completes everything in every run in which `abort()` is called on the only
transaction that is not finished, and nothing disturbs it from then on. -/
theorem shutdown_completes {t : Nat} {e : Event} {p : Option Nat} {es : List Event}
    (h : Machine.Reachable step init s) (habort : abortReturns s t e = some p)
    (he : step s e = some m) (hdrained : Drained s p)
    (hsteps : Machine.Steps step Undisturbed m es) :
    Machine.States step (Completes m t) m es := by
  have hstart := closing_start (h.next he) hdrained (abortReturns_effect habort he)
  exact hsteps.states (fun _ _ _ hI hC he => closing_step hI hC he) (fun _ hI => hI.completes t)
    hstart

/-! ## Silence -/

theorem undisturbed_of_ne {e : Event} (hr : e ≠ .receiver)
    (hc : ∀ t i, e = .caller t → s.caller t ≠ .constructed i) : Undisturbed s e where
  push := hc
  keeps := by
    intro i ev o ha _ _
    cases ha with
    | receive _ => exact absurd rfl hr
    | _ => exact ⟨nofun, nofun⟩

/-- Nothing is submitted, and no frame reaches a transaction. -/
def silent : Event → Bool
  | .executeDpaTransaction _ _ _ _ | .receiver => false
  | _ => true

theorem fewer_step {e : Event} (he : Effect s e s') (hsilent : silent e = true) :
    Fewer s s'.caller := by
  cases push_effect he with
  | submit _ => cases hsilent
  | push _ _ => exact fewer_update nofun
  | frame _ _ hfewer => exact hfewer

/-- Silence disturbs nothing, once the threads that go on have pushed. -/
theorem silent_undisturbed {es : List Event} (hsilent : ∀ e ∈ es, silent e = true)
    (hcaller : ∀ t, .caller t ∈ es → ∀ i, s.caller t ≠ .constructed i) :
    Machine.Steps step Undisturbed s es := by
  induction es generalizing s with
  | nil => trivial
  | cons e es ih =>
    intro s1 he
    have he' : silent e = true := hsilent e List.mem_cons_self
    have hfewer := fewer_step (step_effect he) he'
    refine ⟨undisturbed_of_ne ?_ ?_, ih ?_ ?_⟩
    · rintro rfl
      cases he'
    · rintro t i rfl
      exact hcaller t List.mem_cons_self i
    · exact fun e1 h1 => hsilent e1 (List.mem_cons_of_mem e h1)
    · exact fun t ht i hc => hcaller t (List.mem_cons_of_mem e ht) i (hfewer t i hc)

/-! ## Runs of the destructor -/

def oneSent : List Event := submitLedPulse 0 ++ dequeue ++ executes channelUp

/-- The second request waits in the queue. -/
def twoOneSent : List Event :=
  submitLedPulse 0 ++ submitLedPulse 1 ++ dequeue ++ executes channelUp

/-- `execute()` finds the abort. -/
def findsAbort : List Event := [.execution .wake, .execution .resume, .functor channelUp]

/-- A response reaches the transaction before that. -/
def answered : List Event :=
  [.deliver ledPulseResponse.bytes, .receiver, .receiver, .execution .wake, .execution .resume,
    .execution .timeout, .execution .resume, .functor channelUp]

/-- The call of `stopQueue()`; `delete` up to its wait for the worker is made of the same steps. -/
def callsQueue (t : Nat) : List Event := [.caller t, .client t, .client t, .client t]

/-- The worker from the end of the functor to its own, and the return of `delete`. -/
def joins (t : Nat) : List Event := List.replicate 4 .worker ++ [.client t]

/-- One transaction, in its `execute()` when the destructor aborts it. -/
theorem shutdown_completes_ledPulse :
    ∃ s m s', Machine.exec step init (oneSent ++ [.destruct 2]) = some s ∧
      step s (.caller 2) = some m ∧
      Machine.exec step init (oneSent ++ [.destruct 2] ++
        .caller 2 :: (callsQueue 2 ++ (callsQueue 2 ++ (findsAbort ++ joins 2)))) = some s' ∧
      Completed s' 2 ∧ s'.queue.pushed = [0] ∧ Completes m 2 s' := by
  have hrun : ∃ s m s', Machine.exec step init (oneSent ++ [.destruct 2]) = some s ∧
      abortReturns s 2 (.caller 2) = some (some 0) ∧ step s (.caller 2) = some m ∧
      Machine.exec step init (oneSent ++ [.destruct 2] ++
        .caller 2 :: (callsQueue 2 ++ (callsQueue 2 ++ (findsAbort ++ joins 2)))) = some s' ∧
      Completed s' 2 ∧ s'.queue.pushed = [0] ∧ Drained s (some 0) ∧
      ∀ i, m.caller 2 ≠ .constructed i := by
    refine ⟨_, _, _, rfl, rfl, rfl, rfl, ⟨rfl, _, rfl⟩, rfl, ?_, nofun⟩
    intro i hi
    have hi0 : i = 0 := List.mem_singleton.mp hi
    subst hi0
    exact .inr ⟨rfl, _, rfl, nofun⟩
  obtain ⟨s, m, s', hs, habort, hm, hs', hdone, hpushed, hdrained, hcaller⟩ := hrun
  have hsteps : Machine.Steps step Undisturbed m
      (callsQueue 2 ++ (callsQueue 2 ++ (findsAbort ++ joins 2))) := by
    refine silent_undisturbed (by simp [callsQueue, findsAbort, joins, silent]) fun t ht => ?_
    have ht2 : t = 2 := by simpa [callsQueue, findsAbort, joins] using ht
    exact ht2 ▸ hcaller
  have hstates := shutdown_completes ⟨_, hs⟩ habort hm hdrained hsteps
  exact ⟨s, m, s', hs, hm, hs', hdone, hpushed, hstates.last (Machine.exec_through hs hm hs')⟩

/-- Two transactions, the first aborted: the worker sends the second before it is told to stop, or
it is told first and the second is never finished. With one transaction, a response that arrives
before `execute()` finds the abort decides the result. -/
theorem shutdown_leaves :
    (∃ s m s', Machine.exec step init (twoOneSent ++ [.destruct 2]) = some s ∧
      abortReturns s 2 (.caller 2) = some (some 0) ∧ step s (.caller 2) = some m ∧
      Machine.exec step init (twoOneSent ++ [.destruct 2] ++
        .caller 2 :: (findsAbort ++ List.replicate 6 .worker ++ executes channelUp)) = some s' ∧
      sentIds m = [0] ∧ sentIds s' = [0, 1]) ∧
    (∃ s m s', Machine.exec step init (twoOneSent ++ [.destruct 2]) = some s ∧
      abortReturns s 2 (.caller 2) = some (some 0) ∧ step s (.caller 2) = some m ∧
      Machine.exec step init (twoOneSent ++ [.destruct 2] ++
        .caller 2 :: (callsQueue 2 ++ callsQueue 2 ++ findsAbort ++ joins 2)) = some s' ∧
      Completed s' 2 ∧ s'.queue.pushed = [0, 1] ∧ ¬ Finished s' 1) ∧
    (∃ s m s' o, Machine.exec step init (oneSent ++ [.destruct 2]) = some s ∧
      abortReturns s 2 (.caller 2) = some (some 0) ∧ step s (.caller 2) = some m ∧
      Machine.exec step init (oneSent ++ [.destruct 2] ++
        .caller 2 :: (answered ++ callsQueue 2 ++ callsQueue 2 ++ joins 2)) = some s' ∧
      Completed s' 2 ∧ s'.queue.pushed = [0] ∧ ¬ Finished m 0 ∧ s'.tx 0 = some o ∧
      o.exec.tr.isFinished = true ∧ o.exec.tr.result.getErrorCode = trnOk) := by
  refine ⟨⟨_, _, _, rfl, rfl, rfl, rfl, rfl, rfl⟩,
    ⟨_, _, _, rfl, rfl, rfl, rfl, ⟨rfl, _, rfl⟩, rfl, ?_⟩,
    ⟨_, _, _, _, rfl, rfl, rfl, rfl, ⟨rfl, _, rfl⟩, rfl, ?_, rfl, rfl, by decide⟩⟩
  · rintro ⟨o, ho, hf⟩
    cases ho
    cases hf
  · rintro ⟨o, ho, hf⟩
    cases ho
    cases hf

end Shutdown

end Handler
end ClibDpa
