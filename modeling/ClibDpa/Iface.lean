import ClibDpa.Serial

/-!
# ClibDpa.Iface

A send that fails. `sendRequest` catches what `sendTo` throws and returns, so `execute` never sees
it: its own `catch`, which would report `TRN_ERROR_IFACE`, is out of reach, and the transaction
waits for the answer to a request that was not sent (`failed_send_waits`).
-/

namespace ClibDpa

namespace Execution

open DpaTransaction2

/-- Sent and not answered; it can only time out, and only with a finite timeout. -/
structure Unanswered (s : State) : Prop where
  started : s.pc ≠ .idle
  state : s.tr.isFinished = false → s.tr.state = .sent ∨ s.tr.state = .sentCoordinator
  timeout : s.tr.isFinished = true →
    s.tr.result.getErrorCode = trnErrorTimeout ∧ s.tr.infinitTimeout = false

/-- A sent request that nobody answered ends the loop by its timeout only. -/
theorem evaluate_sent {tr : DpaTransaction2} {expired : Bool} {code : ErrorCode}
    (hst : tr.state = .sent ∨ tr.state = .sentCoordinator)
    (h : (tr.evaluate expired).2 = some code) :
    code = trnErrorTimeout ∧ tr.infinitTimeout = false := by
  rcases hst with hst | hst <;> cases expired <;> cases hi : tr.infinitTimeout <;>
    simp_all [evaluate]

theorem unanswered_settled {tr tr' : DpaTransaction2} {wait : Option Bool} {pc : ExecPc} (s : State)
    (hst : tr.state = .sent ∨ tr.state = .sentCoordinator) (hf : tr.isFinished = false)
    (h : Settled tr wait tr' pc) : Unanswered { s with tr := tr', pc := pc } := by
  have hopen : tr.isFinished = true →
      tr.result.getErrorCode = trnErrorTimeout ∧ tr.infinitTimeout = false := by
    rw [hf]
    nofun
  cases h with
  | enters _ => exact ⟨ExecPc.noConfusion, fun _ => hst, hopen⟩
  | goesOn _ _ => exact ⟨ExecPc.noConfusion, fun _ => hst, hopen⟩
  | spins _ _ => exact ⟨ExecPc.noConfusion, fun _ => hst, hopen⟩
  | @ends _ code hc _ =>
    obtain ⟨rfl, hi⟩ := evaluate_sent hst hc
    refine ⟨ExecPc.noConfusion, nofun, fun _ => ⟨?_, by simpa using hi⟩⟩
    simp only [finish_result]
    exact DpaTransactionResult2.getErrorCode_setErrorCode_of_ne (by decide)

theorem unanswered_step {s s' : State} {e : Event} (hw : WellFormed s) (h : Unanswered s)
    (hab : e ≠ .abort) (hrec : ∀ f, e = .receive f → ∀ kind, ¬ s.tr.Accepts f.message kind)
    (he : step s e = some s') : Unanswered s' := by
  cases step_effect he with
  | execute hpc _ => exact absurd hpc h.started
  | @receive f _ =>
    have hsame := step_receive_ignored (hrec f rfl) he
    rw [hsame]
    exact h
  | abort _ => exact absurd rfl hab
  | timeout _ => exact ⟨ExecPc.noConfusion, h.state, h.timeout⟩
  | wake _ => exact ⟨ExecPc.noConfusion, h.state, h.timeout⟩
  | resume hpc hs =>
    have hopen := hw.at_resume hpc
    exact unanswered_settled s (h.state hopen) hopen hs

/-- A successful `m_sender` leads into the timed wait. -/
theorem execute_waits {s s' : State} (hw : WellFormed s) (ht : Timed s)
    (he : step s (.execute trnOk (.ok ())) = some s') : s'.pc = .waiting ∧ Unanswered s' := by
  cases step_effect he with
  | @execute _ _ tr' pc' hpc hs =>
    have hopen := hw.at_entry hpc
    have hpos := ht.idle hpc
    have hst : (s.tr.begin trnOk (.ok ())).state = .sent ∨
        (s.tr.begin trnOk (.ok ())).state = .sentCoordinator := by
      simp only [begin_eq, if_pos]
      split
      · exact .inr rfl
      · exact .inl rfl
    have hdur : 0 < (s.tr.begin trnOk (.ok ())).expectedDurationMs := hpos
    refine ⟨?_, unanswered_settled { s with
      handed := s.handed ++ [s.tr.result.request], lastResponse := none } hst
      (by simpa using hopen) hs⟩
    generalize hwait : (none : Option Bool) = wait at hs
    cases hs with
    | enters _ => rfl
    | goesOn _ _ => rfl
    | spins _ hd => exact absurd hd (Nat.ne_of_gt hdur)
    | ends _ hd => exact absurd (hd hwait.symm) (Nat.ne_of_gt hdur)

/-- An unanswered transaction with a finite timeout that waits can time out. -/
theorem unanswered_times_out {s : State} (h : Unanswered s) (hf : s.tr.isFinished = false)
    (hi : s.tr.infinitTimeout = false) (hpc : s.pc = .waiting) :
    ∃ s1 s2, step s .timeout = some s1 ∧ step s1 .resume = some s2 ∧
      s2.tr.isFinished = true ∧ s2.tr.result.getErrorCode = trnErrorTimeout := by
  refine ⟨_, { s with
    tr := ({ s.tr with state := .timeout } : DpaTransaction2).finish trnErrorTimeout
    pc := .returned }, if_pos hpc, ?_, rfl,
    DpaTransactionResult2.getErrorCode_setErrorCode_of_ne (by decide)⟩
  rcases h.state hf with hst | hst <;> simp [step, afterWait, evaluate, hst, hi]

end Execution

namespace Handler

/-- Transaction `i` finished and reports the interface error. -/
def IfaceReported (i : Nat) (s : State) : Prop :=
  ∃ o, s.tx i = some o ∧ o.exec.tr.isFinished = true ∧
    o.exec.tr.result.getErrorCode = trnErrorIface

/-- The step does not abort transaction `i` and passes no matching frame to it. -/
def Quiet (i : Nat) (s : State) (e : Event) : Prop :=
  ∀ ev, Acts s e i ev → ev ≠ .abort ∧
    ∀ f o, ev = .receive f → s.tx i = some o → ∀ kind, ¬ o.exec.tr.Accepts f.message kind

/-- Transaction `i` exists and waits for the answer to its request. -/
def Waits (i : Nat) (infinit : Bool) (s : State) : Prop :=
  ∃ o, s.tx i = some o ∧ Execution.Unanswered o.exec ∧ o.exec.tr.infinitTimeout = infinit

section Iface

variable {s s' : State} {i : Nat} {infinit : Bool}

theorem Waits.not_reported (h : Waits i infinit s) : ¬ IfaceReported i s := by
  obtain ⟨o, ho, hun, _⟩ := h
  rintro ⟨o', ho', hf, hc⟩
  cases ho.symm.trans ho'
  rw [(hun.timeout hf).1] at hc
  exact absurd hc (by decide)

theorem Waits.forever (h : Waits i true s) :
    ∀ o, s.tx i = some o → o.exec.tr.isFinished = false := by
  obtain ⟨o, ho, hun, hi⟩ := h
  intro o' ho'
  cases ho.symm.trans ho'
  rw [Bool.eq_false_iff]
  intro hf
  rw [(hun.timeout hf).2] at hi
  cases hi

theorem waits_step {e : Event} (hok : Ok s) (h : Waits i infinit s) (hq : Quiet i s e)
    (he : Effect s e s') : Waits i infinit s' := by
  obtain ⟨o, ho, hun, hi⟩ := h
  have htx := step_tx hok.base he i
  rw [ho] at htx
  generalize hnew : s'.tx i = new at htx
  cases htx with
  | same => exact ⟨o, hnew, hun, hi⟩
  | ahead _ _ => exact ⟨_, hnew, hun, hi⟩
  | execute _ _ hx => exact absurd (Execution.step_execute hx).1 hun.started
  | @act ev _ x ha hx =>
    obtain ⟨hab, hrec⟩ := hq ev ha
    exact ⟨_, hnew, Execution.unanswered_step (hok.tx i o ho).wf hun hab
      (fun f hf => hrec f o hf ho) hx, (Execution.step_const hx).2.trans hi⟩

/-- The functor's step with a `sendTo` that throws. -/
theorem failed_send_step {n : Nat} {o : Submission} {sendTo : List UInt8 → Except Exc Unit}
    {exc : Exc} (hok : TxOk o) (hf : s.functor = .branch i n) (ho : s.tx i = some o)
    (hcode : executeCode o n = trnOk)
    (hthrow : sendTo o.exec.tr.result.request.bytes = .error exc)
    (hstep : step s (.functor sendTo) = some s') :
    ∃ x, s'.tx i = some { o with exec := x } ∧ s'.functor = .executing i ∧ x.pc = .waiting ∧
      Execution.Unanswered x ∧ x.tr.isFinished = false ∧
      x.tr.infinitTimeout = o.exec.tr.infinitTimeout := by
  have hsend : sendOutcome sendTo o.exec.tr.result.request = .ok () := by
    simp [sendOutcome, sendRequest, hthrow]
  obtain ⟨o', x, ho', hx, rfl⟩ := functorStep_branch hf hstep
  cases ho.symm.trans ho'
  rw [hcode, hsend] at hx
  obtain ⟨hpc, hun⟩ := Execution.execute_waits hok.wf hok.timed hx
  have hwf := Execution.wellFormed_step hok.wf hx
  exact ⟨x, by simp [setTx], rfl, hpc, hun, hwf.unfinished (by simp [hpc]),
    (Execution.step_const hx).2⟩

/-- In the timed wait, a finite transaction can expire. -/
theorem wait_expires {o : Submission} (hf : s.functor = .executing i) (ho : s.tx i = some o)
    (hpc : o.exec.pc = .waiting) (hun : Execution.Unanswered o.exec)
    (hopen : o.exec.tr.isFinished = false) (hi : o.exec.tr.infinitTimeout = false) :
    ∃ s2 o2, Machine.exec step s [.execution .timeout, .execution .resume] = some s2 ∧
      s2.tx i = some o2 ∧ o2.exec.tr.isFinished = true ∧
      o2.exec.tr.result.getErrorCode = trnErrorTimeout := by
  obtain ⟨x1, x2, h1, h2, hfin, hcode⟩ := Execution.unanswered_times_out hun hopen hi hpc
  have hs1 : step s (.execution .timeout) = some (setTx s i { o with exec := x1 }) := by
    simp only [step, executionStep, hf, actOn, ho, h1]
  have hs2 : step (setTx s i { o with exec := x1 }) (.execution .resume) =
      some (setTx (setTx s i { o with exec := x1 }) i { o with exec := x2 }) := by
    have ho1 : (setTx s i { o with exec := x1 }).tx i = some { o with exec := x1 } := by
      simp [setTx]
    have hf1 : (setTx s i { o with exec := x1 }).functor = .executing i := hf
    simp only [step, executionStep, hf1, actOn, ho1, h2]
  refine ⟨setTx (setTx s i { o with exec := x1 }) i { o with exec := x2 }, { o with exec := x2 },
    ?_, ?_, hfin, hcode⟩
  · rw [Machine.exec_cons_some hs1, Machine.exec_single, hs2]
  · simp [setTx]

/-- After a failed send the transaction is in its timed wait. Unless it is aborted or answered it
never reports the interface error: a finite one can report a timeout, an infinite one waits for
ever. -/
theorem failed_send_waits {s1 : State} {n : Nat} {o : Submission}
    {sendTo : List UInt8 → Except Exc Unit} {exc : Exc} {es : List Event}
    (h : Machine.Reachable step init s) (hf : s.functor = .branch i n) (ho : s.tx i = some o)
    (hcode : executeCode o n = trnOk)
    (hthrow : sendTo o.exec.tr.result.request.bytes = .error exc)
    (hstep : step s (.functor sendTo) = some s1) (hquiet : Machine.Steps step (Quiet i) s1 es) :
    (∃ o1, s1.tx i = some o1 ∧ o1.exec.pc = .waiting ∧ o1.exec.tr.isFinished = false) ∧
    (o.exec.tr.infinitTimeout = false → ∃ s2 o2,
      Machine.exec step s1 [.execution .timeout, .execution .resume] = some s2 ∧
      s2.tx i = some o2 ∧ o2.exec.tr.isFinished = true ∧
      o2.exec.tr.result.getErrorCode = trnErrorTimeout) ∧
    Machine.States step (fun s' => ¬ IfaceReported i s' ∧
      (o.exec.tr.infinitTimeout = true →
        ∀ o', s'.tx i = some o' → o'.exec.tr.isFinished = false)) s1 es := by
  obtain ⟨x, hx, hrun, hpc, hun, hopen, hinf⟩ :=
    failed_send_step (txOk h ho) hf ho hcode hthrow hstep
  refine ⟨⟨_, hx, hpc, hopen⟩, fun hi => ?_, ?_⟩
  · exact wait_expires hrun hx hpc hun hopen (hinf.trans hi)
  · refine hquiet.states (I := fun s' => Machine.Reachable step init s' ∧
      Waits i o.exec.tr.infinitTimeout s') ?_ ?_ ⟨h.next hstep, _, hx, hun, hinf⟩
    · rintro s' e s'' ⟨hr, hw⟩ hq he
      exact ⟨hr.next he, waits_step (ok_reachable hr) hw hq (step_effect he)⟩
    · rintro s' ⟨_, hw⟩
      exact ⟨hw.not_reported, fun hi => (hi ▸ hw).forever⟩

end Iface

theorem failed_send_waits_ledPulse :
    ∃ s s1, Machine.exec step init (submitLedPulse 0 ++ dequeue ++
        List.replicate 2 (.functor channelDown)) = some s ∧
      step s (.functor channelDown) = some s1 ∧
      (∃ o1, s1.tx 0 = some o1 ∧ o1.exec.pc = .waiting ∧ o1.exec.tr.isFinished = false) ∧
      ∀ s2, Machine.exec step s1 [.execution .timeout, .execution .resume] = some s2 →
        ¬ IfaceReported 0 s2 := by
  have hrun : ∃ s s1 o, Machine.exec step init (submitLedPulse 0 ++ dequeue ++
        List.replicate 2 (.functor channelDown)) = some s ∧
      step s (.functor channelDown) = some s1 ∧ s.functor = .branch 0 0 ∧ s.tx 0 = some o ∧
      executeCode o 0 = trnOk :=
    ⟨_, _, _, rfl, rfl, rfl, rfl, rfl⟩
  obtain ⟨s, s1, o, hexec, hstep, hf, ho, hcode⟩ := hrun
  have hquiet : Machine.Steps step (Quiet 0) s1 [.execution .timeout, .execution .resume] := by
    refine Machine.Steps.of_mem fun s' e he ev ha => ?_
    simp only [List.mem_cons, List.not_mem_nil, or_false] at he
    rcases he with rfl | rfl <;> cases ha <;> exact ⟨Execution.Event.noConfusion, by rintro _ _ ⟨⟩⟩
  have hreach : Machine.Reachable step init s := ⟨_, hexec⟩
  obtain ⟨hwait, _, hnever⟩ := failed_send_waits hreach hf ho hcode rfl hstep hquiet
  exact ⟨s, s1, hexec, hstep, hwait, fun _ hend => (hnever.last hend).1⟩

/-- The channel is down: the transaction reports a timeout. -/
theorem failed_send_times_out :
    ∃ s o, Machine.exec step init
        (submitLedPulse 0 ++ dequeue ++ executes channelDown ++
          [.execution .timeout, .execution .resume]) = some s ∧
      s.tx 0 = some o ∧ o.exec.tr.isFinished = true ∧
      o.exec.tr.result.getErrorCode = trnErrorTimeout :=
  ⟨_, _, rfl, rfl, rfl, rfl⟩

end Handler

end ClibDpa
