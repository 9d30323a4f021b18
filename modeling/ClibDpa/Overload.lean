import ClibDpa.Serial

/-!
# ClibDpa.Overload

`QUEUE_MAX_LEN`. The length is tested by the functor, for the transaction that it has just
dequeued: it counts the transactions behind that one, and `pushToQueue` accepts any number.
`bounded_iff` gives the runs in which the limit nevertheless holds and nobody is refused for those
who came later.
-/

namespace ClibDpa

namespace Execution

open DpaTransaction2

/-- The transaction does not report `TRN_ERROR_IFACE_QUEUE_FULL`, and will not. -/
structure NotFull (s : State) : Prop where
  state : s.tr.isFinished = false → s.tr.state ≠ .defaultError
  response : 0 ≤ s.tr.result.responseCode
  code : s.tr.isFinished = true → s.tr.result.getErrorCode ≠ trnErrorIfaceQueueFull

theorem notFull_init {tr : DpaTransaction2} (hst : tr.state = .created)
    (hr : tr.result.responseCode = trnOk) (hf : tr.isFinished = false) : NotFull (init tr) where
  state := fun _ => by rw [show (init tr).tr.state = tr.state from rfl, hst]; nofun
  response := by rw [show (init tr).tr.result = tr.result from rfl, hr]; exact le_refl _
  code := fun h => by rw [show (init tr).tr.isFinished = false from hf] at h; cases h

theorem notFull_settled {tr tr' : DpaTransaction2} {wait : Option Bool} {pc : ExecPc} (s : State)
    (hst : tr.state ≠ .defaultError) (hr : 0 ≤ tr.result.responseCode)
    (hf : tr.isFinished = false) (h : Settled tr wait tr' pc) :
    NotFull { s with tr := tr', pc := pc } := by
  have hopen : tr.isFinished = true → tr.result.getErrorCode ≠ trnErrorIfaceQueueFull := by
    rw [hf]
    nofun
  cases h with
  | enters _ => exact ⟨fun _ => hst, hr, hopen⟩
  | goesOn _ _ => exact ⟨fun _ => hst, hr, hopen⟩
  | spins _ _ => exact ⟨fun _ => hst, hr, hopen⟩
  | @ends _ code hc _ =>
    refine ⟨nofun, by simpa using hr, fun _ => ?_⟩
    simp only [finish_result, evaluate_result]
    have hne : ∀ c : ErrorCode, c ≠ trnOk → c ≠ trnErrorIfaceQueueFull →
        (tr.result.setErrorCode c).getErrorCode ≠ trnErrorIfaceQueueFull := by
      intro c h0 hfull
      rw [DpaTransactionResult2.getErrorCode_setErrorCode_of_ne h0]
      exact hfull
    rcases evaluate_some hc with ⟨rfl, _⟩ | ⟨rfl, _⟩ | ⟨rfl, _⟩ | ⟨rfl, _⟩ | ⟨_, hd⟩
    · rw [DpaTransactionResult2.getErrorCode_setErrorCode_ok]
      intro heq
      rw [heq] at hr
      exact absurd hr (by decide)
    · exact hne _ (by decide) (by decide)
    · exact hne _ (by decide) (by decide)
    · exact hne _ (by decide) (by decide)
    · exact absurd hd hst

theorem notFull_received {s : State} {f : Frame} (h : NotFull s) :
    NotFull (received s f.message) := by
  have hr := received_effect s f.message
  generalize received s f.message = s1 at hr ⊢
  cases hr with
  | ignored _ => exact h
  | confirmation ha =>
    refine ⟨fun _ => ?_, h.response, fun hf => ?_⟩
    · simp only [processConfirmation_state]
      split <;> nofun
    · simp [ha.1] at hf
  | response ha =>
    refine ⟨fun _ => ?_, ?_, fun hf => ?_⟩
    · rcases processResponse_state s.tr f.message with hst | ⟨hst, _⟩ <;> simp only [hst] <;> nofun
    · simp only [processResponse_result,
        (DpaTransactionResult2.setResponse_of_pos f.message_length_pos).2]
      exact Int.natCast_nonneg _
    · simp [ha.1] at hf

theorem notFull_step {s s' : State} {e : Event} (hw : WellFormed s) (h : NotFull s)
    (hne : ∀ sent, e ≠ .execute trnErrorIfaceQueueFull sent) (he : step s e = some s') :
    NotFull s' := by
  cases step_effect he with
  | @execute err sent tr' pc' hpc hs =>
    have hopen := hw.at_entry hpc
    by_cases herr : err = trnOk
    · refine notFull_settled { s with
        handed := if err = trnOk then s.handed ++ [s.tr.result.request] else s.handed
        lastResponse := none } ?_ (by simpa using h.response) (by simpa using hopen) hs
      rcases begin_cases s.tr err sent with ⟨_, _, hst | hst⟩ | ⟨_, hst⟩ | ⟨hcode, _⟩
      · rw [hst]; nofun
      · rw [hst]; nofun
      · rw [hst]; nofun
      · exact absurd herr hcode
    · obtain ⟨_, hfin, hcode⟩ := settled_begin_error herr hs
      have hresp : tr'.result.responseCode = s.tr.result.responseCode := by
        rw [hs.responseCode, begin_result]
      refine ⟨fun hf => ?_, by rw [hresp]; exact h.response, fun _ => ?_⟩
      · rw [hfin] at hf
        cases hf
      · rw [hcode]
        exact fun hfull => hne sent (by rw [hfull])
  | receive _ => exact notFull_received h
  | abort _ => exact ⟨fun _ => nofun, h.response, h.code⟩
  | timeout _ => exact ⟨h.state, h.response, h.code⟩
  | wake _ => exact ⟨h.state, h.response, h.code⟩
  | resume hpc hs =>
    have hopen := hw.at_resume hpc
    exact notFull_settled s (h.state hopen) h.response hopen hs

end Execution

namespace Handler

/-- The limit as it is meant: nobody waits beyond it, and who is refused found the queue full. -/
def Bounded (s : State) : Prop :=
  s.queue.queue.length ≤ queueMaxLen ∧
  ∀ i o, s.tx i = some o → o.exec.tr.isFinished = true →
    o.exec.tr.result.getErrorCode = trnErrorIfaceQueueFull → queueMaxLen ≤ o.ahead

/-- The step pushes onto no full queue, and executes no transaction with a full queue behind it or
with `TRN_ERROR_IFACE_QUEUE_FULL` as its default error. -/
def Roomy (s : State) (e : Event) : Prop :=
  (∀ t i, e = .client t → s.queue.client t = .entered (.pushToQueue i) →
    s.queue.queue.length < queueMaxLen) ∧
  (∀ i n o sendTo, e = .functor sendTo → s.functor = .branch i n → s.tx i = some o →
    n < queueMaxLen ∧ o.created.defaultError ≠ trnErrorIfaceQueueFull)

structure Room (s : State) : Prop where
  length : s.queue.queue.length ≤ queueMaxLen
  ahead : ∀ i o, s.tx i = some o → o.ahead < queueMaxLen
  notFull : ∀ i o, s.tx i = some o → Execution.NotFull o.exec

theorem Room.bounded {s : State} (h : Room s) : Bounded s :=
  ⟨h.length, fun i o ho hf hc => absurd hc ((h.notFull i o ho).code hf)⟩

section Room

variable {s s' : State}

/-- Only the block of a push makes the queue longer. -/
theorem step_queue_length {e : Event} (he : Effect s e s') :
    s'.queue.queue.length ≤ s.queue.queue.length ∨
      ∃ t i, e = .client t ∧ s.queue.client t = .entered (.pushToQueue i) ∧
        s'.queue.queue.length = s.queue.queue.length + 1 := by
  cases he with
  | submit _ => left; simp
  | push _ hq => left; simp [(TaskQueue.callStep_frame hq).2.2.1]
  | call _ _ hq => left; simp [(TaskQueue.callStep_frame hq).2.2.1]
  | caller _ => exact .inl (Nat.le_refl _)
  | @client t q hq =>
    rcases TaskQueue.clientStep_queue hq with hsame | ⟨i, hc, hpush⟩
    · left; simp [hsame]
    · exact .inr ⟨t, i, rfl, hc, by simp [hpush]⟩
  | start _ hq => exact .inl (TaskQueue.workerStep_queue hq)
  | finish _ _ hq => exact .inl (TaskQueue.workerStep_queue hq)
  | worker _ _ hq => exact .inl (TaskQueue.workerStep_queue hq)
  | spurious _ => left; simp [(TaskQueue.wakeUp_frame s.queue).2.2]
  | assign _ => exact .inl (Nat.le_refl _)
  | size _ _ => exact .inl (Nat.le_refl _)
  | execute _ _ _ => exact .inl (Nat.le_refl _)
  | done _ _ _ => exact .inl (Nat.le_refl _)
  | act _ _ _ _ => exact .inl (Nat.le_refl _)
  | front _ => exact .inl (Nat.le_refl _)

/-- The code passed to `execute` is the default error, while the queue is not full behind. -/
theorem executeCode_eq {i : Nat} {o : Submission} {n : Nat} (hok : Ok s) (ho : s.tx i = some o)
    (hpc : o.exec.pc = .idle) :
    executeCode o n = if n < queueMaxLen then o.created.defaultError
      else trnErrorIfaceQueueFull := by
  rw [executeCode, (hok.tx i o ho).defaultError hpc]

theorem room_step {e : Event} (hok : Ok s) (h : Room s) (hC : Roomy s e) (he : Effect s e s') :
    Room s' := by
  have htx := step_tx hok.base he
  refine ⟨?_, fun i o' ho' => ?_, fun i o' ho' => ?_⟩
  · rcases step_queue_length he with hle | ⟨t, i, hev, hc, hlen⟩
    · exact Nat.le_trans hle h.length
    · have := hC.1 t i hev hc
      omega
  · have hi := htx i
    rw [ho'] at hi
    generalize hold : s.tx i = old at hi
    cases hi with
    | same => exact h.ahead i o' hold
    | submit _ _ => exact Nat.zero_lt_succ _
    | ahead hev hc => exact hC.1 _ i hev hc
    | @execute _ _ o _ _ _ _ => exact h.ahead i o hold
    | @act _ o _ _ _ => exact h.ahead i o hold
  · have hi := htx i
    rw [ho'] at hi
    generalize hold : s.tx i = old at hi
    cases hi with
    | same => exact h.notFull i o' hold
    | submit _ _ => exact Execution.notFull_init rfl rfl rfl
    | @ahead _ o _ _ => exact h.notFull i o hold
    | @execute n sendTo o x hev hf hx =>
      obtain ⟨hlt, hdefault⟩ := hC.2 i n o sendTo hev hf hold
      have hcode := executeCode_eq (n := n) hok hold (Execution.step_execute hx).1
      rw [if_pos hlt] at hcode
      refine Execution.notFull_step (hok.tx i o hold).wf (h.notFull i o hold) ?_ hx
      rw [hcode]
      intro sent heq
      exact hdefault (Execution.Event.execute.inj heq).1
    | @act ev o x ha hx =>
      refine Execution.notFull_step (hok.tx i o hold).wf (h.notFull i o hold) ?_ hx
      rintro sent rfl
      cases ha

/-- A push onto a full queue passes the limit. -/
theorem push_passes {t i : Nat} (hfull : queueMaxLen ≤ s.queue.queue.length)
    (hc : s.queue.client t = .entered (.pushToQueue i)) (he : step s (.client t) = some s') :
    ¬ Bounded s' := by
  obtain ⟨q, hq, rfl⟩ := onQueue_some he
  have hsame : (noteAhead s t).queue = s.queue := by
    obtain ⟨tx, htx⟩ := noteAhead_fields s t
    rw [htx]
  rw [hsame] at hq
  simp only [TaskQueue.step, TaskQueue.clientStep, hc, Option.some.injEq] at hq
  subst hq
  rintro ⟨hlen, _⟩
  simp only [TaskQueue.setClient, TaskQueue.body, List.length_append, List.length_singleton]
    at hlen
  omega

/-- A transaction executed with `TRN_ERROR_IFACE_QUEUE_FULL` finishes with it. -/
theorem refused_newcomer {i n : Nat} {o : Submission} {sendTo : List UInt8 → Except Exc Unit}
    (hahead : o.ahead < queueMaxLen) (hf : s.functor = .branch i n) (ho : s.tx i = some o)
    (hcode : executeCode o n = trnErrorIfaceQueueFull)
    (he : step s (.functor sendTo) = some s') : ¬ Bounded s' := by
  obtain ⟨o', x, ho', hx, rfl⟩ := functorStep_branch hf he
  cases ho.symm.trans ho'
  rw [hcode] at hx
  obtain ⟨_, hfin, hfull⟩ := Execution.step_execute_error (by decide) hx
  rintro ⟨_, hb⟩
  have := hb i { o with exec := x } (by simp [setTx]) hfin hfull
  exact absurd this (Nat.not_le.mpr hahead)

theorem crowded_not_bounded {e : Event} (hok : Ok s) (h : Room s) (hC : ¬ Roomy s e)
    (he : step s e = some s') : ¬ Bounded s' := by
  unfold Roomy at hC
  rcases not_and_or.mp hC with hC | hC
  · push Not at hC
    obtain ⟨t, i, rfl, hc, hfull⟩ := hC
    exact push_passes hfull hc he
  · push Not at hC
    obtain ⟨i, n, o, sendTo, rfl, hf, ho, hC⟩ := hC
    obtain ⟨o', x, ho', hx, _⟩ := functorStep_branch hf he
    cases ho.symm.trans ho'
    refine refused_newcomer (h.ahead i o ho) hf ho ?_ he
    rw [executeCode_eq hok ho (Execution.step_execute hx).1]
    split
    · exact hC ‹_›
    · rfl

end Room

/-- The limit holds in exactly the runs that never fill the queue beyond it and execute no
transaction with a full queue behind it. -/
theorem bounded_iff (es : List Event) :
    Machine.States step Bounded init es ↔ Machine.Steps step Roomy init es := by
  refine Machine.states_iff_steps (D := fun _ => True)
    (I := fun s => Machine.Reachable step init s ∧ Room s) ?_ (fun _ h => h.2.bounded) ?_
    (fun _ _ => trivial) ⟨.refl _, ?_⟩
  · rintro s e s' _ ⟨hr, hroom⟩ hC he
    exact ⟨hr.next he, room_step (ok_reachable hr) hroom hC (step_effect he)⟩
  · rintro s e s' _ ⟨hr, hroom⟩ hC he
    exact crowded_not_bounded (ok_reachable hr) hroom hC he
  · exact ⟨Nat.zero_le _, fun _ _ ho => (by cases ho), fun _ _ ho => (by cases ho)⟩

/-- Transaction 0 finds the queue empty; sixteen that are pushed after it was dequeued make it
report that the queue is full. And seventeen pushes before the worker starts all wait. -/
theorem first_refused :
    (∃ s o, Machine.exec step init
        (submitLedPulse 0 ++ dequeue ++ (List.range 16).flatMap submitLedPulse ++
          executes channelUp) = some s ∧
      s.tx 0 = some o ∧ o.ahead = 0 ∧ o.exec.tr.isFinished = true ∧
      o.exec.tr.result.getErrorCode = trnErrorIfaceQueueFull) ∧
    (∃ s, Machine.exec step init ((List.range 17).flatMap submitLedPulse) = some s ∧
      s.queue.queue.length = queueMaxLen + 1) :=
  ⟨⟨_, _, rfl, rfl, rfl, rfl, rfl⟩, ⟨_, rfl, rfl⟩⟩

end Handler

end ClibDpa
