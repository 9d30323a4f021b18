import ClibDpa.Callers
import ClibDpa.QueueWork

/-!
# ClibDpa.Drain

The handler has no deadlock: from every reachable state its own steps finish everything that was
submitted to the queue, with no response, no `abort()` and no further call needed. Own are the
steps of the worker and of the functor, the end of a wait by its time-out, and what a caller
inside a method of the queue has still to do there. An infinite timeout waits for a response
instead, and a destructor that has stopped the queue leaves its tasks; the theorem excludes both.

* `worker_moves`   — a finite transaction comes nearer to its end.
* `Draining.steps` — some own step is enabled and brings the handler nearer to the end.
* `drains`         — the bound on the steps.
-/

namespace ClibDpa

/-! ## A transaction -/

namespace Execution

open DpaTransaction2

/-- The worker's steps up to the end, if it is not interrupted. -/
def ExecPc.rank : ExecPc → Nat
  | .woken false => 4
  | .waiting => 3
  | .woken true => 2
  | .returned => 1
  | _ => 0

theorem ExecPc.rank_le (pc : ExecPc) : pc.rank ≤ 4 := by
  cases pc with
  | woken expired => cases expired <;> simp [ExecPc.rank]
  | _ => simp [ExecPc.rank]

/-- With a finite timeout the end of a wait by expiry decides in every state. -/
theorem expired_decides {tr : DpaTransaction2} (h : tr.infinitTimeout = false) :
    (tr.evaluate true).2 ≠ none := by
  cases hs : tr.state <;> simp [evaluate, hs, h]

theorem worker_moves {x : State} (hw : WellFormed x) (ht : Timed x)
    (hfin : x.tr.infinitTimeout = false) (hidle : x.pc ≠ .idle) (hret : x.pc ≠ .returned) :
    ∃ e x', (e = .timeout ∨ e = .resume) ∧ step x e = some x' ∧ x'.pc.rank < x.pc.rank := by
  cases hp : x.pc with
  | idle => exact absurd hp hidle
  | returned => exact absurd hp hret
  | spinning => exact absurd hp ht.waits
  | waiting =>
    exact ⟨.timeout, { x with pc := .woken true }, .inl rfl, by simp [step, hp],
      by simp [ExecPc.rank]⟩
  | woken expired =>
    have he : step x .resume = some
        { x with tr := (afterWait x.tr expired).1, pc := (afterWait x.tr expired).2 } := by
      simp [step, hp]
    refine ⟨.resume, _, .inr rfl, he, ?_⟩
    have hsettled := afterWait_settled x.tr expired
    have hspin := (timed_step hw ht he).waits
    cases expired with
    | true =>
      cases hev : (x.tr.evaluate true).2 with
      | none => exact absurd hev (expired_decides hfin)
      | some code =>
        have hended := (hsettled.ended hev fun hn => by cases hn).1
        simp [hended, ExecPc.rank]
    | false =>
      generalize afterWait x.tr false = p at hsettled hspin ⊢
      obtain ⟨tr', pc⟩ := p
      cases hsettled with
      | goesOn _ _ => simp [ExecPc.rank]
      | spins _ _ => exact absurd rfl hspin
      | ends _ _ => simp [ExecPc.rank]

end Execution

/-! ## The handler -/

namespace Handler

/-- The steps of the handler's own threads; `sendTo` is the channel. -/
inductive Own (sendTo : List UInt8 → Except Exc Unit) : Event → Prop where
  | client (t : Nat) : Own sendTo (.client t)
  | worker : Own sendTo .worker
  | functor : Own sendTo (.functor sendTo)
  | timeout : Own sendTo (.execution .timeout)
  | resume : Own sendTo (.execution .resume)

structure Draining (s : State) : Prop where
  reachable : Machine.Reachable step init s
  serving : TaskQueue.Serving s.queue
  finite : ∀ i ∈ s.queue.pushed, ∀ o, s.tx i = some o → o.exec.pc ≠ .returned →
    o.exec.tr.infinitTimeout = false

/-- Nothing waits, and nothing is in the worker's hands. -/
structure Served (s : State) : Prop where
  waiting : (TaskQueue.abs s.queue).waiting = []
  functor : s.functor = .idle
  taken : ∀ i, s.queue.pc ≠ .taken i
  process : ∀ i, s.queue.pc ≠ .process i

/-- How far the execution of transaction `i` is from its end. -/
def execRank (s : State) (i : Nat) : Nat :=
  match (s.tx i).map Submission.exec with
  | some x => x.pc.rank
  | none => 0

/-- How far the worker is from its next look at the queue, or from its next task. -/
def stage (s : State) : Nat :=
  match s.functor with
  | .idle =>
    match s.queue.pc with
    | .taken _ => 21
    | .process _ => 20
    | pc => pc.rank
  | .assign _ => 19
  | .size _ => 18
  | .branch _ _ => 17
  | .executing i => 11 + execRank s i
  | .done => 10

/-- The measure: a waiting task costs more than all positions together. -/
def left (s : State) : Nat :=
  40 * (TaskQueue.abs s.queue).waiting.length + stage s + TaskQueue.holderRank s.queue

section Drain

variable {s s' : State} {sendTo : List UInt8 → Except Exc Unit}

theorem execRank_le (s : State) (i : Nat) : execRank s i ≤ 4 := by
  unfold execRank
  split
  · exact Execution.ExecPc.rank_le _
  · exact Nat.zero_le 4

theorem stage_le (s : State) : stage s ≤ 21 := by
  unfold stage
  split
  · split
    · exact Nat.le_refl 21
    · exact Nat.le_succ 20
    · cases s.queue.pc <;> simp [TaskQueue.WorkerPc.rank]
  · omega
  · omega
  · omega
  · rename_i i _
    have := execRank_le s i
    omega
  · omega

/-- Own steps push nothing and submit nothing, so what they leave unfinished is finite still. -/
theorem Draining.next {e : Event} (h : Draining s) (ho : Own sendTo e)
    (he : step s e = some s') (hserving : TaskQueue.Serving s'.queue) : Draining s' := by
  have hb := base_reachable h.reachable
  have hpushed : s'.queue.pushed = s.queue.pushed := by
    cases push_effect (step_effect he) with
    | frame hp _ _ => exact hp
    | submit _ => cases ho
    | push _ _ => cases ho
  refine ⟨h.reachable.next he, hserving, fun i hi o' ho' hpc => ?_⟩
  rw [hpushed] at hi
  have htx := step_tx hb (step_effect he) i
  rw [ho'] at htx
  generalize hold : s.tx i = old at htx
  cases htx with
  | same => exact h.finite i hi o' hold hpc
  | submit heq _ => subst heq; cases ho
  | @ahead t o _ _ => exact h.finite i hi o hold hpc
  | execute _ _ hx =>
    have hidle := (Execution.step_execute hx).1
    rw [(Execution.step_const hx).2]
    exact h.finite i hi _ hold (by rw [hidle]; simp)
  | act ha hx =>
    have hkept := kept_act ha hx
    rw [(Execution.step_const hx).2]
    exact h.finite i hi _ hold fun hret => hpc (hkept.returned hret)

/-- A caller inside a method of the queue moves. -/
theorem client_steps {t : Nat} {q : TaskQueue.State Nat}
    (hq : TaskQueue.clientStep s.queue t = some q) :
    ∃ s', step s (.client t) = some s' ∧ s'.queue = q ∧ s'.functor = s.functor ∧
      ∀ i, execRank s' i = execRank s i := by
  obtain ⟨tx, htx⟩ := noteAhead_fields s t
  have hexec : ∀ i, ((noteAhead s t).tx i).map Submission.exec =
      (s.tx i).map Submission.exec := by
    intro i
    unfold noteAhead
    split
    · rename_i j hc
      split
      · rfl
      · rename_i o ho
        rcases setTx_cases s j i { o with ahead := s.queue.queue.length } with
          ⟨rfl, hn⟩ | ⟨_, hn⟩
        · rw [hn, ho]
          rfl
        · rw [hn]
    · rfl
  refine ⟨{ noteAhead s t with queue := q }, ?_, rfl, by rw [htx], fun i => ?_⟩
  · rw [htx]
    simp [step, htx, onQueue, TaskQueue.step, hq]
  · simp only [execRank, hexec]

/-- Outside the functor the worker's own code is a step of the queue. -/
theorem worker_own {q : TaskQueue.State Nat} (hproc : ∀ i, s.queue.pc ≠ .process i)
    (hbusy : ∀ i, s.queue.pc ≠ .busy i) (hq : TaskQueue.workerStep s.queue = some q) :
    step s .worker = some { s with queue := q } := by
  have hother : workerStep s = onQueue s .worker := by
    unfold workerStep
    split
    · exact absurd ‹_› (hproc _)
    · exact absurd ‹_› (hbusy _)
    · exact absurd ‹_› (hbusy _)
    · rfl
  simp [step, hother, onQueue, TaskQueue.step, hq]

/-- The functor moves. -/
theorem functor_steps (h : Draining s) (hm : TaskQueue.NoClient s.queue)
    (hf : s.functor ≠ .idle) : ∃ e s', Own sendTo e ∧ step s e = some s' ∧
      TaskQueue.Serving s'.queue ∧ left s' < left s := by
  have hok := ok_reachable h.reachable
  obtain ⟨pre, hserial⟩ := hok.serial
  obtain ⟨j, hbusy⟩ := hserial.busy.mpr hf
  have hinv := TaskQueue.inv_reachable hok.base.queue
  have hpushed : ∀ i ∈ s.functor.current, i ∈ s.queue.pushed := by
    intro i hi
    obtain ⟨hgp, hpp⟩ := TaskQueue.given_prefix hok.base.queue
    refine (hgp.trans hpp).subset ?_
    rw [hserial.given]
    exact List.mem_append_right pre hi
  have hknown : ∀ i ∈ s.functor.current, ∃ o, s.tx i = some o := fun i hi =>
    Option.ne_none_iff_exists'.mp (hok.base.known i (hok.pushes.known i (hpushed i hi)))
  cases hfunctor : s.functor with
  | idle => exact absurd hfunctor hf
  | assign i =>
    refine ⟨.functor sendTo, { s with pendingTransaction := some i, functor := .size i },
      .functor, by simp [step, functorStep, hfunctor], h.serving, ?_⟩
    simp [left, stage, hfunctor]
  | size i =>
    have hfree : s.queue.mutex = none := by
      have hat := hinv.atPc
      rw [hbusy] at hat
      exact hm.free hinv hat
    refine ⟨.functor sendTo, { s with functor := .branch i s.queue.queue.length }, .functor,
      by simp [step, functorStep, hfunctor, hfree], h.serving, ?_⟩
    simp [left, stage, hfunctor]
  | branch i n =>
    obtain ⟨o, ho⟩ := hknown i (by rw [hfunctor]; exact List.mem_singleton_self i)
    have hidle := execute_once h.reachable hfunctor ho
    have he := functorStep_execute sendTo hfunctor ho hidle
    generalize Execution.enter o.exec (executeCode o n)
      (sendOutcome sendTo o.exec.tr.result.request) = x at he
    refine ⟨.functor sendTo, _, .functor, he, h.serving, ?_⟩
    have hrank := execRank_le (setTx
      { s with functor := .executing i, sent := s.sent ++ sends o n i } i { o with exec := x }) i
    simp only [left, stage, hfunctor, setTx] at hrank ⊢
    omega
  | executing i =>
    have hi : i ∈ s.functor.current := by rw [hfunctor]; exact List.mem_singleton_self i
    obtain ⟨o, ho⟩ := hknown i hi
    have htx := hok.tx i o ho
    by_cases hret : o.exec.pc = .returned
    · have hrank : execRank s i = 1 := by simp [execRank, ho, hret, Execution.ExecPc.rank]
      refine ⟨.functor sendTo, { s with functor := .done }, .functor,
        by simp [step, functorStep, hfunctor, ho, hret], h.serving, ?_⟩
      simp only [left, stage, hfunctor, hrank]
      omega
    · have hidle : o.exec.pc ≠ .idle := by
        rw [hserial.entered i o ho, hfunctor]
        exact List.mem_append_right pre (List.mem_singleton_self i)
      have hfin := h.finite i (hpushed i hi) o ho hret
      obtain ⟨ev, x, hev, hx, hlt⟩ := Execution.worker_moves htx.wf htx.timed hfin hidle hret
      have he : step s (.execution ev) = some (setTx s i { o with exec := x }) := by
        rcases hev with rfl | rfl <;> simp [step, executionStep, hfunctor, actOn, ho, hx]
      have hown : Own sendTo (.execution ev) := by
        rcases hev with rfl | rfl
        · exact .timeout
        · exact .resume
      refine ⟨_, _, hown, he, h.serving, ?_⟩
      have hold : execRank s i = o.exec.pc.rank := by simp [execRank, ho]
      have hnew : execRank (setTx s i { o with exec := x }) i = x.pc.rank := by
        simp [execRank, setTx]
      have hstage : stage (setTx s i { o with exec := x }) =
          11 + execRank (setTx s i { o with exec := x }) i := by
        simp [stage, setTx, hfunctor]
      simp only [left, hstage, hnew]
      simp only [stage, hfunctor, hold, setTx]
      omega
  | done =>
    have hq : TaskQueue.workerStep s.queue = some { s.queue with pc := .relock } := by
      simp [TaskQueue.workerStep, hbusy]
    have he : step s .worker =
        some { s with functor := .idle, queue := { s.queue with pc := .relock } } := by
      simp [step, workerStep, hbusy, hfunctor, onQueue, TaskQueue.step, hq]
    refine ⟨_, _, .worker, he, ⟨h.serving.run, by simp, h.serving.client⟩, ?_⟩
    simp only [left, stage, hfunctor, TaskQueue.WorkerPc.rank]
    have habs : (TaskQueue.abs { s.queue with pc := .relock }).waiting =
      (TaskQueue.abs s.queue).waiting := rfl
    have hholder : TaskQueue.holderRank { s.queue with pc := .relock } =
      TaskQueue.holderRank s.queue := rfl
    rw [habs, hholder]
    omega

/-- The worker moves, between two tasks. -/
theorem idle_steps (h : Draining s) (hm : TaskQueue.NoClient s.queue) (hf : s.functor = .idle)
    (hnot : ¬ Served s) : ∃ e s', Own sendTo e ∧ step s e = some s' ∧
      TaskQueue.Serving s'.queue ∧ left s' < left s := by
  have hok := ok_reachable h.reachable
  obtain ⟨pre, hserial⟩ := hok.serial
  have hinv := TaskQueue.inv_reachable hok.base.queue
  have hbusy : ∀ i, s.queue.pc ≠ .busy i := fun i hb => hserial.busy.mp ⟨i, hb⟩ hf
  have hholder := hm.holderRank
  by_cases hproc : ∃ i, s.queue.pc = .process i
  · obtain ⟨i, hp⟩ := hproc
    have hq : TaskQueue.workerStep s.queue =
        some { s.queue with given := s.queue.given ++ [i], pc := .busy i } := by
      simp [TaskQueue.workerStep, hp]
    have he : step s .worker = some { s with
        functor := .assign i
        queue := { s.queue with given := s.queue.given ++ [i], pc := .busy i } } := by
      simp [step, workerStep, hp, onQueue, TaskQueue.step, hq]
    refine ⟨_, _, .worker, he, ⟨h.serving.run, by simp, h.serving.client⟩, ?_⟩
    have habs : (TaskQueue.abs { s.queue with
        given := s.queue.given ++ [i], pc := .busy i }).waiting =
      (TaskQueue.abs s.queue).waiting := rfl
    have hsame : TaskQueue.holderRank { s.queue with
        given := s.queue.given ++ [i], pc := .busy i } = TaskQueue.holderRank s.queue := rfl
    simp only [left, stage, hf, hp, habs, hsame]
    omega
  · have hproc' : ∀ i, s.queue.pc ≠ .process i := fun i hp => hproc ⟨i, hp⟩
    by_cases htaken : ∃ i, s.queue.pc = .taken i
    · obtain ⟨i, hp⟩ := htaken
      obtain ⟨q, hq, hserving, hfree, habs, hpc⟩ := TaskQueue.taken_steps hinv h.serving hp
      refine ⟨_, _, .worker, worker_own hproc' hbusy hq, hserving, ?_⟩
      simp only [left, stage, hf, hp, hpc, habs, hfree.holderRank]
      omega
    · -- nothing is in the worker's hands, so a task waits in the queue
      have htaken' : ∀ i, s.queue.pc ≠ .taken i := fun i hp => htaken ⟨i, hp⟩
      have hqueue : s.queue.queue ≠ [] := by
        intro hq
        exact hnot ⟨hm.waiting.trans hq, hf, htaken', hproc'⟩
      have hrank := TaskQueue.rank_pos hinv h.serving hqueue fun i =>
        ⟨htaken' i, hproc' i, hbusy i⟩
      have hold : stage s = s.queue.pc.rank := by
        simp only [stage, hf]
      by_cases hasleep : s.queue.pc = .asleep
      · obtain ⟨t, q, hq, hserving, habs, hpc, _, hfree⟩ :=
          TaskQueue.notifier_steps hinv h.serving hm hasleep hqueue
        obtain ⟨s', he, hsq, hsf, _⟩ := client_steps hq
        refine ⟨_, s', .client t, he, hsq ▸ hserving, ?_⟩
        simp only [left, hold, hsq, habs, hfree.holderRank]
        simp only [stage, hsf, hf, hsq, hpc, hasleep, TaskQueue.WorkerPc.rank]
        omega
      · obtain ⟨q, hq, hserving, hfree, hnear⟩ :=
          TaskQueue.worker_steps hinv h.serving hm hqueue hrank hasleep
        refine ⟨_, _, .worker, worker_own hproc' hbusy hq, hserving, ?_⟩
        rcases hnear with ⟨habs, hpos, hlt⟩ | ⟨i, hhead, hpc⟩
        · have hnew : stage { s with queue := q } = q.pc.rank := by
            simp only [stage, hf]
            cases hpc : q.pc <;> rw [hpc] at hpos <;> first | rfl | cases hpos
          simp only [left, hold, habs, hfree.holderRank]
          omega
        · have hnew : stage { s with queue := q } = 21 := by simp [stage, hf, hpc]
          simp only [left, hnew, hm.waiting, hfree.waiting, hfree.holderRank, hhead,
            List.length_cons]
          omega

/-- As long as there is something to do, an own step is enabled and brings it nearer. -/
theorem Draining.steps (h : Draining s) (hnot : ¬ Served s) :
    ∃ e s', Own sendTo e ∧ step s e = some s' ∧ Draining s' ∧ left s' < left s := by
  have hinv := TaskQueue.inv_reachable (base_reachable h.reachable).queue
  have hstep : ∃ e s', Own sendTo e ∧ step s e = some s' ∧ TaskQueue.Serving s'.queue ∧
      left s' < left s := by
    by_cases hm : TaskQueue.NoClient s.queue
    · by_cases hf : s.functor = .idle
      · exact idle_steps h hm hf hnot
      · exact functor_steps h hm hf
    · -- the caller that holds the mutex goes first
      obtain ⟨t, ht⟩ := not_forall.mp hm
      obtain ⟨q, hq, hserving, habs, hpc, _, hlt⟩ :=
        TaskQueue.holder_steps hinv h.serving (not_not.mp ht)
      obtain ⟨s', he, hsq, hsf, hexec⟩ := client_steps hq
      refine ⟨_, s', .client t, he, hsq ▸ hserving, ?_⟩
      have hstage : stage s' = stage s := by simp only [stage, hsf, hsq, hpc, hexec]
      simp only [left, hstage, hsq, habs]
      omega
  obtain ⟨e, s', ho, he, hserving, hlt⟩ := hstep
  exact ⟨e, s', ho, he, h.next ho he hserving, hlt⟩

/-- A caller that has not stopped the queue leaves it serving. -/
theorem serving_of_callers (h : Machine.Reachable step init s)
    (hcallers : ∀ t, (s.caller t).ending = false) : TaskQueue.Serving s.queue := by
  have hc := callersOk_reachable h
  refine ⟨?_, ?_, ?_⟩
  · rw [← Bool.not_eq_false]
    intro hrun
    obtain ⟨t, ht⟩ := hc.run hrun
    rw [hcallers t] at ht
    cases ht
  · intro hexited
    obtain ⟨t, ht⟩ := hc.exited hexited
    rw [hcallers t] at ht
    cases ht
  · intro t c hclient
    rw [← Bool.not_eq_true]
    intro hstops
    have hending := hc.stopping t (by rw [hclient]; exact hstops)
    rw [hcallers t] at hending
    cases hending

/-- When nothing is left to do, everything that was pushed has finished. -/
theorem Served.finished (h : Machine.Reachable step init s) (hd : Served s) :
    s.queue.queue = [] ∧
      ∀ i ∈ s.queue.pushed, ∃ o, s.tx i = some o ∧ o.exec.tr.isFinished = true := by
  have hok := ok_reachable h
  obtain ⟨pre, hserial⟩ := hok.serial
  have hwaiting : s.queue.queue ++ TaskQueue.inFlight s.queue.mutex s.queue.client = [] :=
    hd.waiting
  obtain ⟨hqueue, hflight⟩ := List.append_eq_nil_iff.mp hwaiting
  have hhand : TaskQueue.inHand s.queue.pc = [] := by
    cases hp : s.queue.pc with
    | taken i => exact absurd hp (hd.taken i)
    | process i => exact absurd hp (hd.process i)
    | _ => rfl
  have hpushed : s.queue.pushed = pre := by
    have heq := TaskQueue.pushed_eq hok.base.queue
    have hpopped := (TaskQueue.inv_reachable hok.base.queue).given
    have hgiven := hserial.given
    rw [hqueue, hflight, List.append_nil, List.append_nil] at heq
    rw [hhand, List.append_nil] at hpopped
    rw [hd.functor, FunctorPc.current, List.append_nil] at hgiven
    rw [← heq, hpopped, hgiven]
  refine ⟨hqueue, fun i hi => ?_⟩
  rw [hpushed] at hi
  obtain ⟨o, ho, hret⟩ := hserial.finished i hi
  exact ⟨o, ho, (hok.tx i o ho).wf.finished_iff.mpr hret⟩

theorem draining_of_callers (h : Machine.Reachable step init s)
    (hcallers : ∀ t, (s.caller t).ending = false)
    (hfinite : ∀ i ∈ s.queue.pushed, ∀ o, s.tx i = some o → o.exec.tr.isFinished = false →
      o.exec.tr.infinitTimeout = false) : Draining s := by
  refine ⟨h, serving_of_callers h hcallers, fun i hi o ho hpc => ?_⟩
  exact hfinite i hi o ho ((txOk h ho).wf.unfinished hpc)

theorem left_le (s : State) : left s ≤ 40 * (s.queue.queue.length + 2) := by
  have hstage := stage_le s
  have hholder := TaskQueue.holderRank_le s.queue
  have hone : (TaskQueue.inFlight s.queue.mutex s.queue.client).length ≤ 1 := by
    unfold TaskQueue.inFlight
    split
    · unfold TaskQueue.ClientPc.inFlight
      split <;> simp
    · simp
  have hwaiting : (TaskQueue.abs s.queue).waiting.length ≤ s.queue.queue.length + 1 := by
    simp only [TaskQueue.abs, List.length_append]
    omega
  simp only [left]
  omega

/-- The whole run, by own steps. -/
theorem Draining.run (h : Draining s) (sendTo : List UInt8 → Except Exc Unit) :
    ∃ es s', (∀ e ∈ es, Own sendTo e) ∧ Machine.exec step s es = some s' ∧ Draining s' ∧
      Served s' ∧ s'.queue.pushed = s.queue.pushed ∧
      es.length ≤ 40 * (s.queue.queue.length + 2) := by
  have hmove : ∀ x, (Draining x ∧ x.queue.pushed = s.queue.pushed) → ¬ Served x →
      ∃ e x', Own sendTo e ∧ step x e = some x' ∧
        (Draining x' ∧ x'.queue.pushed = s.queue.pushed) ∧ left x' < left x := by
    rintro x ⟨hx, hpushed⟩ hnot
    obtain ⟨e, x', (ho : Own sendTo e), he, hx', hlt⟩ := hx.steps hnot
    refine ⟨e, x', ho, he, ⟨hx', ?_⟩, hlt⟩
    cases push_effect (step_effect he) with
    | frame hp _ _ => exact hp.trans hpushed
    | submit _ => cases ho
    | push _ _ => cases ho
  obtain ⟨es, s', hown, hexec, ⟨hdone, hpushed⟩, hserved, hlen⟩ :=
    Machine.reaches hmove ⟨h, rfl⟩
  have hleft := left_le s
  exact ⟨es, s', hown.mem hexec, hexec, hdone, hserved, hpushed, by omega⟩

/-- From every reachable state in which the queue has not been stopped and what is unfinished has a
finite timeout, the handler finishes everything that was pushed by its own steps, whatever the
channel does. -/
theorem drains (h : Machine.Reachable step init s)
    (hcallers : ∀ t, (s.caller t).ending = false)
    (hfinite : ∀ i ∈ s.queue.pushed, ∀ o, s.tx i = some o → o.exec.tr.isFinished = false →
      o.exec.tr.infinitTimeout = false) (sendTo : List UInt8 → Except Exc Unit) :
    ∃ es s', (∀ e ∈ es, Own sendTo e) ∧ Machine.exec step s es = some s' ∧
      s'.queue.queue = [] ∧
      (∀ i ∈ s.queue.pushed, ∃ o, s'.tx i = some o ∧ o.exec.tr.isFinished = true) ∧
      es.length ≤ 40 * (s.queue.queue.length + 2) := by
  obtain ⟨es, s', hown, hexec, hdone, hserved, hpushed, hlen⟩ :=
    (draining_of_callers h hcallers hfinite).run sendTo
  obtain ⟨hqueue, hfinished⟩ := hserved.finished hdone.reachable
  rw [hpushed] at hfinished
  exact ⟨es, s', hown, hexec, hqueue, hfinished, hlen⟩

/-- Two requests, the first one sent and without a response, and the channel down since. -/
theorem drains_two_callers : ∃ s es s', Machine.exec step init
      (submitLedPulse 0 ++ submitLedPulse 1 ++ dequeue ++ executes channelUp) = some s ∧
    s.queue.queue = [1] ∧ Machine.exec step s es = some s' ∧ s'.queue.queue = [] ∧
    ∀ i ∈ [0, 1], ∃ o, s'.tx i = some o ∧ o.exec.tr.isFinished = true := by
  have hrun : ∃ s, Machine.exec step init
      (submitLedPulse 0 ++ submitLedPulse 1 ++ dequeue ++ executes channelUp) = some s ∧
      s.queue.queue = [1] ∧ s.queue.pushed = [0, 1] ∧
      (∀ t, (s.caller t).ending = false) ∧
      ∀ i ∈ s.queue.pushed, ∀ o, s.tx i = some o → o.exec.tr.isFinished = false →
        o.exec.tr.infinitTimeout = false := by
    refine ⟨_, rfl, rfl, rfl, fun t => ?_, fun i hi o ho _ => ?_⟩
    · rcases t with _ | _ | t <;> rfl
    · rcases List.mem_pair.mp hi with rfl | rfl <;> cases ho <;> rfl
  obtain ⟨s, hexec, hqueue, hpushed, hcallers, hfinite⟩ := hrun
  obtain ⟨es, s', _, hes, hempty, hfinished, _⟩ :=
    drains ⟨_, hexec⟩ hcallers hfinite channelDown
  rw [hpushed] at hfinished
  exact ⟨s, es, s', hexec, hqueue, hes, hempty, hfinished⟩

end Drain

end Handler
end ClibDpa
