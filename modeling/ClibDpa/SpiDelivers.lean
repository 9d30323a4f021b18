import ClibDpa.SpiReceive

/-!
# ClibDpa.SpiDelivers

A frame that was read comes to the lambda. The worker of the queue, the listening thread on its way
through `pushToQueue`, and the return of the registered handler do it; no answer of the driver is
needed, and no other thread has to move.

* `pushRank`, `workRank` — how far the listening thread is from the end of its push, and the worker
  from the lambda.
* `receive_drains`       — the bound on the steps.
-/

namespace ClibDpa
namespace IqrfSpiChannel
namespace Imp

/-- The steps of a push that has entered the queue. -/
def inPush : TaskQueue.ClientPc (List UInt8) → Nat
  | .entered _ => 3
  | .leaving _ _ => 2
  | .notifying _ _ => 1
  | _ => 0

def pushRank (s : State) : Nat :=
  match s.listen with
  | .unlock recData => if recData = 0 then 0 else 5
  | .push recData => if recData = 0 then 0 else 4
  | .pushing => inPush (s.receiveMessageQueue.client 0)
  | _ => 0

def queueRank (q : TaskQueue.State (List UInt8)) : Nat :=
  if TaskQueue.inHand q.pc ++ q.queue = [] then q.pc.releaseRank else toLambda q.pc

def workRank (s : State) : Nat :=
  match s.lambda with
  | .idle => queueRank s.receiveMessageQueue
  | .test _ => 1
  | .done => 8
  | .call _ | .terminated => 0

/-- What is left to do for the frames on their way. -/
def toHandle (s : State) : Nat := 12 * ((pending s).length + pushRank s) + workRank s

/-- The worker, the return of the registered handler, and the listening thread in its push. -/
inductive Hands (ret : State → Except Exc Unit) (s : State) : Event → Prop where
  | worker : Hands ret s .worker
  | receiveFrom : Hands ret s (.receiveFrom (ret s))
  | listen (a : Answer) : 0 < pushRank s → Hands ret s (.listen a)

section Drains

variable {s s' : State} {ret : State → Except Exc Unit}

theorem releaseRank_le (pc : TaskQueue.WorkerPc (List UInt8)) : pc.releaseRank ≤ toLambda pc := by
  cases pc <;> simp [TaskQueue.WorkerPc.releaseRank, toLambda, TaskQueue.WorkerPc.rank]

theorem queueRank_le (q : TaskQueue.State (List UInt8)) : queueRank q ≤ toLambda q.pc := by
  unfold queueRank
  split
  · exact releaseRank_le q.pc
  · exact Nat.le_refl _

theorem workRank_le (s : State) : workRank s ≤ 11 := by
  unfold workRank
  split
  · refine (queueRank_le _).trans ((toLambda_le _).trans ?_)
    cases s.receiveMessageQueue.pc <;> simp [TaskQueue.WorkerPc.rank]
  all_goals omega

theorem pushRank_le (s : State) : pushRank s ≤ 5 := by
  unfold pushRank
  split
  · split <;> omega
  · split <;> omega
  · cases s.receiveMessageQueue.client 0 <;> simp [inPush]
  · omega

theorem toHandle_le (s : State) : toHandle s ≤ 12 * (pending s).length + 71 := by
  have hpush := pushRank_le s
  have hwork := workRank_le s
  unfold toHandle
  omega

/-! ## The listening thread -/

/-- What a step of its push leaves: the frames stay on their way. -/
theorem push_nearer (h : Receive s) (h' : Receive s') (hhandled : s'.handled = s.handled)
    (hlog : s'.log = s.log) (hpush : pushRank s' < pushRank s) : toHandle s' < toHandle s := by
  have hsame := pending_same h h' hhandled hlog
  have hwork := workRank_le s'
  unfold toHandle
  rw [hsame]
  omega

/-- Past its entry into the queue a push cannot be held up. -/
theorem push_steps {q : TaskQueue.State (List UInt8)} {t : Nat} (h : OnlyPushes (q.client t))
    (hpos : 0 < inPush (q.client t)) :
    ∃ q', TaskQueue.clientStep q t = some q' ∧ inPush (q'.client t) < inPush (q.client t) := by
  unfold TaskQueue.clientStep
  cases hc : q.client t with
  | returned r => rw [hc] at hpos; cases hpos
  | joining => rw [hc] at hpos; cases hpos
  | entered c => exact ⟨_, rfl, by simp [TaskQueue.setClient, inPush]⟩
  | leaving c r =>
    rw [hc] at h
    obtain ⟨msg, rfl⟩ := h
    exact ⟨_, rfl, by simp [TaskQueue.setClient, TaskQueue.Call.notifies, inPush]⟩
  | notifying c r =>
    rw [hc] at h
    obtain ⟨msg, rfl⟩ := h
    exact ⟨_, rfl, by simp [TaskQueue.setClient, inPush]⟩

/-- A push enters the queue when its mutex is free. -/
theorem push_enters {recData : Nat} (h : Receive s) (hl : s.listen = .push recData)
    (hne : recData ≠ 0) (hfree : s.receiveMessageQueue.mutex = none) (a : Answer) :
    ∃ q, step s (.listen a) = some { s with listen := .pushing, receiveMessageQueue := q } ∧
      inPush (q.client 0) = 3 := by
  obtain ⟨r, hr⟩ := h.others 0 (.inr (by rw [hl]; simp))
  obtain ⟨q, hq, hc⟩ : ∃ q, TaskQueue.callStep s.receiveMessageQueue 0
      (.pushToQueue (s.rx.take recData)) = some q ∧ inPush (q.client 0) = 3 :=
    ⟨_, by simp only [TaskQueue.callStep, hr, hfree]; rfl,
      by simp [TaskQueue.setClient, inPush]⟩
  exact ⟨q, by simp [step, listenStep, hl, hne, onQueue, TaskQueue.step, hq], hc⟩

/-- Past its entry into the queue a push goes on. -/
theorem push_goes_on (h : Receive s) (hl : s.listen = .pushing)
    (hpos : 0 < inPush (s.receiveMessageQueue.client 0)) (a : Answer) :
    ∃ q, step s (.listen a) = some { s with receiveMessageQueue := q } ∧
      inPush (q.client 0) < inPush (s.receiveMessageQueue.client 0) := by
  obtain ⟨q, hq, hlt⟩ := push_steps (h.client 0) hpos
  have hbusy : ∀ r, s.receiveMessageQueue.client 0 ≠ .returned r := by
    intro r hr
    rw [hr] at hpos
    cases hpos
  have hother : listenStep s a = onQueue s (.client 0) := by
    simp only [listenStep, hl]
  exact ⟨q, by simp [step, hother, onQueue, TaskQueue.step, hq], hlt⟩

/-- The listening thread takes its frame into the queue and through it. -/
theorem listen_steps (h : Receive s) (hpos : 0 < pushRank s)
    (hfree : ∀ recData, s.listen = .push recData → s.receiveMessageQueue.mutex = none)
    (a : Answer) : ∃ s', step s (.listen a) = some s' ∧ s'.handled = s.handled ∧
      s'.log = s.log ∧ s'.receiveFromFunc = s.receiveFromFunc ∧ s'.lambda = s.lambda ∧
      pushRank s' < pushRank s := by
  cases hl : s.listen with
  | unlock recData =>
    have hne : recData ≠ 0 := by
      rintro rfl
      simp [pushRank, hl] at hpos
    have he : step s (.listen a) = some { s with commMutex := none, listen := .push recData } := by
      simp [step, listenStep, hl]
    exact ⟨_, he, rfl, rfl, rfl, rfl, by simp [pushRank, hl, hne]⟩
  | push recData =>
    have hne : recData ≠ 0 := by
      rintro rfl
      simp [pushRank, hl] at hpos
    obtain ⟨q, he, hc⟩ := push_enters h hl hne (hfree recData hl) a
    exact ⟨_, he, rfl, rfl, rfl, rfl, by simp [pushRank, hl, hne, hc]⟩
  | pushing =>
    have hrank : pushRank s = inPush (s.receiveMessageQueue.client 0) := by simp [pushRank, hl]
    rw [hrank] at hpos ⊢
    obtain ⟨q, he, hlt⟩ := push_goes_on h hl hpos a
    refine ⟨_, he, rfl, rfl, rfl, rfl, ?_⟩
    simpa [pushRank, hl] using hlt
  | _ => simp [pushRank, hl] at hpos

/-! ## The worker -/

/-- Outside the lambda a step of the worker leaves the frames on their way. -/
theorem worker_nearer {q : TaskQueue.State (List UInt8)} (h : Machine.Reachable step init s)
    (hl : s.lambda = .idle) (hproc : ∀ msg, s.receiveMessageQueue.pc ≠ .process msg)
    (hbusy : ∀ msg, s.receiveMessageQueue.pc ≠ .busy msg)
    (hq : TaskQueue.workerStep s.receiveMessageQueue = some q)
    (hlt : queueRank q < queueRank s.receiveMessageQueue) :
    ∃ s', step s .worker = some s' ∧ s'.log = s.log ∧
      s'.receiveFromFunc = s.receiveFromFunc ∧ s'.lambda = s.lambda ∧
      toHandle s' < toHandle s := by
  have he := workerStep_own hl hproc hbusy hq
  have hsame := pending_same (receive_reachable h) (receive_reachable (h.next he)) rfl rfl
  have hpush : pushRank { s with lambda := .idle, receiveMessageQueue := q } = pushRank s := by
    have hclient := (TaskQueue.workerStep_frame hq).1
    simp only [pushRank, hclient]
  refine ⟨_, he, rfl, rfl, hl.symm, ?_⟩
  simp only [toHandle, hsame, hpush, workRank, hl]
  omega

/-! ## A step towards the lambda -/

/-- What the lambda's own step makes of what is left. -/
theorem toHandle_lambda (hq : s'.receiveMessageQueue = s.receiveMessageQueue)
    (hl : s'.listen = s.listen) (hrx : s'.rx = s.rx) :
    toHandle s' + (12 * s.lambda.inHand.length + workRank s) =
      toHandle s + (12 * s'.lambda.inHand.length + workRank s') := by
  have hpush : pushRank s' = pushRank s := by simp only [pushRank, hq, hl]
  simp only [toHandle, pending, hpush, hq, hl, hrx, List.length_append]
  omega

/-- The call of the registered handler ends: the frame has been handled. -/
theorem call_ends {msg : List UInt8} (hl : s.lambda = .call msg) (result : Except Exc Unit) :
    ∃ s', step s (.receiveFrom result) = some s' ∧ s'.log = s.log ∧
      s'.receiveFromFunc = s.receiveFromFunc ∧ toHandle s' < toHandle s ∧
      (s.receiveFromFunc = true → result.isOk = true → s'.lambda ≠ .terminated) := by
  obtain ⟨s', he, hlog, hreg, hq, hlisten, hrx, hpc⟩ : ∃ s', lambdaStep s result = some s' ∧
      s'.log = s.log ∧ s'.receiveFromFunc = s.receiveFromFunc ∧
      s'.receiveMessageQueue = s.receiveMessageQueue ∧ s'.listen = s.listen ∧ s'.rx = s.rx ∧
      (s'.lambda = .done ∨ s'.lambda = .terminated ∧
        ¬ (s.receiveFromFunc = true ∧ result.isOk = true)) := by
    simp only [lambdaStep, hl]
    by_cases hreg : s.receiveFromFunc = true
    · rw [if_pos hreg]
      refine ⟨_, rfl, rfl, rfl, rfl, rfl, rfl, ?_⟩
      cases result with
      | ok u => exact .inl rfl
      | error e => exact .inr ⟨rfl, fun hok => by cases hok.2⟩
    · rw [if_neg hreg]
      exact ⟨_, rfl, rfl, rfl, rfl, rfl, rfl, .inr ⟨rfl, fun hok => hreg hok.1⟩⟩
  have heq := toHandle_lambda hq hlisten hrx
  simp only [hl, workRank, LambdaPc.inHand, List.length_singleton] at heq
  refine ⟨s', he, hlog, hreg, ?_, fun hr hok => ?_⟩
  · rcases hpc with hpc | ⟨hpc, _⟩
    · rw [hpc] at heq
      simp only [List.length_nil] at heq
      omega
    · rw [hpc] at heq
      simp only [List.length_nil] at heq
      omega
  · rcases hpc with hpc | ⟨_, hnot⟩
    · rw [hpc]
      simp
    · exact absurd ⟨hr, hok⟩ hnot

/-- The lambda, or the worker as it leaves it. -/
theorem lambda_steps (h : Receive s) (hidle : s.lambda ≠ .idle) (halive : s.lambda ≠ .terminated)
    (ret : State → Except Exc Unit) :
    ∃ e s', Hands ret s e ∧ step s e = some s' ∧ s'.log = s.log ∧
      s'.receiveFromFunc = s.receiveFromFunc ∧ toHandle s' < toHandle s ∧
      (s.receiveFromFunc = true → (ret s).isOk = true → s'.lambda ≠ .terminated) := by
  cases hl : s.lambda with
  | idle => exact absurd hl hidle
  | terminated => exact absurd hl halive
  | test msg =>
    refine ⟨.receiveFrom (ret s), _, .receiveFrom, by simp only [step, lambdaStep, hl]; rfl, ?_⟩
    split
    · refine ⟨rfl, rfl, ?_, by simp⟩
      have heq := @toHandle_lambda s { s with
        dangling := s.dangling || decide (s.destructor = .freed)
        lambda := .call msg } rfl rfl rfl
      simp only [hl, workRank, LambdaPc.inHand, List.length_singleton] at heq
      omega
    · refine ⟨rfl, rfl, ?_, by simp⟩
      have heq := @toHandle_lambda s { s with
        dangling := s.dangling || decide (s.destructor = .freed)
        lambda := .done
        handled := s.handled ++ [(msg, false)] } rfl rfl rfl
      simp only [hl, workRank, LambdaPc.inHand, List.length_singleton, List.length_nil] at heq
      omega
  | call msg =>
    obtain ⟨s', he, hends⟩ := call_ends hl (ret s)
    exact ⟨_, s', .receiveFrom, he, hends⟩
  | done =>
    obtain ⟨msg, hbusy⟩ := h.busy.mpr (by rw [hl]; simp)
    obtain ⟨q, hq⟩ : ∃ q : TaskQueue.State (List UInt8),
        q = { s.receiveMessageQueue with pc := .relock } := ⟨_, rfl⟩
    have he : step s .worker = some { s with lambda := .idle, receiveMessageQueue := q } := by
      simp [step, workerStep, hbusy, hl, onQueue, TaskQueue.step, TaskQueue.workerStep, hq]
    have hrank : queueRank q ≤ 7 := by
      have hle := queueRank_le q
      rw [hq] at hle ⊢
      exact hle
    have hsame : pending { s with lambda := .idle, receiveMessageQueue := q } = pending s := by
      simp only [pending, hl, hbusy, hq, LambdaPc.inHand, TaskQueue.inHand]
      rfl
    have hpush : pushRank { s with lambda := .idle, receiveMessageQueue := q } = pushRank s := by
      simp only [pushRank, hq]
    refine ⟨.worker, _, .worker, he, rfl, rfl, ?_, by simp⟩
    simp only [toHandle, hsame, hpush, workRank, hl]
    omega

/-- A frame that is neither in the queue nor in the worker's hands is in a push. -/
theorem pushRank_pos (h : Receive s) (hl : s.lambda = .idle)
    (hleft : TaskQueue.inHand s.receiveMessageQueue.pc ++ s.receiveMessageQueue.queue = [])
    (hpending : pending s ≠ []) : 0 < pushRank s := by
  obtain ⟨hhand, hqueue⟩ := List.append_eq_nil_iff.mp hleft
  simp only [pending, hl, LambdaPc.inHand, hhand, List.nil_append] at hpending
  by_cases hflight : TaskQueue.inFlight s.receiveMessageQueue.mutex
      s.receiveMessageQueue.client = []
  · have hpush : s.listen.toPush s.rx ≠ [] := by
      intro hnil
      apply hpending
      simp [TaskQueue.abs, hqueue, hflight, hnil]
    cases hp : s.listen with
    | unlock recData =>
      rw [hp] at hpush
      have hne : recData ≠ 0 := fun hzero => hpush (by simp [ListenPc.toPush, hzero])
      simp [pushRank, hp, hne]
    | push recData =>
      rw [hp] at hpush
      have hne : recData ≠ 0 := fun hzero => hpush (by simp [ListenPc.toPush, hzero])
      simp [pushRank, hp, hne]
    | _ => rw [hp] at hpush; exact absurd rfl hpush
  · -- a client is in its block: it is the listening thread
    cases hm : s.receiveMessageQueue.mutex with
    | none => rw [hm] at hflight; exact absurd rfl hflight
    | some o =>
      cases o with
      | worker => rw [hm] at hflight; exact absurd rfl hflight
      | client t =>
        rw [hm] at hflight
        have hbusy : ¬ ∃ r, s.receiveMessageQueue.client t = .returned r := by
          rintro ⟨r, hr⟩
          exact hflight (by simp [TaskQueue.inFlight, hr, TaskQueue.ClientPc.inFlight])
        have hpushing : t = 0 ∧ s.listen = .pushing := by
          by_contra hnot
          exact hbusy (h.others t (by tauto))
        obtain ⟨rfl, hp⟩ := hpushing
        cases hc : s.receiveMessageQueue.client 0 with
        | entered c => simp [pushRank, hp, hc, inPush]
        | _ =>
          exact absurd (by simp [TaskQueue.inFlight, hc, TaskQueue.ClientPc.inFlight]) hflight

/-- Without a push in the queue it has no client. -/
theorem outside_of_idle (h : Receive s) (hin : ¬ (s.listen = .pushing ∧ 0 < pushRank s)) (t : Nat) :
    ∃ r, s.receiveMessageQueue.client t = .returned r := by
  by_cases hp : t ≠ 0 ∨ s.listen ≠ .pushing
  · exact h.others t hp
  · obtain ⟨ht, hl⟩ := not_or.mp hp
    obtain rfl := not_not.mp ht
    have hl := not_not.mp hl
    have hpushes := h.client 0
    cases hc : s.receiveMessageQueue.client 0 with
    | returned r => exact ⟨r, rfl⟩
    | joining => rw [hc] at hpushes; exact hpushes.elim
    | _ => exact absurd ⟨hl, by simp [pushRank, hl, hc, inPush]⟩ hin

/-- The worker without a frame for the lambda, with the push on its way in the queue. -/
theorem idle_steps (h : Machine.Reachable step init s) (hl : s.lambda = .idle)
    (hpending : pending s ≠ []) (ret : State → Except Exc Unit) :
    ∃ e s', Hands ret s e ∧ step s e = some s' ∧ s'.log = s.log ∧
      s'.receiveFromFunc = s.receiveFromFunc ∧ toHandle s' < toHandle s ∧
      s'.lambda ≠ .terminated := by
  have hr := receive_reachable h
  have hinv := TaskQueue.inv_reachable hr.queue
  have hserving := hr.serving
  have hbusy : ∀ msg, s.receiveMessageQueue.pc ≠ .busy msg := fun msg hb => hr.busy.mp ⟨msg, hb⟩ hl
  by_cases hproc : ∃ msg, s.receiveMessageQueue.pc = .process msg
  · obtain ⟨msg, hp⟩ := hproc
    obtain ⟨q, hq⟩ : ∃ q : TaskQueue.State (List UInt8), q = { s.receiveMessageQueue with
        given := s.receiveMessageQueue.given ++ [msg]
        pc := .busy msg } := ⟨_, rfl⟩
    have he : step s .worker = some { s with lambda := .test msg, receiveMessageQueue := q } := by
      simp [step, workerStep, hp, onQueue, TaskQueue.step, TaskQueue.workerStep, hq]
    have hsame := pending_same hr (receive_reachable (h.next he)) rfl rfl
    have hpush : pushRank { s with lambda := .test msg, receiveMessageQueue := q } =
        pushRank s := by
      simp only [pushRank, hq]
    have hrank : queueRank s.receiveMessageQueue = 2 := by
      simp [queueRank, hp, TaskQueue.inHand, toLambda]
    refine ⟨.worker, _, .worker, he, rfl, rfl, ?_, by simp⟩
    simp only [toHandle, hsame, hpush, workRank, hl]
    omega
  · have hproc' : ∀ msg, s.receiveMessageQueue.pc ≠ .process msg := fun msg hp => hproc ⟨msg, hp⟩
    -- the worker's own way to the lambda, or to its release of the mutex
    have hworker : ∀ q, TaskQueue.workerStep s.receiveMessageQueue = some q →
        queueRank q < queueRank s.receiveMessageQueue → ∃ e s', Hands ret s e ∧
        step s e = some s' ∧ s'.log = s.log ∧ s'.receiveFromFunc = s.receiveFromFunc ∧
        toHandle s' < toHandle s ∧ s'.lambda ≠ .terminated := by
      intro q hq hlt
      obtain ⟨s', he, hlog, hreg, hsame, hnear⟩ := worker_nearer h hl hproc' hbusy hq hlt
      exact ⟨.worker, s', .worker, he, hlog, hreg, hnear, by rw [hsame, hl]; simp⟩
    have hlisten : 0 < pushRank s →
        (∀ recData, s.listen = .push recData → s.receiveMessageQueue.mutex = none) →
        ∃ e s', Hands ret s e ∧ step s e = some s' ∧ s'.log = s.log ∧
          s'.receiveFromFunc = s.receiveFromFunc ∧ toHandle s' < toHandle s ∧
          s'.lambda ≠ .terminated := by
      intro hpos hfree
      obtain ⟨s', he, hhandled, hlog, hreg, hsame, hlt⟩ := listen_steps hr hpos hfree threeBytes
      refine ⟨_, s', .listen threeBytes hpos, he, hlog, hreg, ?_, by rw [hsame, hl]; simp⟩
      exact push_nearer hr (receive_reachable (h.next he)) hhandled hlog hlt
    by_cases hleft : TaskQueue.inHand s.receiveMessageQueue.pc ++ s.receiveMessageQueue.queue = []
    · have hpos := pushRank_pos hr hl hleft hpending
      by_cases hheld : ∃ recData, s.listen = .push recData ∧ s.receiveMessageQueue.mutex ≠ none
      · -- the worker holds the mutex that the push waits for
        obtain ⟨recData, hp, hm⟩ := hheld
        have hnone := hr.noClient fun t => hr.others t (.inr (by rw [hp]; simp))
        have hmine : s.receiveMessageQueue.mutex = some .worker := by
          cases hmutex : s.receiveMessageQueue.mutex with
          | none => exact absurd hmutex hm
          | some o =>
            cases o with
            | worker => rfl
            | client t => exact absurd hmutex (hnone t)
        obtain ⟨q, hq, hlt, hsame, _⟩ := TaskQueue.release_steps hinv hserving hmine
        refine hworker q hq ?_
        rwa [queueRank, queueRank, if_pos hleft, if_pos (hsame.trans hleft)]
      · refine hlisten hpos fun recData hp => ?_
        by_contra hm
        exact hheld ⟨recData, hp, hm⟩
    · by_cases hin : s.listen = .pushing ∧ 0 < pushRank s
      · exact hlisten hin.2 fun recData hp => by rw [hin.1] at hp; cases hp
      · have hout := outside_of_idle hr hin
        obtain ⟨q, hq, hlt⟩ :=
          queue_steps hinv hserving (hr.noClient hout) hout hproc' hbusy hleft
        refine hworker q hq (lt_of_le_of_lt (queueRank_le q) ?_)
        rwa [queueRank, if_neg hleft]

/-- What holds on the way from `s`. -/
structure OnWay (ret : State → Except Exc Unit) (s x : State) : Prop where
  reachable : Machine.Reachable step init x
  log : x.log = s.log
  calm : s.receiveFromFunc = true → s.lambda ≠ .terminated → (∀ y, (ret y).isOk = true) →
    x.receiveFromFunc = true ∧ x.lambda ≠ .terminated

theorem OnWay.refl (h : Machine.Reachable step init s) (ret : State → Except Exc Unit) :
    OnWay ret s s := ⟨h, rfl, fun hr ha _ => ⟨hr, ha⟩⟩

theorem OnWay.steps {x : State} (h : OnWay ret s x)
    (hnot : ¬ (x.lambda = .terminated ∨ pending x = [])) :
    ∃ e x', Hands ret x e ∧ step x e = some x' ∧ OnWay ret s x' ∧ toHandle x' < toHandle x := by
  obtain ⟨halive, hpending⟩ := not_or.mp hnot
  by_cases hl : x.lambda = .idle
  · obtain ⟨e, x', ho, he, hlog, hreg, hlt, hne⟩ := idle_steps h.reachable hl hpending ret
    refine ⟨e, x', ho, he, ⟨h.reachable.next he, hlog.trans h.log, fun hr ha hok => ?_⟩, hlt⟩
    exact ⟨hreg.trans (h.calm hr ha hok).1, hne⟩
  · obtain ⟨e, x', ho, he, hlog, hreg, hlt, hne⟩ :=
      lambda_steps (receive_reachable h.reachable) hl halive ret
    refine ⟨e, x', ho, he, ⟨h.reachable.next he, hlog.trans h.log, fun hr ha hok => ?_⟩, hlt⟩
    have hregistered := (h.calm hr ha hok).1
    exact ⟨hreg.trans hregistered, hne hregistered (hok x)⟩

/-- From every reachable state the worker, the return of the registered handler and a push that is
on its way bring all frames that were read to the lambda, unless a call of the handler ends the
process; and it does not where one is registered that returns. -/
theorem receive_drains (h : Machine.Reachable step init s) (ret : State → Except Exc Unit) :
    ∃ es s', Machine.Steps step (Hands ret) s es ∧ Machine.exec step s es = some s' ∧
      s'.log = s.log ∧
      (s'.lambda = .terminated ∨ s'.handled.map Prod.fst = frames s.log) ∧
      (s.receiveFromFunc = true → s.lambda ≠ .terminated → (∀ x, (ret x).isOk = true) →
        s'.lambda ≠ .terminated) ∧
      es.length ≤ 12 * (pending s).length + 71 := by
  obtain ⟨es, s', hsteps, hexec, hway, hgoal, hlen⟩ :=
    Machine.reaches (fun x hx hnot => OnWay.steps hx hnot) (.refl h ret)
  have hle := toHandle_le s
  refine ⟨es, s', hsteps, hexec, hway.log, hgoal.imp_right fun hnone => ?_,
    fun hr ha hok => (hway.calm hr ha hok).2, by omega⟩
  have haccount := (receive_reachable hway.reachable).account
  rwa [hnone, List.append_nil, hway.log] at haccount

/-- A frame that is being pushed comes to the registered handler. -/
theorem receive_drains_threeBytes : ∃ s es s',
    Machine.exec step init (.registerReceiveFromHandler true :: readsFrame.take 9) = some s ∧
    s.listen = .pushing ∧ s.handled = [] ∧ Machine.exec step s es = some s' ∧
    s'.handled.map Prod.fst = [[0x0a, 0x0b, 0x0c]] := by
  have hrun : ∃ s, Machine.exec step init
        (.registerReceiveFromHandler true :: readsFrame.take 9) = some s ∧
      s.listen = .pushing ∧ s.handled = [] ∧ s.receiveFromFunc = true ∧ s.lambda = .idle ∧
      frames s.log = [[0x0a, 0x0b, 0x0c]] := ⟨_, rfl, rfl, rfl, rfl, rfl, rfl⟩
  obtain ⟨s, hexec, hl, hhandled, hreg, hidle, hframes⟩ := hrun
  obtain ⟨es, s', _, hes, _, hdone, hcalm, _⟩ := receive_drains ⟨_, hexec⟩ fun _ => .ok ()
  have halive := hcalm hreg (by rw [hidle]; simp) fun _ => rfl
  exact ⟨s, es, s', hexec, hl, hhandled, hes, (hdone.resolve_left halive).trans hframes⟩

end Drains

end Imp
end IqrfSpiChannel
end ClibDpa
