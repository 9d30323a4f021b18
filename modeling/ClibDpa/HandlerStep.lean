import ClibDpa.Handler
import ClibDpa.Progress

/-!
# ClibDpa.HandlerStep

What one step of the handler can do. `Effect` groups the events by what they change;
`step_effect` is its inversion lemma, and the rest of the development uses nothing else about
`step`.

* `step_tx`        — what a step makes of one transaction: nothing, or one step of it.
* `step_queue`     — the same for the task queue.
* `base_reachable` — the task queue of a reachable handler is a reachable task queue.
* `tx_inv`         — a property of a transaction that its constructor establishes and its own
  steps keep holds of every transaction in every reachable state.
-/

namespace ClibDpa
namespace Handler

/-- The steps of a transaction, its execution by the functor apart. -/
inductive Acts (s : State) : Event → Nat → Execution.Event → Prop where
  | timeout {i : Nat} : s.functor = .executing i → Acts s (.execution .timeout) i .timeout
  | wake {i : Nat} : s.functor = .executing i → Acts s (.execution .wake) i .wake
  | resume {i : Nat} : s.functor = .executing i → Acts s (.execution .resume) i .resume
  | receive {i : Nat} {f : Frame} : s.receiver = .process i f → Acts s .receiver i (.receive f)
  | abort {i : Nat} : Acts s (.abort i) i .abort
  | destruct {t i : Nat} : s.caller t = .aborting i → Acts s (.caller t) i .abort

/-- No thread is about to push that was not before. -/
def Fewer (s : State) (caller : Nat → CallerPc) : Prop :=
  ∀ t i, caller t = .constructed i → s.caller t = .constructed i

inductive Effect (s : State) : Event → State → Prop where
  | submit {t : Nat} {request : DpaMessage} {timeout : Int32} {err : ErrorCode} :
      s.caller t = .ready →
      Effect s (.executeDpaTransaction t request timeout err) (submit s t request timeout err)
  | push {t i : Nat} {q : TaskQueue.State Nat} : s.caller t = .constructed i →
      TaskQueue.callStep s.queue t (.pushToQueue i) = some q →
      Effect s (.caller t) { setCaller s t .ready with queue := q }
  | call {e : Event} {t : Nat} {c : TaskQueue.Call Nat} {q : TaskQueue.State Nat}
      {caller : Nat → CallerPc} : (∀ i, c ≠ .pushToQueue i) → Fewer s caller →
      TaskQueue.callStep s.queue t c = some q →
      Effect s e { s with caller := caller, queue := q }
  | caller {e : Event} {caller : Nat → CallerPc} : Fewer s caller →
      Effect s e { s with caller := caller }
  | client {t : Nat} {q : TaskQueue.State Nat} : TaskQueue.clientStep s.queue t = some q →
      Effect s (.client t) { noteAhead s t with queue := q }
  | start {i : Nat} {q : TaskQueue.State Nat} : s.queue.pc = .process i →
      TaskQueue.workerStep s.queue = some q →
      Effect s .worker { s with functor := .assign i, queue := q }
  | finish {i : Nat} {q : TaskQueue.State Nat} : s.queue.pc = .busy i → s.functor = .done →
      TaskQueue.workerStep s.queue = some q →
      Effect s .worker { s with functor := .idle, queue := q }
  | worker {q : TaskQueue.State Nat} : (∀ i, s.queue.pc ≠ .process i) →
      (∀ i, s.queue.pc ≠ .busy i) → TaskQueue.workerStep s.queue = some q →
      Effect s .worker { s with queue := q }
  | spurious : s.queue.pc = .asleep →
      Effect s .spurious { s with queue := TaskQueue.wakeUp s.queue }
  | assign {i : Nat} {sendTo : List UInt8 → Except Exc Unit} : s.functor = .assign i →
      Effect s (.functor sendTo) { s with pendingTransaction := some i, functor := .size i }
  | size {i : Nat} {sendTo : List UInt8 → Except Exc Unit} : s.functor = .size i →
      s.queue.mutex = none →
      Effect s (.functor sendTo) { s with functor := .branch i s.queue.queue.length }
  | execute {i n : Nat} {sendTo : List UInt8 → Except Exc Unit} {o : Submission}
      {x : Execution.State} : s.functor = .branch i n → s.tx i = some o →
      Execution.step o.exec (.execute (executeCode o n)
        (sendOutcome sendTo o.exec.tr.result.request)) = some x →
      Effect s (.functor sendTo)
        { setTx s i { o with exec := x } with
          functor := .executing i
          sent := s.sent ++ sends o n i }
  | done {i : Nat} {sendTo : List UInt8 → Except Exc Unit} {o : Submission} :
      s.functor = .executing i → s.tx i = some o → o.exec.pc = .returned →
      Effect s (.functor sendTo) { s with functor := .done }
  | act {e : Event} {i : Nat} {ev : Execution.Event} {o : Submission} {x : Execution.State}
      {caller : Nat → CallerPc} {receiver : ReceiverPc} : Acts s e i ev → s.tx i = some o →
      Execution.step o.exec ev = some x → Fewer s caller →
      Effect s e
        { setTx s i { o with exec := x } with caller := caller, receiver := receiver }
  | front {e : Event} {rfMode : RfMode} {params : TimingParams} {defaultTimeout : Int32}
      {registry : Registry} {receiver : ReceiverPc} :
      (defaultTimeout = s.defaultTimeout ∨ minimalTimeout ≤ defaultTimeout) →
      Effect s e
        { s with
          rfMode := rfMode
          timingParams := params
          defaultTimeout := defaultTimeout
          registry := registry
          receiver := receiver }

section Inversion

variable {s s' : State}

theorem actOn_some {i : Nat} {e : Execution.Event} (h : actOn s i e = some s') :
    ∃ o x, s.tx i = some o ∧ Execution.step o.exec e = some x ∧
      s' = setTx s i { o with exec := x } := by
  unfold actOn at h
  split at h
  · cases h
  · rename_i o ho
    split at h
    · cases h
    · rename_i x hx
      cases h
      exact ⟨o, x, ho, hx, rfl⟩

theorem onQueue_some {e : TaskQueue.Event Nat} (h : onQueue s e = some s') :
    ∃ q, TaskQueue.step s.queue e = some q ∧ s' = { s with queue := q } := by
  unfold onQueue at h
  split at h
  · cases h
  · rename_i q hq
    cases h
    exact ⟨q, hq, rfl⟩

theorem fewer_refl (s : State) : Fewer s s.caller := fun _ _ h => h

theorem fewer_update {t : Nat} {pc : CallerPc} (h : ∀ i, pc ≠ .constructed i) :
    Fewer s (Function.update s.caller t pc) := by
  exact Machine.update_rel
    (R := fun x y : CallerPc => ∀ i, y = .constructed i → x = .constructed i)
    (fun _ _ => id) fun i hpc => absurd hpc (h i)

theorem callerStep_effect {t : Nat} (h : callerStep s t = some s') : Effect s (.caller t) s' := by
  unfold callerStep at h
  split at h
  · cases h
  · rename_i i hc
    obtain ⟨q, hq, rfl⟩ := onQueue_some h
    exact .push hc hq
  · rename_i i hc
    obtain ⟨o, x, ho, hx, rfl⟩ := actOn_some h
    exact .act (.destruct hc) ho hx (fewer_update nofun)
  · obtain ⟨q, hq, rfl⟩ := onQueue_some h
    exact .call (c := .stopQueue) nofun (fewer_update nofun) hq
  · obtain ⟨q, hq, rfl⟩ := onQueue_some h
    exact .call (c := .destroy) nofun (fewer_update nofun) hq
  · cases h

theorem workerStep_effect (h : workerStep s = some s') : Effect s .worker s' := by
  unfold workerStep at h
  split at h
  · rename_i i _ hpc
    obtain ⟨q, hq, rfl⟩ := onQueue_some h
    exact .start hpc hq
  · rename_i i hpc hf
    obtain ⟨q, hq, rfl⟩ := onQueue_some h
    exact .finish hpc hf hq
  · cases h
  · rename_i hproc hbusy _
    obtain ⟨q, hq, rfl⟩ := onQueue_some h
    exact .worker (fun i hi => hproc i hi) (fun i hi => hbusy i hi) hq

/-- The entry of `execute()` is the step of the transaction that it is by itself, and `sendTo` is
called for `TRN_OK` only. -/
theorem execute_eq (o : Submission) (n : Nat) (sendTo : List UInt8 → Except Exc Unit) :
    execute o n sendTo =
      (Execution.enter o.exec (executeCode o n) (sendOutcome sendTo o.exec.tr.result.request),
        if executeCode o n = trnOk then [o.exec.tr.result.request.bytes] else []) := by
  unfold execute
  rw [Execution.enterWith_eq]
  by_cases hcode : executeCode o n = trnOk
  · simp only [if_pos hcode, sendRequest, sendOutcome]
    cases h : sendTo o.exec.tr.result.request.bytes <;> simp [h]
  · simp only [if_neg hcode]
    rw [Execution.enter_eq, Execution.enter_eq]
    simp [DpaTransaction2.begin_eq, hcode]

theorem sends_eq (o : Submission) (n i : Nat) : sends o n i =
    if executeCode o n = trnOk then [(i, o.exec.tr.result.request.bytes)] else [] := by
  unfold sends
  rw [execute_eq]
  split <;> rfl

theorem functorStep_execute {i n : Nat} {o : Submission}
    (sendTo : List UInt8 → Except Exc Unit) (hf : s.functor = .branch i n)
    (ho : s.tx i = some o) (hidle : o.exec.pc = .idle) :
    functorStep s sendTo = some
      { setTx s i
          { o with
            exec := Execution.enter o.exec (executeCode o n)
              (sendOutcome sendTo o.exec.tr.result.request) } with
        functor := .executing i
        sent := s.sent ++ sends o n i } := by
  simp only [functorStep, hf, ho, if_pos hidle, execute_eq, sends]

/-- The step in which the functor calls `execute()`. -/
theorem functorStep_branch {i n : Nat} {sendTo : List UInt8 → Except Exc Unit}
    (hf : s.functor = .branch i n) (h : functorStep s sendTo = some s') :
    ∃ o x, s.tx i = some o ∧
      Execution.step o.exec (.execute (executeCode o n)
        (sendOutcome sendTo o.exec.tr.result.request)) = some x ∧
      s' = { setTx s i { o with exec := x } with
        functor := .executing i
        sent := s.sent ++ sends o n i } := by
  cases ho : s.tx i with
  | none => simp [functorStep, hf, ho] at h
  | some o =>
    by_cases hidle : o.exec.pc = .idle
    · rw [functorStep_execute sendTo hf ho hidle] at h
      exact ⟨o, _, rfl, by simp [Execution.step, hidle], (Option.some.inj h).symm⟩
    · simp [functorStep, hf, ho, hidle] at h

/-- The functor calls no method of the queue, of a registry or of the receive thread. -/
theorem functorStep_frame {sendTo : List UInt8 → Except Exc Unit}
    (h : functorStep s sendTo = some s') :
    s'.queue = s.queue ∧ s'.caller = s.caller ∧ s'.registry = s.registry ∧
      s'.receiver = s.receiver := by
  unfold functorStep at h
  split at h
  · cases h
  · cases h
    exact ⟨rfl, rfl, rfl, rfl⟩
  · split at h
    · cases h
      exact ⟨rfl, rfl, rfl, rfl⟩
    · cases h
  · split at h
    · cases h
    · split at h
      · cases h
        exact ⟨rfl, rfl, rfl, rfl⟩
      · cases h
  · split at h
    · cases h
    · split at h
      · cases h
        exact ⟨rfl, rfl, rfl, rfl⟩
      · cases h
  · cases h

theorem functorStep_effect {sendTo : List UInt8 → Except Exc Unit}
    (h : functorStep s sendTo = some s') : Effect s (.functor sendTo) s' := by
  cases hf : s.functor with
  | idle => simp [functorStep, hf] at h
  | assign i =>
    simp only [functorStep, hf] at h
    cases h
    exact .assign hf
  | size i =>
    simp only [functorStep, hf] at h
    split at h
    · cases h
      exact .size hf ‹_›
    · cases h
  | branch i n =>
    obtain ⟨o, x, ho, hx, rfl⟩ := functorStep_branch hf h
    exact .execute hf ho hx
  | executing i =>
    simp only [functorStep, hf] at h
    split at h
    · cases h
    · rename_i o ho
      split at h
      · cases h
        exact .done hf ho ‹_›
      · cases h
  | done => simp [functorStep, hf] at h

theorem executionStep_effect {e : Execution.Event} (h : executionStep s e = some s') :
    Effect s (.execution e) s' := by
  unfold executionStep at h
  split at h
  · rename_i i hf
    obtain ⟨o, x, ho, hx, rfl⟩ := actOn_some h
    exact .act (.timeout hf) ho hx (fewer_refl s)
  · rename_i i hf
    obtain ⟨o, x, ho, hx, rfl⟩ := actOn_some h
    exact .act (.wake hf) ho hx (fewer_refl s)
  · rename_i i hf
    obtain ⟨o, x, ho, hx, rfl⟩ := actOn_some h
    exact .act (.resume hf) ho hx (fewer_refl s)
  · cases h

theorem deliver_effect {message : List UInt8} (h : deliver s message = some s') :
    ∃ receiver, s' = { s with receiver := receiver } := by
  unfold deliver at h
  split at h
  · split at h
    · cases h
      exact ⟨_, rfl⟩
    · split at h
      · cases h
      · cases h
        exact ⟨_, rfl⟩
      · cases h
        exact ⟨_, rfl⟩
  · cases h

theorem receiverStep_effect (h : receiverStep s = some s') : Effect s .receiver s' := by
  unfold receiverStep at h
  split at h
  · cases h
  · split at h
    · cases h
    · cases h
      exact .front (.inl rfl)
  · split at h
    · cases h
      exact .front (.inl rfl)
    · cases h
      exact .front (.inl rfl)
  · rename_i i f hr
    obtain ⟨o, x, ho, hx, rfl⟩ := actOn_some h
    exact .act (.receive hr) ho hx (fewer_refl s)
  · cases h

theorem setRegistry_effect {e : Event} {r : Option Registry} (h : setRegistry s r = some s') :
    Effect s e s' := by
  unfold setRegistry at h
  split at h
  · cases h
  · cases h
    exact .front (.inl rfl)

theorem destruct_effect (s : State) (t : Nat) : Effect s (.destruct t) (destruct s t) := by
  unfold destruct
  split
  · exact .caller (fewer_update nofun)
  · exact .caller (fewer_update nofun)

theorem step_effect {e : Event} (h : step s e = some s') : Effect s e s' := by
  cases e with
  | executeDpaTransaction t request timeout err =>
    simp only [step] at h
    split at h
    · rename_i hready
      cases h
      exact .submit hready.1
    · cases h
  | getDpaQueueLen t =>
    simp only [step] at h
    split at h
    · obtain ⟨q, hq, rfl⟩ := onQueue_some h
      exact .call (c := .size) nofun (fewer_refl s) hq
    · cases h
  | destruct t =>
    simp only [step] at h
    split at h
    · cases h
      exact destruct_effect s t
    · cases h
  | caller t => exact callerStep_effect h
  | client t =>
    obtain ⟨q, hq, rfl⟩ := onQueue_some h
    have hsame : (noteAhead s t).queue = s.queue := by
      unfold noteAhead
      split
      · split <;> rfl
      · rfl
    rw [hsame] at hq
    exact .client hq
  | worker => exact workerStep_effect h
  | spurious =>
    obtain ⟨q, hq, rfl⟩ := onQueue_some h
    simp only [TaskQueue.step] at hq
    split at hq
    · cases hq
      exact .spurious ‹_›
    · cases hq
  | functor sendTo => exact functorStep_effect h
  | execution e => exact executionStep_effect h
  | deliver message =>
    obtain ⟨receiver, rfl⟩ := deliver_effect h
    exact .front (.inl rfl)
  | receiver => exact receiverStep_effect h
  | abort i =>
    obtain ⟨o, x, ho, hx, rfl⟩ := actOn_some h
    exact .act .abort ho hx (fewer_refl s)
  | setTimeout timeout =>
    cases h
    refine .front (.inr ?_)
    split
    · exact Int32.le_refl _
    · exact Int32.not_lt.mp ‹_›
  | setRfCommunicationMode rfMode => cases h; exact .front (.inl rfl)
  | setTimingParams params => cases h; exact .front (.inl rfl)
  | registerAsyncMessageHandler serviceId handler => exact setRegistry_effect h
  | unregisterAsyncMessageHandler serviceId => exact setRegistry_effect h
  | registerAnyMessageHandler serviceId handler => exact setRegistry_effect h
  | unregisterAnyMessageHandler serviceId => exact setRegistry_effect h

end Inversion

/-! ## A new transaction -/

section Submit

variable (s : State) (t : Nat) (request : DpaMessage) (timeout : Int32) (err : ErrorCode)

@[simp] theorem submit_queue : (submit s t request timeout err).queue = s.queue := by
  unfold submit
  split <;> rfl

@[simp] theorem submit_count : (submit s t request timeout err).count = s.count + 1 := by
  unfold submit
  split <;> rfl

@[simp] theorem submit_functor : (submit s t request timeout err).functor = s.functor := by
  unfold submit
  split <;> rfl

@[simp] theorem submit_sent : (submit s t request timeout err).sent = s.sent := by
  unfold submit
  split <;> rfl

@[simp] theorem submit_pendingTransaction :
    (submit s t request timeout err).pendingTransaction = s.pendingTransaction := by
  unfold submit
  split <;> rfl

@[simp] theorem submit_registry : (submit s t request timeout err).registry = s.registry := by
  unfold submit
  split <;> rfl

@[simp] theorem submit_receiver : (submit s t request timeout err).receiver = s.receiver := by
  unfold submit
  split <;> rfl

@[simp] theorem submit_defaultTimeout :
    (submit s t request timeout err).defaultTimeout = s.defaultTimeout := by
  unfold submit
  split <;> rfl

theorem submit_tx : (submit s t request timeout err).tx =
    Function.update s.tx s.count (some (construct s request timeout err)) := by
  unfold submit
  split <;> rfl

theorem submit_caller : (submit s t request timeout err).caller = s.caller ∨
    (submit s t request timeout err).caller =
      Function.update s.caller t (.constructed s.count) := by
  unfold submit
  split
  · exact .inl rfl
  · exact .inr rfl

end Submit

/-! ## The queue -/

theorem noteAhead_fields (s : State) (t : Nat) :
    ∃ tx, noteAhead s t = { s with tx := tx } := by
  unfold noteAhead
  split
  · split
    · exact ⟨_, rfl⟩
    · exact ⟨_, rfl⟩
  · exact ⟨_, rfl⟩

/-- A step of the handler is a step of its queue, or leaves it alone. -/
theorem step_queue {s s' : State} {e : Event} (he : Effect s e s') :
    s'.queue = s.queue ∨ ∃ qe, TaskQueue.step s.queue qe = some s'.queue := by
  cases he with
  | submit _ => exact .inl (submit_queue _ _ _ _ _)
  | push _ hq => exact .inr ⟨.call _ _, hq⟩
  | call _ _ hq => exact .inr ⟨.call _ _, hq⟩
  | caller _ => exact .inl rfl
  | client hq => exact .inr ⟨.client _, hq⟩
  | start _ hq => exact .inr ⟨.worker, hq⟩
  | finish _ _ hq => exact .inr ⟨.worker, hq⟩
  | worker _ _ hq => exact .inr ⟨.worker, hq⟩
  | spurious hpc => exact .inr ⟨.spurious, by simp [TaskQueue.step, hpc]⟩
  | assign _ => exact .inl rfl
  | size _ _ => exact .inl rfl
  | execute _ _ _ => exact .inl rfl
  | done _ _ _ => exact .inl rfl
  | act _ _ _ _ => exact .inl rfl
  | front _ => exact .inl rfl

structure Base (s : State) : Prop where
  fresh : ∀ i, s.count ≤ i → s.tx i = none
  known : ∀ i, i < s.count → s.tx i ≠ none
  timeout : minimalTimeout ≤ s.defaultTimeout
  queue : Machine.Reachable TaskQueue.step TaskQueue.init s.queue

/-! ## One transaction -/

inductive TxEffect (s : State) (e : Event) (i : Nat) :
    Option Submission → Option Submission → Prop where
  | same {o : Option Submission} : TxEffect s e i o o
  | submit {t : Nat} {request : DpaMessage} {timeout : Int32} {err : ErrorCode} :
      e = .executeDpaTransaction t request timeout err → i = s.count →
      TxEffect s e i none (some (construct s request timeout err))
  | ahead {t : Nat} {o : Submission} : e = .client t →
      s.queue.client t = .entered (.pushToQueue i) →
      TxEffect s e i (some o) (some { o with ahead := s.queue.queue.length })
  | execute {n : Nat} {sendTo : List UInt8 → Except Exc Unit} {o : Submission}
      {x : Execution.State} : e = .functor sendTo → s.functor = .branch i n →
      Execution.step o.exec (.execute (executeCode o n)
        (sendOutcome sendTo o.exec.tr.result.request)) = some x →
      TxEffect s e i (some o) (some { o with exec := x })
  | act {ev : Execution.Event} {o : Submission} {x : Execution.State} : Acts s e i ev →
      Execution.step o.exec ev = some x → TxEffect s e i (some o) (some { o with exec := x })

theorem setTx_cases (s : State) (j i : Nat) (o : Submission) :
    (i = j ∧ (setTx s j o).tx i = some o) ∨ (i ≠ j ∧ (setTx s j o).tx i = s.tx i) := by
  by_cases hij : i = j
  · subst hij
    exact .inl ⟨rfl, by simp [setTx]⟩
  · exact .inr ⟨hij, by simp [setTx, hij]⟩

theorem step_tx {s s' : State} {e : Event} (hb : Base s) (he : Effect s e s') (i : Nat) :
    TxEffect s e i (s.tx i) (s'.tx i) := by
  cases he with
  | @submit t request timeout err _ =>
    rw [submit_tx]
    by_cases hi : i = s.count
    · subst hi
      rw [Function.update_self, hb.fresh s.count (Nat.le_refl _)]
      exact .submit rfl rfl
    · rw [Function.update_of_ne hi]
      exact .same
  | push _ _ => exact .same
  | call _ _ _ => exact .same
  | caller _ => exact .same
  | @client t q _ =>
    simp only [noteAhead]
    split
    · rename_i j hc
      split
      · exact .same
      · rename_i o ho
        rcases setTx_cases s j i { o with ahead := s.queue.queue.length } with
          ⟨rfl, hn⟩ | ⟨_, hn⟩
        · rw [hn, ho]
          exact .ahead rfl hc
        · rw [hn]
          exact .same
    · exact .same
  | start _ _ => exact .same
  | finish _ _ _ => exact .same
  | worker _ _ _ => exact .same
  | spurious _ => exact .same
  | assign _ => exact .same
  | size _ _ => exact .same
  | @execute j n sendTo o x hf ho hx =>
    rcases setTx_cases s j i { o with exec := x } with ⟨rfl, hn⟩ | ⟨_, hn⟩
    · simp only [hn, ho]
      exact .execute rfl hf hx
    · simp only [hn]
      exact .same
  | done _ _ _ => exact .same
  | @act e j ev o x _ _ ha ho hx _ =>
    rcases setTx_cases s j i { o with exec := x } with ⟨rfl, hn⟩ | ⟨_, hn⟩
    · simp only [hn, ho]
      exact .act ha hx
    · simp only [hn]
      exact .same
  | front _ => exact .same

theorem base_init : Base init where
  fresh := fun _ _ => rfl
  known := fun _ h => absurd h (Nat.not_lt_zero _)
  timeout := by decide
  queue := .refl _

theorem step_count {s s' : State} {e : Event} (he : Effect s e s') :
    s.count ≤ s'.count := by
  cases he with
  | submit _ => simp
  | @client t q _ =>
    obtain ⟨tx, htx⟩ := noteAhead_fields s t
    simp only [htx, Nat.le_refl]
  | _ => exact Nat.le_refl _

/-- A new transaction is counted. -/
theorem step_new {s s' : State} {e : Event} (he : Effect s e s') {i : Nat} (h : s.tx i = none) :
    s'.tx i = none ∨ s'.count = i + 1 := by
  have hset : ∀ {j : Nat} {o o' : Submission}, s.tx j = some o → (setTx s j o').tx i = none := by
    intro j o o' ho
    rcases setTx_cases s j i o' with ⟨rfl, _⟩ | ⟨_, hn⟩
    · rw [h] at ho
      cases ho
    · rw [hn, h]
  cases he with
  | @submit t request timeout err _ =>
    rw [submit_tx]
    by_cases hi : i = s.count
    · right
      subst hi
      exact submit_count _ _ _ _ _
    · left
      rw [Function.update_of_ne hi, h]
  | @client t q _ =>
    left
    simp only [noteAhead]
    split
    · split
      · exact h
      · exact hset ‹_›
    · exact h
  | execute _ ho _ => exact .inl (hset ho)
  | act _ ho _ _ => exact .inl (hset ho)
  | _ => exact .inl h

theorem base_step {s s' : State} {e : Event} (hb : Base s) (he : Effect s e s') : Base s' where
  fresh := by
    intro i hi
    rcases step_new he (hb.fresh i (Nat.le_trans (step_count he) hi)) with h | h
    · exact h
    · omega
  known := by
    intro i hi
    by_cases hlt : i < s.count
    · have hsome := hb.known i hlt
      have htx := step_tx hb he i
      generalize hold : s.tx i = old at htx hsome
      generalize hnew : s'.tx i = new at htx
      cases htx with
      | same => exact hsome
      | _ => exact Option.some_ne_none _
    · cases he with
      | @submit t request timeout err _ =>
        rw [submit_count] at hi
        have heq : i = s.count := by omega
        rw [submit_tx, heq, Function.update_self]
        exact Option.some_ne_none _
      | @client t q _ =>
        obtain ⟨tx, htx⟩ := noteAhead_fields s t
        simp only [htx] at hi
        exact absurd hi hlt
      | _ => exact absurd hi hlt
  timeout := by
    cases he with
    | submit _ =>
      rw [submit_defaultTimeout]
      exact hb.timeout
    | @client t q _ =>
      obtain ⟨tx, htx⟩ := noteAhead_fields s t
      rw [htx]
      exact hb.timeout
    | front hd =>
      rcases hd with rfl | hd
      · exact hb.timeout
      · exact hd
    | _ => exact hb.timeout
  queue := by
    rcases step_queue he with hq | ⟨qe, hq⟩
    · rw [hq]
      exact hb.queue
    · exact hb.queue.next hq

theorem base_reachable {s : State} (h : Machine.Reachable step init s) : Base s :=
  h.inv (fun _ _ _ hI he => base_step hI (step_effect he)) base_init

/-- A property that the constructor establishes and every step of the transaction keeps. -/
theorem tx_inv {P : Submission → Prop}
    (hnew : ∀ s request timeout err, minimalTimeout ≤ s.defaultTimeout →
      P (construct s request timeout err))
    (hahead : ∀ o n, P o → P { o with ahead := n })
    (hexec : ∀ o ev x, P o → Execution.step o.exec ev = some x → P { o with exec := x })
    {s : State} (h : Machine.Reachable step init s) {i : Nat} {o : Submission}
    (ho : s.tx i = some o) : P o := by
  have hall : Base s ∧ ∀ i o, s.tx i = some o → P o := by
    refine h.inv (I := fun s => Base s ∧ ∀ i o, s.tx i = some o → P o) ?_
      ⟨base_init, fun _ _ h0 => by cases h0⟩
    rintro s e s' ⟨hb, hP⟩ hstep
    have he := step_effect hstep
    refine ⟨base_step hb he, fun i o ho => ?_⟩
    have htx := step_tx hb he i
    rw [ho] at htx
    generalize hold : s.tx i = old at htx
    cases htx with
    | same => exact hP i o hold
    | submit _ _ => exact hnew s _ _ _ hb.timeout
    | ahead _ _ => exact hahead _ _ (hP i _ hold)
    | execute _ _ hx => exact hexec _ _ _ (hP i _ hold) hx
    | act _ hx => exact hexec _ _ _ (hP i _ hold) hx
  exact hall.2 i o ho

/-- What every transaction of a reachable handler satisfies. -/
structure TxOk (o : Submission) : Prop where
  wf : Execution.WellFormed o.exec
  timed : Execution.Timed o.exec
  request : o.exec.tr.result.request = o.request.copy
  defaultError : o.exec.pc = .idle → o.exec.tr.defaultError = o.created.defaultError
  refused : o.exec.pc ≠ .idle → o.exec.tr.defaultError ≠ trnOk → o.exec.pc = .returned

theorem txOk {s : State} (h : Machine.Reachable step init s) {i : Nat} {o : Submission}
    (ho : s.tx i = some o) : TxOk o := by
  refine tx_inv ?_ (fun _ _ h => ⟨h.wf, h.timed, h.request, h.defaultError, h.refused⟩) ?_ h ho
  · intro s request timeout err hd
    have hpos : 0 < s.defaultTimeout.toInt :=
      Int.lt_of_lt_of_le (by decide) (Int32.le_iff_toInt_le.mp hd)
    exact ⟨Execution.wellFormed_init rfl,
      Execution.timed_init (Execution.create_duration _ _ _ _ _ hpos), rfl, fun _ => rfl,
      fun hne => absurd rfl hne⟩
  · intro o ev x hok hx
    have hreq := (Execution.step_const hx).1
    have hrest : (x.pc = .idle → x.tr.defaultError = o.created.defaultError) ∧
        (x.pc ≠ .idle → x.tr.defaultError ≠ trnOk → x.pc = .returned) := by
      by_cases hev : ∃ err sent, ev = .execute err sent
      · obtain ⟨err, sent, rfl⟩ := hev
        obtain ⟨_, hne, herr⟩ := Execution.step_execute hx
        refine ⟨fun hidle => absurd hidle hne, fun _ hcode => ?_⟩
        rw [herr] at hcode
        exact (Execution.step_execute_error hcode hx).1
      · have hl := Execution.step_later (fun err sent heq => hev ⟨err, sent, heq⟩) hx
        rw [hl.defaultError]
        refine ⟨fun hidle => hok.defaultError (hl.idle.mp hidle), fun hne hcode => ?_⟩
        exact hl.returned (hok.refused (fun hidle => hne (hl.idle.mpr hidle)) hcode)
    exact ⟨Execution.wellFormed_step hok.wf hx, Execution.timed_step hok.wf hok.timed hx,
      hreq.trans hok.request, hrest.1, hrest.2⟩

end Handler
end ClibDpa
