import ClibDpa.Lib.Fifo

/-!
# ClibDpa.TaskQueue

`TaskQueue<T>` of `include/TaskQueue.h`: the worker thread and any number of threads that call
`pushToQueue`, `stopQueue`, `size` and the destructor, in any interleaving.

A step of the worker is one statement of `worker()`. `ownsLock` is the state of its `lck`; a
`lock` of an owned one, or an `unlock` of one that is not, throws `std::system_error` and ends at
`error`. The condition variable's `wait` with a predicate is its loop: test the flag (`wait`),
sleep with the mutex released (`asleep`), take it again after a notification or a spurious
wake-up (`notified`).

A call takes the mutex (event `call`), then runs its block, releases the mutex, and notifies.

`pushed` (in the order in which the pushes took the mutex), `popped` and `given` are history.

* `Inv` / `inv_step`  — the invariant and its preservation, one lemma for each kind of step.
* `refines_fifo`      — seen through `abs`, the queue is a `Fifo`.
-/

namespace ClibDpa
namespace TaskQueue

inductive Owner where
  | worker
  | client (t : Nat)
  deriving DecidableEq, Repr

inductive WorkerPc (α : Type) where
  | outer
  | lock
  | wait
  | asleep
  | notified
  | reset
  | inner
  | test
  | taken (task : α)
  | process (task : α)
  | busy (task : α)
  | relock
  | giveUp
  | exited
  | error

inductive Call (α : Type) where
  | pushToQueue (task : α)
  | stopQueue
  | size
  | destroy

/-- `returned` keeps what the last call returned. -/
inductive ClientPc (α : Type) where
  | returned (retval : Option Nat)
  | entered (c : Call α)
  | leaving (c : Call α) (retval : Option Nat)
  | notifying (c : Call α) (retval : Option Nat)
  | joining

structure State (α : Type) where
  mutex : Option Owner
  queue : List α
  taskPushed : Bool
  runWorkerThread : Bool
  pc : WorkerPc α
  ownsLock : Bool
  client : Nat → ClientPc α
  pushed : List α
  popped : List α
  given : List α

inductive Event (α : Type) where
  | worker
  | spurious
  | call (t : Nat) (c : Call α)
  | client (t : Nat)

variable {α : Type}

/-- The constructor: the worker thread is started last. -/
def init : State α :=
  { mutex := none
    queue := []
    taskPushed := false
    runWorkerThread := true
    pc := .outer
    ownsLock := false
    client := fun _ => .returned none
    pushed := []
    popped := []
    given := [] }

/-! ## The worker -/

/-- `lck.lock()`, then on to `next`. -/
def lckLock (s : State α) (next : WorkerPc α) : Option (State α) :=
  if s.ownsLock then some { s with pc := .error }
  else if s.mutex = none then
    some { s with mutex := some .worker, ownsLock := true, pc := next }
  else none

/-- `lck.unlock()`, then on to `next`. -/
def lckUnlock (s : State α) (next : WorkerPc α) : State α :=
  if s.ownsLock then { s with mutex := none, ownsLock := false, pc := next }
  else { s with pc := .error }

def workerStep (s : State α) : Option (State α) :=
  match s.pc with
  | .outer =>
    if s.runWorkerThread then some { s with pc := .lock }
    else if s.ownsLock then some (lckUnlock s .exited)  -- the destructor of `lck`
    else some { s with pc := .exited }
  | .lock => lckLock s .wait
  | .wait => if s.taskPushed then some { s with pc := .reset } else some (lckUnlock s .asleep)
  | .asleep => none
  | .notified => lckLock s .wait
  | .reset => some { s with taskPushed := false, pc := .inner }
  | .inner => some { s with pc := if s.runWorkerThread then .test else .outer }
  | .test =>
    match s.queue with
    | [] => some { s with pc := .giveUp }
    | task :: rest =>
      some { s with queue := rest, popped := s.popped ++ [task], pc := .taken task }
  | .taken task => some (lckUnlock s (.process task))
  | .process task => some { s with given := s.given ++ [task], pc := .busy task }
  | .busy _ => some { s with pc := .relock }
  | .relock => lckLock s .inner
  | .giveUp => some (lckUnlock s .outer)
  | .exited => none
  | .error => none

/-- A sleeping worker leaves its wait. -/
def wakeUp (s : State α) : State α :=
  match s.pc with
  | .asleep => { s with pc := .notified }
  | _ => s

/-! ## The callers -/

def setClient (s : State α) (t : Nat) (pc : ClientPc α) : State α :=
  { s with client := Function.update s.client t pc }

/-- The block under the lock, with the value it computes. -/
def body (s : State α) : Call α → State α × Option Nat
  | .pushToQueue task =>
    ({ s with queue := s.queue ++ [task], taskPushed := true }, some (s.queue ++ [task]).length)
  | .stopQueue | .destroy => ({ s with runWorkerThread := false, taskPushed := true }, none)
  | .size => (s, some s.queue.length)

/-- What the call adds to the history of pushes. -/
def Call.pushes : Call α → List α
  | .pushToQueue task => [task]
  | _ => []

def Call.stops : Call α → Bool
  | .stopQueue | .destroy => true
  | _ => false

def Call.notifies : Call α → Bool
  | .size => false
  | _ => true

def callStep (s : State α) (t : Nat) (c : Call α) : Option (State α) :=
  match s.client t, s.mutex with
  | .returned _, none =>
    some { setClient s t (.entered c) with
      mutex := some (.client t)
      pushed := s.pushed ++ c.pushes }
  | _, _ => none

def clientStep (s : State α) (t : Nat) : Option (State α) :=
  match s.client t with
  | .returned _ => none
  | .entered c => some (setClient (body s c).1 t (.leaving c (body s c).2))
  | .leaving c retval =>
    some { setClient s t (if c.notifies then .notifying c retval else .returned retval) with
      mutex := none }
  | .notifying c retval =>
    some (setClient (wakeUp s) t
      (match c with
        | .destroy => .joining
        | _ => .returned retval))
  | .joining =>
    match s.pc with
    | .exited => some (setClient s t (.returned none))
    | _ => none

def step (s : State α) : Event α → Option (State α)
  | .worker => workerStep s
  | .spurious =>
    match s.pc with
    | .asleep => some (wakeUp s)
    | _ => none
  | .call t c => callStep s t c
  | .client t => clientStep s t

/-! ## The invariant -/

/-- The thread holds the mutex. -/
def ClientPc.holds : ClientPc α → Bool
  | .entered _ | .leaving _ _ => true
  | _ => false

/-- The thread is still to notify, after its block set the flag. -/
def ClientPc.willNotify : ClientPc α → Bool
  | .leaving c _ => c.notifies
  | .notifying _ _ => true
  | _ => false

/-- The flag stands for the tasks that the worker has not looked at. -/
def FlagSet (s : State α) : Prop := s.queue ≠ [] → s.taskPushed = true

/-- What holds at each position of the worker. -/
def AtPc (s : State α) : WorkerPc α → Prop
  | .outer => (s.ownsLock = true → s.runWorkerThread = false) ∧ (s.ownsLock = false → FlagSet s)
  | .lock => s.ownsLock = false ∧ FlagSet s
  | .wait => s.ownsLock = true ∧ FlagSet s
  | .asleep => s.ownsLock = false ∧ FlagSet s ∧
      (s.taskPushed = true → ∃ t, (s.client t).willNotify = true)
  | .notified => s.ownsLock = false ∧ FlagSet s
  | .reset => s.ownsLock = true
  | .inner => s.ownsLock = true
  | .test => s.ownsLock = true ∧ s.runWorkerThread = true
  | .taken _ => s.ownsLock = true
  | .process _ => s.ownsLock = false
  | .busy _ => s.ownsLock = false
  | .relock => s.ownsLock = false
  | .giveUp => s.ownsLock = true ∧ s.queue = []
  | .exited => s.ownsLock = false
  | .error => False

/-- Between its removal from the queue and the call, the task is in the worker's hands. -/
def inHand : WorkerPc α → List α
  | .taken task | .process task => [task]
  | _ => []

structure Inv (s : State α) : Prop where
  worker : s.mutex = some .worker ↔ s.ownsLock = true
  client : ∀ t, s.mutex = some (.client t) ↔ (s.client t).holds = true
  atPc : AtPc s s.pc
  given : s.popped = s.given ++ inHand s.pc

theorem inv_init : Inv (init : State α) where
  worker := by simp [init]
  client := by simp [init, ClientPc.holds]
  atPc := ⟨nofun, fun _ h => absurd rfl h⟩
  given := rfl

section Steps

variable {s s' : State α}

/-- While the worker owns the lock, no other thread is in its block. -/
theorem Inv.client_out (h : Inv s) (ho : s.ownsLock = true) (t : Nat) :
    (s.client t).holds = false := by
  rw [Bool.eq_false_iff]
  intro hc
  have hw := h.worker.mpr ho
  rw [(h.client t).mpr hc] at hw
  cases hw

theorem Inv.lckUnlock (h : Inv s) (next : WorkerPc α) (ho : s.ownsLock = true)
    (hat : AtPc { s with mutex := none, ownsLock := false, pc := next } next)
    (hhand : inHand next = inHand s.pc) : Inv (lckUnlock s next) := by
  have hout := h.client_out ho
  simp only [TaskQueue.lckUnlock, if_pos ho]
  exact ⟨by simp, fun t => by simp [hout t], hat, by rw [hhand]; exact h.given⟩

theorem Inv.lckLock (h : Inv s) (next : WorkerPc α) (ho : s.ownsLock = false)
    (hat : AtPc { s with mutex := some .worker, ownsLock := true, pc := next } next)
    (hhand : inHand next = inHand s.pc) (he : lckLock s next = some s') : Inv s' := by
  simp only [TaskQueue.lckLock, ho, Bool.false_eq_true, if_false] at he
  split at he
  · rename_i hfree
    cases he
    refine ⟨by simp, fun t => ?_, hat, by rw [hhand]; exact h.given⟩
    have hout : (s.client t).holds = false := by
      rw [Bool.eq_false_iff]
      intro hc
      have := (h.client t).mpr hc
      rw [hfree] at this
      cases this
    simp [hout]
  · cases he

theorem inv_worker (h : Inv s) (he : workerStep s = some s') : Inv s' := by
  have hat := h.atPc
  have hgiven := h.given
  unfold workerStep at he
  cases hpc : s.pc with
  | outer =>
    rw [hpc] at he hat hgiven
    obtain ⟨hstop, hflag⟩ := hat
    simp only at he
    split at he
    · rename_i hrun
      cases he
      have ho : s.ownsLock = false := by
        rw [Bool.eq_false_iff]
        intro ho
        rw [hstop ho] at hrun
        cases hrun
      exact ⟨h.worker, h.client, ⟨ho, hflag ho⟩, hgiven⟩
    · split at he
      · rename_i ho
        cases he
        exact h.lckUnlock .exited ho rfl (by rw [hpc]; rfl)
      · rename_i ho
        cases he
        exact ⟨h.worker, h.client, Bool.eq_false_iff.mpr ho, hgiven⟩
  | lock =>
    rw [hpc] at he hat
    exact h.lckLock .wait hat.1 ⟨rfl, hat.2⟩ (by rw [hpc]; rfl) he
  | wait =>
    rw [hpc] at he hat hgiven
    simp only at he
    split at he
    · cases he
      exact ⟨h.worker, h.client, hat.1, hgiven⟩
    · rename_i hflag
      cases he
      exact h.lckUnlock .asleep hat.1 ⟨rfl, hat.2, fun hset => absurd hset hflag⟩ (by rw [hpc]; rfl)
  | asleep => rw [hpc] at he; cases he
  | notified =>
    rw [hpc] at he hat
    exact h.lckLock .wait hat.1 ⟨rfl, hat.2⟩ (by rw [hpc]; rfl) he
  | reset =>
    rw [hpc] at he hat hgiven
    cases he
    exact ⟨h.worker, h.client, hat, hgiven⟩
  | inner =>
    rw [hpc] at he hat hgiven
    have ho : s.ownsLock = true := hat
    by_cases hrun : s.runWorkerThread = true
    · simp only [if_pos hrun] at he
      cases he
      exact ⟨h.worker, h.client, ⟨ho, hrun⟩, hgiven⟩
    · simp only [if_neg hrun] at he
      cases he
      refine ⟨h.worker, h.client, ⟨fun _ => Bool.eq_false_iff.mpr hrun, fun hn => ?_⟩, hgiven⟩
      rw [ho] at hn
      cases hn
  | test =>
    rw [hpc] at he hat hgiven
    simp only at he
    split at he
    · rename_i hq
      cases he
      exact ⟨h.worker, h.client, ⟨hat.1, hq⟩, hgiven⟩
    · cases he
      refine ⟨h.worker, h.client, hat.1, ?_⟩
      simpa [inHand] using hgiven
  | taken task =>
    rw [hpc] at he hat
    cases he
    exact h.lckUnlock (.process task) hat rfl (by rw [hpc]; rfl)
  | process task =>
    rw [hpc] at he hat hgiven
    cases he
    refine ⟨h.worker, h.client, hat, ?_⟩
    simpa [inHand] using hgiven
  | busy task =>
    rw [hpc] at he hat hgiven
    cases he
    exact ⟨h.worker, h.client, hat, hgiven⟩
  | relock =>
    rw [hpc] at he hat
    exact h.lckLock .inner hat rfl (by rw [hpc]; rfl) he
  | giveUp =>
    rw [hpc] at he hat
    cases he
    exact h.lckUnlock .outer hat.1 ⟨nofun, fun _ hq => absurd hat.2 hq⟩
      (by rw [hpc]; rfl)
  | exited => rw [hpc] at he; cases he
  | error => rw [hpc] at he; cases he

theorem inv_spurious (h : Inv s) : Inv (wakeUp s) := by
  have hat := h.atPc
  have hgiven := h.given
  unfold wakeUp
  cases hpc : s.pc with
  | asleep =>
    rw [hpc] at hat hgiven
    exact ⟨h.worker, h.client, ⟨hat.1, hat.2.1⟩, hgiven⟩
  | _ => exact h

/-- A step of another thread keeps what holds at the worker's position. -/
theorem AtPc.frame {pc : WorkerPc α} (h : AtPc s pc) (hown : s'.ownsLock = s.ownsLock)
    (hlocked : s.ownsLock = true →
      s'.queue = s.queue ∧ s'.runWorkerThread = s.runWorkerThread)
    (hrun : s.runWorkerThread = false → s'.runWorkerThread = false)
    (hflag : FlagSet s → FlagSet s')
    (hnotify : pc = .asleep → (s.taskPushed = true → ∃ t, (s.client t).willNotify = true) →
      s'.taskPushed = true → ∃ t, (s'.client t).willNotify = true) : AtPc s' pc := by
  cases pc with
  | outer => exact ⟨fun ho => hrun (h.1 (hown ▸ ho)), fun ho => hflag (h.2 (hown ▸ ho))⟩
  | lock => exact ⟨hown.trans h.1, hflag h.2⟩
  | wait => exact ⟨hown.trans h.1, hflag h.2⟩
  | asleep => exact ⟨hown.trans h.1, hflag h.2.1, hnotify rfl h.2.2⟩
  | notified => exact ⟨hown.trans h.1, hflag h.2⟩
  | test => exact ⟨hown.trans h.1, (hlocked h.1).2.trans h.2⟩
  | giveUp => exact ⟨hown.trans h.1, (hlocked h.1).1.trans h.2⟩
  | error => exact h
  | reset => exact hown.trans h
  | inner => exact hown.trans h
  | taken _ => exact hown.trans h
  | process _ => exact hown.trans h
  | busy _ => exact hown.trans h
  | relock => exact hown.trans h
  | exited => exact hown.trans h

/-- A thread that was to notify is still to notify, if `t` was not or is. -/
theorem willNotify_update {t : Nat} {pc : ClientPc α}
    (ht : (s.client t).willNotify = true → pc.willNotify = true)
    (h : ∃ t', (s.client t').willNotify = true) :
    ∃ t', (Function.update s.client t pc t').willNotify = true := by
  obtain ⟨t', ht'⟩ := h
  by_cases heq : t' = t
  · subst heq
    exact ⟨t', by simpa using ht ht'⟩
  · exact ⟨t', by simpa [heq] using ht'⟩

/-- The positions that hold the mutex, after a step of thread `t`. -/
theorem Inv.client_update {t : Nat} {pc : ClientPc α} {mutex : Option Owner} (h : Inv s)
    (hother : ∀ t', t' ≠ t → (mutex = some (.client t') ↔ s.mutex = some (.client t')))
    (ht : mutex = some (.client t) ↔ pc.holds = true) (t' : Nat) :
    mutex = some (.client t') ↔ (Function.update s.client t pc t').holds = true := by
  by_cases heq : t' = t
  · subst heq
    simpa using ht
  · rw [Function.update_of_ne heq, hother t' heq]
    exact h.client t'

/-- While a thread holds the mutex, the worker does not. -/
theorem Inv.worker_out (h : Inv s) (hm : s.mutex ≠ some .worker) : s.ownsLock = false := by
  rw [Bool.eq_false_iff]
  exact fun ho => hm (h.worker.mpr ho)

theorem inv_call (h : Inv s) {t : Nat} {c : Call α} (he : callStep s t c = some s') : Inv s' := by
  unfold callStep at he
  split at he
  · rename_i retval hidle hfree
    cases he
    have ho := h.worker_out (by rw [hfree]; nofun)
    refine ⟨?_, h.client_update ?_ ?_, ?_, h.given⟩
    · simp [setClient, ho]
    · intro t' ht'
      simpa [hfree] using Ne.symm ht'
    · simp [ClientPc.holds]
    · refine h.atPc.frame rfl (fun _ => ⟨rfl, rfl⟩) id id fun _ hn hf => ?_
      exact willNotify_update (by rw [hidle]; nofun) (hn hf)
  · cases he

/-- The block of a call runs while the worker is out, and sets the flag with whatever it
changes. -/
theorem inv_body (h : Inv s) {t : Nat} {c : Call α} (hc : s.client t = .entered c) :
    Inv (setClient (body s c).1 t (.leaving c (body s c).2)) := by
  have hm : s.mutex = some (.client t) := (h.client t).mpr (by rw [hc]; rfl)
  have ho := h.worker_out (by rw [hm]; nofun)
  have hclient : ∀ retval t', s.mutex = some (.client t') ↔
      (Function.update s.client t (.leaving c retval) t').holds = true :=
    fun retval => h.client_update (fun _ _ => Iff.rfl) (by simp [hm, ClientPc.holds])
  have hlocked : s.ownsLock = true → False := by
    rw [ho]
    nofun
  cases c with
  | pushToQueue task =>
    refine ⟨h.worker, hclient _, ?_, h.given⟩
    exact h.atPc.frame rfl (fun h' => (hlocked h').elim) id (fun _ _ => rfl)
      fun _ _ _ => ⟨t, by simp [setClient, body, ClientPc.willNotify, Call.notifies]⟩
  | stopQueue =>
    refine ⟨h.worker, hclient _, ?_, h.given⟩
    exact h.atPc.frame rfl (fun h' => (hlocked h').elim) (fun _ => rfl) (fun _ _ => rfl)
      fun _ _ _ => ⟨t, by simp [setClient, body, ClientPc.willNotify, Call.notifies]⟩
  | destroy =>
    refine ⟨h.worker, hclient _, ?_, h.given⟩
    exact h.atPc.frame rfl (fun h' => (hlocked h').elim) (fun _ => rfl) (fun _ _ => rfl)
      fun _ _ _ => ⟨t, by simp [setClient, body, ClientPc.willNotify, Call.notifies]⟩
  | size =>
    refine ⟨h.worker, hclient _, ?_, h.given⟩
    refine h.atPc.frame rfl (fun _ => ⟨rfl, rfl⟩) id id fun _ hn hf => ?_
    refine willNotify_update (fun hw => ?_) (hn hf)
    rw [show (body s (.size : Call α)).1.client t = _ from hc] at hw
    cases hw

theorem inv_client (h : Inv s) {t : Nat} (he : clientStep s t = some s') : Inv s' := by
  unfold clientStep at he
  cases hc : s.client t with
  | returned retval => rw [hc] at he; cases he
  | entered c =>
    rw [hc] at he
    cases he
    exact inv_body h hc
  | leaving c retval =>
    rw [hc] at he
    cases he
    have hm : s.mutex = some (.client t) := (h.client t).mpr (by rw [hc]; rfl)
    have ho := h.worker_out (by rw [hm]; nofun)
    refine ⟨by simp [setClient, ho], h.client_update ?_ ?_, ?_, h.given⟩
    · intro t' ht'
      simpa [hm] using Ne.symm ht'
    · cases c <;> simp [Call.notifies, ClientPc.holds]
    · refine h.atPc.frame rfl (fun _ => ⟨rfl, rfl⟩) id id fun _ hn hf => ?_
      refine willNotify_update (fun hw => ?_) (hn hf)
      rw [hc] at hw
      rw [if_pos (show c.notifies = true from hw)]
      rfl
  | notifying c retval =>
    rw [hc] at he
    cases he
    have hw := inv_spurious h
    have hm : s.mutex ≠ some (.client t) := fun hm => by
      have := (h.client t).mp hm
      rw [hc] at this
      cases this
    have hmw : (wakeUp s).mutex = s.mutex := by unfold wakeUp; split <;> rfl
    have hawake : (wakeUp s).pc ≠ .asleep := by
      unfold wakeUp
      split
      · nofun
      · assumption
    refine ⟨hw.worker, hw.client_update (fun _ _ => Iff.rfl) ?_, ?_, hw.given⟩
    · rw [show (setClient (wakeUp s) t _).mutex = s.mutex from hmw]
      cases c <;> simp [hm, ClientPc.holds]
    · exact hw.atPc.frame rfl (fun _ => ⟨rfl, rfl⟩) id id fun hpc => absurd hpc hawake
  | joining =>
    rw [hc] at he
    simp only at he
    split at he
    · rename_i hpc
      cases he
      refine ⟨h.worker, h.client_update (fun _ _ => Iff.rfl) ?_, ?_, h.given⟩
      · rw [show (setClient s t _).mutex = s.mutex from rfl, h.client t, hc]
        simp [ClientPc.holds]
      · refine h.atPc.frame rfl (fun _ => ⟨rfl, rfl⟩) id id fun _ hn hf => ?_
        exact willNotify_update (by rw [hc]; nofun) (hn hf)
    · cases he

theorem inv_step {e : Event α} (h : Inv s) (he : step s e = some s') : Inv s' := by
  cases e with
  | worker => exact inv_worker h he
  | spurious =>
    simp only [step] at he
    split at he
    · cases he
      exact inv_spurious h
    · cases he
  | call t c => exact inv_call h he
  | client t => exact inv_client h he

end Steps

/-! ## What a step leaves alone -/

section Frame

variable {s s' : State α}

theorem workerStep_frame (he : workerStep s = some s') :
    s'.client = s.client ∧ s'.runWorkerThread = s.runWorkerThread ∧ s'.pushed = s.pushed := by
  unfold workerStep lckLock lckUnlock at he
  split at he <;> (repeat' split at he) <;> cases he <;> exact ⟨rfl, rfl, rfl⟩

theorem workerStep_process {task : α} (hpc : s.pc = .process task) (he : workerStep s = some s') :
    s' = { s with given := s.given ++ [task], pc := .busy task } := by
  unfold workerStep at he
  rw [hpc] at he
  exact (Option.some.inj he).symm

theorem workerStep_busy {task : α} (hpc : s.pc = .busy task) (he : workerStep s = some s') :
    s' = { s with pc := .relock } := by
  unfold workerStep at he
  rw [hpc] at he
  exact (Option.some.inj he).symm

/-- Outside the processing function the worker gives nothing to it. -/
theorem workerStep_other (hproc : ∀ task, s.pc ≠ .process task) (hbusy : ∀ task, s.pc ≠ .busy task)
    (he : workerStep s = some s') : s'.given = s.given ∧ ∀ task, s'.pc ≠ .busy task := by
  unfold workerStep lckLock lckUnlock at he
  split at he
  case h_10 task hpc => exact absurd hpc (hproc task)
  case h_11 task hpc => exact absurd hpc (hbusy task)
  all_goals (repeat' split at he) <;> cases he <;> exact ⟨rfl, nofun⟩

theorem callStep_frame {t : Nat} {c : Call α} (he : callStep s t c = some s') :
    s'.pc = s.pc ∧ s'.given = s.given ∧ s'.queue = s.queue ∧ s'.pushed = s.pushed ++ c.pushes := by
  unfold callStep at he
  split at he
  · cases he
    exact ⟨rfl, rfl, rfl, rfl⟩
  · cases he

theorem wakeUp_busy (s : State α) (task : α) : (wakeUp s).pc = .busy task ↔ s.pc = .busy task := by
  unfold wakeUp
  split
  · rename_i hpc
    simp [hpc]
  · exact Iff.rfl

theorem wakeUp_frame (s : State α) : (wakeUp s).given = s.given ∧ (wakeUp s).pushed = s.pushed ∧
    (wakeUp s).queue = s.queue := by
  unfold wakeUp
  split <;> exact ⟨rfl, rfl, rfl⟩

theorem body_frame (s : State α) (c : Call α) :
    (body s c).1.pc = s.pc ∧ (body s c).1.given = s.given ∧ (body s c).1.pushed = s.pushed := by
  cases c <;> exact ⟨rfl, rfl, rfl⟩

theorem clientStep_frame {t : Nat} (he : clientStep s t = some s') :
    (∀ task, s'.pc = .busy task ↔ s.pc = .busy task) ∧ s'.given = s.given ∧
      s'.pushed = s.pushed := by
  unfold clientStep at he
  split at he
  · cases he
  · rename_i c _
    cases he
    obtain ⟨hpc, hgiven, hpushed⟩ := body_frame s c
    exact ⟨fun task => by rw [← hpc]; exact Iff.rfl, hgiven, hpushed⟩
  · cases he
    exact ⟨fun _ => Iff.rfl, rfl, rfl⟩
  · cases he
    obtain ⟨hgiven, hpushed, _⟩ := wakeUp_frame s
    exact ⟨wakeUp_busy s, hgiven, hpushed⟩
  · split at he
    · cases he
      exact ⟨fun _ => Iff.rfl, rfl, rfl⟩
    · cases he

theorem workerStep_queue (he : workerStep s = some s') : s'.queue.length ≤ s.queue.length := by
  unfold workerStep lckLock lckUnlock at he
  split at he <;> (repeat' split at he) <;> cases he <;> first | exact Nat.le_refl _ | skip
  rename_i hq
  rw [hq]
  exact Nat.le_succ _

/-- Only the block of a push makes the queue longer. -/
theorem clientStep_queue {t : Nat} (he : clientStep s t = some s') :
    s'.queue = s.queue ∨
      ∃ task, s.client t = .entered (.pushToQueue task) ∧ s'.queue = s.queue ++ [task] := by
  unfold clientStep at he
  split at he
  · cases he
  · rename_i c hc
    cases he
    cases c with
    | pushToQueue task => exact .inr ⟨task, hc, rfl⟩
    | _ => exact .inl rfl
  · cases he
    exact .inl rfl
  · cases he
    exact .inl (wakeUp_frame s).2.2
  · split at he
    · cases he
      exact .inl rfl
    · cases he

end Frame

/-! ## The queue is a FIFO -/

/-- The task of a push that has taken the mutex and not yet run its block. -/
def ClientPc.inFlight : ClientPc α → List α
  | .entered (.pushToQueue task) => [task]
  | _ => []

def inFlight (mutex : Option Owner) (client : Nat → ClientPc α) : List α :=
  match mutex with
  | some (.client t) => (client t).inFlight
  | _ => []

def abs (s : State α) : Fifo α :=
  { put := s.pushed
    taken := s.popped
    waiting := s.queue ++ inFlight s.mutex s.client
    closed := !s.runWorkerThread }

@[simp] theorem inFlight_none (client : Nat → ClientPc α) : inFlight none client = [] := rfl
@[simp] theorem inFlight_worker (client : Nat → ClientPc α) :
    inFlight (some .worker) client = [] := rfl
@[simp] theorem inFlight_client (t : Nat) (client : Nat → ClientPc α) :
    inFlight (some (.client t)) client = (client t).inFlight := rfl

/-- A thread without the mutex is not the one in flight. -/
theorem inFlight_update {mutex : Option Owner} {client : Nat → ClientPc α} {t : Nat}
    (h : mutex ≠ some (.client t)) (pc : ClientPc α) :
    inFlight mutex (Function.update client t pc) = inFlight mutex client := by
  match mutex with
  | none => rfl
  | some .worker => rfl
  | some (.client t') =>
    have hne : t' ≠ t := fun heq => h (by rw [heq])
    simp [hne]

section Refinement

variable {s s' : State α}

theorem abs_lckLock {next : WorkerPc α} (he : lckLock s next = some s') : abs s' = abs s := by
  unfold lckLock at he
  split at he
  · cases he
    rfl
  · split at he
    · rename_i hfree
      cases he
      simp [abs, hfree]
    · cases he

theorem abs_lckUnlock {next : WorkerPc α} (h : Inv s) : abs (lckUnlock s next) = abs s := by
  unfold lckUnlock
  split
  · rename_i ho
    simp [abs, h.worker.mpr ho]
  · rfl

/-- Only the removal at `test` is visible. -/
theorem abs_worker (h : Inv s) (he : workerStep s = some s') :
    abs s' = abs s ∨ Fifo.step (abs s) .take = some (abs s') := by
  have hat := h.atPc
  unfold workerStep at he
  cases hpc : s.pc with
  | outer =>
    rw [hpc] at he
    simp only at he
    split at he
    · cases he; exact .inl rfl
    · split at he
      · cases he; exact .inl (abs_lckUnlock h)
      · cases he; exact .inl rfl
  | lock => rw [hpc] at he; exact .inl (abs_lckLock he)
  | wait =>
    rw [hpc] at he
    simp only at he
    split at he
    · cases he; exact .inl rfl
    · cases he; exact .inl (abs_lckUnlock h)
  | asleep => rw [hpc] at he; cases he
  | notified => rw [hpc] at he; exact .inl (abs_lckLock he)
  | reset => rw [hpc] at he; cases he; exact .inl rfl
  | inner => rw [hpc] at he; cases he; exact .inl rfl
  | test =>
    rw [hpc] at he hat
    obtain ⟨ho, hrun⟩ := hat
    have hm := h.worker.mpr ho
    simp only at he
    split at he
    · cases he; exact .inl rfl
    · rename_i task rest hq
      cases he
      right
      simp [abs, Fifo.step, hm, hq, hrun]
  | taken task => rw [hpc] at he; cases he; exact .inl (abs_lckUnlock h)
  | process task => rw [hpc] at he; cases he; exact .inl rfl
  | busy task => rw [hpc] at he; cases he; exact .inl rfl
  | relock => rw [hpc] at he; exact .inl (abs_lckLock he)
  | giveUp => rw [hpc] at he; cases he; exact .inl (abs_lckUnlock h)
  | exited => rw [hpc] at he; cases he
  | error => rw [hpc] at he; cases he

/-- A push is put when it takes the mutex. -/
theorem abs_call {t : Nat} {c : Call α} (he : callStep s t c = some s') :
    abs s' = abs s ∨ ∃ task, Fifo.step (abs s) (.put task) = some (abs s') := by
  unfold callStep at he
  split at he
  · rename_i hfree
    cases he
    cases c with
    | pushToQueue task =>
      refine .inr ⟨task, ?_⟩
      simp [abs, Fifo.step, hfree, setClient, ClientPc.inFlight, Call.pushes]
    | stopQueue => left; simp [abs, hfree, setClient, ClientPc.inFlight, Call.pushes]
    | size => left; simp [abs, hfree, setClient, ClientPc.inFlight, Call.pushes]
    | destroy => left; simp [abs, hfree, setClient, ClientPc.inFlight, Call.pushes]
  · cases he

theorem abs_wakeUp (s : State α) : abs (wakeUp s) = abs s := by
  unfold wakeUp
  split <;> rfl

theorem abs_setClient {t : Nat} (h : s.mutex ≠ some (.client t)) (pc : ClientPc α) :
    abs (setClient s t pc) = abs s := by
  simp only [abs, setClient, inFlight_update h]

theorem abs_client {t : Nat} (h : Inv s) (he : clientStep s t = some s') :
    abs s' = abs s ∨ Fifo.step (abs s) .close = some (abs s') := by
  unfold clientStep at he
  have hheld := h.client t
  cases hc : s.client t with
  | returned retval => rw [hc] at he; cases he
  | entered c =>
    rw [hc] at he hheld
    cases he
    have hm := hheld.mpr rfl
    cases c with
    | pushToQueue task => left; simp [abs, body, setClient, hm, hc, ClientPc.inFlight]
    | stopQueue => right; simp [abs, body, setClient, hm, hc, ClientPc.inFlight, Fifo.step]
    | size => left; simp [abs, body, setClient, hm, hc, ClientPc.inFlight]
    | destroy => right; simp [abs, body, setClient, hm, hc, ClientPc.inFlight, Fifo.step]
  | leaving c retval =>
    rw [hc] at he hheld
    cases he
    have hm := hheld.mpr rfl
    left
    simp [abs, setClient, hm, hc, ClientPc.inFlight]
  | notifying c retval =>
    rw [hc] at he hheld
    cases he
    left
    rw [abs_setClient, abs_wakeUp]
    intro hm
    have hmw : (wakeUp s).mutex = s.mutex := by unfold wakeUp; split <;> rfl
    exact Bool.noConfusion (hheld.mp (hmw ▸ hm))
  | joining =>
    rw [hc] at he hheld
    simp only at he
    split at he
    · cases he
      left
      exact abs_setClient (fun hm => Bool.noConfusion (hheld.mp hm)) _
    · cases he

/-- The queue is a FIFO that `stopQueue` closes. -/
theorem refines_fifo : Fifo.Refines (step (α := α)) Inv abs where
  sim := by
    rintro s e s' q ⟨h, rfl⟩ he
    have hinv := inv_step h he
    suffices hs : abs s' = abs s ∨ ∃ f, Fifo.step (abs s) f = some (abs s') by
      rcases hs with hs | ⟨f, hf⟩
      · exact ⟨[], abs s, rfl, hinv, hs.symm⟩
      · exact ⟨[f], abs s', by rw [Machine.exec_single, hf], hinv, rfl⟩
    cases e with
    | worker => exact (abs_worker h he).imp_right fun hf => ⟨_, hf⟩
    | spurious =>
      simp only [step] at he
      split at he
      · cases he
        exact .inl (abs_wakeUp s)
      · cases he
    | call t c => exact (abs_call he).imp_right fun ⟨task, hf⟩ => ⟨_, hf⟩
    | client t => exact (abs_client h he).imp_right fun hf => ⟨_, hf⟩

end Refinement

/-! ## Every run -/

/-- The worker is blocked in its wait, or on its way into it. -/
def waits (s : State α) : Bool :=
  match s.pc with
  | .outer => s.runWorkerThread
  | .lock | .wait | .asleep | .notified => true
  | _ => false

/-- The worker is about to lock `lck`. -/
def locks (s : State α) : Bool :=
  match s.pc with
  | .lock | .notified | .relock => true
  | _ => false

theorem inv_reachable {s : State α} (h : Machine.Reachable step init s) : Inv s :=
  h.inv (fun _ _ _ hI he => inv_step hI he) inv_init

/-- Tasks are given out in the order of their pushes, none lost or repeated. -/
theorem given_prefix {s : State α} (h : Machine.Reachable step init s) :
    s.given <+: s.popped ∧ s.popped <+: s.pushed :=
  ⟨⟨_, (inv_reachable h).given.symm⟩,
    (refines_fifo.ordered inv_init Fifo.ordered_empty h).taken_prefix_put⟩

/-- The worker does not sleep on work: the flag is set, and someone is still to notify. -/
theorem no_lost_wakeup {s : State α} (h : Machine.Reachable step init s) :
    (waits s = true → s.queue ≠ [] → s.taskPushed = true) ∧
    (s.pc = .asleep → s.taskPushed = true → ∃ t, (s.client t).willNotify = true) := by
  have hat := (inv_reachable h).atPc
  constructor
  · intro hw
    unfold waits at hw
    cases hpc : s.pc <;> rw [hpc] at hat hw <;> try cases hw
    · -- a worker that still runs has left its inner loop unlocked
      apply hat.2
      rw [Bool.eq_false_iff]
      intro ho
      rw [hat.1 ho] at hw
      cases hw
    · exact hat.2
    · exact hat.2
    · exact hat.2.1
    · exact hat.2
  · intro hpc
    rw [hpc] at hat
    exact hat.2.2

/-- The thread is past the block of a call that stops the queue, with the mutex held. -/
def ClientPc.hasStopped : ClientPc α → Bool
  | .leaving c _ => c.stops
  | _ => false

def Stopped (s : State α) : Prop :=
  ∀ t, (s.client t).hasStopped = true → s.runWorkerThread = false

theorem Stopped.update {s s' : State α} {t : Nat} (pc : ClientPc α) (h : Stopped s)
    (hclient : s'.client = Function.update s.client t pc)
    (hrun : s.runWorkerThread = false → s'.runWorkerThread = false)
    (ht : pc.hasStopped = true → s'.runWorkerThread = false) : Stopped s' := by
  intro t' hs
  rw [hclient] at hs
  by_cases heq : t' = t
  · subst heq
    exact ht (by simpa using hs)
  · rw [Function.update_of_ne heq] at hs
    exact hrun (h t' hs)

theorem stopped_step {s s' : State α} {e : Event α} (h : Stopped s) (he : step s e = some s') :
    Stopped s' := by
  have hwake : Stopped (wakeUp s) := by unfold wakeUp; split <;> exact h
  cases e with
  | worker =>
    obtain ⟨hclient, hrun, _⟩ := workerStep_frame he
    unfold Stopped
    rw [hclient, hrun]
    exact h
  | spurious =>
    simp only [step] at he
    split at he
    · cases he
      exact hwake
    · cases he
  | call t c =>
    simp only [step, callStep] at he
    split at he
    · cases he
      exact h.update (.entered c) rfl id nofun
    · cases he
  | client t =>
    simp only [step, clientStep] at he
    split at he
    · cases he
    · rename_i c _
      cases he
      cases c with
      | pushToQueue task => exact h.update (.leaving (.pushToQueue task) _) rfl id nofun
      | stopQueue => exact h.update (.leaving .stopQueue _) rfl (fun _ => rfl) fun _ => rfl
      | size => exact h.update (.leaving .size _) rfl id nofun
      | destroy => exact h.update (.leaving .destroy _) rfl (fun _ => rfl) fun _ => rfl
    · rename_i c retval _
      cases he
      refine h.update _ rfl id fun hs => ?_
      split at hs <;> cases hs
    · rename_i c retval _
      cases he
      refine hwake.update _ rfl id fun hs => ?_
      split at hs <;> cases hs
    · split at he
      · cases he
        exact h.update (.returned none) rfl id nofun
      · cases he

/-- Once `stopQueue()` (or the destructor) has released the mutex, nothing is popped. -/
theorem popped_of_stopped {s s' s'' : State α} {t : Nat} {c : Call α} {retval : Option Nat}
    (h : Machine.Reachable step init s) (hc : s.client t = .leaving c retval)
    (hstop : c.stops = true) (he : step s (.client t) = some s')
    (hr : Machine.Reachable step s' s'') : s''.popped = s'.popped := by
  have hstopped : Stopped s :=
    h.inv (fun _ _ _ hI hstep => stopped_step hI hstep) fun _ hs => by cases hs
  have hrun : s.runWorkerThread = false := hstopped t (by rw [hc]; exact hstop)
  have hclosed : (abs s').closed = true := by
    simp only [step, clientStep, hc, Option.some.injEq] at he
    subst he
    simp [abs, setClient, hrun]
  exact refines_fifo.closed (inv_reachable (h.next he)) hclosed hr

/-- `lck` is never locked while it owns the mutex. -/
theorem never_relocked {s : State α} (h : Machine.Reachable step init s) :
    (locks s = true → s.ownsLock = false) ∧ s.pc ≠ .error := by
  have hat := (inv_reachable h).atPc
  constructor
  · intro hl
    unfold locks at hl
    cases hpc : s.pc <;> rw [hpc] at hat hl <;> try cases hl
    · exact hat.1
    · exact hat.1
    · exact hat
  · intro hpc
    rw [hpc] at hat
    exact hat

/-- The contract of the queue, in every reachable state. -/
theorem taskQueue_safe {s : State α} (h : Machine.Reachable step init s) :
    s.given <+: s.pushed ∧
    (waits s = true → s.queue ≠ [] → s.taskPushed = true) ∧
    (s.pc = .asleep → s.taskPushed = true → ∃ t, (s.client t).willNotify = true) ∧
    (∀ t c retval s' s'', s.client t = .leaving c retval → c.stops = true →
      step s (.client t) = some s' → Machine.Reachable step s' s'' → s''.popped = s'.popped) ∧
    (locks s = true → s.ownsLock = false) ∧ s.pc ≠ .error := by
  obtain ⟨hgiven, hpopped⟩ := given_prefix h
  obtain ⟨hflag, hnotify⟩ := no_lost_wakeup h
  refine ⟨hgiven.trans hpopped, hflag, hnotify, ?_, never_relocked h⟩
  exact fun _ _ _ _ _ hc hstops he hr => popped_of_stopped h hc hstops he hr

/-- Two threads push while the worker sleeps; it is woken and works on the first task. -/
theorem taskQueue_safe_two_pushes :
    ∃ s : State Nat, Machine.Reachable step init s ∧ s.pushed = [7, 8] ∧ s.given = [7] ∧
      s.given <+: s.pushed := by
  have hrun : ∃ s : State Nat, Machine.exec step init
      [.worker, .worker, .worker, .call 1 (.pushToQueue 7), .client 1, .client 1, .client 1,
        .call 2 (.pushToQueue 8), .client 2, .client 2, .worker, .worker, .worker, .worker,
        .worker, .worker, .worker] = some s ∧ s.pushed = [7, 8] ∧ s.given = [7] :=
    ⟨_, rfl, rfl, rfl⟩
  obtain ⟨s, hexec, hpushed, hgiven⟩ := hrun
  have hreach : Machine.Reachable step init s := ⟨_, hexec⟩
  exact ⟨s, hreach, hpushed, hgiven, (taskQueue_safe hreach).1⟩

end TaskQueue
end ClibDpa
