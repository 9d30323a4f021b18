import ClibDpa.Lib.Progress
import ClibDpa.TaskQueue

/-!
# ClibDpa.QueueWork

The worker of a task queue that is not being stopped gets to the next task. Three threads may have
to move: the caller that holds the mutex, the caller that is to notify a sleeping worker, and the
worker; each lemma says that its step is enabled, what it leaves alone, and what it brings closer.

* `holder_steps`   — the mutex is given back.
* `notifier_steps` — a worker that sleeps while there is work is woken up.
* `worker_steps`   — the worker comes nearer to the queue, or takes its first task.
* `release_steps`  — the worker gives the mutex back.
-/

namespace ClibDpa
namespace TaskQueue

variable {α : Type}

/-- The queue is not stopped, and no thread is about to stop it. -/
structure Serving (s : State α) : Prop where
  run : s.runWorkerThread = true
  alive : s.pc ≠ .exited
  client : ∀ t c, s.client t = .entered c → c.stops = false

/-- No thread but the worker holds the mutex. -/
def NoClient (s : State α) : Prop := ∀ t, s.mutex ≠ some (.client t)

/-- The steps that the holder of the mutex has still to take. -/
def ClientPc.rank : ClientPc α → Nat
  | .entered _ => 2
  | .leaving _ _ => 1
  | _ => 0

def holderRank (s : State α) : Nat :=
  match s.mutex with
  | some (.client t) => (s.client t).rank
  | _ => 0

/-- The steps of the worker from its position to `test`, if there is work. -/
def WorkerPc.rank : WorkerPc α → Nat
  | .asleep => 7
  | .outer => 6
  | .lock | .notified => 5
  | .wait => 4
  | .reset | .relock => 3
  | .inner => 2
  | .test => 1
  | _ => 0

/-- The steps of the worker up to its release of the mutex. -/
def WorkerPc.releaseRank : WorkerPc α → Nat
  | .wait => 5
  | .reset => 4
  | .inner => 3
  | .test => 2
  | .taken _ | .giveUp => 1
  | _ => 0

section Steps

variable {s : State α}

theorem WorkerPc.releaseRank_le (pc : WorkerPc α) : pc.releaseRank ≤ 5 := by
  cases pc <;> simp [WorkerPc.releaseRank]

theorem holderRank_le (s : State α) : holderRank s ≤ 2 := by
  unfold holderRank
  split
  · rename_i t _
    cases s.client t <;> simp [ClientPc.rank]
  · exact Nat.zero_le 2

theorem NoClient.holderRank (h : NoClient s) : holderRank s = 0 := by
  unfold TaskQueue.holderRank
  split
  · rename_i t hm
    exact absurd hm (h t)
  · rfl

theorem NoClient.waiting (h : NoClient s) : (abs s).waiting = s.queue := by
  have hnone : inFlight s.mutex s.client = [] := by
    cases hm : s.mutex with
    | none => rfl
    | some o =>
      cases o with
      | worker => rfl
      | client t => exact absurd hm (h t)
  simp [abs, hnone]

theorem Serving.setClient {t : Nat} {pc : ClientPc α} {s' : State α} (h : Serving s)
    (hrun : s'.runWorkerThread = s.runWorkerThread) (halive : s'.pc ≠ .exited)
    (hclient : s'.client = Function.update s.client t pc)
    (hpc : ∀ c, pc = .entered c → c.stops = false) : Serving s' := by
  refine ⟨hrun.trans h.run, halive, fun t' c hc => ?_⟩
  rw [hclient] at hc
  by_cases heq : t' = t
  · subst heq
    exact hpc c (by simpa using hc)
  · rw [Function.update_of_ne heq] at hc
    exact h.client t' c hc

/-- The caller that holds the mutex is in its block or leaves it. -/
theorem holder_steps {t : Nat} (h : Inv s) (hs : Serving s) (hm : s.mutex = some (.client t)) :
    ∃ s', clientStep s t = some s' ∧ Serving s' ∧ abs s' = abs s ∧ s'.pc = s.pc ∧
      s'.popped = s.popped ∧ holderRank s' < holderRank s := by
  have hheld := (h.client t).mp hm
  cases hc : s.client t with
  | entered c =>
    have hstops := hs.client t c hc
    refine ⟨TaskQueue.setClient (body s c).1 t (.leaving c (body s c).2),
      by simp [clientStep, hc], ?_, ?_, (body_frame s c).1, ?_, ?_⟩
    · cases c with
      | pushToQueue task => exact hs.setClient (t := t) rfl hs.alive rfl (by simp)
      | size => exact hs.setClient (t := t) rfl hs.alive rfl (by simp)
      | stopQueue => cases hstops
      | destroy => cases hstops
    · cases c with
      | pushToQueue task => simp [abs, body, TaskQueue.setClient, hm, hc, ClientPc.inFlight]
      | size => simp [abs, body, TaskQueue.setClient, hm, hc, ClientPc.inFlight]
      | stopQueue => cases hstops
      | destroy => cases hstops
    · cases c <;> rfl
    · have hmutex : (body s c).1.mutex = some (.client t) := by cases c <;> exact hm
      simp [holderRank, TaskQueue.setClient, hmutex, hm, hc, ClientPc.rank]
  | leaving c retval =>
    have hstep : clientStep s t = some { TaskQueue.setClient s t
        (if c.notifies then .notifying c retval else .returned retval) with mutex := none } := by
      simp [clientStep, hc]
    refine ⟨_, hstep, hs.setClient (t := t) rfl hs.alive rfl ?_, ?_, rfl, rfl, ?_⟩
    · intro c' heq
      split at heq <;> cases heq
    · simp [abs, TaskQueue.setClient, hm, hc, ClientPc.inFlight]
    · simp [holderRank, hm, hc, ClientPc.rank]
  | returned retval => rw [hc] at hheld; cases hheld
  | notifying c retval => rw [hc] at hheld; cases hheld
  | joining => rw [hc] at hheld; cases hheld

/-- A worker that sleeps on work has a caller that is to notify it. -/
theorem notifier_steps (h : Inv s) (hs : Serving s) (hm : NoClient s) (hpc : s.pc = .asleep)
    (hq : s.queue ≠ []) :
    ∃ t s', clientStep s t = some s' ∧ Serving s' ∧ abs s' = abs s ∧ s'.pc = .notified ∧
      s'.popped = s.popped ∧ NoClient s' := by
  have hat := h.atPc
  rw [hpc] at hat
  obtain ⟨_, hflag, hnotify⟩ := hat
  obtain ⟨t, ht⟩ := hnotify (hflag hq)
  cases hc : s.client t with
  | leaving c retval => exact absurd ((h.client t).mpr (by rw [hc]; rfl)) (hm t)
  | notifying c retval =>
    have hwake : wakeUp s = { s with pc := .notified } := by simp [wakeUp, hpc]
    obtain ⟨pc, hstep, hnext⟩ : ∃ pc, clientStep s t =
        some (TaskQueue.setClient { s with pc := .notified } t pc) ∧ ∀ c', pc ≠ .entered c' := by
      simp only [clientStep, hc, hwake]
      refine ⟨_, rfl, ?_⟩
      cases c <;> simp
    refine ⟨t, _, hstep, ?_, ?_, rfl, rfl, hm⟩
    · exact hs.setClient (t := t) rfl (by simp [TaskQueue.setClient]) rfl
        fun c' heq => absurd heq (hnext c')
    · exact (abs_setClient (s := { s with pc := .notified }) (hm t) _).trans rfl
  | returned retval => rw [hc] at ht; cases ht
  | entered c => rw [hc] at ht; cases ht
  | joining => rw [hc] at ht; cases ht

/-- The mutex is free for the worker. -/
theorem NoClient.free (h : NoClient s) (hI : Inv s) (ho : s.ownsLock = false) :
    s.mutex = none := by
  cases hm : s.mutex with
  | none => rfl
  | some o =>
    cases o with
    | worker =>
      rw [hI.worker.mp hm] at ho
      cases ho
    | client t => exact absurd hm (h t)

/-- With work in the queue, the worker comes nearer to it or takes its first task. -/
theorem worker_steps (h : Inv s) (hs : Serving s) (hm : NoClient s) (hq : s.queue ≠ [])
    (hpc : 0 < s.pc.rank) (hasleep : s.pc ≠ .asleep) :
    ∃ s', workerStep s = some s' ∧ Serving s' ∧ NoClient s' ∧
      ((abs s' = abs s ∧ 0 < s'.pc.rank ∧ s'.pc.rank < s.pc.rank) ∨
        ∃ task, s.queue = task :: s'.queue ∧ s'.pc = .taken task) := by
  have hat := h.atPc
  have hrun := hs.run
  -- the worker's steps on the way to the queue change the mutex and its position only
  have hlock : ∀ next : WorkerPc α, next ≠ .exited → s.ownsLock = false →
      0 < next.rank → next.rank < s.pc.rank → workerStep s = lckLock s next →
      ∃ s', workerStep s = some s' ∧ Serving s' ∧ NoClient s' ∧
        ((abs s' = abs s ∧ 0 < s'.pc.rank ∧ s'.pc.rank < s.pc.rank) ∨
          ∃ task, s.queue = task :: s'.queue ∧ s'.pc = .taken task) := by
    intro next halive ho hpos hlt hstep
    have hfree := hm.free h ho
    have hl : lckLock s next =
        some { s with mutex := some .worker, ownsLock := true, pc := next } := by
      simp [lckLock, ho, hfree]
    have habs := abs_lckLock hl
    exact ⟨_, hstep.trans hl, ⟨hs.run, halive, hs.client⟩, fun _ => by simp, .inl ⟨habs, hpos, hlt⟩⟩
  cases hp : s.pc with
  | outer =>
    refine ⟨{ s with pc := .lock }, by simp [workerStep, hp, hrun],
      ⟨hs.run, (by simp), hs.client⟩, hm, .inl ⟨rfl, ?_, ?_⟩⟩ <;> simp [WorkerPc.rank]
  | lock =>
    rw [hp] at hat
    rw [← hp]
    exact hlock .wait (by simp) hat.1 (by simp [WorkerPc.rank])
      (by simp [hp, WorkerPc.rank]) (by simp [workerStep, hp])
  | notified =>
    rw [hp] at hat
    rw [← hp]
    exact hlock .wait (by simp) hat.1 (by simp [WorkerPc.rank])
      (by simp [hp, WorkerPc.rank]) (by simp [workerStep, hp])
  | relock =>
    rw [hp] at hat
    rw [← hp]
    exact hlock .inner (by simp) hat (by simp [WorkerPc.rank])
      (by simp [hp, WorkerPc.rank]) (by simp [workerStep, hp])
  | wait =>
    rw [hp] at hat
    have hflag := hat.2 hq
    refine ⟨{ s with pc := .reset }, by simp [workerStep, hp, hflag],
      ⟨hs.run, (by simp), hs.client⟩, hm, .inl ⟨rfl, ?_, ?_⟩⟩ <;> simp [WorkerPc.rank]
  | reset =>
    refine ⟨{ s with taskPushed := false, pc := .inner }, by simp [workerStep, hp],
      ⟨hs.run, (by simp), hs.client⟩, hm, .inl ⟨rfl, ?_, ?_⟩⟩ <;> simp [WorkerPc.rank]
  | inner =>
    refine ⟨{ s with pc := .test }, by simp [workerStep, hp, hrun],
      ⟨hs.run, (by simp), hs.client⟩, hm, .inl ⟨rfl, ?_, ?_⟩⟩ <;> simp [WorkerPc.rank]
  | test =>
    cases hqueue : s.queue with
    | nil => exact absurd hqueue hq
    | cons task rest =>
      have hstep : workerStep s =
          some { s with queue := rest, popped := s.popped ++ [task], pc := .taken task } := by
        simp [workerStep, hp, hqueue]
      exact ⟨_, hstep, ⟨hs.run, (by simp), hs.client⟩, hm, .inr ⟨task, rfl, rfl⟩⟩
  | asleep => exact absurd hp hasleep
  | taken task => rw [hp] at hpc; cases hpc
  | process task => rw [hp] at hpc; cases hpc
  | busy task => rw [hp] at hpc; cases hpc
  | giveUp => rw [hp] at hpc; cases hpc
  | exited => rw [hp] at hpc; cases hpc
  | error => rw [hp] at hpc; cases hpc

/-- The task is handed to the processing function with the mutex given back. -/
theorem taken_steps {task : α} (h : Inv s) (hs : Serving s) (hpc : s.pc = .taken task) :
    ∃ s', workerStep s = some s' ∧ Serving s' ∧ NoClient s' ∧ abs s' = abs s ∧
      s'.pc = .process task := by
  have ho : s.ownsLock = true := by
    have hat := h.atPc
    rwa [hpc] at hat
  have hu : workerStep s = some (lckUnlock s (.process task)) := by simp [workerStep, hpc]
  have habs : abs (lckUnlock s (.process task)) = abs s := abs_lckUnlock h
  refine ⟨_, hu, ?_, ?_, habs, ?_⟩
  · simp only [lckUnlock, if_pos ho]
    exact ⟨hs.run, (by simp), hs.client⟩
  · simp only [lckUnlock, if_pos ho]
    exact fun _ => by simp
  · simp only [lckUnlock, if_pos ho]

/-- Without a task in its hands and with work to do, the worker is on its way to the queue. -/
theorem rank_pos (h : Inv s) (hs : Serving s) (hq : s.queue ≠ [])
    (hhands : ∀ task, s.pc ≠ .taken task ∧ s.pc ≠ .process task ∧ s.pc ≠ .busy task) :
    0 < s.pc.rank := by
  have hat := h.atPc
  cases hp : s.pc with
  | taken task => exact absurd hp (hhands task).1
  | process task => exact absurd hp (hhands task).2.1
  | busy task => exact absurd hp (hhands task).2.2
  | giveUp =>
    rw [hp] at hat
    exact absurd hat.2 hq
  | exited => exact absurd hp hs.alive
  | error => rw [hp] at hat; exact hat.elim
  | _ => simp [WorkerPc.rank]

/-- A worker that holds the mutex comes nearer to its release; what it has in its hands and what
is in the queue stay. -/
theorem release_steps (h : Inv s) (hs : Serving s) (hheld : s.mutex = some .worker) :
    ∃ s', workerStep s = some s' ∧ s'.pc.releaseRank < s.pc.releaseRank ∧
      inHand s'.pc ++ s'.queue = inHand s.pc ++ s.queue ∧
      (∀ task, s.pc ≠ .process task) ∧ ∀ task, s.pc ≠ .busy task := by
  have ho := h.worker.mp hheld
  have hat := h.atPc
  have hrun := hs.run
  cases hp : s.pc with
  | wait =>
    by_cases hflag : s.taskPushed = true
    · exact ⟨{ s with pc := .reset }, by simp [workerStep, hp, hflag],
        by simp [WorkerPc.releaseRank], rfl, by simp, by simp⟩
    · refine ⟨lckUnlock s .asleep, by simp [workerStep, hp, hflag], ?_, ?_, by simp, by simp⟩ <;>
        simp [lckUnlock, ho, WorkerPc.releaseRank, inHand]
  | reset =>
    exact ⟨{ s with taskPushed := false, pc := .inner }, by simp [workerStep, hp],
      by simp [WorkerPc.releaseRank], rfl, by simp, by simp⟩
  | inner =>
    exact ⟨{ s with pc := .test }, by simp [workerStep, hp, hrun],
      by simp [WorkerPc.releaseRank], rfl, by simp, by simp⟩
  | test =>
    cases hq : s.queue with
    | nil =>
      exact ⟨{ s with pc := .giveUp }, by simp [workerStep, hp, hq],
        by simp [WorkerPc.releaseRank], by simp [inHand, hq], by simp, by simp⟩
    | cons task rest =>
      exact ⟨{ s with queue := rest, popped := s.popped ++ [task], pc := .taken task },
        by simp [workerStep, hp, hq], by simp [WorkerPc.releaseRank], by simp [inHand],
        by simp, by simp⟩
  | taken task =>
    refine ⟨lckUnlock s (.process task), by simp [workerStep, hp], ?_, ?_, by simp, by simp⟩ <;>
      simp [lckUnlock, ho, WorkerPc.releaseRank, inHand]
  | giveUp =>
    refine ⟨lckUnlock s .outer, by simp [workerStep, hp], ?_, ?_, by simp, by simp⟩ <;>
      simp [lckUnlock, ho, WorkerPc.releaseRank, inHand]
  | outer =>
    rw [hp] at hat
    rw [hat.1 ho] at hrun
    cases hrun
  | lock => rw [hp] at hat; rw [hat.1] at ho; cases ho
  | asleep => rw [hp] at hat; rw [hat.1] at ho; cases ho
  | notified => rw [hp] at hat; rw [hat.1] at ho; cases ho
  | process task => rw [hp] at hat; rw [show s.ownsLock = false from hat] at ho; cases ho
  | busy task => rw [hp] at hat; rw [show s.ownsLock = false from hat] at ho; cases ho
  | relock => rw [hp] at hat; rw [show s.ownsLock = false from hat] at ho; cases ho
  | exited => exact absurd hp hs.alive
  | error => rw [hp] at hat; exact hat.elim

end Steps

end TaskQueue
end ClibDpa
