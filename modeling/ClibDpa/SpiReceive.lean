import ClibDpa.Callers
import ClibDpa.QueueWork
import ClibDpa.SpiBus

/-!
# ClibDpa.SpiReceive

The way of a received frame: the listening thread reads it into `m_rx`, pushes a copy, the worker
of the queue takes it and the lambda hands it on. `pending` are the frames on that way.

* `Receive` / `receive_step` — the invariant.
* `frames_in_order`          — no frame is lost, repeated, cut or overtaken.
* `dangling_iff`             — the destructor leaves the queue alone: what is on its way when the
  channel is freed is what the worker goes through the freed object for.
-/

namespace ClibDpa
namespace IqrfSpiChannel
namespace Imp

/-- The frame of a call that read one. -/
def asFrame : Caller × Access → Option (List UInt8)
  | (_, .read len .operOk data) => if len = 0 then none else some data
  | _ => none

def frames (log : List (Caller × Access)) : List (List UInt8) := log.filterMap asFrame

/-- What the listening thread has read and not pushed. -/
def ListenPc.toPush (rx : List UInt8) : ListenPc → List (List UInt8)
  | .unlock recData | .push recData => if recData = 0 then [] else [rx.take recData]
  | _ => []

/-- What the lambda was given and has not decided about. -/
def LambdaPc.inHand : LambdaPc → List (List UInt8)
  | .test msg | .call msg => [msg]
  | _ => []

def pending (s : State) : List (List UInt8) :=
  s.lambda.inHand ++ TaskQueue.inHand s.receiveMessageQueue.pc ++
    (TaskQueue.abs s.receiveMessageQueue).waiting ++ s.listen.toPush s.rx

/-- A thread that uses the queue for pushes only. -/
def OnlyPushes : TaskQueue.ClientPc (List UInt8) → Prop
  | .returned _ => True
  | .entered c | .leaving c _ | .notifying c _ => ∃ msg, c = .pushToQueue msg
  | .joining => False

structure Receive (s : State) : Prop where
  queue : Machine.Reachable TaskQueue.step TaskQueue.init s.receiveMessageQueue
  run : s.receiveMessageQueue.runWorkerThread = true
  alive : s.receiveMessageQueue.pc ≠ .exited
  client : ∀ t, OnlyPushes (s.receiveMessageQueue.client t)
  others : ∀ t, t ≠ 0 ∨ s.listen ≠ .pushing → ∃ r, s.receiveMessageQueue.client t = .returned r
  busy : (∃ msg, s.receiveMessageQueue.pc = .busy msg) ↔ s.lambda ≠ .idle
  given : s.handled.map Prod.fst ++ s.lambda.inHand = s.receiveMessageQueue.given
  pushes : s.receiveMessageQueue.pushed ++ s.listen.toPush s.rx = frames s.log

section Receive

variable {s s' : State}

theorem receive_init : Receive init where
  queue := .refl _
  run := rfl
  alive := fun h => by cases h
  client := fun _ => trivial
  others := fun _ _ => ⟨none, rfl⟩
  busy := by simp [init, TaskQueue.init]
  given := rfl
  pushes := rfl

theorem frames_append (log l : List (Caller × Access)) :
    frames (log ++ l) = frames log ++ frames l := List.filterMap_append

/-- Only a `read` brings a frame. -/
theorem Move.frames {t : Nat} {l : List (Caller × Access)} {fin : Option Sending} {pc : ClientPc}
    {m : Option Caller} (h : Move s t l fin pc m) : Imp.frames l = [] := by
  cases h <;> rfl

theorem ListenMove.frames {l : List (Caller × Access)} {pc : ListenPc} {m : Option Caller}
    (h : ListenMove s l pc m) : Imp.frames l = [] := by
  cases h <;> rfl

theorem ListenMove.toPush {l : List (Caller × Access)} {pc : ListenPc} {m : Option Caller}
    (h : ListenMove s l pc m) : pc.toPush s.rx = s.listen.toPush s.rx := by
  cases h with
  | loop hl => rw [hl]; rfl
  | stop hl _ => rw [hl]; rfl
  | lock hl _ => rw [hl]; rfl
  | wait hl => rw [hl]; rfl
  | waited hl _ => rw [hl]; rfl
  | dataReady hl _ _ => rw [hl]; rfl
  | notReady hl => rw [hl]; rfl
  | unlock hl => rw [hl]; rfl
  | nothing hl => rw [hl]; rfl
  | pushed hl _ => rw [hl]; rfl

/-- After a move of the listening thread no client is in the queue. -/
theorem Receive.outside {l : List (Caller × Access)} {pc : ListenPc} {m : Option Caller}
    (h : Receive s) (hm : ListenMove s l pc m) (t : Nat) :
    ∃ r, s.receiveMessageQueue.client t = .returned r := by
  by_cases hl : s.listen = .pushing
  · cases hm with
    | pushed _ hr =>
      by_cases ht : t = 0
      · subst ht
        exact ⟨_, hr⟩
      · exact h.others t (.inl ht)
    | loop hl' => rw [hl] at hl'; cases hl'
    | stop hl' _ => rw [hl] at hl'; cases hl'
    | lock hl' _ => rw [hl] at hl'; cases hl'
    | wait hl' => rw [hl] at hl'; cases hl'
    | waited hl' _ => rw [hl] at hl'; cases hl'
    | dataReady hl' _ _ => rw [hl] at hl'; cases hl'
    | notReady hl' => rw [hl] at hl'; cases hl'
    | unlock hl' => rw [hl] at hl'; cases hl'
    | nothing hl' => rw [hl] at hl'; cases hl'
  · exact h.others t (.inr hl)

/-- What a successful `read` has put into the buffer is what is pushed. -/
theorem toPush_read {a : Answer} {len : Nat} (rx : List UInt8) (hfills : a.fills len = true) :
    (ListenPc.unlock (if a.retval = .operOk then len else 0)).toPush
        (a.data ++ rx.drop a.data.length) =
      frames [(.listen, .read len a.retval a.data)] := by
  cases hr : a.retval with
  | operOk =>
    have hlen : a.data.length = len := by simpa [Answer.fills, hr] using hfills
    by_cases hzero : len = 0
    · simp [ListenPc.toPush, frames, asFrame, hzero]
    · have hframe : frames [(.listen, .read len .operOk a.data)] = [a.data] := by
        simp [frames, asFrame, hzero]
      have htake : (a.data ++ rx.drop a.data.length).take len = a.data := by rw [← hlen]; simp
      rw [hframe, if_pos rfl]
      simp only [ListenPc.toPush, if_neg hzero, htake]
  | other code => simp [ListenPc.toPush, frames, asFrame]

/-- A step of the queue's only client. -/
theorem onlyPushes_update {q : TaskQueue.State (List UInt8)} {pc : TaskQueue.ClientPc (List UInt8)}
    {t : Nat} (h : ∀ t, OnlyPushes (q.client t)) (hpc : OnlyPushes pc) (t' : Nat) :
    OnlyPushes (Function.update q.client t pc t') := by
  by_cases heq : t' = t
  · subst heq
    simpa using hpc
  · rw [Function.update_of_ne heq]
    exact h t'

theorem onlyPushes_client {q q' : TaskQueue.State (List UInt8)} {t : Nat}
    (h : ∀ t, OnlyPushes (q.client t)) (he : TaskQueue.clientStep q t = some q') :
    (∀ t, OnlyPushes (q'.client t)) ∧ q'.runWorkerThread = q.runWorkerThread ∧
      (∀ t', t' ≠ t → q'.client t' = q.client t') ∧ (q.pc ≠ .exited → q'.pc ≠ .exited) := by
  have ht := h t
  unfold TaskQueue.clientStep at he
  cases hc : q.client t with
  | returned r => rw [hc] at he; cases he
  | joining => rw [hc] at ht; exact ht.elim
  | entered c =>
    rw [hc] at he ht
    obtain ⟨msg, rfl⟩ := ht
    cases he
    exact ⟨onlyPushes_update h ⟨msg, rfl⟩, rfl, fun t' hne => Function.update_of_ne hne _ _, id⟩
  | leaving c retval =>
    rw [hc] at he ht
    obtain ⟨msg, rfl⟩ := ht
    cases he
    exact ⟨onlyPushes_update h ⟨msg, rfl⟩, rfl, fun t' hne => Function.update_of_ne hne _ _, id⟩
  | notifying c retval =>
    rw [hc] at he ht
    obtain ⟨msg, rfl⟩ := ht
    cases he
    have hwake : (TaskQueue.wakeUp q).client = q.client ∧
        (TaskQueue.wakeUp q).runWorkerThread = q.runWorkerThread ∧
        (q.pc ≠ .exited → (TaskQueue.wakeUp q).pc ≠ .exited) := by
      unfold TaskQueue.wakeUp
      split
      · exact ⟨rfl, rfl, fun _ => by simp⟩
      · exact ⟨rfl, rfl, id⟩
    refine ⟨onlyPushes_update (by rw [hwake.1]; exact h) trivial, hwake.2.1, fun t' hne => ?_,
      hwake.2.2⟩
    simp [TaskQueue.setClient, hne, hwake.1]

/-- A step of the worker or a wake-up: the clients and what was pushed stay. -/
theorem Receive.work {q : TaskQueue.State (List UInt8)} {pc : LambdaPc} (h : Receive s)
    {e : TaskQueue.Event (List UInt8)} (he : TaskQueue.step s.receiveMessageQueue e = some q)
    (hclient : q.client = s.receiveMessageQueue.client)
    (hrun : q.runWorkerThread = s.receiveMessageQueue.runWorkerThread)
    (hpushed : q.pushed = s.receiveMessageQueue.pushed) (halive : q.pc ≠ .exited)
    (hbusy : (∃ msg, q.pc = .busy msg) ↔ pc ≠ .idle)
    (hgiven : s.handled.map Prod.fst ++ pc.inHand = q.given) :
    Receive { s with lambda := pc, receiveMessageQueue := q } where
  queue := h.queue.next he
  run := hrun.trans h.run
  alive := halive
  client := fun t => by rw [hclient]; exact h.client t
  others := fun t ht => by rw [hclient]; exact h.others t ht
  busy := hbusy
  given := hgiven
  pushes := by rw [hpushed]; exact h.pushes

theorem receive_step {e : Event} (h : Receive s) (he : step s e = some s') : Receive s' := by
  cases step_effect he with
  | register _ => exact ⟨h.queue, h.run, h.alive, h.client, h.others, h.busy, h.given, h.pushes⟩
  | @client _ t l fin pc m _ hm =>
    refine ⟨h.queue, h.run, h.alive, h.client, h.others, h.busy, h.given, ?_⟩
    simp only [frames_append, hm.frames, List.append_nil]
    exact h.pushes
  | @listen a l pc m hm =>
    have hout := h.outside hm
    refine ⟨h.queue, h.run, h.alive, h.client, fun t _ => hout t, h.busy, h.given, ?_⟩
    simp only [frames_append, hm.frames, List.append_nil, hm.toPush]
    exact h.pushes
  | @read a len hl hfills =>
    have hpushes : s.receiveMessageQueue.pushed = frames s.log := by
      simpa [hl, ListenPc.toPush] using h.pushes
    refine ⟨h.queue, h.run, h.alive, h.client, fun t _ => h.others t (.inr (by rw [hl]; simp)),
      h.busy, h.given, ?_⟩
    simp only [access, frames_append, toPush_read s.rx hfills, hpushes]
  | @push a recData q hl hne hq =>
    have hpushes := h.pushes
    obtain ⟨hpc, hgiven, _, hpushed⟩ := TaskQueue.callStep_frame hq
    obtain ⟨_, _, hclient, _, hrun⟩ := TaskQueue.callStep_client hq
    have hstep : TaskQueue.step s.receiveMessageQueue
        (.call 0 (.pushToQueue (s.rx.take recData))) = some q := hq
    refine ⟨h.queue.next hstep, hrun.trans h.run, by rw [hpc]; exact h.alive, ?_, ?_, ?_, ?_, ?_⟩
    · rw [hclient]
      exact onlyPushes_update h.client ⟨_, rfl⟩
    · intro t ht
      have hne0 : t ≠ 0 := ht.resolve_right (fun hnot => hnot rfl)
      rw [hclient, Function.update_of_ne hne0]
      exact h.others t (.inl hne0)
    · rw [hpc]
      exact h.busy
    · rw [hgiven]
      exact h.given
    · rw [hl] at hpushes
      simpa [ListenPc.toPush, hne, hpushed, TaskQueue.Call.pushes] using hpushes
  | @pushing a q hl hq =>
    have hpushes := h.pushes
    obtain ⟨hbusy, hgiven, hpushed⟩ := TaskQueue.clientStep_frame hq
    obtain ⟨hclient, hrun, hother, halive⟩ := onlyPushes_client h.client hq
    have hstep : TaskQueue.step s.receiveMessageQueue (.client 0) = some q := hq
    refine ⟨h.queue.next hstep, hrun.trans h.run, halive h.alive, hclient, ?_, ?_, ?_, ?_⟩
    · intro t ht
      have hne0 : t ≠ 0 := ht.resolve_right (fun hnot => hnot hl)
      rw [hother t hne0]
      exact h.others t (.inl hne0)
    · simp only [hbusy]
      exact h.busy
    · rw [hgiven]
      exact h.given
    · rw [hpushed]
      exact hpushes
  | @enter msg q hpc hq =>
    obtain ⟨hclient, hrun, hpushed⟩ := TaskQueue.workerStep_frame hq
    have hq' := TaskQueue.workerStep_process hpc hq
    have hidle : s.lambda = .idle := by
      by_contra hne
      obtain ⟨msg', hb⟩ := h.busy.mpr hne
      rw [hpc] at hb
      cases hb
    have hgiven : s.handled.map Prod.fst = s.receiveMessageQueue.given := by
      simpa [hidle, LambdaPc.inHand] using h.given
    have hstep : TaskQueue.step s.receiveMessageQueue .worker = some q := hq
    refine h.work hstep hclient hrun hpushed (by rw [hq']; simp) ?_ ?_
    · rw [hq']
      simp
    · rw [hq', hgiven]
      rfl
  | @leave msg q hpc hdone hq =>
    obtain ⟨hclient, hrun, hpushed⟩ := TaskQueue.workerStep_frame hq
    have hq' := TaskQueue.workerStep_busy hpc hq
    have hgiven := h.given
    rw [hdone] at hgiven
    have hstep : TaskQueue.step s.receiveMessageQueue .worker = some q := hq
    refine h.work hstep hclient hrun hpushed (by rw [hq']; simp) ?_ ?_
    · rw [hq']
      simp
    · rw [hq']
      exact hgiven
  | @worker q hproc hbusy hq =>
    obtain ⟨hclient, hrun, hpushed⟩ := TaskQueue.workerStep_frame hq
    obtain ⟨hgiven, hnot⟩ := TaskQueue.workerStep_other hproc hbusy hq
    have halive : q.pc ≠ .exited := fun hpc => by
      have hstopped := (TaskQueue.workerStep_exited hq).2 hpc
      rw [h.run] at hstopped
      cases hstopped
    have hstep : TaskQueue.step s.receiveMessageQueue .worker = some q := hq
    refine h.work hstep hclient hrun hpushed halive ?_ (hgiven ▸ h.given)
    constructor
    · rintro ⟨msg, hm⟩
      exact absurd hm (hnot msg)
    · intro hne
      obtain ⟨msg, hm⟩ := h.busy.mpr hne
      exact absurd hm (hbusy msg)
  | spurious hpc =>
    have hwake : TaskQueue.wakeUp s.receiveMessageQueue =
        { s.receiveMessageQueue with pc := .notified } := by simp [TaskQueue.wakeUp, hpc]
    have hstep : TaskQueue.step s.receiveMessageQueue .spurious =
        some (TaskQueue.wakeUp s.receiveMessageQueue) := by simp [TaskQueue.step, hpc]
    have hbusy := h.busy
    rw [hpc] at hbusy
    rw [hwake] at hstep ⊢
    refine h.work hstep rfl rfl rfl (by simp) ?_ h.given
    rw [← hbusy]
    simp
  | @lambda result pc l hm =>
    refine ⟨h.queue, h.run, h.alive, h.client, h.others, ?_, ?_, h.pushes⟩
    · have hne : s.lambda ≠ .idle := by cases hm <;> simp [*]
      have hne' : pc ≠ .idle := by cases hm <;> simp
      exact ⟨fun _ => hne', fun _ => h.busy.mpr hne⟩
    · have hgiven := h.given
      cases hm with
      | registered hl _ => rw [hl] at hgiven; simpa [LambdaPc.inHand] using hgiven
      | unregistered hl _ => rw [hl] at hgiven; simpa [LambdaPc.inHand] using hgiven
      | returned hl _ => rw [hl] at hgiven; simpa [LambdaPc.inHand] using hgiven
      | threw hl _ => rw [hl] at hgiven; simpa [LambdaPc.inHand] using hgiven
      | badFunctionCall hl _ => rw [hl] at hgiven; simpa [LambdaPc.inHand] using hgiven
  | closing _ => exact ⟨h.queue, h.run, h.alive, h.client, h.others, h.busy, h.given, h.pushes⟩
  | joined _ _ => exact ⟨h.queue, h.run, h.alive, h.client, h.others, h.busy, h.given, h.pushes⟩
  | freed _ => exact ⟨h.queue, h.run, h.alive, h.client, h.others, h.busy, h.given, h.pushes⟩

theorem receive_reachable (h : Machine.Reachable step init s) : Receive s :=
  h.inv (fun _ _ _ hI he => receive_step hI he) receive_init

/-- What the lambda has decided about and what is on its way is what was read, in order. -/
theorem Receive.account (h : Receive s) :
    s.handled.map Prod.fst ++ pending s = frames s.log := by
  have hpopped := (TaskQueue.inv_reachable h.queue).given
  have hordered := TaskQueue.refines_fifo.ordered TaskQueue.inv_init Fifo.ordered_empty h.queue
  have hpushed : s.receiveMessageQueue.popped ++
      (TaskQueue.abs s.receiveMessageQueue).waiting = s.receiveMessageQueue.pushed := hordered
  rw [← h.pushes, ← hpushed, hpopped, ← h.given, pending]
  simp only [List.append_assoc]

theorem frames_length {log : List (Caller × Access)} (h : Log.Chained Follows log) :
    ∀ f ∈ frames log, 0 < f.length ∧ f.length ≤ bufsize := by
  intro f hf
  obtain ⟨x, hx, hframe⟩ := List.mem_filterMap.mp hf
  obtain ⟨pre, post, hlog⟩ := List.append_of_mem hx
  have hfollows := h pre x post hlog
  match x, hframe, hfollows with
  | (who, .read len .operOk data), hframe, hfollows =>
    obtain ⟨_, hle, hlen, _⟩ := hfollows
    simp only [asFrame] at hframe
    split at hframe
    · cases hframe
    · rename_i hne
      cases hframe
      rw [hlen rfl]
      exact ⟨Nat.pos_of_ne_zero hne, hle⟩

/-- The frames that the lambda has gone through followed by those on their way are the frames
that were read, each of them whole, once and in the order of the reads. -/
theorem frames_in_order (h : Machine.Reachable step init s) :
    s.handled.map Prod.fst ++ pending s = frames s.log ∧
    (∀ f ∈ frames s.log, 0 < f.length ∧ f.length ≤ bufsize) ∧
    (s.lambda = .idle → TaskQueue.inHand s.receiveMessageQueue.pc = [] →
      s.receiveMessageQueue.queue = [] → s.listen = .loop →
      s.handled.map Prod.fst = frames s.log) := by
  have hr := receive_reachable h
  refine ⟨hr.account, frames_length (bus_reachable h).follows, ?_⟩
  intro hlambda hhand hqueue hlisten
  have haccount := hr.account
  have hout : ∀ t, (s.receiveMessageQueue.client t).inFlight = [] := by
    intro t
    obtain ⟨r, hr⟩ := hr.others t (.inr (by rw [hlisten]; simp))
    rw [hr]
    rfl
  have hflight : TaskQueue.inFlight s.receiveMessageQueue.mutex s.receiveMessageQueue.client =
      [] := by
    cases hm : s.receiveMessageQueue.mutex with
    | none => rfl
    | some o =>
      cases o with
      | worker => rfl
      | client t => exact hout t
  have hpending : pending s = [] := by
    simp [pending, hlambda, hhand, hlisten, LambdaPc.inHand, ListenPc.toPush, TaskQueue.abs,
      hqueue, hflight]
  rwa [hpending, List.append_nil] at haccount

/-- A frame is read and pushed: it is on its way to the lambda. -/
theorem frames_in_order_threeBytes : ∃ s, Machine.Reachable step init s ∧ s.handled = [] ∧
    frames s.log = [[0x0a, 0x0b, 0x0c]] ∧ s.handled.map Prod.fst ++ pending s = frames s.log := by
  have hrun : ∃ s, Machine.exec step init readsFrame = some s ∧ s.handled = [] ∧
      frames s.log = [[0x0a, 0x0b, 0x0c]] := ⟨_, rfl, rfl, rfl⟩
  obtain ⟨s, hexec, hhandled, hframes⟩ := hrun
  have hreach : Machine.Reachable step init s := ⟨_, hexec⟩
  exact ⟨s, hreach, hhandled, hframes, (frames_in_order hreach).1⟩

/-! ## The destructor -/

/-- Past its `join` the destructor is alone with the driver. -/
def Joined (s : State) : Prop :=
  s.destructor = .destroying ∨ s.destructor = .freed → s.listen = .stopped

theorem joined_step {e : Event} (h : Joined s) (he : step s e = some s') : Joined s' := by
  have hlisten : s.listen ≠ .stopped → ∀ pc, s'.destructor = s.destructor → s'.listen = pc →
      Joined s' := by
    intro hne pc hd _ hj
    rw [hd] at hj
    exact absurd (h hj) hne
  cases step_effect he with
  | @listen a l pc m hm =>
    refine hlisten ?_ pc rfl rfl
    cases hm <;> simp [*]
  | read hl _ => exact hlisten (by rw [hl]; simp) _ rfl rfl
  | push hl _ _ => exact hlisten (by rw [hl]; simp) _ rfl rfl
  | closing _ => exact fun hj => by rcases hj with hj | hj <;> cases hj
  | joined _ hl => exact fun _ => hl
  | freed hd => exact fun _ => h (.inl hd)
  | register _ => exact h
  | client _ _ => exact h
  | pushing _ _ => exact h
  | enter _ _ => exact h
  | leave _ _ _ => exact h
  | worker _ _ _ => exact h
  | spurious _ => exact h
  | lambda _ => exact h

theorem joined_reachable (h : Machine.Reachable step init s) : Joined s :=
  h.inv (fun _ _ _ hI he => joined_step hI he) fun hj => by rcases hj with hj | hj <;> cases hj

/-- The listening thread pushes, and nobody stops the queue. -/
theorem Receive.serving (h : Receive s) : TaskQueue.Serving s.receiveMessageQueue where
  run := h.run
  alive := h.alive
  client := by
    intro t c hc
    have hpushes := h.client t
    rw [hc] at hpushes
    obtain ⟨msg, rfl⟩ := hpushes
    rfl

theorem Receive.noClient (h : Receive s)
    (hout : ∀ t, ∃ r, s.receiveMessageQueue.client t = .returned r) :
    TaskQueue.NoClient s.receiveMessageQueue := by
  intro t hm
  obtain ⟨r, hr⟩ := hout t
  have hheld := ((TaskQueue.inv_reachable h.queue).client t).mp hm
  rw [hr] at hheld
  cases hheld

/-- Without the listening thread the queue gets nothing, and it has no client. -/
theorem freed_alone (h : Machine.Reachable step init s) (hfreed : s.destructor = .freed) :
    s.listen = .stopped ∧ (∀ t, ∃ r, s.receiveMessageQueue.client t = .returned r) ∧
      TaskQueue.Serving s.receiveMessageQueue ∧ TaskQueue.NoClient s.receiveMessageQueue := by
  have hr := receive_reachable h
  have hstopped := joined_reachable h (.inr hfreed)
  have hout : ∀ t, ∃ r, s.receiveMessageQueue.client t = .returned r := fun t =>
    hr.others t (.inr (by rw [hstopped]; simp))
  exact ⟨hstopped, hout, hr.serving, hr.noClient hout⟩

/-- Frames that stay on their way. -/
theorem pending_same (h : Receive s) (h' : Receive s') (hhandled : s'.handled = s.handled)
    (hlog : s'.log = s.log) : pending s' = pending s := by
  have hs := h.account
  have hs' := h'.account
  rw [hhandled, hlog, ← hs] at hs'
  exact List.append_cancel_left hs'

/-- How far the worker is from its next call of the lambda. -/
def toLambda : TaskQueue.WorkerPc (List UInt8) → Nat
  | .process _ => 2
  | .taken _ => 3
  | pc => pc.rank + 4

/-- How far the worker is from its next look at the freed object. -/
def steps (s : State) : Nat :=
  match s.lambda with
  | .idle => toLambda s.receiveMessageQueue.pc
  | .done => 12
  | _ => 1

theorem toLambda_le (pc : TaskQueue.WorkerPc (List UInt8)) : toLambda pc ≤ pc.rank + 4 := by
  cases pc <;> simp [toLambda]

theorem toLambda_eq {pc : TaskQueue.WorkerPc (List UInt8)} (h : 0 < pc.rank) :
    toLambda pc = pc.rank + 4 := by
  cases pc <;> first | rfl | cases h

theorem steps_pos (s : State) : 0 < steps s := by
  unfold steps
  split
  · cases s.receiveMessageQueue.pc <;> simp [toLambda]
  · exact Nat.succ_pos 11
  · exact Nat.one_pos

def toDangling (s : State) : Nat := if s.dangling = true then 0 else steps s

/-- The worker's own events. -/
def workers : Event → Prop
  | .worker | .receiveFrom _ => True
  | _ => False

/-- What keeps the worker going. -/
structure LeftOver (s : State) : Prop where
  reachable : Machine.Reachable step init s
  freed : s.destructor = .freed
  alive : s.lambda ≠ .terminated
  pending : pending s ≠ []

/-- A step of the worker's own code. -/
theorem LeftOver.worker {q : TaskQueue.State (List UInt8)} {pc : LambdaPc} (h : LeftOver s)
    (he : step s .worker = some { s with lambda := pc, receiveMessageQueue := q })
    (hpc : pc ≠ .terminated) :
    LeftOver { s with lambda := pc, receiveMessageQueue := q } := by
  have hreach := h.reachable.next he
  have hsame := pending_same (receive_reachable h.reachable) (receive_reachable hreach) rfl rfl
  exact ⟨hreach, h.freed, hpc, by rw [hsame]; exact h.pending⟩

/-- With no thread in the queue's methods and a frame left, the worker's own code comes nearer to
the lambda. -/
theorem queue_steps {q : TaskQueue.State (List UInt8)} (h : TaskQueue.Inv q)
    (hs : TaskQueue.Serving q) (hm : TaskQueue.NoClient q)
    (hout : ∀ t, ∃ r, q.client t = .returned r) (hproc : ∀ msg, q.pc ≠ .process msg)
    (hbusy : ∀ msg, q.pc ≠ .busy msg) (hleft : TaskQueue.inHand q.pc ++ q.queue ≠ []) :
    ∃ q', TaskQueue.workerStep q = some q' ∧ toLambda q'.pc < toLambda q.pc := by
  by_cases htaken : ∃ msg, q.pc = .taken msg
  · obtain ⟨msg, hp⟩ := htaken
    obtain ⟨q', hq, _, _, _, hpc⟩ := TaskQueue.taken_steps h hs hp
    exact ⟨q', hq, by simp [hp, hpc, toLambda]⟩
  · -- nothing is in the worker's hands, so the frame is in the queue
    have htaken' : ∀ msg, q.pc ≠ .taken msg := fun msg hp => htaken ⟨msg, hp⟩
    have hqueue : q.queue ≠ [] := by
      intro hq
      apply hleft
      rw [hq, List.append_nil]
      cases hp : q.pc with
      | taken msg => exact absurd hp (htaken' msg)
      | process msg => exact absurd hp (hproc msg)
      | _ => rfl
    have hasleep : q.pc ≠ .asleep := by
      intro hp
      obtain ⟨t, q', hstep, _⟩ := TaskQueue.notifier_steps h hs hm hp hqueue
      obtain ⟨r, hret⟩ := hout t
      simp [TaskQueue.clientStep, hret] at hstep
    have hrank := TaskQueue.rank_pos h hs hqueue fun msg => ⟨htaken' msg, hproc msg, hbusy msg⟩
    obtain ⟨q', hq, _, _, hnear⟩ := TaskQueue.worker_steps h hs hm hqueue hrank hasleep
    refine ⟨q', hq, ?_⟩
    rw [toLambda_eq hrank]
    rcases hnear with ⟨_, _, hlt⟩ | ⟨msg, _, hpc⟩
    · exact lt_of_le_of_lt (toLambda_le q'.pc) (Nat.add_lt_add_right hlt 4)
    · rw [hpc, toLambda]
      omega

/-- Outside the lambda the worker's own code is a step of the queue. -/
theorem workerStep_own {q : TaskQueue.State (List UInt8)} (hl : s.lambda = .idle)
    (hproc : ∀ msg, s.receiveMessageQueue.pc ≠ .process msg)
    (hbusy : ∀ msg, s.receiveMessageQueue.pc ≠ .busy msg)
    (hq : TaskQueue.workerStep s.receiveMessageQueue = some q) :
    step s .worker = some { s with lambda := .idle, receiveMessageQueue := q } := by
  have hother : workerStep s = onQueue s .worker := by
    unfold workerStep
    split
    · exact absurd ‹_› (hproc _)
    · exact absurd ‹_› (hbusy _)
    · exact absurd ‹_› (hbusy _)
    · rfl
  simp [step, hother, onQueue, TaskQueue.step, hq, ← hl]

/-- The worker looks at the freed object, or comes nearer to it. -/
theorem LeftOver.steps (h : LeftOver s) : ∃ e s', workers e ∧ step s e = some s' ∧
    (s'.dangling = true ∨ LeftOver s' ∧ steps s' < steps s) := by
  have hr := receive_reachable h.reachable
  obtain ⟨hstopped, hout, hserving, hnoClient⟩ := freed_alone h.reachable h.freed
  have hinv := TaskQueue.inv_reachable hr.queue
  cases hl : s.lambda with
  | terminated => exact absurd hl h.alive
  | test msg =>
    refine ⟨.receiveFrom (.ok ()), _, trivial, by simp only [step, lambdaStep, hl]; rfl, .inl ?_⟩
    split <;> simp [h.freed]
  | call msg =>
    refine ⟨.receiveFrom (.ok ()), _, trivial, by simp only [step, lambdaStep, hl]; rfl, .inl ?_⟩
    split <;> simp [h.freed]
  | done =>
    obtain ⟨msg, hbusy⟩ := hr.busy.mpr (by rw [hl]; simp)
    have he : step s .worker = some { s with
        lambda := .idle
        receiveMessageQueue := { s.receiveMessageQueue with pc := .relock } } := by
      simp [step, workerStep, hbusy, hl, onQueue, TaskQueue.step, TaskQueue.workerStep]
    refine ⟨.worker, _, trivial, he, .inr ⟨h.worker he (by simp), ?_⟩⟩
    simp [Imp.steps, hl, toLambda, TaskQueue.WorkerPc.rank]
  | idle =>
    by_cases hproc : ∃ msg, s.receiveMessageQueue.pc = .process msg
    · obtain ⟨msg, hp⟩ := hproc
      have he : step s .worker = some { s with
          lambda := .test msg
          receiveMessageQueue :=
            { s.receiveMessageQueue with
              given := s.receiveMessageQueue.given ++ [msg]
              pc := .busy msg } } := by
        simp [step, workerStep, hp, onQueue, TaskQueue.step, TaskQueue.workerStep]
      refine ⟨.worker, _, trivial, he, .inr ⟨h.worker he (by simp), ?_⟩⟩
      simp [Imp.steps, hl, hp, toLambda]
    · have hproc' : ∀ msg, s.receiveMessageQueue.pc ≠ .process msg := fun msg hp =>
        hproc ⟨msg, hp⟩
      have hbusy : ∀ msg, s.receiveMessageQueue.pc ≠ .busy msg := fun msg hb =>
        hr.busy.mp ⟨msg, hb⟩ hl
      have hleft := h.pending
      simp only [Imp.pending, hl, hstopped, LambdaPc.inHand, ListenPc.toPush, hnoClient.waiting,
        List.nil_append, List.append_nil] at hleft
      obtain ⟨q, hq, hlt⟩ := queue_steps hinv hserving hnoClient hout hproc' hbusy hleft
      have he := workerStep_own hl hproc' hbusy hq
      refine ⟨.worker, _, trivial, he, .inr ⟨h.worker he (by simp), ?_⟩⟩
      simpa [Imp.steps, hl] using hlt

/-- Without a frame on its way the lambda is not run any more. -/
theorem quiet_step {e : Event} (h : Machine.Reachable step init s) (hfreed : s.destructor = .freed)
    (hpending : pending s = []) (he : step s e = some s') :
    s'.destructor = .freed ∧ pending s' = [] ∧ s'.dangling = s.dangling := by
  have hr := receive_reachable h
  have hr' := receive_reachable (h.next he)
  obtain ⟨hstopped, _⟩ := freed_alone h hfreed
  have hdone := hr.account
  have hdone' := hr'.account
  rw [hpending, List.append_nil] at hdone
  -- nothing new is read, so what was handled stays everything
  have hsame : s'.handled = s.handled → frames s'.log = frames s.log → pending s' = [] := by
    intro hh hl
    rw [hh, hl, ← hdone] at hdone'
    exact List.append_right_eq_self.mp hdone'
  cases step_effect he with
  | @client _ t l fin pc m _ hm =>
    exact ⟨hfreed, hsame rfl (by simp [frames_append, hm.frames]), rfl⟩
  | @listen a l pc m hm => cases hm <;> simp_all
  | read hl _ => rw [hstopped] at hl; cases hl
  | push hl _ _ => rw [hstopped] at hl; cases hl
  | pushing hl _ => rw [hstopped] at hl; cases hl
  | register _ => exact ⟨hfreed, hsame rfl rfl, rfl⟩
  | enter _ _ => exact ⟨hfreed, hsame rfl rfl, rfl⟩
  | leave _ _ _ => exact ⟨hfreed, hsame rfl rfl, rfl⟩
  | worker _ _ _ => exact ⟨hfreed, hsame rfl rfl, rfl⟩
  | spurious _ => exact ⟨hfreed, hsame rfl rfl, rfl⟩
  | @lambda result pc l hm =>
    -- a frame in the lambda's hands is on its way
    exfalso
    have hhand : s.lambda.inHand = [] := by
      have := hpending
      simp only [pending, List.append_eq_nil_iff] at this
      exact this.1.1.1
    cases hm <;> simp_all [LambdaPc.inHand]
  | closing hd => rw [hfreed] at hd; cases hd
  | joined hd _ => rw [hfreed] at hd; cases hd
  | freed hd => rw [hfreed] at hd; cases hd

/-- After the destructor has returned the worker goes through the freed object in some run exactly
when frames are still on their way: nothing stops the queue. -/
theorem dangling_iff (h : Machine.Reachable step init s) (hfreed : s.destructor = .freed)
    (halive : s.lambda ≠ .terminated) :
    (∃ s', Machine.Reachable step s s' ∧ s'.dangling = true) ↔
      s.dangling = true ∨ pending s ≠ [] := by
  constructor
  · rintro ⟨s', ⟨es, hes⟩, hd⟩
    by_contra hnot
    obtain ⟨hsafe, hpending⟩ := not_or.mp hnot
    have hpending := not_not.mp hpending
    have hkept := Machine.exec_inv
      (I := fun x => Machine.Reachable step init x ∧ x.destructor = .freed ∧ pending x = [] ∧
        x.dangling = s.dangling)
      (fun x e x' hI he => by
        obtain ⟨hx, hf, hp, hdx⟩ := hI
        obtain ⟨hf', hp', hd'⟩ := quiet_step hx hf hp he
        exact ⟨hx.next he, hf', hp', hd'.trans hdx⟩)
      ⟨h, hfreed, hpending, rfl⟩ hes
    exact hsafe (hkept.2.2.2.symm.trans hd)
  · rintro (hd | hpending)
    · exact ⟨s, .refl s, hd⟩
    · have hwork : ∀ x, LeftOver x ∨ x.dangling = true → x.dangling ≠ true →
          ∃ e x', workers e ∧ step x e = some x' ∧ (LeftOver x' ∨ x'.dangling = true) ∧
            toDangling x' < toDangling x := by
        intro x hx hsafe
        obtain ⟨e, x', hw, he, hx'⟩ := (hx.resolve_right hsafe).steps
        refine ⟨e, x', hw, he, ?_⟩
        have hpos := steps_pos x
        simp only [toDangling, hsafe, Bool.false_eq_true, if_false]
        rcases hx' with hd | ⟨hleft, hlt⟩
        · exact ⟨.inr hd, by simpa [hd] using hpos⟩
        · refine ⟨.inl hleft, ?_⟩
          split
          · exact hpos
          · exact hlt
      obtain ⟨es, s', _, hexec, _, hgoal, _⟩ :=
        Machine.reaches hwork (.inl ⟨h, hfreed, halive, hpending⟩)
      exact ⟨s', ⟨es, hexec⟩, hgoal⟩

/-- The channel is freed with a frame in the queue. -/
theorem dangling_threeBytes : ∃ s, Machine.Reachable step init s ∧ s.destructor = .freed ∧
    s.dangling = false ∧ ∃ s', Machine.Reachable step s s' ∧ s'.dangling = true := by
  have hrun : ∃ s, Machine.exec step init (readsFrame ++ destroys) = some s ∧
      s.destructor = .freed ∧ s.lambda = .idle ∧ s.dangling = false ∧
      pending s = [[0x0a, 0x0b, 0x0c]] := ⟨_, rfl, rfl, rfl, rfl, rfl⟩
  obtain ⟨s, hexec, hfreed, hidle, hsafe, hpending⟩ := hrun
  have hreach : Machine.Reachable step init s := ⟨_, hexec⟩
  have halive : s.lambda ≠ .terminated := by rw [hidle]; simp
  have hleft : pending s ≠ [] := by rw [hpending]; simp
  exact ⟨s, hreach, hfreed, hsafe, (dangling_iff hreach hfreed halive).mpr (.inr hleft)⟩

end Receive

end Imp
end IqrfSpiChannel
end ClibDpa
