import ClibDpa.Serial

/-!
# ClibDpa.Callers

The threads that use the handler from outside: which calls of the queue they make, and when. Only a
thread in the destructor stops the queue, and `delete` of the queue returns once the worker has
exited.

* `Moves` / `step_moves` — what a step does to the callers and to the queue.
* `CallersOk`            — the invariant, in every reachable state.
-/

namespace ClibDpa

/-! ## The calls of the queue -/

namespace TaskQueue

variable {α : Type}

/-- The thread is in a call that stops the queue. -/
def ClientPc.stopping : ClientPc α → Bool
  | .returned _ => false
  | .entered c | .leaving c _ | .notifying c _ => c.stops
  | .joining => true

/-- The thread is in the destructor of the queue. -/
def ClientPc.destroying : ClientPc α → Bool
  | .entered .destroy | .leaving .destroy _ | .notifying .destroy _ | .joining => true
  | _ => false

section Step

variable {s s' : State α}

theorem wakeUp_exited (s : State α) : (wakeUp s).pc = .exited ↔ s.pc = .exited := by
  unfold wakeUp
  split
  · rename_i hpc
    simp [hpc]
  · exact Iff.rfl

theorem wakeUp_client (s : State α) : (wakeUp s).client = s.client := by
  unfold wakeUp
  split <;> rfl

/-- The worker exits only when it was told to, and then it is gone. -/
theorem workerStep_exited (he : workerStep s = some s') :
    s.pc ≠ .exited ∧ (s'.pc = .exited → s.runWorkerThread = false) := by
  unfold workerStep lckLock lckUnlock at he
  split at he
  case h_1 hpc =>
    refine ⟨by rw [hpc]; nofun, ?_⟩
    split at he
    · cases he
      nofun
    · rename_i hrun
      exact fun _ => Bool.eq_false_iff.mpr hrun
  case h_14 => cases he
  all_goals
    rename_i hpc
    refine ⟨by rw [hpc]; nofun, ?_⟩
    (repeat' split at he) <;> cases he <;> nofun

theorem callStep_client {t : Nat} {c : Call α} (he : callStep s t c = some s') :
    (∃ retval, s.client t = .returned retval) ∧ s.mutex = none ∧
      s'.client = Function.update s.client t (.entered c) ∧ s'.mutex = some (.client t) ∧
      s'.runWorkerThread = s.runWorkerThread := by
  unfold callStep at he
  split at he
  · rename_i retval hidle hfree
    cases he
    exact ⟨⟨retval, hidle⟩, hfree, rfl, rfl, rfl⟩
  · cases he

/-- What a step of the queue that is not a call keeps. -/
structure Inside (s s' : State α) : Prop where
  stopping : ∀ t, (s'.client t).stopping = true → (s.client t).stopping = true
  destroying : ∀ t, (s.client t).destroying = true →
    (s'.client t).destroying = true ∨ s.pc = .exited
  run : s'.runWorkerThread = false →
    s.runWorkerThread = false ∨ ∃ t, (s.client t).stopping = true
  exits : s'.pc = .exited → s.pc = .exited ∨ s.runWorkerThread = false
  exited : s.pc = .exited → s'.pc = .exited
  pushed : s'.pushed = s.pushed

theorem Inside.of_client {t : Nat} {pc : ClientPc α}
    (hclient : s'.client = Function.update s.client t pc)
    (hpc : s'.pc = .exited ↔ s.pc = .exited)
    (hstop : pc.stopping = true → (s.client t).stopping = true)
    (hdestroy : (s.client t).destroying = true → pc.destroying = true ∨ s.pc = .exited)
    (hrun : s'.runWorkerThread = false →
      s.runWorkerThread = false ∨ (s.client t).stopping = true)
    (hpushed : s'.pushed = s.pushed) : Inside s s' where
  stopping := by
    rw [hclient]
    exact Machine.update_rel (R := fun x y : ClientPc α => y.stopping = true → x.stopping = true)
      (fun _ => id) hstop
  destroying := by
    rw [hclient]
    exact Machine.update_rel
      (R := fun x y : ClientPc α => x.destroying = true → y.destroying = true ∨ s.pc = .exited)
      (fun _ => .inl) hdestroy
  run := fun h => (hrun h).imp_right fun hs => ⟨t, hs⟩
  exits := fun h => .inl (hpc.mp h)
  exited := hpc.mpr
  pushed := hpushed

theorem clientStep_inside {t : Nat} (he : clientStep s t = some s') : Inside s s' := by
  unfold clientStep at he
  split at he
  · cases he
  · rename_i c hc
    cases he
    cases c with
    | pushToQueue task =>
      refine .of_client (t := t) rfl Iff.rfl (fun h => by cases h) ?_ .inl rfl
      rw [hc]
      exact fun h => by cases h
    | stopQueue =>
      refine .of_client (t := t) rfl Iff.rfl ?_ ?_ (fun _ => .inr ?_) rfl
      · rw [hc]
        exact id
      · rw [hc]
        exact fun h => by cases h
      · rw [hc]
        rfl
    | size =>
      refine .of_client (t := t) rfl Iff.rfl (fun h => by cases h) ?_ .inl rfl
      rw [hc]
      exact fun h => by cases h
    | destroy =>
      refine .of_client (t := t) rfl Iff.rfl ?_ (fun _ => .inl rfl) (fun _ => .inr ?_) rfl
      · rw [hc]
        exact id
      · rw [hc]
        rfl
  · rename_i c retval hc
    cases he
    refine .of_client (t := t) rfl Iff.rfl ?_ ?_ .inl rfl
    · rw [hc]
      cases c <;> exact id
    · rw [hc]
      cases c with
      | destroy => exact fun _ => .inl rfl
      | _ => exact fun h => by cases h
  · rename_i c retval hc
    cases he
    have hrun : (wakeUp s).runWorkerThread = s.runWorkerThread := by unfold wakeUp; split <;> rfl
    refine .of_client (t := t) (by rw [← wakeUp_client s]; rfl) (wakeUp_exited s) ?_ ?_
      (fun h => .inl (hrun ▸ h)) (wakeUp_frame s).2.1
    · rw [hc]
      cases c <;> first | exact id | exact fun h => by cases h
    · rw [hc]
      cases c with
      | destroy => exact fun _ => .inl rfl
      | _ => exact fun h => by cases h
  · rename_i hc
    split at he
    · rename_i hpc
      cases he
      exact .of_client (t := t) rfl Iff.rfl (fun h => by cases h) (fun _ => .inr hpc) .inl rfl
    · cases he

theorem step_inside {e : Event α} (hne : ∀ t c, e ≠ .call t c) (he : step s e = some s') :
    Inside s s' := by
  cases e with
  | worker =>
    obtain ⟨hclient, hrun, hpushed⟩ := workerStep_frame he
    obtain ⟨hpc, hexit⟩ := workerStep_exited he
    refine ⟨fun t h => hclient ▸ h, fun t h => .inl (hclient.symm ▸ h), fun h => .inl (hrun ▸ h),
      fun h => .inr (hexit h), fun h => absurd h hpc, hpushed⟩
  | spurious =>
    simp only [step] at he
    split at he
    · rename_i hpc
      cases he
      simp only [wakeUp, hpc]
      exact ⟨fun _ => id, fun _ => .inl, .inl, (fun h => by cases h), fun h => by simp [hpc] at h,
        rfl⟩
    · cases he
  | call t c => exact absurd rfl (hne t c)
  | client t => exact clientStep_inside he

end Step

/-- Where everything that was pushed is. -/
theorem pushed_eq {s : State α} (h : Machine.Reachable step init s) :
    s.popped ++ (s.queue ++ inFlight s.mutex s.client) = s.pushed :=
  refines_fifo.ordered inv_init Fifo.ordered_empty h

theorem mem_inFlight {mutex : Option Owner} {client : Nat → ClientPc α} {task : α}
    (h : task ∈ inFlight mutex client) : ∃ t, client t = .entered (.pushToQueue task) := by
  unfold inFlight at h
  split at h
  · rename_i t
    unfold ClientPc.inFlight at h
    split at h
    · rename_i task' hc
      rw [List.mem_singleton.mp h]
      exact ⟨t, hc⟩
    · cases h
  · cases h

end TaskQueue

/-! ## The callers -/

namespace Handler

/-- The calls of the queue that a caller makes, and where it is then. -/
inductive Starts (s : State) (t : Nat) : TaskQueue.Call Nat → CallerPc → Prop where
  | size : s.caller t = .ready → Starts s t .size .ready
  | push {i : Nat} : s.caller t = .constructed i → Starts s t (.pushToQueue i) .ready
  | stopQueue : s.caller t = .stopping → Starts s t .stopQueue .deleting
  | destroy : s.caller t = .deleting → Starts s t .destroy .deleted

/-- What a step does to the callers and to the queue. -/
inductive Moves (s : State) (e : Event) (s' : State) : Prop where
  | call {t : Nat} {c : TaskQueue.Call Nat} {pc : CallerPc} : Starts s t c pc →
      TaskQueue.callStep s.queue t c = some s'.queue →
      s'.caller = Function.update s.caller t pc → Moves s e s'
  | inside {qe : TaskQueue.Event Nat} : TaskQueue.step s.queue qe = some s'.queue →
      (∀ t c, qe ≠ .call t c) → s'.caller = s.caller → Moves s e s'
  | submit {t : Nat} {request : DpaMessage} {timeout : Int32} {err : ErrorCode} :
      e = .executeDpaTransaction t request timeout err → s.caller t = .ready →
      outside s t = true → s' = submit s t request timeout err → Moves s e s'
  | destruct {t : Nat} : e = .destruct t → s.caller t = .ready → outside s t = true →
      s' = destruct s t → Moves s e s'
  | abort {t i : Nat} : e = .caller t → s.caller t = .aborting i →
      s'.caller = Function.update s.caller t .stopping → s'.queue = s.queue → Moves s e s'
  | neither : s'.caller = s.caller → s'.queue = s.queue → Moves s e s'

section Moves

variable {s s' : State}

theorem callerStep_moves {t : Nat} (h : callerStep s t = some s') : Moves s (.caller t) s' := by
  unfold callerStep at h
  split at h
  · cases h
  · rename_i i hc
    obtain ⟨q, hq, rfl⟩ := onQueue_some h
    exact .call (.push hc) hq rfl
  · rename_i i hc
    obtain ⟨o, x, _, _, rfl⟩ := actOn_some h
    exact .abort rfl hc rfl rfl
  · rename_i hc
    obtain ⟨q, hq, rfl⟩ := onQueue_some h
    exact .call (.stopQueue hc) hq rfl
  · rename_i hc
    obtain ⟨q, hq, rfl⟩ := onQueue_some h
    exact .call (.destroy hc) hq rfl
  · cases h

theorem actOn_moves {s1 : State} {e : Event} {i : Nat} {ev : Execution.Event}
    (h : actOn s1 i ev = some s') (hcaller : s1.caller = s.caller) (hqueue : s1.queue = s.queue) :
    Moves s e s' := by
  obtain ⟨_, _, _, _, rfl⟩ := actOn_some h
  exact .neither hcaller hqueue

theorem onQueue_moves {s1 : State} {e : Event} {qe : TaskQueue.Event Nat}
    (h : onQueue s1 qe = some s') (hne : ∀ t c, qe ≠ .call t c)
    (hcaller : s1.caller = s.caller) (hqueue : s1.queue = s.queue) : Moves s e s' := by
  obtain ⟨q, hq, rfl⟩ := onQueue_some h
  exact .inside (hqueue ▸ hq) hne hcaller

theorem setRegistry_moves {e : Event} {r : Option Registry} (h : setRegistry s r = some s') :
    Moves s e s' := by
  unfold setRegistry at h
  split at h
  · cases h
  · cases h
    exact .neither rfl rfl

theorem workerStep_moves (h : workerStep s = some s') : Moves s .worker s' := by
  have hworker : ∀ (t : Nat) (c : TaskQueue.Call Nat), TaskQueue.Event.worker ≠ .call t c :=
    fun _ _ h => by cases h
  unfold workerStep at h
  split at h
  · exact onQueue_moves h hworker rfl rfl
  · exact onQueue_moves h hworker rfl rfl
  · cases h
  · exact onQueue_moves h hworker rfl rfl

theorem functorStep_moves {sendTo : List UInt8 → Except Exc Unit}
    (h : functorStep s sendTo = some s') : Moves s (.functor sendTo) s' := by
  obtain ⟨hqueue, hcaller, _, _⟩ := functorStep_frame h
  exact .neither hcaller hqueue

theorem executionStep_moves {ev : Execution.Event} (h : executionStep s ev = some s') :
    Moves s (.execution ev) s' := by
  unfold executionStep at h
  split at h
  · exact actOn_moves h rfl rfl
  · exact actOn_moves h rfl rfl
  · exact actOn_moves h rfl rfl
  · cases h

theorem receiverStep_moves (h : receiverStep s = some s') : Moves s .receiver s' := by
  unfold receiverStep at h
  split at h
  · cases h
  · split at h
    · cases h
    · cases h
      exact .neither rfl rfl
  · split at h
    · cases h
      exact .neither rfl rfl
    · cases h
      exact .neither rfl rfl
  · exact actOn_moves h rfl rfl
  · cases h

theorem step_moves {e : Event} (h : step s e = some s') : Moves s e s' := by
  cases e with
  | executeDpaTransaction t request timeout err =>
    simp only [step] at h
    split at h
    · rename_i hready
      cases h
      exact .submit rfl hready.1 hready.2 rfl
    · cases h
  | getDpaQueueLen t =>
    simp only [step] at h
    split at h
    · rename_i hready
      obtain ⟨q, hq, rfl⟩ := onQueue_some h
      exact .call (.size hready) hq (by rw [← hready, Function.update_eq_self])
    · cases h
  | destruct t =>
    simp only [step] at h
    split at h
    · rename_i hready
      cases h
      exact .destruct rfl hready.1 hready.2 rfl
    · cases h
  | caller t => exact callerStep_moves h
  | client t =>
    obtain ⟨tx, htx⟩ := noteAhead_fields s t
    rw [step, htx] at h
    exact onQueue_moves h (fun _ _ h => by cases h) rfl rfl
  | worker => exact workerStep_moves h
  | spurious => exact onQueue_moves h (fun _ _ h => by cases h) rfl rfl
  | functor sendTo => exact functorStep_moves h
  | execution ev => exact executionStep_moves h
  | deliver message =>
    obtain ⟨receiver, rfl⟩ := deliver_effect h
    exact .neither rfl rfl
  | receiver => exact receiverStep_moves h
  | abort i => exact actOn_moves h rfl rfl
  | setTimeout timeout =>
    cases h
    exact .neither rfl rfl
  | setRfCommunicationMode rfMode =>
    cases h
    exact .neither rfl rfl
  | setTimingParams params =>
    cases h
    exact .neither rfl rfl
  | registerAsyncMessageHandler serviceId handler => exact setRegistry_moves h
  | unregisterAsyncMessageHandler serviceId => exact setRegistry_moves h
  | registerAnyMessageHandler serviceId handler => exact setRegistry_moves h
  | unregisterAnyMessageHandler serviceId => exact setRegistry_moves h

end Moves

/-- The thread is in the destructor, past its `abort()`, and has called `stopQueue`. -/
def CallerPc.ending : CallerPc → Bool
  | .deleting | .deleted => true
  | _ => false

structure CallersOk (s : State) : Prop where
  stopping : ∀ t, (s.queue.client t).stopping = true → (s.caller t).ending = true
  joined : ∀ t, s.caller t = .deleted →
    (s.queue.client t).destroying = true ∨ s.queue.pc = .exited
  run : s.queue.runWorkerThread = false → ∃ t, (s.caller t).ending = true
  exited : s.queue.pc = .exited → ∃ t, (s.caller t).ending = true

theorem callersOk_init : CallersOk init where
  stopping := fun _ h => by cases h
  joined := fun _ h => by cases h
  run := nofun
  exited := nofun

section CallersOk

variable {s s' : State}

theorem destruct_caller (s : State) (t : Nat) :
    (destruct s t).queue = s.queue ∧ ∃ pc, (destruct s t).caller = Function.update s.caller t pc ∧
      (pc = .stopping ∨ ∃ i, pc = .aborting i) := by
  unfold destruct
  split
  · exact ⟨rfl, _, rfl, .inl rfl⟩
  · exact ⟨rfl, _, rfl, .inr ⟨_, rfl⟩⟩

/-- A thread outside the end of the destructor moves to another such place. -/
theorem CallersOk.outside (h : CallersOk s) {t : Nat} {pc : CallerPc}
    (hqueue : s'.queue = s.queue) (hcaller : s'.caller = Function.update s.caller t pc)
    (hold : (s.caller t).ending = false) (hnew : pc.ending = false) : CallersOk s' := by
  have hsame : ∀ t', (s'.caller t').ending = (s.caller t').ending := by
    rw [hcaller]
    exact Machine.update_rel (R := fun x y : CallerPc => y.ending = x.ending) (fun _ => rfl)
      (hnew.trans hold.symm)
  refine ⟨?_, ?_, ?_, ?_⟩
  · intro t' hs
    rw [hsame, h.stopping t' (hqueue ▸ hs)]
  · intro t' hd
    rw [hqueue]
    refine h.joined t' ?_
    rw [hcaller] at hd
    refine Machine.update_rel (R := fun x y : CallerPc => y = .deleted → x = .deleted)
      (fun _ => id) (fun hpc => ?_) t' hd
    rw [hpc] at hnew
    cases hnew
  · intro hr
    simp only [hsame]
    exact h.run (hqueue ▸ hr)
  · intro hx
    simp only [hsame]
    exact h.exited (hqueue ▸ hx)

theorem Starts.ending {t : Nat} {c : TaskQueue.Call Nat} {pc : CallerPc} (h : Starts s t c pc) :
    (c.stops = true → pc.ending = true) ∧ (pc = .deleted → c = .destroy) ∧
      ((s.caller t).ending = true → pc.ending = true) := by
  cases h with
  | size hc => exact ⟨nofun, nofun, by rw [hc]; nofun⟩
  | push hc => exact ⟨nofun, nofun, by rw [hc]; nofun⟩
  | stopQueue hc => exact ⟨fun _ => rfl, nofun, fun _ => rfl⟩
  | destroy hc => exact ⟨fun _ => rfl, fun _ => rfl, fun _ => rfl⟩

theorem CallersOk.call (h : CallersOk s) {t : Nat} {c : TaskQueue.Call Nat} {pc : CallerPc}
    (hstart : Starts s t c pc) (hq : TaskQueue.callStep s.queue t c = some s'.queue)
    (hcaller : s'.caller = Function.update s.caller t pc) : CallersOk s' := by
  obtain ⟨_, _, hclient, _, hrun⟩ := TaskQueue.callStep_client hq
  obtain ⟨hpc, _, _, _⟩ := TaskQueue.callStep_frame hq
  obtain ⟨hstops, hdeleted, hkept⟩ := hstart.ending
  have hmono : (∃ t', (s.caller t').ending = true) → ∃ t', (s'.caller t').ending = true := by
    rintro ⟨t', ht'⟩
    refine ⟨t', ?_⟩
    rw [hcaller]
    exact Machine.update_rel (R := fun x y : CallerPc => x.ending = true → y.ending = true)
      (fun _ => id) hkept t' ht'
  refine ⟨?_, ?_, fun hr => hmono (h.run (hrun ▸ hr)), fun hx => hmono (h.exited (hpc ▸ hx))⟩
  · intro t' hs
    rw [hclient] at hs
    rw [hcaller]
    by_cases ht : t' = t
    · subst ht
      rw [Function.update_self] at hs ⊢
      exact hstops hs
    · rw [Function.update_of_ne ht] at hs ⊢
      exact h.stopping t' hs
  · intro t' hd
    rw [hcaller] at hd
    rw [hclient, hpc]
    by_cases ht : t' = t
    · subst ht
      rw [Function.update_self] at hd ⊢
      rw [hdeleted hd]
      exact .inl rfl
    · rw [Function.update_of_ne ht] at hd ⊢
      exact h.joined t' hd

theorem callersOk_step {e : Event} (h : CallersOk s) (hm : Moves s e s') : CallersOk s' := by
  cases hm with
  | call hstart hq hcaller => exact h.call hstart hq hcaller
  | inside hq hne hcaller =>
    have hin := TaskQueue.step_inside hne hq
    refine ⟨?_, ?_, ?_, ?_⟩
    · intro t hs
      rw [hcaller]
      exact h.stopping t (hin.stopping t hs)
    · intro t hd
      rw [hcaller] at hd
      rcases h.joined t hd with hj | hx
      · exact (hin.destroying t hj).imp_right hin.exited
      · exact .inr (hin.exited hx)
    · intro hr
      rw [hcaller]
      rcases hin.run hr with hr | ⟨t, hs⟩
      · exact h.run hr
      · exact ⟨t, h.stopping t hs⟩
    · intro hx
      rw [hcaller]
      exact (hin.exits hx).elim h.exited h.run
  | @submit t request timeout err _ hready _ hs =>
    have hqueue := submit_queue s t request timeout err
    rcases submit_caller s t request timeout err with hc | hc
    · subst hs
      refine ⟨?_, ?_, ?_, ?_⟩ <;> rw [hqueue, hc]
      · exact h.stopping
      · exact h.joined
      · exact h.run
      · exact h.exited
    · subst hs
      exact h.outside hqueue hc (by rw [hready]; rfl) rfl
  | @destruct t _ hready _ hs =>
    subst hs
    obtain ⟨hqueue, pc, hc, hpc⟩ := destruct_caller s t
    refine h.outside hqueue hc (by rw [hready]; rfl) ?_
    rcases hpc with rfl | ⟨i, rfl⟩ <;> rfl
  | abort _ hold hcaller hqueue => exact h.outside hqueue hcaller (by rw [hold]; rfl) rfl
  | neither hcaller hqueue =>
    refine ⟨?_, ?_, ?_, ?_⟩ <;> rw [hqueue, hcaller]
    · exact h.stopping
    · exact h.joined
    · exact h.run
    · exact h.exited

theorem callersOk_reachable (h : Machine.Reachable step init s) : CallersOk s :=
  h.inv (fun _ _ _ hI he => callersOk_step hI (step_moves he)) callersOk_init

end CallersOk

end Handler

end ClibDpa
