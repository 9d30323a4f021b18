import ClibDpa.Callers

/-!
# ClibDpa.Orphan

Where the transactions are that `executeDpaTransaction` has returned. One with a request that is
not empty has been pushed, so it waits in the queue, or the worker has it, or it has finished. One
with an empty request is returned at once: no `execute()` of it will ever be called.

* `Placed`         — the invariant: what is pushed is what has a request.
* `returned_accounted_iff` — the exact condition for one returned transaction.
* `no_orphan_iff`  — the same over runs, while the destructor has not begun.
-/

namespace ClibDpa
namespace Handler

/-- A thread in the destructor. -/
def CallerPc.destructing : CallerPc → Bool
  | .aborting _ | .stopping | .deleting | .deleted => true
  | .ready | .constructed _ => false

/-- The destructor has not begun. -/
def Live (s : State) : Prop := ∀ t, (s.caller t).destructing = false

/-- The thread is in the call of `pushToQueue` with this transaction. -/
def pushing (i : Nat) : TaskQueue.ClientPc Nat → Prop
  | .entered c => c = .pushToQueue i
  | .leaving c _ => c = .pushToQueue i
  | .notifying c _ => c = .pushToQueue i
  | _ => False

/-- `executeDpaTransaction` has returned the transaction. -/
structure Returned (s : State) (i : Nat) : Prop where
  known : s.tx i ≠ none
  pushed : ∀ t, s.caller t ≠ .constructed i ∧ ¬ pushing i (s.queue.client t)

/-- It waits in the queue, or the worker has it, or it has finished with its code stored. -/
inductive Accounted (s : State) (i : Nat) : Prop where
  | waiting : i ∈ s.queue.queue → Accounted s i
  | executed : i ∈ TaskQueue.inHand s.queue.pc ∨ i ∈ s.functor.current → Accounted s i
  | finished {o : Submission} : s.tx i = some o → o.exec.tr.isFinished = true → Accounted s i

/-- The worker is there for what waits. -/
structure Working (s : State) : Prop where
  run : s.queue.runWorkerThread = true
  exited : s.queue.pc ≠ .exited
  error : s.queue.pc ≠ .error

/-! ## What is pushed -/

structure Placed (s : State) : Prop where
  request : ∀ i o, s.tx i = some o → 0 < o.request.getLength →
    i ∈ s.queue.pushed ∨ ∃ t, s.caller t = .constructed i
  pushed : ∀ i ∈ s.queue.pushed, ∃ o, s.tx i = some o ∧ 0 < o.request.getLength
  constructed : ∀ t i, s.caller t = .constructed i →
    ∃ o, s.tx i = some o ∧ 0 < o.request.getLength

theorem placed_init : Placed init where
  request := fun _ _ h => by cases h
  pushed := nofun
  constructed := fun _ _ h => by cases h

section Placed

variable {s s' : State}

/-- Every transaction keeps its request. -/
structure SameRequests (s s' : State) : Prop where
  forward : ∀ i o, s.tx i = some o → ∃ o', s'.tx i = some o' ∧ o'.request = o.request
  backward : ∀ i o', s'.tx i = some o' → ∃ o, s.tx i = some o ∧ o'.request = o.request

theorem request_forward {e : Event} (hb : Base s) (he : step s e = some s') {i : Nat}
    {o : Submission} (ho : s.tx i = some o) :
    ∃ o', s'.tx i = some o' ∧ o'.request = o.request := by
  have htx := step_tx hb (step_effect he) i
  rw [ho] at htx
  generalize hnew : s'.tx i = new at htx
  cases htx with
  | same => exact ⟨o, rfl, rfl⟩
  | ahead _ _ => exact ⟨_, rfl, rfl⟩
  | execute _ _ _ => exact ⟨_, rfl, rfl⟩
  | act _ _ => exact ⟨_, rfl, rfl⟩

theorem sameRequests_step {e : Event} (hb : Base s)
    (hne : ∀ t request timeout err, e ≠ .executeDpaTransaction t request timeout err)
    (he : step s e = some s') : SameRequests s s' := by
  constructor
  · exact fun i o ho => request_forward hb he ho
  · intro i o' ho'
    have htx := step_tx hb (step_effect he) i
    rw [ho'] at htx
    generalize hold : s.tx i = old at htx
    cases htx with
    | same => exact ⟨o', rfl, rfl⟩
    | submit hev _ => exact absurd hev (hne _ _ _ _)
    | ahead _ _ => exact ⟨_, rfl, rfl⟩
    | execute _ _ _ => exact ⟨_, rfl, rfl⟩
    | act _ _ => exact ⟨_, rfl, rfl⟩

theorem placed_submit (hb : Base s) (h : Placed s) {t : Nat} {request : DpaMessage}
    {timeout : Int32} {err : ErrorCode} (hready : s.caller t = .ready) :
    Placed (submit s t request timeout err) := by
  have htx := submit_tx s t request timeout err
  have hqueue := submit_queue s t request timeout err
  have hfresh : s.tx s.count = none := hb.fresh s.count (Nat.le_refl _)
  -- a transaction that is known is not the new one
  have hold : ∀ {i : Nat} {o : Submission}, s.tx i = some o →
      (submit s t request timeout err).tx i = some o := by
    intro i o ho
    rw [htx, Function.update_of_ne, ho]
    rintro rfl
    rw [hfresh] at ho
    cases ho
  have hcaller : ∀ t' i, s.caller t' = .constructed i →
      (submit s t request timeout err).caller t' = .constructed i := by
    intro t' i hc
    unfold submit
    split
    · exact hc
    · refine (Function.update_of_ne ?_ _ _).trans hc
      rintro rfl
      rw [hready] at hc
      cases hc
  refine ⟨?_, ?_, ?_⟩
  · intro i o ho hlen
    rw [hqueue]
    by_cases hi : i = s.count
    · subst hi
      rw [htx, Function.update_self] at ho
      cases ho
      have hpos : ¬ request.getLength ≤ 0 := by simpa [construct] using hlen
      exact .inr ⟨t, by simp [submit, if_neg hpos, setCaller]⟩
    · rw [htx, Function.update_of_ne hi] at ho
      rcases h.request i o ho hlen with hp | ⟨t', hc⟩
      · exact .inl hp
      · exact .inr ⟨t', hcaller t' i hc⟩
  · intro i hi
    rw [hqueue] at hi
    obtain ⟨o, ho, hlen⟩ := h.pushed i hi
    exact ⟨o, hold ho, hlen⟩
  · intro t' i hc
    by_cases hcold : s.caller t' = .constructed i
    · obtain ⟨o, ho, hlen⟩ := h.constructed t' i hcold
      exact ⟨o, hold ho, hlen⟩
    · unfold submit at hc
      split at hc
      · exact absurd hc hcold
      · rename_i hpos
        by_cases ht : t' = t
        · subst ht
          simp only [setCaller, Function.update_self, CallerPc.constructed.injEq] at hc
          subst hc
          exact ⟨_, by rw [htx, Function.update_self], by simpa [construct] using hpos⟩
        · exact absurd ((Function.update_of_ne ht _ _).symm.trans hc) hcold

/-- Apart from `executeDpaTransaction`, what a thread no longer has to push was pushed. -/
theorem Placed.frame (h : Placed s) (hsame : SameRequests s s')
    (hpushed : ∀ i, i ∈ s'.queue.pushed ↔
      i ∈ s.queue.pushed ∨ ∃ t, s.caller t = .constructed i ∧ s'.caller t ≠ .constructed i)
    (hcaller : ∀ t i, s'.caller t = .constructed i → s.caller t = .constructed i) : Placed s' := by
  refine ⟨?_, ?_, ?_⟩
  · intro i o' ho' hlen
    obtain ⟨o, ho, hreq⟩ := hsame.backward i o' ho'
    rw [hreq] at hlen
    rcases h.request i o ho hlen with hp | ⟨t, hc⟩
    · exact .inl ((hpushed i).mpr (.inl hp))
    · by_cases hc' : s'.caller t = .constructed i
      · exact .inr ⟨t, hc'⟩
      · exact .inl ((hpushed i).mpr (.inr ⟨t, hc, hc'⟩))
  · intro i hi
    have hknown : ∃ o, s.tx i = some o ∧ 0 < o.request.getLength := by
      rcases (hpushed i).mp hi with hp | ⟨t, hc, _⟩
      · exact h.pushed i hp
      · exact h.constructed t i hc
    obtain ⟨o, ho, hlen⟩ := hknown
    obtain ⟨o', ho', hreq⟩ := hsame.forward i o ho
    exact ⟨o', ho', hreq ▸ hlen⟩
  · intro t i hc
    obtain ⟨o, ho, hlen⟩ := h.constructed t i (hcaller t i hc)
    obtain ⟨o', ho', hreq⟩ := hsame.forward i o ho
    exact ⟨o', ho', hreq ▸ hlen⟩

/-- One thread moves on, and pushes what it constructed. -/
theorem Placed.move (h : Placed s) (hsame : SameRequests s s') {t : Nat} {pc : CallerPc}
    (hcaller : s'.caller = Function.update s.caller t pc) (hpc : ∀ i, pc ≠ .constructed i)
    {pushes : List Nat} (hpushed : s'.queue.pushed = s.queue.pushed ++ pushes)
    (hpushes : ∀ i, i ∈ pushes ↔ s.caller t = .constructed i) : Placed s' := by
  refine h.frame hsame (fun i => ?_) (fun t' i hc => fewer_update hpc t' i (hcaller ▸ hc))
  rw [hpushed, List.mem_append, hpushes]
  refine or_congr_right ⟨fun hc => ⟨t, hc, ?_⟩, fun ⟨t', hc, hc'⟩ => ?_⟩
  · rw [hcaller, Function.update_self]
    exact hpc i
  · by_cases ht : t' = t
    · exact ht ▸ hc
    · rw [hcaller, Function.update_of_ne ht] at hc'
      exact absurd hc hc'

theorem Placed.same (h : Placed s) (hsame : SameRequests s s') (hcaller : s'.caller = s.caller)
    (hpushed : s'.queue.pushed = s.queue.pushed) : Placed s' := by
  refine h.frame hsame (fun i => ?_) (fun t i hc => hcaller ▸ hc)
  rw [hpushed, hcaller]
  exact ⟨.inl, fun hp => hp.resolve_right fun ⟨_, hc, hc'⟩ => hc' hc⟩

theorem placed_step {e : Event} (hb : Base s) (h : Placed s) (he : step s e = some s') :
    Placed s' := by
  by_cases hsub : ∃ t request timeout err, e = .executeDpaTransaction t request timeout err
  · obtain ⟨t, request, timeout, err, rfl⟩ := hsub
    simp only [step] at he
    split at he
    · rename_i hready
      cases he
      exact placed_submit hb h hready.1
    · cases he
  · have hne : ∀ t request timeout err, e ≠ .executeDpaTransaction t request timeout err :=
      fun t request timeout err heq => hsub ⟨t, request, timeout, err, heq⟩
    have hsame := sameRequests_step hb hne he
    cases step_moves he with
    | @call t c pc hstart hq hcaller =>
      obtain ⟨_, _, _, hpushed⟩ := TaskQueue.callStep_frame hq
      have hpc : ∀ i, pc ≠ .constructed i := by
        intro i hi
        subst hi
        cases hstart
      cases hstart with
      | size hc =>
        exact h.move hsame hcaller hpc hpushed fun i => by simp [hc, TaskQueue.Call.pushes]
      | push hc =>
        refine h.move hsame hcaller hpc hpushed fun i => ?_
        rw [hc]
        simp [TaskQueue.Call.pushes, eq_comm]
      | stopQueue hc =>
        exact h.move hsame hcaller hpc hpushed fun i => by simp [hc, TaskQueue.Call.pushes]
      | destroy hc =>
        exact h.move hsame hcaller hpc hpushed fun i => by simp [hc, TaskQueue.Call.pushes]
    | inside hq hqe hcaller =>
      exact h.same hsame hcaller (TaskQueue.step_inside hqe hq).pushed
    | submit hev _ _ _ => exact absurd hev (hne _ _ _ _)
    | @destruct t _ hready _ hs =>
      subst hs
      obtain ⟨hqueue, pc, hcaller, hpc⟩ := destruct_caller s t
      have hpushed : (destruct s t).queue.pushed = s.queue.pushed ++ [] := by
        rw [hqueue, List.append_nil]
      refine h.move hsame hcaller ?_ hpushed fun i => by simp [hready]
      rintro i rfl
      rcases hpc with hpc | ⟨_, hpc⟩ <;> cases hpc
    | abort _ hc hcaller hqueue =>
      have hpushed : s'.queue.pushed = s.queue.pushed ++ [] := by rw [hqueue, List.append_nil]
      exact h.move hsame hcaller (fun _ h => by cases h) hpushed fun i => by simp [hc]
    | neither hcaller hqueue => exact h.same hsame hcaller (by rw [hqueue])

theorem placed_reachable (h : Machine.Reachable step init s) : Placed s := by
  have hinv : Base s ∧ Placed s := by
    refine h.inv (I := fun s => Base s ∧ Placed s) ?_ ⟨base_init, placed_init⟩
    rintro s e s' ⟨hb, hp⟩ he
    exact ⟨base_step hb (step_effect he), placed_step hb hp he⟩
  exact hinv.2

end Placed

/-! ## No orphan with a request -/

section Orphan

variable {s : State} {i : Nat}

/-- The worker's part of what was popped. -/
theorem popped_accounted (hok : Ok s) (hi : i ∈ s.queue.popped) : Accounted s i := by
  obtain ⟨pre, hs⟩ := hok.serial
  rw [(TaskQueue.inv_reachable hok.base.queue).given] at hi
  rcases List.mem_append.mp hi with hg | hh
  · rw [hs.given] at hg
    rcases List.mem_append.mp hg with hp | hc
    · obtain ⟨o, ho, hpc⟩ := hs.finished i hp
      exact .finished ho ((hok.tx i o ho).wf.finished_iff.mpr hpc)
    · exact .executed (.inr hc)
  · exact .executed (.inl hh)

theorem pushed_accounted (hok : Ok s) (hret : Returned s i) (hi : i ∈ s.queue.pushed) :
    Accounted s i := by
  rw [← TaskQueue.pushed_eq hok.base.queue] at hi
  rcases List.mem_append.mp hi with hp | hw
  · exact popped_accounted hok hp
  · rcases List.mem_append.mp hw with hq | hf
    · exact .waiting hq
    · obtain ⟨t, hc⟩ := TaskQueue.mem_inFlight hf
      exact absurd (by rw [hc]; rfl) (hret.pushed t).2

/-- What is accounted for was pushed. -/
theorem Accounted.pushed (hok : Ok s) (h : Accounted s i) : i ∈ s.queue.pushed := by
  obtain ⟨pre, hs⟩ := hok.serial
  have hpushed := TaskQueue.pushed_eq hok.base.queue
  have hgiven := (TaskQueue.inv_reachable hok.base.queue).given
  have hpopped : i ∈ s.queue.popped → i ∈ s.queue.pushed := fun hp => by
    rw [← hpushed]
    exact List.mem_append_left _ hp
  have hpart : i ∈ pre ++ s.functor.current → i ∈ s.queue.pushed := fun hp => by
    refine hpopped ?_
    rw [hgiven, hs.given]
    exact List.mem_append_left _ hp
  cases h with
  | waiting hq =>
    rw [← hpushed]
    exact List.mem_append_right _ (List.mem_append_left _ hq)
  | executed he =>
    rcases he with hh | hc
    · refine hpopped ?_
      rw [hgiven]
      exact List.mem_append_right _ hh
    · exact hpart (List.mem_append_right _ hc)
  | @finished o ho hf =>
    have hpc := (hok.tx i o ho).wf.finished_iff.mp hf
    have hne : o.exec.pc ≠ .idle := by rw [hpc]; exact Execution.ExecPc.noConfusion
    rcases List.mem_append.mp ((hs.entered i o ho).mp hne) with hp | hr
    · exact hpart (List.mem_append_left _ hp)
    · exact hpart (List.mem_append_right _ (FunctorPc.running_subset hr))

theorem working_of_live (h : Machine.Reachable step init s) (hlive : Live s) : Working s := by
  have hcallers := callersOk_reachable h
  have hnone : ¬ ∃ t, (s.caller t).ending = true := by
    rintro ⟨t, ht⟩
    have hl := hlive t
    cases hc : s.caller t <;> rw [hc] at ht hl <;> cases ht <;> cases hl
  refine ⟨?_, fun hx => hnone (hcallers.exited hx), ?_⟩
  · by_contra hr
    exact hnone (hcallers.run (Bool.eq_false_iff.mpr hr))
  · exact (TaskQueue.never_relocked (base_reachable h).queue).2

theorem pushing_step {q q' : TaskQueue.State Nat} {e : TaskQueue.Event Nat}
    (hne : ∀ t c, e ≠ .call t c) (he : TaskQueue.step q e = some q') {t : Nat}
    (hp : pushing i (q'.client t)) : pushing i (q.client t) := by
  cases e with
  | worker => rwa [(TaskQueue.workerStep_frame he).1] at hp
  | spurious =>
    simp only [TaskQueue.step] at he
    split at he
    · cases he
      rwa [TaskQueue.wakeUp_client] at hp
    · cases he
  | call t c => exact absurd rfl (hne t c)
  | client t' =>
    have hupdate : ∀ {p : TaskQueue.ClientPc Nat}, q'.client = Function.update q.client t' p →
        (pushing i p → pushing i (q.client t')) → pushing i (q.client t) := by
      intro p hclient hpc
      rw [hclient] at hp
      exact Machine.update_rel (R := fun x y => pushing i y → pushing i x) (fun _ => id) hpc t hp
    simp only [TaskQueue.step, TaskQueue.clientStep] at he
    split at he
    · cases he
    · rename_i c hc
      cases he
      refine hupdate (p := .leaving c (TaskQueue.body q c).2) ?_ (by rw [hc]; exact id)
      cases c <;> rfl
    · rename_i c retval hc
      cases he
      refine hupdate rfl ?_
      rw [hc]
      split
      · exact id
      · exact False.elim
    · rename_i c retval hc
      cases he
      refine hupdate (by rw [← TaskQueue.wakeUp_client q]; rfl) ?_
      split <;> exact False.elim
    · split at he
      · cases he
        exact hupdate rfl False.elim
      · cases he

/-- A thread in the call of `pushToQueue` has pushed. -/
theorem pushing_pushed {q : TaskQueue.State Nat}
    (h : Machine.Reachable TaskQueue.step TaskQueue.init q) {t : Nat}
    (hp : pushing i (q.client t)) : i ∈ q.pushed := by
  have hinv : ∀ t, pushing i (q.client t) → i ∈ q.pushed := by
    refine h.inv (I := fun q => ∀ t, pushing i (q.client t) → i ∈ q.pushed) ?_ nofun
    intro q e q' hI he t hp
    by_cases hcall : ∃ t' c, e = .call t' c
    · obtain ⟨t', c, rfl⟩ := hcall
      obtain ⟨_, _, hclient, _, _⟩ := TaskQueue.callStep_client he
      obtain ⟨_, _, _, hpushed⟩ := TaskQueue.callStep_frame he
      rw [hpushed, List.mem_append]
      rw [hclient] at hp
      by_cases ht : t = t'
      · rw [ht, Function.update_self] at hp
        subst hp
        exact .inr (List.mem_singleton_self i)
      · rw [Function.update_of_ne ht] at hp
        exact .inl (hI t hp)
    · have hne : ∀ t' c, e ≠ .call t' c := fun t' c heq => hcall ⟨t', c, heq⟩
      rw [(TaskQueue.step_inside hne he).pushed]
      exact hI t (pushing_step hne he hp)
  exact hinv t hp

/-- A request that is not empty is the exact condition, transaction by transaction. -/
theorem returned_accounted_iff (h : Machine.Reachable step init s) {o : Submission}
    (ho : s.tx i = some o) (hret : Returned s i) : Accounted s i ↔ 0 < o.request.getLength := by
  have hok := ok_reachable h
  have hplaced := placed_reachable h
  constructor
  · intro hacc
    obtain ⟨o', ho', hlen⟩ := hplaced.pushed i (hacc.pushed hok)
    cases ho.symm.trans ho'
    exact hlen
  · intro hlen
    rcases hplaced.request i o ho hlen with hp | ⟨t, hc⟩
    · exact pushed_accounted hok hret hp
    · exact absurd hc (hret.pushed t).1

/-- An empty request is never executed, whatever the handler does from then on. -/
theorem orphan_for_good (h : Machine.Reachable step init s) {o : Submission}
    (ho : s.tx i = some o) (hempty : ¬ 0 < o.request.getLength) {s' : State}
    (h' : Machine.Reachable step s s') :
    ∃ o', s'.tx i = some o' ∧ o'.exec.tr.isFinished = false ∧ ¬ Accounted s' i := by
  have hinv : Machine.Reachable step init s' ∧
      ∃ o', s'.tx i = some o' ∧ ¬ 0 < o'.request.getLength := by
    refine h'.inv (I := fun s' => Machine.Reachable step init s' ∧
      ∃ o', s'.tx i = some o' ∧ ¬ 0 < o'.request.getLength) ?_ ⟨h, o, ho, hempty⟩
    rintro s1 e s2 ⟨hr, o1, ho1, hlen⟩ he
    obtain ⟨o2, ho2, hreq⟩ := request_forward (base_reachable hr) he ho1
    exact ⟨hr.next he, o2, ho2, hreq ▸ hlen⟩
  obtain ⟨hr, o', ho', hlen⟩ := hinv
  have hnot : ¬ Accounted s' i := by
    intro hacc
    obtain ⟨o1, ho1, hpos⟩ := (placed_reachable hr).pushed i (hacc.pushed (ok_reachable hr))
    cases ho'.symm.trans ho1
    exact hlen hpos
  refine ⟨o', ho', ?_, hnot⟩
  by_contra hf
  exact hnot (.finished ho' (by simpa using hf))

end Orphan

/-! ## Runs -/

/-- Every transaction that was returned is accounted for, and the worker is there. -/
def NoOrphan (s : State) : Prop :=
  Live s → Working s ∧ ∀ i, Returned s i → Accounted s i

/-- A live handler is given no empty request. -/
def NotEmpty (s : State) (e : Event) : Prop :=
  Live s → ∀ t request timeout err, e = .executeDpaTransaction t request timeout err →
    0 < request.getLength

section Runs

variable {s s' : State}

/-- The destructor does not end. -/
theorem live_before {e : Event} (he : step s e = some s') (hlive : Live s') : Live s := by
  have hupdate : ∀ {t : Nat} {pc : CallerPc}, s'.caller = Function.update s.caller t pc →
      (pc.destructing = false → (s.caller t).destructing = false) → Live s := by
    intro t pc hcaller hpc t'
    have hl := hlive t'
    rw [hcaller] at hl
    exact Machine.update_rel
      (R := fun x y : CallerPc => y.destructing = false → x.destructing = false)
      (fun _ => id) hpc t' hl
  cases step_moves he with
  | @call t c pc hstart _ hcaller =>
    refine hupdate hcaller fun hpc => ?_
    cases hstart with
    | size hc => rw [hc]; rfl
    | push hc => rw [hc]; rfl
    | stopQueue _ => cases hpc
    | destroy _ => cases hpc
  | inside _ _ hcaller => exact fun t => hcaller ▸ hlive t
  | @submit t request timeout err _ hready _ hs =>
    subst hs
    rcases submit_caller s t request timeout err with hc | hc
    · exact fun t' => hc ▸ hlive t'
    · exact hupdate hc fun _ => by rw [hready]; rfl
  | @destruct t _ hready _ hs =>
    subst hs
    obtain ⟨_, pc, hc, _⟩ := destruct_caller s t
    exact hupdate hc fun _ => by rw [hready]; rfl
  | abort _ hc hcaller _ => exact hupdate hcaller nofun
  | neither hcaller _ => exact fun t => hcaller ▸ hlive t

/-- In a live handler every transaction has a request. -/
structure Requested (s : State) : Prop where
  reachable : Machine.Reachable step init s
  request : Live s → ∀ i o, s.tx i = some o → 0 < o.request.getLength

theorem requested_init : Requested init := ⟨.refl _, fun _ _ _ h => by cases h⟩

theorem requested_step {e : Event} (h : Requested s) (hC : NotEmpty s e)
    (he : step s e = some s') : Requested s' := by
  refine ⟨h.reachable.next he, fun hlive i o' ho' => ?_⟩
  have hbefore := live_before he hlive
  have htx := step_tx (base_reachable h.reachable) (step_effect he) i
  rw [ho'] at htx
  generalize hold : s.tx i = old at htx
  cases htx with
  | same => exact h.request hbefore i o' hold
  | submit hev _ => exact hC hbefore _ _ _ _ hev
  | ahead _ _ => exact (h.request hbefore i _ hold :)
  | execute _ _ _ => exact (h.request hbefore i _ hold :)
  | act _ _ => exact (h.request hbefore i _ hold :)

theorem Requested.noOrphan (h : Requested s) : NoOrphan s := by
  refine fun hlive => ⟨working_of_live h.reachable hlive, fun i hret => ?_⟩
  obtain ⟨o, ho⟩ := Option.ne_none_iff_exists'.mp hret.known
  exact (returned_accounted_iff h.reachable ho hret).mpr (h.request hlive i o ho)

/-- An empty request is returned at once, to nobody. -/
theorem empty_orphan {e : Event} (h : Requested s) (hn : ¬ NotEmpty s e)
    (he : step s e = some s') : ¬ NoOrphan s' := by
  simp only [NotEmpty, not_forall] at hn
  obtain ⟨hlive, t, request, timeout, err, rfl, hempty⟩ := hn
  have hr' := h.reachable.next he
  have hs : s' = submit s t request timeout err := by
    simp only [step] at he
    split at he
    · exact (Option.some.inj he).symm
    · cases he
  have hqueue : s'.queue = s.queue := hs ▸ submit_queue s t request timeout err
  have hcaller : s'.caller = s.caller := by
    rw [hs, submit, if_pos (not_lt.mp hempty)]
    rfl
  have hnew : s'.tx s.count = some (construct s request timeout err) := by
    rw [hs, submit_tx, Function.update_self]
  have hpushes := (ok_reachable h.reachable).pushes
  have hret : Returned s' s.count := by
    refine ⟨by rw [hnew]; exact Option.some_ne_none _, fun t' => ⟨?_, ?_⟩⟩
    · rw [hcaller]
      exact fun hc => Nat.lt_irrefl _ (hpushes.constructed t' _ hc).1
    · rw [hqueue]
      refine fun hp => Nat.lt_irrefl _ (hpushes.known s.count ?_)
      exact pushing_pushed (base_reachable h.reachable).queue hp
  intro hno
  have hacc := (hno fun t' => hcaller ▸ hlive t').2 s.count hret
  exact hempty ((returned_accounted_iff hr' hnew hret).mp hacc)

/-- No transaction is orphaned in exactly the runs whose live handler gets no empty request. -/
theorem no_orphan_iff (es : List Event) :
    Machine.States step NoOrphan init es ↔ Machine.Steps step NotEmpty init es :=
  Machine.states_iff_steps (D := fun _ => True)
    (fun _ _ _ _ hI hC he => requested_step hI hC he) (fun _ hI => hI.noOrphan)
    (fun _ _ _ _ hI hn he => empty_orphan hI hn he) (fun _ _ => trivial) requested_init

/-- The empty request is returned, the handler is live, and in no continuation is it executed. -/
theorem empty_request_orphaned :
    ∃ s, Machine.exec step init [.executeDpaTransaction 0 .empty (-1) trnOk] = some s ∧
      Live s ∧ Returned s 0 ∧ ¬ NoOrphan s ∧
      ∀ s', Machine.Reachable step s s' →
        ∃ o, s'.tx 0 = some o ∧ o.exec.tr.isFinished = false ∧ ¬ Accounted s' 0 := by
  have hrun : Machine.exec step init [.executeDpaTransaction 0 .empty (-1) trnOk] =
      some (submit init 0 .empty (-1) trnOk) := rfl
  have hlive : Live (submit init 0 .empty (-1) trnOk) := fun _ => rfl
  have hret : Returned (submit init 0 .empty (-1) trnOk) 0 := ⟨nofun, fun _ => ⟨nofun, nofun⟩⟩
  have hgood := fun s' => @orphan_for_good _ 0 ⟨_, hrun⟩ _ rfl (by decide) s'
  refine ⟨_, hrun, hlive, hret, fun hno => ?_, hgood⟩
  obtain ⟨_, _, _, hnot⟩ := hgood _ (.refl _)
  exact hnot ((hno hlive).2 0 hret)

end Runs

end Handler
end ClibDpa
