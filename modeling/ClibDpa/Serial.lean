import ClibDpa.HandlerStep

/-!
# ClibDpa.Serial

The handler sends one request after the other. `Pushes` says that every transaction is pushed at
most once. `SerialAt` splits the dequeued transactions into those that have finished (`pre`) and
the one the functor works on; a request is sent by entering `execute`, so the sent ones are among
`pre` and the one that executes, in order.

* `pushes_step`, `serial_step` — preservation.
* `serial_sending`            — the contract of sending, in every reachable state.
-/

namespace ClibDpa
namespace Handler

/-! ## Every transaction is pushed at most once -/

structure Pushes (s : State) : Prop where
  nodup : s.queue.pushed.Nodup
  known : ∀ i ∈ s.queue.pushed, i < s.count
  constructed : ∀ t i, s.caller t = .constructed i →
    i < s.count ∧ i ∉ s.queue.pushed ∧ ∀ t', s.caller t' = .constructed i → t' = t

theorem pushes_init : Pushes init where
  nodup := List.nodup_nil
  known := nofun
  constructed := fun _ _ h => by cases h

section Pushes

variable {s s' : State}

/-- A step that pushes nothing and readies no new push. -/
theorem Pushes.frame (h : Pushes s) (hpushed : s'.queue.pushed = s.queue.pushed)
    (hcount : s'.count = s.count) (hcaller : Fewer s s'.caller) : Pushes s' where
  nodup := by rw [hpushed]; exact h.nodup
  known := by rw [hpushed, hcount]; exact h.known
  constructed := by
    intro t i hc
    rw [hpushed, hcount]
    obtain ⟨hlt, hnot, huniq⟩ := h.constructed t i (hcaller t i hc)
    exact ⟨hlt, hnot, fun t' ht' => huniq t' (hcaller t' i ht')⟩

theorem pushes_submit (h : Pushes s) {t : Nat} {request : DpaMessage} {timeout : Int32}
    {err : ErrorCode} (hready : s.caller t = .ready) :
    Pushes (submit s t request timeout err) := by
  have hnew : s.count ∉ s.queue.pushed := fun hm => Nat.lt_irrefl _ (h.known _ hm)
  have hknown : ∀ i ∈ s.queue.pushed, i < s.count + 1 :=
    fun i hi => Nat.lt_succ_of_lt (h.known i hi)
  have hother : ∀ t' i, s.caller t' = .constructed i → i ≠ s.count :=
    fun t' i hc heq => Nat.lt_irrefl _ (heq ▸ (h.constructed t' i hc).1)
  unfold submit
  split
  · refine ⟨h.nodup, hknown, fun t' i hc => ?_⟩
    obtain ⟨hlt, hrest⟩ := h.constructed t' i hc
    exact ⟨Nat.lt_succ_of_lt hlt, hrest⟩
  · refine ⟨h.nodup, hknown, fun t' i hc => ?_⟩
    simp only [setCaller] at hc ⊢
    by_cases ht : t' = t
    · subst ht
      rw [Function.update_self] at hc
      cases hc
      refine ⟨Nat.lt_succ_self _, hnew, fun t'' hc' => ?_⟩
      by_contra hne
      rw [Function.update_of_ne hne] at hc'
      exact hother t'' _ hc' rfl
    · rw [Function.update_of_ne ht] at hc
      obtain ⟨hlt, hnot, huniq⟩ := h.constructed t' i hc
      refine ⟨Nat.lt_succ_of_lt hlt, hnot, fun t'' hc' => ?_⟩
      by_cases ht' : t'' = t
      · subst ht'
        rw [Function.update_self] at hc'
        cases hc'
        exact absurd rfl (hother t' _ hc)
      · rw [Function.update_of_ne ht'] at hc'
        exact huniq t'' hc'

theorem pushes_push (h : Pushes s) {t i : Nat} {q : TaskQueue.State Nat}
    (hc : s.caller t = .constructed i)
    (hq : TaskQueue.callStep s.queue t (.pushToQueue i) = some q) :
    Pushes { setCaller s t .ready with queue := q } := by
  obtain ⟨hlt, hnot, huniq⟩ := h.constructed t i hc
  obtain ⟨_, _, _, hpushed⟩ := TaskQueue.callStep_frame hq
  have hfewer := @fewer_update s t .ready nofun
  refine ⟨?_, ?_, ?_⟩
  · rw [hpushed]
    exact List.nodup_append'.mpr ⟨h.nodup, List.nodup_singleton i,
      fun j hj hj' => hnot (List.mem_singleton.mp hj' ▸ hj)⟩
  · intro j hj
    rw [hpushed] at hj
    rcases List.mem_append.mp hj with hj | hj
    · exact h.known j hj
    · rw [List.mem_singleton.mp hj]
      exact hlt
  · intro t' j hc'
    have hcj := hfewer t' j hc'
    obtain ⟨hltj, hnotj, huniqj⟩ := h.constructed t' j hcj
    refine ⟨hltj, fun hm => ?_, fun t'' hc'' => huniqj t'' (hfewer t'' j hc'')⟩
    rw [hpushed] at hm
    rcases List.mem_append.mp hm with hm | hm
    · exact hnotj hm
    · -- the one that was pushed is no longer to be pushed
      have hij : j = i := List.mem_singleton.mp hm
      subst hij
      have htt := huniq t' hcj
      subst htt
      simp [setCaller] at hc'

/-- What a step does to the history of pushes and to the callers that are to push. -/
inductive PushEffect (s : State) : Event → State → Prop where
  | submit {t : Nat} {request : DpaMessage} {timeout : Int32} {err : ErrorCode} :
      s.caller t = .ready →
      PushEffect s (.executeDpaTransaction t request timeout err) (submit s t request timeout err)
  | push {t i : Nat} {q : TaskQueue.State Nat} : s.caller t = .constructed i →
      TaskQueue.callStep s.queue t (.pushToQueue i) = some q →
      PushEffect s (.caller t) { setCaller s t .ready with queue := q }
  | frame {e : Event} {s' : State} : s'.queue.pushed = s.queue.pushed → s'.count = s.count →
      Fewer s s'.caller → PushEffect s e s'

theorem push_effect {e : Event} (he : Effect s e s') : PushEffect s e s' := by
  cases he with
  | submit hready => exact .submit hready
  | push hc hq => exact .push hc hq
  | @call _ t c q caller hne hfewer hq =>
    obtain ⟨_, _, _, hpushed⟩ := TaskQueue.callStep_frame hq
    have hnone : c.pushes = [] := by
      cases c with
      | pushToQueue i => exact absurd rfl (hne i)
      | _ => rfl
    rw [hnone, List.append_nil] at hpushed
    exact .frame hpushed rfl hfewer
  | caller hfewer => exact .frame rfl rfl hfewer
  | @client t q hq =>
    obtain ⟨_, _, hpushed⟩ := TaskQueue.clientStep_frame hq
    obtain ⟨tx, htx⟩ := noteAhead_fields s t
    rw [htx]
    exact .frame hpushed rfl (fewer_refl s)
  | start _ hq => exact .frame (TaskQueue.workerStep_frame hq).2.2 rfl (fewer_refl s)
  | finish _ _ hq => exact .frame (TaskQueue.workerStep_frame hq).2.2 rfl (fewer_refl s)
  | worker _ _ hq => exact .frame (TaskQueue.workerStep_frame hq).2.2 rfl (fewer_refl s)
  | spurious _ => exact .frame (TaskQueue.wakeUp_frame s.queue).2.1 rfl (fewer_refl s)
  | assign _ => exact .frame rfl rfl (fewer_refl s)
  | size _ _ => exact .frame rfl rfl (fewer_refl s)
  | execute _ _ _ => exact .frame rfl rfl (fewer_refl s)
  | done _ _ _ => exact .frame rfl rfl (fewer_refl s)
  | act _ _ _ hfewer => exact .frame rfl rfl hfewer
  | front _ => exact .frame rfl rfl (fewer_refl s)

theorem pushes_step {e : Event} (h : Pushes s) (he : Effect s e s') : Pushes s' := by
  cases push_effect he with
  | submit hready => exact pushes_submit h hready
  | push hc hq => exact pushes_push h hc hq
  | frame hpushed hcount hfewer => exact h.frame hpushed hcount hfewer

end Pushes

/-! ## One after the other -/

/-- The dequeued transaction that the functor works on. -/
def FunctorPc.current : FunctorPc → List Nat
  | .assign i | .size i | .branch i _ | .executing i => [i]
  | .idle | .done => []

/-- The dequeued transaction whose `execute` was entered and is not yet left. -/
def FunctorPc.running : FunctorPc → List Nat
  | .executing i => [i]
  | .idle | .assign _ | .size _ | .branch _ _ | .done => []

theorem FunctorPc.running_subset {f : FunctorPc} {j : Nat} (h : j ∈ f.running) :
    j ∈ f.current := by
  cases f with
  | executing i => exact h
  | _ => cases h

def sentIds (s : State) : List Nat := s.sent.map Prod.fst

/-- `m_defaultError` of a transaction whose `execute` was entered is the code it was entered
with. -/
structure SerialAt (s : State) (pre : List Nat) : Prop where
  busy : (∃ i, s.queue.pc = .busy i) ↔ s.functor ≠ .idle
  given : s.queue.given = pre ++ s.functor.current
  finished : ∀ j ∈ pre, ∃ o, s.tx j = some o ∧ o.exec.pc = .returned
  entered : ∀ j o, s.tx j = some o → (o.exec.pc ≠ .idle ↔ j ∈ pre ++ s.functor.running)
  order : (sentIds s).Sublist (pre ++ s.functor.running)
  decided : ∀ j o, s.tx j = some o → o.exec.pc ≠ .idle →
    (j ∈ sentIds s ↔ o.exec.tr.defaultError = trnOk)
  code : ∀ j o, s.tx j = some o → o.exec.tr.defaultError = o.created.defaultError ∨
    o.exec.tr.defaultError = trnErrorIfaceQueueFull
  payload : ∀ p ∈ s.sent, ∃ o, s.tx p.1 = some o ∧ p.2 = o.request.bytes

/-- What every step but the entry of `execute` keeps of a transaction. -/
structure Kept (o o' : Submission) : Prop where
  request : o'.request = o.request
  created : o'.created = o.created
  idle : o'.exec.pc = .idle ↔ o.exec.pc = .idle
  returned : o.exec.pc = .returned → o'.exec.pc = .returned
  defaultError : o'.exec.tr.defaultError = o.exec.tr.defaultError

inductive TxKept : Option Submission → Option Submission → Prop where
  | none : TxKept none none
  | new {o : Submission} : o.exec.pc = .idle →
      o.exec.tr.defaultError = o.created.defaultError → TxKept none (some o)
  | some {o o' : Submission} : Kept o o' → TxKept (some o) (some o')

theorem Kept.refl (o : Submission) : Kept o o := ⟨rfl, rfl, Iff.rfl, id, rfl⟩

theorem TxKept.refl (o : Option Submission) : TxKept o o := by
  cases o with
  | none => exact .none
  | some o => exact .some (Kept.refl o)

theorem TxKept.forward {old new : Option Submission} {o : Submission} (h : TxKept old new)
    (ho : old = Option.some o) : ∃ o', new = Option.some o' ∧ Kept o o' := by
  cases h with
  | none => cases ho
  | new _ _ => cases ho
  | some hk =>
    cases ho
    exact ⟨_, rfl, hk⟩

theorem TxKept.backward {old new : Option Submission} {o' : Submission} (h : TxKept old new)
    (ho' : new = Option.some o') :
    (old = Option.none ∧ o'.exec.pc = .idle ∧
      o'.exec.tr.defaultError = o'.created.defaultError) ∨
      ∃ o, old = Option.some o ∧ Kept o o' := by
  cases h with
  | none => cases ho'
  | new hidle hcode =>
    cases ho'
    exact .inl ⟨rfl, hidle, hcode⟩
  | some hk =>
    cases ho'
    exact .inr ⟨_, rfl, hk⟩

section Serial

variable {s s' : State} {pre : List Nat}

theorem kept_act {e : Event} {i : Nat} {ev : Execution.Event} {o : Submission}
    {x : Execution.State} (ha : Acts s e i ev) (hx : Execution.step o.exec ev = some x) :
    Kept o { o with exec := x } := by
  have hne : ∀ err sent, ev ≠ .execute err sent := by
    rintro err sent rfl
    cases ha
  have hl := Execution.step_later hne hx
  exact ⟨rfl, rfl, hl.idle, hl.returned, hl.defaultError⟩

/-- A step that enters no `execute` keeps every transaction. -/
theorem txKept_step {e : Event} (hb : Base s) (he : Effect s e s')
    (hne : ∀ i n sendTo, e = .functor sendTo → s.functor ≠ .branch i n) (i : Nat) :
    TxKept (s.tx i) (s'.tx i) := by
  have htx := step_tx hb he i
  generalize hold : s.tx i = old at htx
  generalize hnew : s'.tx i = new at htx
  cases htx with
  | same => exact .refl _
  | submit _ _ => exact .new rfl rfl
  | @ahead _ o _ _ => exact .some ⟨rfl, rfl, Iff.rfl, id, rfl⟩
  | execute hev hf _ => exact absurd hf (hne _ _ _ hev)
  | act ha hx => exact .some (kept_act ha hx)

theorem SerialAt.frame (h : SerialAt s pre)
    (hknown : ∀ j, s.tx j = none → j ∉ s.queue.given)
    (htx : ∀ j, TxKept (s.tx j) (s'.tx j)) (hfunctor : s'.functor = s.functor)
    (hbusy : ∀ i, s'.queue.pc = .busy i ↔ s.queue.pc = .busy i)
    (hgiven : s'.queue.given = s.queue.given) (hsent : s'.sent = s.sent) : SerialAt s' pre := by
  have hids : sentIds s' = sentIds s := by rw [sentIds, hsent]; rfl
  refine ⟨?_, ?_, ?_, ?_, ?_, ?_, ?_, ?_⟩
  · rw [hfunctor, ← h.busy]
    exact exists_congr hbusy
  · rw [hfunctor, hgiven]
    exact h.given
  · intro j hj
    obtain ⟨o, ho, hpc⟩ := h.finished j hj
    obtain ⟨o', ho', hk⟩ := (htx j).forward ho
    exact ⟨o', ho', hk.returned hpc⟩
  · intro j o' ho'
    rw [hfunctor]
    rcases (htx j).backward ho' with ⟨hold, hidle, _⟩ | ⟨o, ho, hk⟩
    · have hout := hknown j hold
      rw [h.given, List.mem_append] at hout
      rw [List.mem_append]
      constructor
      · exact fun hne => absurd hidle hne
      · exact fun hj => absurd (hj.imp_right FunctorPc.running_subset) hout
    · rw [← h.entered j o ho, ne_eq, ne_eq, hk.idle]
  · rw [hfunctor, hids]
    exact h.order
  · intro j o' ho' hpc
    rw [hids]
    rcases (htx j).backward ho' with ⟨_, hidle, _⟩ | ⟨o, ho, hk⟩
    · exact absurd hidle hpc
    · rw [hk.defaultError]
      exact h.decided j o ho fun hidle => hpc (hk.idle.mpr hidle)
  · intro j o' ho'
    rcases (htx j).backward ho' with ⟨_, _, hcode⟩ | ⟨o, ho, hk⟩
    · exact .inl hcode
    · rw [hk.defaultError, hk.created]
      exact h.code j o ho
  · intro p hp
    rw [hsent] at hp
    obtain ⟨o, ho, hbytes⟩ := h.payload p hp
    obtain ⟨o', ho', hk⟩ := (htx p.1).forward ho
    exact ⟨o', ho', by rw [hk.request]; exact hbytes⟩

/-- The dequeued transactions exist and are different. -/
theorem given_facts (hb : Base s) (hp : Pushes s) :
    s.queue.given.Nodup ∧ ∀ j, s.tx j = none → j ∉ s.queue.given := by
  obtain ⟨h1, h2⟩ := TaskQueue.given_prefix hb.queue
  have hsub := (h1.trans h2).sublist
  refine ⟨hp.nodup.sublist hsub, fun j hj hm => ?_⟩
  exact hb.known j (hp.known j (hsub.subset hm)) hj

/-- The functor is called for the task that the queue hands over. -/
theorem serial_start {i : Nat} {q : TaskQueue.State Nat} (h : SerialAt s pre)
    (hpc : s.queue.pc = .process i) (hq : TaskQueue.workerStep s.queue = some q) :
    SerialAt { s with functor := .assign i, queue := q } pre := by
  have hidle : s.functor = .idle := by
    by_contra hne
    obtain ⟨j, hj⟩ := h.busy.mpr hne
    rw [hpc] at hj
    cases hj
  have hgiven : s.queue.given = pre := by
    have := h.given
    rwa [hidle, FunctorPc.current, List.append_nil] at this
  have hq' := TaskQueue.workerStep_process hpc hq
  have hrun : s.functor.running = [] := by rw [hidle]; rfl
  refine ⟨?_, ?_, h.finished, ?_, ?_, h.decided, h.code, h.payload⟩
  · simp [hq']
  · simp [hq', hgiven, FunctorPc.current]
  · intro j o ho
    rw [h.entered j o ho, hrun]
    rfl
  · have := h.order
    rwa [hrun] at this

/-- The functor passes through its statements before `execute`. -/
theorem serial_pass {f : FunctorPc} {pending : Option Nat} (h : SerialAt s pre)
    (hcurrent : f.current = s.functor.current) (hrunning : f.running = s.functor.running)
    (hidle : f ≠ .idle ↔ s.functor ≠ .idle) :
    SerialAt { s with pendingTransaction := pending, functor := f } pre := by
  refine ⟨?_, ?_, h.finished, ?_, ?_, h.decided, h.code, h.payload⟩
  · rw [hidle]
    exact h.busy
  · rw [hcurrent]
    exact h.given
  · intro j o ho
    rw [hrunning]
    exact h.entered j o ho
  · rw [hrunning]
    exact h.order

theorem serial_done {i : Nat} {o : Submission} (h : SerialAt s pre)
    (hf : s.functor = .executing i) (ho : s.tx i = some o) (hpc : o.exec.pc = .returned) :
    SerialAt { s with functor := .done } (pre ++ [i]) := by
  have hrun : s.functor.running = [i] := by rw [hf]; rfl
  have hcur : s.functor.current = [i] := by rw [hf]; rfl
  refine ⟨?_, ?_, ?_, ?_, ?_, h.decided, h.code, h.payload⟩
  · rw [show (∃ i, s.queue.pc = .busy i) ↔ s.functor ≠ .idle from h.busy, hf]
    simp
  · have := h.given
    rw [hcur] at this
    simpa [FunctorPc.current] using this
  · intro j hj
    rcases List.mem_append.mp hj with hj | hj
    · exact h.finished j hj
    · rw [List.mem_singleton.mp hj]
      exact ⟨o, ho, hpc⟩
  · intro j o' ho'
    have := h.entered j o' ho'
    rw [hrun] at this
    simpa [FunctorPc.running] using this
  · have := h.order
    rw [hrun] at this
    simpa [FunctorPc.running, sentIds] using this

theorem serial_finish {i : Nat} {q : TaskQueue.State Nat} (h : SerialAt s pre)
    (hpc : s.queue.pc = .busy i) (hf : s.functor = .done)
    (hq : TaskQueue.workerStep s.queue = some q) :
    SerialAt { s with functor := .idle, queue := q } pre := by
  have hq' := TaskQueue.workerStep_busy hpc hq
  have hrun : s.functor.running = [] := by rw [hf]; rfl
  refine ⟨by simp [hq'], ?_, h.finished, ?_, ?_, h.decided, h.code, h.payload⟩
  · have := h.given
    rw [hf] at this
    simpa [hq', FunctorPc.current] using this
  · intro j o ho
    rw [h.entered j o ho, hrun]
    rfl
  · have := h.order
    rwa [hrun] at this

theorem mem_sends_ids {o : Submission} {n i j : Nat} :
    j ∈ (sends o n i).map Prod.fst ↔ j = i ∧ executeCode o n = trnOk := by
  rw [sends_eq]
  split <;> simp [*]

theorem sends_ids_sublist (o : Submission) (n i : Nat) :
    ((sends o n i).map Prod.fst).Sublist [i] := by
  rw [sends_eq]
  split
  · exact List.Sublist.refl [i]
  · exact List.nil_sublist [i]

/-- The bytes that `execute` sends are those of the caller's message. -/
theorem sends_payload {o : Submission} {n i : Nat} {p : Nat × List UInt8} (hok : TxOk o)
    (hp : p ∈ sends o n i) : p = (i, o.request.bytes) := by
  rw [sends_eq] at hp
  split at hp
  · rw [List.mem_singleton.mp hp, hok.request, DpaMessage.copy_bytes]
  · cases hp

/-- The entry of `execute`: the only step that sends. -/
theorem serial_execute {i n : Nat} {sendTo : List UInt8 → Except Exc Unit} {o : Submission}
    {x : Execution.State} (hnodup : s.queue.given.Nodup) (hok : TxOk o) (h : SerialAt s pre)
    (hf : s.functor = .branch i n) (ho : s.tx i = some o)
    (hx : Execution.step o.exec (.execute (executeCode o n)
      (sendOutcome sendTo o.exec.tr.result.request)) = some x) :
    SerialAt
      { setTx s i { o with exec := x } with
        functor := .executing i
        sent := s.sent ++ sends o n i } pre := by
  obtain ⟨hidle, hne, herr⟩ := Execution.step_execute hx
  have hrun : s.functor.running = [] := by rw [hf]; rfl
  have hcur : s.functor.current = [i] := by rw [hf]; rfl
  have hgiven : s.queue.given = pre ++ [i] := by rw [h.given, hcur]
  have hnot : i ∉ pre := by
    rw [hgiven, List.nodup_append'] at hnodup
    exact fun hi => hnodup.2.2 hi (List.mem_singleton_self i)
  have horder : (sentIds s).Sublist pre := by
    have := h.order
    rwa [hrun, List.append_nil] at this
  have hentered : ∀ j o, s.tx j = some o → (o.exec.pc ≠ .idle ↔ j ∈ pre) := by
    intro j o' ho'
    rw [h.entered j o' ho', hrun, List.append_nil]
  have htx := fun j => setTx_cases s i j { o with exec := x }
  have hids : (s.sent ++ sends o n i).map Prod.fst = sentIds s ++ (sends o n i).map Prod.fst := by
    rw [List.map_append]
    rfl
  refine ⟨?_, hgiven, ?_, ?_, ?_, ?_, ?_, ?_⟩
  · have := h.busy
    rw [hf] at this
    simpa [setTx] using this
  · intro j hj
    obtain ⟨o', ho', hpc⟩ := h.finished j hj
    rcases htx j with ⟨rfl, _⟩ | ⟨_, hn⟩
    · exact absurd hj hnot
    · exact ⟨o', hn.trans ho', hpc⟩
  · intro j o' ho'
    rcases htx j with ⟨rfl, hn⟩ | ⟨hji, hn⟩
    · cases hn.symm.trans ho'
      simp [hne, FunctorPc.running]
    · rw [hentered j o' (hn.symm.trans ho')]
      simp [FunctorPc.running, hji]
  · change ((s.sent ++ sends o n i).map Prod.fst).Sublist (pre ++ [i])
    rw [hids]
    exact horder.append (sends_ids_sublist o n i)
  · intro j o' ho' hpc
    change j ∈ (s.sent ++ sends o n i).map Prod.fst ↔ _
    rw [hids, List.mem_append, mem_sends_ids]
    rcases htx j with ⟨rfl, hn⟩ | ⟨hji, hn⟩
    · cases hn.symm.trans ho'
      have hout : j ∉ sentIds s := fun hm => hnot (horder.subset hm)
      simp [herr, hout]
    · rw [← h.decided j o' (hn.symm.trans ho') hpc]
      simp [hji]
  · intro j o' ho'
    rcases htx j with ⟨rfl, hn⟩ | ⟨hji, hn⟩
    · cases hn.symm.trans ho'
      rw [herr, executeCode]
      split
      · exact .inl (hok.defaultError hidle)
      · exact .inr rfl
    · exact h.code j o' (hn.symm.trans ho')
  · intro p hp
    rcases List.mem_append.mp hp with hp | hp
    · obtain ⟨o', ho', hbytes⟩ := h.payload p hp
      rcases htx p.1 with ⟨hpi, hn⟩ | ⟨_, hn⟩
      · rw [hpi, ho] at ho'
        cases ho'
        exact ⟨_, hn, hbytes⟩
      · exact ⟨o', hn.trans ho', hbytes⟩
    · cases sends_payload hok hp
      exact ⟨{ o with exec := x }, by simp [setTx], rfl⟩

theorem serial_init : SerialAt init [] where
  busy := by simp [init, TaskQueue.init]
  given := rfl
  finished := nofun
  entered := fun _ _ ho => by cases ho
  order := List.Sublist.refl []
  decided := fun _ _ ho => by cases ho
  code := fun _ _ ho => by cases ho
  payload := nofun

theorem serial_step {e : Event} (hb : Base s) (hp : Pushes s)
    (hok : ∀ i o, s.tx i = some o → TxOk o) (h : SerialAt s pre) (he : Effect s e s') :
    ∃ pre', SerialAt s' pre' := by
  obtain ⟨hnodup, hknown⟩ := given_facts hb hp
  have hframe := @SerialAt.frame s s' pre h hknown
  have htx := txKept_step hb he
  cases he with
  | submit _ =>
    exact ⟨pre, hframe (htx nofun) (submit_functor _ _ _ _ _) (by simp) (by rw [submit_queue])
      (submit_sent _ _ _ _ _)⟩
  | push _ hq =>
    obtain ⟨hpc, hgiven, _⟩ := TaskQueue.callStep_frame hq
    exact ⟨pre, hframe (fun _ => .refl _) rfl (by simp [hpc]) hgiven rfl⟩
  | call _ _ hq =>
    obtain ⟨hpc, hgiven, _⟩ := TaskQueue.callStep_frame hq
    exact ⟨pre, hframe (fun _ => .refl _) rfl (by simp [hpc]) hgiven rfl⟩
  | caller _ => exact ⟨pre, hframe (fun _ => .refl _) rfl (fun _ => Iff.rfl) rfl rfl⟩
  | @client t q hq =>
    obtain ⟨hbusy, hgiven, _⟩ := TaskQueue.clientStep_frame hq
    obtain ⟨tx, hnote⟩ := noteAhead_fields s t
    exact ⟨pre, hframe (htx nofun) (by rw [hnote]) hbusy hgiven (by rw [hnote])⟩
  | start hpc hq => exact ⟨pre, serial_start h hpc hq⟩
  | finish hpc hf hq => exact ⟨pre, serial_finish h hpc hf hq⟩
  | worker hproc hbusy hq =>
    obtain ⟨hgiven, hbusy'⟩ := TaskQueue.workerStep_other hproc hbusy hq
    exact ⟨pre, hframe (fun _ => .refl _) rfl
      (fun i => ⟨fun hi => absurd hi (hbusy' i), fun hi => absurd hi (hbusy i)⟩) hgiven rfl⟩
  | spurious _ =>
    exact ⟨pre, hframe (fun _ => .refl _) rfl (TaskQueue.wakeUp_busy s.queue)
      (TaskQueue.wakeUp_frame s.queue).1 rfl⟩
  | assign hf => exact ⟨pre, serial_pass h (by rw [hf]; rfl) (by rw [hf]; rfl) (by simp [hf])⟩
  | size hf _ => exact ⟨pre, serial_pass h (by rw [hf]; rfl) (by rw [hf]; rfl) (by simp [hf])⟩
  | execute hf ho hx => exact ⟨pre, serial_execute hnodup (hok _ _ ho) h hf ho hx⟩
  | done hf ho hpc => exact ⟨_, serial_done h hf ho hpc⟩
  | act ha _ _ _ =>
    exact ⟨pre, hframe (htx fun _ _ _ heq => by subst heq; cases ha) rfl (fun _ => Iff.rfl) rfl rfl⟩
  | front _ => exact ⟨pre, hframe (fun _ => .refl _) rfl (fun _ => Iff.rfl) rfl rfl⟩

end Serial

/-- What the other modules use about a reachable handler. -/
structure Ok (s : State) : Prop where
  base : Base s
  pushes : Pushes s
  tx : ∀ i o, s.tx i = some o → TxOk o
  serial : ∃ pre, SerialAt s pre

theorem ok_reachable {s : State} (h : Machine.Reachable step init s) : Ok s := by
  have hinv : Machine.Reachable step init s ∧ Pushes s ∧ ∃ pre, SerialAt s pre := by
    refine h.inv (I := fun s => Machine.Reachable step init s ∧ Pushes s ∧ ∃ pre, SerialAt s pre)
      ?_ ⟨.refl _, pushes_init, [], serial_init⟩
    rintro s e s' ⟨hr, hp, pre, hs⟩ hstep
    have he := step_effect hstep
    exact ⟨hr.next hstep, pushes_step hp he,
      serial_step (base_reachable hr) hp (fun _ _ ho => txOk hr ho) hs he⟩
  exact ⟨base_reachable h, hinv.2.1, fun _ _ ho => txOk h ho, hinv.2.2⟩

/-- `execute` is called once for a transaction: where the functor is about to call it, it was not
called before. -/
theorem execute_once {s : State} (h : Machine.Reachable step init s) {i n : Nat}
    (hf : s.functor = .branch i n) {o : Submission} (ho : s.tx i = some o) :
    o.exec.pc = .idle := by
  have hok := ok_reachable h
  obtain ⟨pre, hs⟩ := hok.serial
  obtain ⟨hgp, hpp⟩ := TaskQueue.given_prefix hok.base.queue
  have hgiven : s.queue.given = pre ++ [i] := by rw [hs.given, hf]; rfl
  have hnodup : (pre ++ [i]).Nodup := by
    rw [← hgiven]
    exact hok.pushes.nodup.sublist (hgp.trans hpp).sublist
  by_contra hne
  have hmem := (hs.entered i o ho).mp hne
  rw [hf] at hmem
  simp only [FunctorPc.running, List.append_nil] at hmem
  exact (List.nodup_append.mp hnodup).2.2 i hmem i (List.mem_singleton_self i) rfl

/-! ## The contract of sending -/

/-- Only the entry of `execute` sends, and only the transaction at hand. -/
theorem sent_step {s s' : State} {e : Event} (he : Effect s e s') (hne : s'.sent ≠ s.sent) :
    ∃ i n b, s.functor = .branch i n ∧ s'.sent = s.sent ++ [(i, b)] := by
  cases he with
  | submit _ => exact absurd (submit_sent _ _ _ _ _) hne
  | @client t q _ =>
    obtain ⟨tx, hnote⟩ := noteAhead_fields s t
    exact absurd (by rw [hnote]) hne
  | @execute i n _ o _ hf _ _ =>
    simp only [sends_eq] at hne ⊢
    split
    · exact ⟨i, n, _, hf, rfl⟩
    · rename_i hcode
      simp [hcode] at hne
  | _ => exact absurd rfl hne

theorem sentIds_pushed {s : State} (h : Machine.Reachable step init s) :
    (sentIds s).Sublist s.queue.pushed := by
  have hok := ok_reachable h
  obtain ⟨pre, hs⟩ := hok.serial
  obtain ⟨hgp, hpp⟩ := TaskQueue.given_prefix hok.base.queue
  have hentered : (pre ++ s.functor.running).Sublist s.queue.given := by
    rw [hs.given]
    refine (List.Sublist.refl pre).append ?_
    cases s.functor <;> first | exact List.Sublist.refl _ | exact List.nil_sublist _
  exact hs.order.trans (hentered.trans (hgp.trans hpp).sublist)

/-- Requests are sent in the order of the pushes, each at most once and as it was submitted, each
after the earlier ones have finished; and a dequeued one is sent unless it is executed with an
error. -/
theorem serial_sending {s : State} (h : Machine.Reachable step init s) :
    (sentIds s).Sublist s.queue.pushed ∧ (sentIds s).Nodup ∧
    (∀ i b, (i, b) ∈ s.sent → ∃ o, s.tx i = some o ∧ b = o.request.bytes ∧
      (0 ≤ o.request.length → o.request.length ≤ 64 →
        (b.length : Int) = o.request.getLength)) ∧
    (∀ e s', step s e = some s' → s'.sent ≠ s.sent →
      ∃ pre i b, s.queue.popped = pre ++ [i] ∧ s'.sent = s.sent ++ [(i, b)] ∧
        ∀ j ∈ pre, ∃ o, s.tx j = some o ∧ o.exec.tr.isFinished = true) ∧
    (∀ i o, i ∈ s.queue.popped → s.tx i = some o → o.exec.pc ≠ .idle →
      (i ∉ sentIds s ↔ o.exec.tr.defaultError ≠ trnOk) ∧
      (o.exec.tr.defaultError = o.created.defaultError ∨
        o.exec.tr.defaultError = trnErrorIfaceQueueFull)) := by
  have hok := ok_reachable h
  obtain ⟨pre, hs⟩ := hok.serial
  have horder := sentIds_pushed h
  refine ⟨horder, hok.pushes.nodup.sublist horder, ?_, ?_, ?_⟩
  · intro i b hb
    obtain ⟨o, ho, hbytes⟩ := hs.payload (i, b) hb
    refine ⟨o, ho, hbytes, fun hnonneg hfits => ?_⟩
    rw [show b = o.request.bytes from hbytes]
    exact DpaMessage.bytes_length hnonneg hfits
  · intro e s' hstep hne
    obtain ⟨i, n, b, hf, hsent⟩ := sent_step (step_effect hstep) hne
    have hgiven : s.queue.given = pre ++ [i] := by rw [hs.given, hf]; rfl
    have hpopped : s.queue.popped = s.queue.given := by
      obtain ⟨j, hj⟩ := hs.busy.mpr (by rw [hf]; nofun)
      have := (TaskQueue.inv_reachable hok.base.queue).given
      rw [hj] at this
      exact this.trans (List.append_nil _)
    refine ⟨pre, i, b, hpopped.trans hgiven, hsent, fun j hj => ?_⟩
    obtain ⟨o, ho, hpc⟩ := hs.finished j hj
    exact ⟨o, ho, (hok.tx j o ho).wf.finished_iff.mpr hpc⟩
  · intro i o _ ho hpc
    exact ⟨not_congr (hs.decided i o ho hpc), hs.code i o ho⟩

/-- Two callers; the second request follows when the first has timed out. -/
theorem serial_sending_two_callers :
    ∃ s, Machine.Reachable step init s ∧ s.queue.pushed = [0, 1] ∧
      s.sent = [(0, ledPulse.message.bytes), (1, ledPulse.message.bytes)] ∧
      (sentIds s).Sublist s.queue.pushed ∧ (sentIds s).Nodup := by
  have hrun : ∃ s, Machine.exec step init
      (submitLedPulse 0 ++ submitLedPulse 1 ++ dequeue ++ executes channelUp ++
        [.execution .timeout, .execution .resume, .functor channelUp] ++ List.replicate 6 .worker ++
        executes channelUp) = some s ∧ s.queue.pushed = [0, 1] ∧
      s.sent = [(0, ledPulse.message.bytes), (1, ledPulse.message.bytes)] :=
    ⟨_, rfl, rfl, rfl⟩
  obtain ⟨s, hexec, hpushed, hsent⟩ := hrun
  have hreach : Machine.Reachable step init s := ⟨_, hexec⟩
  obtain ⟨horder, hnodup, _⟩ := serial_sending hreach
  exact ⟨s, hreach, hpushed, hsent, horder, hnodup⟩

end Handler
end ClibDpa
