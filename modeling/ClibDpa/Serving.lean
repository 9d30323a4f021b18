import ClibDpa.Gateway
import ClibDpa.Lib.Server

/-!
# ClibDpa.Serving

What the dispatcher is for: the handler with its callers is a `Server` of transactions. A push is an
arrival, the functor takes a transaction up, the entry of `execute()` sends, `m_finish` ends with
the result as it is then, and `get()` collects it.

`served` reads the server off a state. The steps of all the threads in between, with the responses,
the aborts and the time-outs, do not show in it.

* `Shows` / `shows_step` — what a step of the handler does to the histories that `served` reads.
* `clients_refine`       — a step of the handler and its callers is a run of steps of the server.
* `gateway_serves`       — the same for the whole, and what follows for its runs.
-/

namespace ClibDpa

/-! ## What the server sees -/

namespace Handler

/-- The result of a transaction that has finished. -/
def outcome (h : State) (i : Nat) : Option DpaTransactionResult2 :=
  match h.tx i with
  | none => none
  | some o => if o.exec.tr.isFinished then some o.exec.tr.result else none

/-- The results of those that have finished. -/
def resultsOf (outcome : Nat → Option DpaTransactionResult2) (given : List Nat) :
    List (Nat × DpaTransactionResult2) :=
  given.filterMap fun i => (outcome i).map fun r => (i, r)

/-- The first that has not finished. -/
def firstOpen (outcome : Nat → Option DpaTransactionResult2) (given : List Nat) : Option Nat :=
  given.find? fun i => (outcome i).isNone

section Lists

variable {f f' : Nat → Option DpaTransactionResult2} {pre : List Nat} {i : Nat}
  {r : DpaTransactionResult2}

theorem firstOpen_none (h : ∀ j ∈ pre, (f j).isSome) : firstOpen f pre = none := by
  refine List.find?_eq_none.mpr fun j hj => ?_
  simp [Option.isSome_iff_ne_none.mp (h j hj)]

theorem firstOpen_last (h : ∀ j ∈ pre, (f j).isSome) (hi : f i = none) :
    firstOpen f (pre ++ [i]) = some i := by
  have hpre := firstOpen_none h
  simp only [firstOpen] at hpre ⊢
  rw [List.find?_append, hpre]
  simp [hi]

theorem resultsOf_ids (h : ∀ j ∈ pre, (f j).isSome) : (resultsOf f pre).map Prod.fst = pre := by
  induction pre with
  | nil => rfl
  | cons j rest ih =>
    obtain ⟨r, hr⟩ := Option.isSome_iff_exists.mp (h j List.mem_cons_self)
    have hrest := ih fun k hk => h k (List.mem_cons_of_mem j hk)
    simp only [resultsOf] at hrest ⊢
    simp [hr, hrest]

theorem resultsOf_open (hi : f i = none) : resultsOf f (pre ++ [i]) = resultsOf f pre := by
  simp [resultsOf, hi]

theorem resultsOf_done (hi : f i = some r) :
    resultsOf f (pre ++ [i]) = resultsOf f pre ++ [(i, r)] := by
  simp [resultsOf, hi]

theorem resultsOf_congr (h : ∀ j ∈ pre, f' j = f j) : resultsOf f' pre = resultsOf f pre :=
  List.filterMap_congr fun j hj => by rw [h j hj]

theorem firstOpen_congr (h : ∀ j ∈ pre, f' j = f j) : firstOpen f' pre = firstOpen f pre :=
  List.find?_congr fun j hj => by rw [h j hj]

end Lists

/-! ## A step of the handler -/

section Steps

variable {h h' : State} {pre : List Nat} {e : Event} {i : Nat}

theorem outcome_finished {o : Submission} (ho : h.tx i = some o)
    (hf : o.exec.tr.isFinished = true) : outcome h i = some o.exec.tr.result := by
  simp [outcome, ho, hf]

/-- The dequeued transactions before the one at hand have their results. -/
theorem outcome_past (hok : Ok h) (hs : SerialAt h pre) : ∀ j ∈ pre, (outcome h j).isSome := by
  intro j hj
  obtain ⟨o, ho, hpc⟩ := hs.finished j hj
  rw [outcome_finished ho ((hok.tx j o ho).wf.finished_iff.mpr hpc)]
  rfl

/-- A transaction whose `execute` was not entered has none. -/
theorem outcome_fresh (hok : Ok h) (hs : SerialAt h pre) (hout : i ∉ pre ++ h.functor.running) :
    outcome h i = none := by
  cases ho : h.tx i with
  | none => simp [outcome, ho]
  | some o =>
    have hidle : o.exec.pc = .idle := by
      by_contra hne
      exact hout ((hs.entered i o ho).mp hne)
    simp [outcome, ho, (hok.tx i o ho).wf.at_entry hidle]

/-- The result of a finished transaction does not change any more. -/
theorem outcome_step (hok : Ok h) (he : Effect h e h') (i : Nat) :
    outcome h' i = outcome h i ∨ outcome h i = none := by
  have hw := hok.tx i
  have htx := step_tx hok.base he i
  have hold : outcome h i = match h.tx i with
    | none => none
    | some o => if o.exec.tr.isFinished then some o.exec.tr.result else none := rfl
  have hnew : outcome h' i = match h'.tx i with
    | none => none
    | some o => if o.exec.tr.isFinished then some o.exec.tr.result else none := rfl
  rw [hold, hnew]
  generalize h.tx i = old at htx hw ⊢
  generalize h'.tx i = new at htx ⊢
  cases htx with
  | same => exact .inl rfl
  | submit _ _ => exact .inr rfl
  | ahead _ _ => exact .inl rfl
  | @execute n sendTo o x _ _ hx =>
    by_cases hf : o.exec.tr.isFinished = true
    · obtain ⟨hf', hres⟩ := Get.finished_step (hw o rfl).wf hf hx
      exact .inl (by simp [hf, hf', hres])
    · exact .inr (by simp [hf])
  | @act ev o x _ hx =>
    by_cases hf : o.exec.tr.isFinished = true
    · obtain ⟨hf', hres⟩ := Get.finished_step (hw o rfl).wf hf hx
      exact .inl (by simp [hf, hf', hres])
    · exact .inr (by simp [hf])

theorem FunctorPc.current_cases (f : FunctorPc) : f.current = [] ∨ ∃ i, f.current = [i] := by
  cases f with
  | idle => exact .inl rfl
  | done => exact .inl rfl
  | assign i => exact .inr ⟨i, rfl⟩
  | size i => exact .inr ⟨i, rfl⟩
  | branch i n => exact .inr ⟨i, rfl⟩
  | executing i => exact .inr ⟨i, rfl⟩

/-- What a step does to the history of the queue and of sending. -/
inductive Shows (h h' : State) : Prop where
  | frame : h'.queue.pushed = h.queue.pushed → h'.queue.given = h.queue.given →
      h'.sent = h.sent → Shows h h'
  | push {i : Nat} : i ∉ h.queue.pushed → h'.queue.pushed = h.queue.pushed ++ [i] →
      h'.queue.given = h.queue.given → h'.sent = h.sent → h'.tx = h.tx → Shows h h'
  | start {i : Nat} : h.functor = .idle → h'.queue.pushed = h.queue.pushed →
      h'.queue.given = h.queue.given ++ [i] → h'.sent = h.sent → h'.tx = h.tx → Shows h h'
  | execute {i n : Nat} {o : Submission} : h.functor = .branch i n →
      h'.queue.pushed = h.queue.pushed → h'.queue.given = h.queue.given →
      h'.sent = h.sent ++ sends o n i → Shows h h'

theorem shows_step (hok : Ok h) (he : Effect h e h') : Shows h h' := by
  obtain ⟨pre, hs⟩ := hok.serial
  cases he with
  | submit _ =>
    refine .frame ?_ ?_ (submit_sent _ _ _ _ _) <;> rw [submit_queue]
  | @push t i q hc hq =>
    obtain ⟨_, hgiven, _, hpushed⟩ := TaskQueue.callStep_frame hq
    exact .push (hok.pushes.constructed t i hc).2.1 hpushed hgiven rfl rfl
  | @call _ t c q _ hne _ hq =>
    obtain ⟨_, hgiven, _, hpushed⟩ := TaskQueue.callStep_frame hq
    have hnone : c.pushes = [] := by
      cases c with
      | pushToQueue i => exact absurd rfl (hne i)
      | _ => rfl
    rw [hnone, List.append_nil] at hpushed
    exact .frame hpushed hgiven rfl
  | caller _ => exact .frame rfl rfl rfl
  | @client t q hq =>
    obtain ⟨_, hgiven, hpushed⟩ := TaskQueue.clientStep_frame hq
    obtain ⟨tx, hnote⟩ := noteAhead_fields h t
    rw [hnote]
    exact .frame hpushed hgiven rfl
  | @start i q hpc hq =>
    have hidle : h.functor = .idle := by
      by_contra hne
      obtain ⟨j, hj⟩ := hs.busy.mpr hne
      rw [hpc] at hj
      cases hj
    obtain rfl := TaskQueue.workerStep_process hpc hq
    exact .start hidle rfl rfl rfl rfl
  | finish hpc _ hq =>
    obtain rfl := TaskQueue.workerStep_busy hpc hq
    exact .frame rfl rfl rfl
  | worker hproc hbusy hq =>
    exact .frame (TaskQueue.workerStep_frame hq).2.2
      (TaskQueue.workerStep_other hproc hbusy hq).1 rfl
  | spurious _ =>
    obtain ⟨hgiven, hpushed, _⟩ := TaskQueue.wakeUp_frame h.queue
    exact .frame hpushed hgiven rfl
  | assign _ => exact .frame rfl rfl rfl
  | size _ _ => exact .frame rfl rfl rfl
  | execute hf _ _ => exact .execute hf rfl rfl rfl
  | done _ _ _ => exact .frame rfl rfl rfl
  | act _ _ _ _ => exact .frame rfl rfl rfl
  | front _ => exact .frame rfl rfl rfl

end Steps

end Handler

/-! ## The handler and its callers -/

namespace Clients

open Handler (Submission outcome resultsOf firstOpen SerialAt)

/-- What `get()` has handed over. -/
def handedOver : Get.Position → Option DpaTransactionResult2
  | .returned r => some r
  | _ => none

/-- The server that the handler and its callers are. -/
def served (s : State) : Server Nat (List UInt8) DpaTransactionResult2 where
  waiting := s.handler.queue.pushed.drop s.handler.queue.given.length
  serving := firstOpen (outcome s.handler) s.handler.queue.given
  sent := s.handler.sent
  results := resultsOf (outcome s.handler) s.handler.queue.given
  collected := fun i => handedOver (s.get i)

section Served

variable {s s' : State} {pre : List Nat} {i : Nat}

/-- The one at hand has finished, or it has not. -/
theorem served_started (hok : Handler.Ok s.handler) (hs : SerialAt s.handler pre) :
    (served s).started = s.handler.queue.given := by
  have hpast := Handler.outcome_past hok hs
  have hall : ∀ given, (∀ j ∈ given, (outcome s.handler j).isSome) →
      (resultsOf (outcome s.handler) given).map Prod.fst ++
        (firstOpen (outcome s.handler) given).toList = given := by
    intro given h
    rw [Handler.resultsOf_ids h, Handler.firstOpen_none h, Option.toList_none, List.append_nil]
  simp only [Server.started, served, hs.given]
  rcases s.handler.functor.current_cases with hcurrent | ⟨i, hcurrent⟩
  · rw [hcurrent, List.append_nil]
    exact hall pre hpast
  · rw [hcurrent]
    cases ho : outcome s.handler i with
    | none =>
      rw [Handler.resultsOf_open ho, Handler.resultsOf_ids hpast,
        Handler.firstOpen_last hpast ho, Option.toList_some]
    | some r =>
      refine hall _ fun j hj => ?_
      rcases List.mem_append.mp hj with hj | hj
      · exact hpast j hj
      · rw [List.mem_singleton.mp hj, ho]
        rfl

theorem served_arrived (hok : Handler.Ok s.handler) (hs : SerialAt s.handler pre) :
    (served s).arrived = s.handler.queue.pushed := by
  obtain ⟨hgp, hpp⟩ := TaskQueue.given_prefix hok.base.queue
  obtain ⟨rest, hrest⟩ := hgp.trans hpp
  rw [Server.arrived, served_started hok hs]
  simp only [served]
  rw [← hrest, List.drop_left]

/-- A transaction that is pushed arrives. -/
theorem serves_push (hok : Handler.Ok s.handler) (hs : SerialAt s.handler pre)
    (hget : s'.get = s.get) (hnew : i ∉ s.handler.queue.pushed)
    (hpushed : s'.handler.queue.pushed = s.handler.queue.pushed ++ [i])
    (hgiven : s'.handler.queue.given = s.handler.queue.given)
    (hsent : s'.handler.sent = s.handler.sent) (htx : s'.handler.tx = s.handler.tx) :
    Server.step (served s) (.arrive i) = some (served s') := by
  obtain ⟨hgp, hpp⟩ := TaskQueue.given_prefix hok.base.queue
  have hle : s.handler.queue.given.length ≤ s.handler.queue.pushed.length :=
    (hgp.trans hpp).length_le
  have houtcome : outcome s'.handler = outcome s.handler := by
    funext j
    simp only [outcome, htx]
  have hserver : served s' = { served s with waiting := (served s).waiting ++ [i] } := by
    simp only [served, hpushed, hgiven, hsent, hget, houtcome, List.drop_append_of_le_length hle]
  rw [Server.step, served_arrived hok hs, if_neg hnew, hserver]

/-- The functor takes the next one up. -/
theorem serves_start (hok : Handler.Ok s.handler) (hs : SerialAt s.handler pre)
    (hok' : Handler.Ok s'.handler) (hget : s'.get = s.get) (hidle : s.handler.functor = .idle)
    (hpushed : s'.handler.queue.pushed = s.handler.queue.pushed)
    (hgiven : s'.handler.queue.given = s.handler.queue.given ++ [i])
    (hsent : s'.handler.sent = s.handler.sent) (htx : s'.handler.tx = s.handler.tx) :
    Server.step (served s) .start = some (served s') := by
  have hpre : s.handler.queue.given = pre := by
    have h := hs.given
    rwa [hidle, Handler.FunctorPc.current, List.append_nil] at h
  obtain ⟨hgp, hpp⟩ := TaskQueue.given_prefix hok'.base.queue
  obtain ⟨rest, hrest⟩ := hgp.trans hpp
  rw [hpushed, hgiven, hpre] at hrest
  have hnodup := hok.pushes.nodup
  rw [← hrest] at hnodup
  have hfresh : outcome s.handler i = none := by
    refine Handler.outcome_fresh hok hs fun hi => ?_
    rw [hidle, Handler.FunctorPc.running, List.append_nil] at hi
    have hdisj := List.disjoint_of_nodup_append (List.nodup_append'.mp hnodup).1
    exact hdisj hi (List.mem_singleton_self i)
  have houtcome : outcome s'.handler = outcome s.handler := by
    funext j
    simp only [outcome, htx]
  have hpast := Handler.outcome_past hok hs
  have hserving : (served s).serving = none := by
    simp only [served, hpre]
    exact Handler.firstOpen_none hpast
  have hwaiting : (served s).waiting = i :: rest := by
    simp only [served, hpre]
    rw [← hrest, List.append_assoc, List.drop_left, List.singleton_append]
  have hserver : served s' = { served s with serving := some i, waiting := rest } := by
    simp only [served, hpushed, hgiven, hsent, hget, houtcome, hpre,
      Handler.firstOpen_last hpast hfresh, Handler.resultsOf_open hfresh]
    rw [← hrest, List.drop_left]
  simp only [Server.step, hserving, hwaiting]
  rw [hserver]

/-- The entry of `execute()` sends, unless it is entered with an error. -/
theorem serves_send (hok : Handler.Ok s.handler) (hs : SerialAt s.handler pre) {n : Nat}
    {o : Submission} (hf : s.handler.functor = .branch i n) :
    ∃ fs, Machine.exec Server.step (served s) fs =
      some { served s with sent := s.handler.sent ++ Handler.sends o n i } := by
  rw [Handler.sends_eq]
  split
  · have hcurrent : s.handler.queue.given = pre ++ [i] := by rw [hs.given, hf]; rfl
    have hnodup : (pre ++ [i]).Nodup := by
      obtain ⟨hgp, hpp⟩ := TaskQueue.given_prefix hok.base.queue
      rw [← hcurrent]
      exact hok.pushes.nodup.sublist (hgp.trans hpp).sublist
    have hnot : i ∉ pre := fun hi =>
      List.disjoint_of_nodup_append hnodup hi (List.mem_singleton_self i)
    have hrunning : pre ++ s.handler.functor.running = pre := by rw [hf]; exact List.append_nil _
    have hserving : (served s).serving = some i := by
      simp only [served, hcurrent]
      refine Handler.firstOpen_last (Handler.outcome_past hok hs) ?_
      exact Handler.outcome_fresh hok hs (by rw [hrunning]; exact hnot)
    have hsent : i ∉ (served s).sent.map Prod.fst := by
      intro hi
      have horder := hs.order
      rw [hrunning] at horder
      exact hnot (horder.subset hi)
    refine ⟨[.send o.exec.tr.result.request.bytes], ?_⟩
    rw [Machine.exec_single]
    simp only [Server.step, hserving, if_neg hsent]
    rfl
  · exact ⟨[], by rw [List.append_nil]; rfl⟩

/-- While no other is taken up, the one at hand may finish, and nothing else changes. -/
theorem serves_finish (hok : Handler.Ok s.handler) (hs : SerialAt s.handler pre)
    (hget : s'.get = s.get) (hpushed : s'.handler.queue.pushed = s.handler.queue.pushed)
    (hgiven : s'.handler.queue.given = s.handler.queue.given)
    (hstep : ∀ j, outcome s'.handler j = outcome s.handler j ∨ outcome s.handler j = none) :
    ∃ fs, Machine.exec Server.step { served s with sent := s'.handler.sent } fs =
      some (served s') := by
  have hpast := Handler.outcome_past hok hs
  have hkept : ∀ j ∈ pre, outcome s'.handler j = outcome s.handler j := by
    intro j hj
    refine (hstep j).resolve_right fun hnone => ?_
    have hsome := hpast j hj
    rw [hnone] at hsome
    cases hsome
  have hpast' : ∀ j ∈ pre, (outcome s'.handler j).isSome := fun j hj => hkept j hj ▸ hpast j hj
  have hsame : (∀ j ∈ s.handler.queue.given, outcome s'.handler j = outcome s.handler j) →
      ∃ fs, Machine.exec Server.step { served s with sent := s'.handler.sent } fs =
        some (served s') := by
    intro h
    refine ⟨[], ?_⟩
    simp only [Machine.exec_nil, served, hpushed, hgiven, hget, Handler.resultsOf_congr h,
      Handler.firstOpen_congr h]
  rcases s.handler.functor.current_cases with hcurrent | ⟨i, hcurrent⟩
  · rw [hs.given, hcurrent, List.append_nil] at hsame
    exact hsame hkept
  · have hg : s.handler.queue.given = pre ++ [i] := by rw [hs.given, hcurrent]
    by_cases hi : outcome s'.handler i = outcome s.handler i
    · refine hsame fun j hj => ?_
      rw [hg] at hj
      rcases List.mem_append.mp hj with hj | hj
      · exact hkept j hj
      · rw [List.mem_singleton.mp hj]
        exact hi
    · have hopen := (hstep i).resolve_left hi
      rw [hopen] at hi
      obtain ⟨r, hr⟩ := Option.ne_none_iff_exists'.mp hi
      have hserving : (served s).serving = some i := by
        simp only [served, hg]
        exact Handler.firstOpen_last hpast hopen
      have hdone : ∀ j ∈ pre ++ [i], (outcome s'.handler j).isSome := by
        intro j hj
        rcases List.mem_append.mp hj with hj | hj
        · exact hpast' j hj
        · rw [List.mem_singleton.mp hj, hr]
          rfl
      have hresults : (served s').results = (served s).results ++ [(i, r)] := by
        simp only [served, hgiven, hg]
        rw [Handler.resultsOf_done hr, Handler.resultsOf_congr hkept, Handler.resultsOf_open hopen]
      have hserver : served s' =
          { served s with
            sent := s'.handler.sent
            serving := none
            results := (served s).results ++ [(i, r)] } := by
        rw [← hresults]
        simp only [served, hpushed, hgiven, hget, hg, Handler.firstOpen_none hdone]
      refine ⟨[.finish r], ?_⟩
      rw [Machine.exec_single]
      simp only [Server.step, hserving]
      rw [hserver]

/-- A step of the handler, with the callers of `get()` where they are. -/
theorem serves_handler {e : Handler.Event} (hok : Handler.Ok s.handler)
    (hok' : Handler.Ok s'.handler) (hget : s'.get = s.get)
    (he : Handler.Effect s.handler e s'.handler) :
    ∃ fs, Machine.exec Server.step (served s) fs = some (served s') := by
  obtain ⟨pre, hs⟩ := hok.serial
  have hfinish := fun hp hg => serves_finish hok hs hget hp hg (Handler.outcome_step hok he)
  cases Handler.shows_step hok he with
  | frame hpushed hgiven hsent =>
    have hend := hfinish hpushed hgiven
    rw [hsent] at hend
    exact hend
  | @push i hnew hpushed hgiven hsent htx =>
    refine ⟨[.arrive i], ?_⟩
    rw [Machine.exec_single]
    exact serves_push hok hs hget hnew hpushed hgiven hsent htx
  | start hidle hpushed hgiven hsent htx =>
    refine ⟨[.start], ?_⟩
    rw [Machine.exec_single]
    exact serves_start hok hs hok' hget hidle hpushed hgiven hsent htx
  | @execute i n o hf hpushed hgiven hsent =>
    obtain ⟨fs, hsend⟩ := serves_send (o := o) hok hs hf
    obtain ⟨fs', hend⟩ := hfinish hpushed hgiven
    rw [hsent] at hend
    exact ⟨fs ++ fs', Machine.exec_append_iff.mpr ⟨_, hsend, hend⟩⟩

/-- `get()` returns what the server has as the result. -/
theorem serves_collect {e : Get.Event} (hi : Inv s) (hi' : Inv s') (hok : Handler.Ok s.handler)
    (hs : SerialAt s.handler pre) (hwf : (served s).Wf) (hne : ∀ ev, e ≠ .other ev)
    (he : onGet s i e = some s') :
    ∃ fs, Machine.exec Server.step (served s) fs = some (served s') := by
  have hhandler := onGet_handler hi hne he
  obtain ⟨o, g, ho, hg, rfl⟩ := onGet_some he
  have hserver : served { put s i g with
      handler := Handler.setTx s.handler i { o with exec := g.exec } } =
        { served s with
          collected := Function.update (served s).collected i (handedOver g.get) } := by
    simp only [served] at hhandler ⊢
    rw [hhandler]
    congr 1
    funext j
    by_cases hj : j = i
    · subst hj
      simp [put]
    · simp [put, hj]
  have hout : handedOver (s.get i) = none := by
    cases hp : s.get i with
    | returned r =>
      cases e with
      | get => simp [Get.step, hp] at hg
      | getWake expired => simp [Get.step, hp] at hg
      | other ev => exact absurd rfl (hne ev)
    | _ => rfl
  rw [hserver]
  cases hr : handedOver g.get with
  | none =>
    refine ⟨[], ?_⟩
    rw [Machine.exec_nil]
    have hsame : Function.update (served s).collected i none = (served s).collected := by
      rw [← hout]
      exact Function.update_eq_self i (served s).collected
    rw [hsame]
  | some r =>
    have hret : (put s i g).get i = .returned r := by
      have hgr : g.get = .returned r := by
        cases hgg : g.get with
        | returned r' => rw [hgg] at hr; cases hr; rfl
        | _ => rw [hgg] at hr; cases hr
      simp [put, hgr]
    obtain ⟨o', ho', hf, hres, _⟩ := hi'.returned hret
    rw [hhandler] at ho'
    have hmem : (i, r) ∈ (served s).results := by
      have hgiven : i ∈ s.handler.queue.given := by
        rw [hs.given]
        have hmem := (hs.entered i o' ho').mp (by
          rw [(hok.tx i o' ho').wf.finished_iff.mp hf]
          simp)
        rcases List.mem_append.mp hmem with h | h
        · exact List.mem_append_left _ h
        · exact List.mem_append_right _ (Handler.FunctorPc.running_subset h)
      refine List.mem_filterMap.mpr ⟨i, hgiven, ?_⟩
      rw [Handler.outcome_finished ho' hf, hres]
      rfl
    refine ⟨[.collect i], ?_⟩
    rw [Machine.exec_single]
    have hcollected : (served s).collected i = none := hout
    simp only [Server.step, hcollected, hwf.lookup hmem]

theorem serves_step {e : Event} (h : Machine.Reachable step init s) (hwf : (served s).Wf)
    (he : step s e = some s') :
    ∃ fs, Machine.exec Server.step (served s) fs = some (served s') := by
  have hi := inv_reachable h
  have hi' := inv_step hi he
  have hok := Handler.ok_reachable hi.handler
  obtain ⟨pre, hs⟩ := hok.serial
  cases e with
  | handler e =>
    obtain ⟨h', hh, rfl⟩ := handler_some he
    exact serves_handler hok (Handler.ok_reachable hi'.handler) (note_get hh)
      (Handler.step_effect hh)
  | get i => exact serves_collect hi hi' hok hs hwf (fun ev hev => by cases hev) he
  | getWake i expired => exact serves_collect hi hi' hok hs hwf (fun ev hev => by cases hev) he

theorem served_init : served init = Server.empty := rfl

theorem clients_refine :
    Server.Refines step (fun s => Machine.Reachable step init s ∧ (served s).Wf) served where
  sim := by
    rintro s e s' a ⟨⟨h, hwf⟩, rfl⟩ he
    obtain ⟨fs, hfs⟩ := serves_step h hwf he
    have hwf' := Machine.exec_inv
      (fun _ _ _ hI hx => Server.wf_step hI (Server.step_effect hx)) hwf hfs
    exact ⟨fs, served s', hfs, ⟨h.next he, hwf'⟩, rfl⟩

/-- A run of the handler and its callers is a run of the server. -/
theorem serves (h : Machine.Reachable step init s) (h' : Machine.Reachable step s s') :
    Machine.Reachable Server.step Server.empty (served s) ∧
      Machine.Reachable Server.step (served s) (served s') := by
  have hstart := clients_refine.reachable ⟨.refl init, Server.wf_empty⟩ h
  rw [served_init] at hstart
  exact ⟨hstart, clients_refine.reachable ⟨h, Server.wf_reachable hstart⟩ h'⟩

end Served

end Clients

/-! ## The whole -/

namespace Gateway

section Serves

variable {s s' : State}

/-- The steps of the channel do not show. -/
theorem clients_reachable (h : Machine.Reachable step s s') :
    Machine.Reachable Clients.step s.clients s'.clients := by
  refine h.inv (I := fun x => Machine.Reachable Clients.step s.clients x.clients) ?_ (.refl _)
  intro x e x' hx he
  cases step_effect he with
  | channel _ _ => exact hx
  | clients _ hc => exact hx.next hc
  | sendTo _ _ _ => exact hx
  | sent _ _ hc => exact hx.next hc
  | deliver _ _ hc => exact hx.next hc
  | returned _ _ => exact hx

/-- Every run of the whole is a run of the server whose jobs are the pushed transactions: one at a
time and in the order of the pushes, with one message and one result for each at most, and what
`get()` returns is that result. What is done is not undone. -/
theorem gateway_serves (h : Machine.Reachable step init s) (h' : Machine.Reachable step s s') :
    Machine.Reachable Server.step Server.empty (Clients.served s.clients) ∧
    Machine.Reachable Server.step (Clients.served s.clients) (Clients.served s'.clients) ∧
    (Clients.served s.clients).arrived = s.clients.handler.queue.pushed ∧
    (Clients.served s.clients).Wf ∧
    (∀ i ∈ s.clients.handler.sent.map Prod.fst, ∃ pre post,
      s.clients.handler.queue.pushed = pre ++ i :: post ∧
      ∀ j ∈ pre, j ∈ (Clients.served s.clients).results.map Prod.fst) ∧
    Server.Later (Clients.served s.clients) (Clients.served s'.clients) := by
  have hc : Machine.Reachable Clients.step Clients.init s.clients := clients_reachable h
  obtain ⟨hstart, hrun⟩ := Clients.serves hc (clients_reachable h')
  have hwf := Server.wf_reachable hstart
  have hok := Handler.ok_reachable (Clients.inv_reachable hc).handler
  obtain ⟨pre, hs⟩ := hok.serial
  have harrived := Clients.served_arrived hok hs
  refine ⟨hstart, hrun, harrived, hwf, fun i hi => ?_, Server.later_reachable hrun⟩
  rw [← harrived]
  exact hwf.sent_after hi

/-- The request is at the module, and then its result with the caller. -/
theorem gateway_serves_ledPulse : ∃ s s' r, Machine.exec step init sendsLedPulse = some s ∧
    Machine.exec step s (readsResponse ++ returnsLedPulse) = some s' ∧
    (Clients.served s.clients).serving = some 0 ∧ (Clients.served s.clients).results = [] ∧
    (Clients.served s'.clients).results = [(0, r)] ∧
    (Clients.served s'.clients).collected 0 = some r ∧
    Machine.Reachable Server.step (Clients.served s.clients) (Clients.served s'.clients) := by
  have hrun : ∃ s s' r, Machine.exec step init sendsLedPulse = some s ∧
      Machine.exec step s (readsResponse ++ returnsLedPulse) = some s' ∧
      (Clients.served s.clients).serving = some 0 ∧ (Clients.served s.clients).results = [] ∧
      (Clients.served s'.clients).results = [(0, r)] ∧
      (Clients.served s'.clients).collected 0 = some r := ⟨_, _, _, rfl, rfl, rfl, rfl, rfl, rfl⟩
  obtain ⟨s, s', r, hexec, hexec', hserving, hresults, hresults', hcollected⟩ := hrun
  have hserves := gateway_serves ⟨_, hexec⟩ ⟨_, hexec'⟩
  exact ⟨s, s', r, hexec, hexec', hserving, hresults, hresults', hcollected, hserves.2.1⟩

end Serves

end Gateway
end ClibDpa
