import ClibDpa.Drain
import ClibDpa.Get

/-!
# ClibDpa.Clients

`DpaHandler2` and the callers of `get()`, as one machine: that of `Handler`, and for every
transaction the caller of its `get()` as in `Get`. Whoever calls `get()` is a thread of its own;
there is one such call for each transaction, at any time after its constructor.

`crashed` and `atFinish` are those of `Get`, for each transaction.

* `Sees` / `step_sees` — a step of the system is a step of `Get` for each transaction, or nothing.
* `inv_reachable`      — each transaction with its `get()` is in a state that `Get` reaches.
* `get_result`         — what `get()` returns, in every run.
* `get_returns`        — that it returns.
-/

namespace ClibDpa
namespace Clients

open Handler (Submission)

structure State where
  handler : Handler.State
  get : Nat → Get.Position
  crashed : Nat → Bool
  atFinish : Nat → Option DpaTransactionResult2

inductive Event where
  | handler (e : Handler.Event)
  | get (i : Nat)
  | getWake (i : Nat) (expired : Bool)

def init : State := ⟨Handler.init, fun _ => .outside, fun _ => false, fun _ => none⟩

/-- Transaction `i`, with the caller of its `get()`. -/
def view (s : State) (i : Nat) : Option Get.State :=
  match s.handler.tx i with
  | none => none
  | some o => some ⟨o.exec, s.get i, s.crashed i, s.atFinish i⟩

def put (s : State) (i : Nat) (g : Get.State) : State :=
  { s with
    get := Function.update s.get i g.get
    crashed := Function.update s.crashed i g.crashed
    atFinish := Function.update s.atFinish i g.atFinish }

/-- The transaction that a step of the handler works on, and the critical section. -/
def acted (h : Handler.State) : Handler.Event → Option (Nat × Execution.Event)
  | .functor sendTo =>
    match h.functor with
    | .branch i n =>
      match h.tx i with
      | none => none
      | some o => some (i, .execute (Handler.executeCode o n)
          (Handler.sendOutcome sendTo o.exec.tr.result.request))
    | _ => none
  | .execution e =>
    match h.functor with
    | .executing i => some (i, e)
    | _ => none
  | .receiver =>
    match h.receiver with
    | .process i f => some (i, .receive f)
    | _ => none
  | .abort i => some (i, .abort)
  | .caller t =>
    match h.caller t with
    | .aborting i => some (i, .abort)
    | _ => none
  | _ => none

/-- What a step of the handler means for the caller of `get()`. -/
def note (s : State) (e : Handler.Event) : State :=
  match acted s.handler e with
  | none => s
  | some (i, ev) =>
    match view s i with
    | none => s
    | some g =>
      match Get.step g (.other ev) with
      | none => s
      | some g' => put s i g'

/-- One step of `get()` of transaction `i`. -/
def onGet (s : State) (i : Nat) (e : Get.Event) : Option State :=
  match s.handler.tx i with
  | none => none
  | some o =>
    match Get.step ⟨o.exec, s.get i, s.crashed i, s.atFinish i⟩ e with
    | none => none
    | some g =>
      some { put s i g with handler := Handler.setTx s.handler i { o with exec := g.exec } }

def step (s : State) : Event → Option State
  | .handler e =>
    match Handler.step s.handler e with
    | none => none
    | some h => some { note s e with handler := h }
  | .get i => onGet s i .get
  | .getWake i expired => onGet s i (.getWake expired)

/-! ## What a step does -/

section Acted

variable {h h' : Handler.State} {e : Handler.Event} {i : Nat} {ev : Execution.Event}

theorem acts_acted (ha : Handler.Acts h e i ev) : acted h e = some (i, ev) := by
  cases ha with
  | timeout hf => simp [acted, hf]
  | wake hf => simp [acted, hf]
  | resume hf => simp [acted, hf]
  | receive hr => simp [acted, hr]
  | abort => rfl
  | destruct hc => simp [acted, hc]

/-- The step is the one that `acted` names. -/
theorem acted_step (he : Handler.step h e = some h') (ha : acted h e = some (i, ev)) :
    ∃ o x, h.tx i = some o ∧ Execution.step o.exec ev = some x ∧
      h'.tx i = some { o with exec := x } := by
  have hact : ∀ {h1 : Handler.State}, Handler.actOn h1 i ev = some h' → h1.tx = h.tx →
      ∃ o x, h.tx i = some o ∧ Execution.step o.exec ev = some x ∧
        h'.tx i = some { o with exec := x } := by
    intro h1 hs htx
    obtain ⟨o, x, ho, hx, rfl⟩ := Handler.actOn_some hs
    exact ⟨o, x, htx ▸ ho, hx, by simp [Handler.setTx]⟩
  cases e with
  | functor sendTo =>
    simp only [acted] at ha
    split at ha
    · rename_i j n hf
      split at ha
      · cases ha
      · rename_i o ho
        cases ha
        obtain ⟨o', x, ho', hx, rfl⟩ := Handler.functorStep_branch hf he
        cases ho.symm.trans ho'
        exact ⟨o, x, ho, hx, by simp [Handler.setTx]⟩
    · cases ha
  | execution e =>
    simp only [acted] at ha
    split at ha
    · rename_i j hf
      cases ha
      simp only [Handler.step, Handler.executionStep, hf] at he
      split at he
      · rename_i hj
        cases hj
        exact hact he rfl
      · rename_i hj
        cases hj
        exact hact he rfl
      · rename_i hj
        cases hj
        exact hact he rfl
      · cases he
    · cases ha
  | receiver =>
    simp only [acted] at ha
    split at ha
    · rename_i j f hr
      cases ha
      simp only [Handler.step, Handler.receiverStep, hr] at he
      exact hact he rfl
    · cases ha
  | abort j =>
    cases ha
    exact hact he rfl
  | caller t =>
    simp only [acted] at ha
    split at ha
    · rename_i j hc
      cases ha
      simp only [Handler.step, Handler.callerStep, hc] at he
      exact hact he rfl
    · cases ha
  | _ => cases ha

/-- To a transaction that it does not work on, a step of the handler does nothing that the caller
of `get()` could see. -/
inductive Unseen (i : Nat) : Option Submission → Option Submission → Prop where
  | same {o : Option Submission} : Unseen i o o
  | new {o : Submission} : o.exec = Execution.init o.created → o.created.isFinished = false →
      Unseen i none (some o)
  | ahead {o : Submission} {n : Nat} : Unseen i (some o) (some { o with ahead := n })

theorem unseen_step (hb : Handler.Base h) (he : Handler.step h e = some h')
    (hna : ∀ ev, acted h e ≠ some (i, ev)) : Unseen i (h.tx i) (h'.tx i) := by
  have htx := Handler.step_tx hb (Handler.step_effect he) i
  generalize hold : h.tx i = old at htx ⊢
  generalize h'.tx i = new at htx ⊢
  cases htx with
  | same => exact .same
  | submit _ _ => exact .new rfl rfl
  | ahead _ _ => exact .ahead
  | @execute n sendTo o x heq hf _ =>
    subst heq
    have ha : acted h (.functor sendTo) = some (i, .execute (Handler.executeCode o n)
        (Handler.sendOutcome sendTo o.exec.tr.result.request)) := by
      simp only [acted, hf, hold]
    exact absurd ha (hna _)
  | act ha _ => exact absurd (acts_acted ha) (hna _)

end Acted

/-- What a step of the system is for one transaction. -/
inductive Sees : Option Get.State → Option Get.State → Prop where
  | same {v : Option Get.State} : Sees v v
  | new {tr : DpaTransaction2} : tr.isFinished = false → Sees none (some (Get.init tr))
  | step {g g' : Get.State} {e : Get.Event} : Get.step g e = some g' → Sees (some g) (some g')

structure Inv (s : State) : Prop where
  handler : Machine.Reachable Handler.step Handler.init s.handler
  quiet : ∀ i, s.handler.tx i = none →
    s.get i = .outside ∧ s.crashed i = false ∧ s.atFinish i = none
  runs : ∀ i g, view s i = some g →
    ∃ tr, tr.isFinished = false ∧ Machine.Reachable Get.step (Get.init tr) g

section Steps

variable {s s' : State} {i : Nat}

theorem view_some {o : Submission} (ho : s.handler.tx i = some o) :
    view s i = some ⟨o.exec, s.get i, s.crashed i, s.atFinish i⟩ := by
  simp [view, ho]

theorem Unseen.sees (hu : Unseen i (s.handler.tx i) (s'.handler.tx i)) (hi : Inv s)
    (hget : s'.get i = s.get i) (hcrashed : s'.crashed i = s.crashed i)
    (hfinish : s'.atFinish i = s.atFinish i) : Sees (view s i) (view s' i) := by
  simp only [view, hget, hcrashed, hfinish]
  have hquiet := hi.quiet i
  generalize s.handler.tx i = old at hu hquiet ⊢
  generalize s'.handler.tx i = new at hu ⊢
  cases hu with
  | same => exact .same
  | @new o hexec hopen =>
    obtain ⟨hg, hc, hf⟩ := hquiet rfl
    simp only [hg, hc, hf, hexec]
    exact .new hopen
  | ahead => exact .same

theorem onGet_some {e : Get.Event} (h : onGet s i e = some s') :
    ∃ o g, s.handler.tx i = some o ∧
      Get.step ⟨o.exec, s.get i, s.crashed i, s.atFinish i⟩ e = some g ∧
      s' = { put s i g with handler := Handler.setTx s.handler i { o with exec := g.exec } } := by
  unfold onGet at h
  split at h
  · cases h
  · rename_i o ho
    split at h
    · cases h
    · rename_i g hg
      cases h
      exact ⟨o, g, ho, hg, rfl⟩

theorem onGet_sees {e : Get.Event} (h : onGet s i e = some s') (j : Nat) :
    Sees (view s j) (view s' j) := by
  obtain ⟨o, g, ho, hg, rfl⟩ := onGet_some h
  by_cases hj : j = i
  · subst hj
    rw [view_some ho]
    have hnew : view { put s j g with
        handler := Handler.setTx s.handler j { o with exec := g.exec } } j = some g := by
      simp [view, put, Handler.setTx]
    rw [hnew]
    exact .step hg
  · have hsame : view { put s i g with
        handler := Handler.setTx s.handler i { o with exec := g.exec } } j = view s j := by
      simp [view, put, Handler.setTx, hj]
    rw [hsame]
    exact .same

theorem handler_some {e : Handler.Event} (h : step s (.handler e) = some s') :
    ∃ h', Handler.step s.handler e = some h' ∧ s' = { note s e with handler := h' } := by
  simp only [step] at h
  split at h
  · cases h
  · rename_i h' hh
    cases h
    exact ⟨h', hh, rfl⟩

/-- The caller of `get()` sees the critical section that the handler's step is. -/
theorem note_acted {e : Handler.Event} {h' : Handler.State} {ev : Execution.Event}
    (he : Handler.step s.handler e = some h') (ha : acted s.handler e = some (i, ev)) :
    ∃ g g', view s i = some g ∧ Get.step g (.other ev) = some g' ∧ g'.get = g.get ∧
      note s e = put s i g' ∧ view { note s e with handler := h' } i = some g' := by
  obtain ⟨o, x, ho, hx, ho'⟩ := acted_step he ha
  have hg : ∃ g', Get.step ⟨o.exec, s.get i, s.crashed i, s.atFinish i⟩ (.other ev) = some g' ∧
      g'.exec = x ∧ g'.get = s.get i := by
    simp only [Get.step, hx]
    exact ⟨_, rfl, rfl, rfl⟩
  obtain ⟨g', hg', hexec, hget⟩ := hg
  have hnote : note s e = put s i g' := by simp only [note, ha, view_some ho, hg']
  refine ⟨_, g', view_some ho, hg', hget, hnote, ?_⟩
  rw [hnote]
  simp [view, put, ho', ← hexec]

theorem step_sees {e : Event} (hi : Inv s) (he : step s e = some s') (i : Nat) :
    Sees (view s i) (view s' i) := by
  cases e with
  | get j => exact onGet_sees he i
  | getWake j expired => exact onGet_sees he i
  | handler e =>
    obtain ⟨h', hh, rfl⟩ := handler_some he
    have hb := Handler.base_reachable hi.handler
    cases ha : acted s.handler e with
    | none =>
      have hnote : note s e = s := by simp only [note, ha]
      rw [hnote]
      refine Unseen.sees ?_ hi rfl rfl rfl
      exact unseen_step hb hh fun ev hev => by rw [ha] at hev; cases hev
    | some p =>
      obtain ⟨j, ev⟩ := p
      obtain ⟨g, g', hg, hstep, _, hnote, hg'⟩ := note_acted hh ha
      by_cases hij : i = j
      · subst hij
        rw [hg, hg']
        exact .step hstep
      · rw [hnote]
        refine Unseen.sees ?_ hi ?_ ?_ ?_
        · refine unseen_step hb hh fun ev' hev => ?_
          rw [ha] at hev
          cases hev
          exact hij rfl
        · exact Function.update_of_ne hij _ _
        · exact Function.update_of_ne hij _ _
        · exact Function.update_of_ne hij _ _

/-! ## The invariant -/

theorem getInv_of_run {tr : DpaTransaction2} {g : Get.State} (hopen : tr.isFinished = false)
    (h : Machine.Reachable Get.step (Get.init tr) g) : Get.Inv g :=
  h.inv (fun _ _ _ hI he => Get.step_inv hI he) (Get.inv_init hopen)

theorem Inv.get (h : Inv s) {o : Submission} (ho : s.handler.tx i = some o) :
    Get.Inv ⟨o.exec, s.get i, s.crashed i, s.atFinish i⟩ := by
  obtain ⟨tr, hopen, hrun⟩ := h.runs i _ (view_some ho)
  exact getInv_of_run hopen hrun

/-- The caller's own steps leave the transaction alone. -/
theorem exec_kept {g g' : Get.State} {e : Get.Event} (hg : Get.Inv g)
    (hne : ∀ ev, e ≠ .other ev) (he : Get.step g e = some g') : g'.exec = g.exec := by
  cases e with
  | get =>
    simp only [Get.step] at he
    split at he
    · cases he
    · split at he <;> cases he
      rfl
  | getWake expired =>
    simp only [Get.step] at he
    split at he
    · cases he
    · split at he
      · rename_i hpos
        have hfits := hg.fits
        rw [hpos] at hfits
        cases hfits with
        | waitStart hinf =>
          cases he
          simp only [(Get.afterStart_infinit hinf expired).1]
      · cases he
        rfl
      · cases he
  | other ev => exact absurd rfl (hne ev)

theorem onGet_handler {e : Get.Event} (hi : Inv s) (hne : ∀ ev, e ≠ .other ev)
    (h : onGet s i e = some s') : s'.handler = s.handler := by
  obtain ⟨o, g, ho, hg, rfl⟩ := onGet_some h
  have hexec := exec_kept (hi.get ho) hne hg
  simp only [hexec, Handler.setTx]
  rw [show some { o with exec := o.exec } = s.handler.tx i from ho.symm, Function.update_eq_self]

theorem onGet_quiet {e : Get.Event} (h : onGet s i e = some s') {j : Nat}
    (hj : s'.handler.tx j = none) :
    s.handler.tx j = none ∧ s'.get j = s.get j ∧ s'.crashed j = s.crashed j ∧
      s'.atFinish j = s.atFinish j := by
  obtain ⟨o, g, ho, _, rfl⟩ := onGet_some h
  have hij : j ≠ i := by
    rintro rfl
    simp [Handler.setTx] at hj
  simp only [Handler.setTx, Function.update_of_ne hij] at hj
  exact ⟨hj, by simp [put, hij], by simp [put, hij], by simp [put, hij]⟩

theorem handler_quiet {e : Handler.Event} {h' : Handler.State} (hb : Handler.Base s.handler)
    (he : Handler.step s.handler e = some h') {j : Nat} (hj : h'.tx j = none) :
    s.handler.tx j = none ∧ (note s e).get j = s.get j ∧ (note s e).crashed j = s.crashed j ∧
      (note s e).atFinish j = s.atFinish j := by
  cases ha : acted s.handler e with
  | none =>
    have hnote : note s e = s := by simp only [note, ha]
    have hu := unseen_step (i := j) hb he fun ev hev => by rw [ha] at hev; cases hev
    rw [hj] at hu
    rw [hnote]
    refine ⟨?_, rfl, rfl, rfl⟩
    generalize s.handler.tx j = old at hu ⊢
    cases hu
    rfl
  | some p =>
    obtain ⟨i, ev⟩ := p
    obtain ⟨g, g', _, _, _, hnote, _⟩ := note_acted he ha
    obtain ⟨o, x, _, _, ho'⟩ := acted_step he ha
    have hij : j ≠ i := by
      rintro rfl
      rw [hj] at ho'
      cases ho'
    have hu := unseen_step (i := j) hb he fun ev hev => by
      rw [ha] at hev
      cases hev
      exact hij rfl
    rw [hj] at hu
    rw [hnote]
    refine ⟨?_, by simp [put, hij], by simp [put, hij], by simp [put, hij]⟩
    generalize s.handler.tx j = old at hu ⊢
    cases hu
    rfl

theorem inv_init : Inv init where
  handler := .refl _
  quiet := fun _ _ => ⟨rfl, rfl, rfl⟩
  runs := fun _ _ hg => by cases hg

theorem inv_step {e : Event} (hi : Inv s) (he : step s e = some s') : Inv s' where
  handler := by
    cases e with
    | handler e =>
      obtain ⟨h', hh, rfl⟩ := handler_some he
      exact hi.handler.next hh
    | get i =>
      rw [onGet_handler hi (fun ev hev => by cases hev) he]
      exact hi.handler
    | getWake i expired =>
      rw [onGet_handler hi (fun ev hev => by cases hev) he]
      exact hi.handler
  quiet := by
    intro j hj
    have hquiet : s.handler.tx j = none ∧ s'.get j = s.get j ∧ s'.crashed j = s.crashed j ∧
        s'.atFinish j = s.atFinish j := by
      cases e with
      | handler e =>
        obtain ⟨h', hh, rfl⟩ := handler_some he
        exact handler_quiet (Handler.base_reachable hi.handler) hh hj
      | get i => exact onGet_quiet he hj
      | getWake i expired => exact onGet_quiet he hj
    obtain ⟨hnone, hg, hc, hf⟩ := hquiet
    rw [hg, hc, hf]
    exact hi.quiet j hnone
  runs := by
    intro j g hg
    have hsees := step_sees hi he j
    rw [hg] at hsees
    generalize hold : view s j = old at hsees
    cases hsees with
    | same => exact hi.runs j g hold
    | new hopen => exact ⟨_, hopen, .refl _⟩
    | step hstep =>
      obtain ⟨tr, hopen, hrun⟩ := hi.runs j _ hold
      exact ⟨tr, hopen, hrun.next hstep⟩

theorem inv_reachable (h : Machine.Reachable step init s) : Inv s :=
  h.inv (fun _ _ _ hI he => inv_step hI he) inv_init

/-! ## What `get()` returns -/

theorem view_get {g : Get.State} (h : view s i = some g) :
    ∃ o, s.handler.tx i = some o ∧ g = ⟨o.exec, s.get i, s.crashed i, s.atFinish i⟩ := by
  simp only [view] at h
  split at h
  · cases h
  · rename_i o ho
    cases h
    exact ⟨o, ho, rfl⟩

theorem Inv.returned (h : Inv s) {r : DpaTransactionResult2} (hr : s.get i = .returned r) :
    ∃ o, s.handler.tx i = some o ∧ o.exec.tr.isFinished = true ∧ o.exec.tr.result = r ∧
      s.atFinish i = some r := by
  cases ho : s.handler.tx i with
  | none =>
    obtain ⟨hout, _⟩ := h.quiet i ho
    rw [hr] at hout
    cases hout
  | some o =>
    have hg := h.get ho
    have hfits := hg.fits
    simp only [hr] at hfits
    cases hfits with
    | returned hf => exact ⟨o, rfl, hf, rfl, hg.finish hf⟩

theorem returned_step {e : Event} (h : Inv s) (he : step s e = some s')
    {r : DpaTransactionResult2} (hr : s.get i = .returned r) : s'.get i = .returned r := by
  obtain ⟨o, ho, _⟩ := h.returned hr
  have hsees := step_sees h he i
  rw [view_some ho] at hsees
  generalize hnew : view s' i = new at hsees
  cases hsees with
  | same =>
    obtain ⟨_, _, heq⟩ := view_get hnew
    exact (congrArg Get.State.get heq).symm.trans hr
  | @step _ g' ev hstep =>
    have hg' : g'.get = s.get i := by
      cases ev with
      | get =>
        simp only [Get.step, hr] at hstep
        split at hstep <;> cases hstep
      | getWake expired =>
        simp only [Get.step, hr] at hstep
        split at hstep <;> cases hstep
      | other ev =>
        simp only [Get.step] at hstep
        split at hstep
        · cases hstep
        · cases hstep
          rfl
    obtain ⟨_, _, heq⟩ := view_get hnew
    subst heq
    exact hg'.trans hr

/-- What was pushed before a dequeued transaction has finished. -/
theorem dequeued_before {h : Handler.State} (hok : Handler.Ok h) {done : List Nat}
    (hserial : Handler.SerialAt h done) (hi : i ∈ done ++ h.functor.current) :
    ∃ pre post, h.queue.pushed = pre ++ i :: post ∧
      ∀ j ∈ pre, ∃ o', h.tx j = some o' ∧ o'.exec.tr.isFinished = true := by
  obtain ⟨hgp, hpp⟩ := TaskQueue.given_prefix hok.base.queue
  obtain ⟨rest, hrest⟩ := hgp.trans hpp
  rw [hserial.given] at hrest
  have hfinished : ∀ j ∈ done, ∃ o', h.tx j = some o' ∧ o'.exec.tr.isFinished = true := by
    intro j hj
    obtain ⟨o', ho', hret⟩ := hserial.finished j hj
    exact ⟨o', ho', (hok.tx j o' ho').wf.finished_iff.mpr hret⟩
  rcases List.mem_append.mp hi with hi | hi
  · obtain ⟨pre, post, hsplit⟩ := List.append_of_mem hi
    refine ⟨pre, post ++ h.functor.current ++ rest, ?_, fun j hj => hfinished j ?_⟩
    · rw [← hrest, hsplit]
      simp
    · rw [hsplit]
      exact List.mem_append_left _ hj
  · have hcurrent : h.functor.current = [i] := by
      cases hf : h.functor <;> rw [hf] at hi <;>
        simp only [Handler.FunctorPc.current, List.mem_singleton, List.not_mem_nil] at hi ⊢ <;>
        rw [hi]
    exact ⟨done, rest, by rw [← hrest, hcurrent]; simp, hfinished⟩

theorem finished_before {h : Handler.State} (hr : Machine.Reachable Handler.step Handler.init h)
    {o : Submission} (ho : h.tx i = some o) (hf : o.exec.tr.isFinished = true) :
    ∃ pre post, h.queue.pushed = pre ++ i :: post ∧
      ∀ j ∈ pre, ∃ o', h.tx j = some o' ∧ o'.exec.tr.isFinished = true := by
  have hok := Handler.ok_reachable hr
  obtain ⟨done, hserial⟩ := hok.serial
  have hreturned : o.exec.pc = .returned := (hok.tx i o ho).wf.finished_iff.mp hf
  have hmem := (hserial.entered i o ho).mp (by rw [hreturned]; simp)
  refine dequeued_before hok hserial ?_
  rcases List.mem_append.mp hmem with hi | hi
  · exact List.mem_append_left _ hi
  · exact List.mem_append_right _ (Handler.FunctorPc.running_subset hi)

/-- In no run does the handler go through a pointer that `get()` has moved from. What `get()`
returns is the result as `execute()` left it, for the request of this transaction and no other;
everything pushed before has finished; and from then on nothing changes it. -/
theorem get_result (h : Machine.Reachable step init s) :
    (∀ i, s.crashed i = false) ∧
    ∀ i r, s.get i = .returned r → ∃ o, s.handler.tx i = some o ∧
      o.exec.tr.isFinished = true ∧ s.atFinish i = some r ∧ r.request = o.request.copy ∧
      (∃ pre post, s.handler.queue.pushed = pre ++ i :: post ∧
        ∀ j ∈ pre, ∃ o', s.handler.tx j = some o' ∧ o'.exec.tr.isFinished = true) ∧
      ∀ s', Machine.Reachable step s s' → s'.get i = .returned r ∧
        ∃ o', s'.handler.tx i = some o' ∧ o'.exec.tr.result = r := by
  have hi := inv_reachable h
  refine ⟨fun i => ?_, fun i r hr => ?_⟩
  · cases ho : s.handler.tx i with
    | none => exact (hi.quiet i ho).2.1
    | some o => exact (hi.get ho).safe
  · obtain ⟨o, ho, hf, hres, hfinish⟩ := hi.returned hr
    have hown := (Handler.txOk hi.handler ho).request
    rw [hres] at hown
    refine ⟨o, ho, hf, hfinish, hown, finished_before hi.handler ho hf, ?_⟩
    rintro s' ⟨es, hes⟩
    obtain ⟨hi', hr'⟩ := Machine.exec_inv (I := fun x => Inv x ∧ x.get i = .returned r)
      (fun x e x' hI he => ⟨inv_step hI.1 he, returned_step hI.1 he hI.2⟩) ⟨hi, hr⟩ hes
    obtain ⟨o', ho', _, hres', _⟩ := hi'.returned hr'
    exact ⟨hr', o', ho', hres'⟩

/-- The caller waits while the worker sends its request; the response comes, and it returns. -/
def getsLedPulse : List Event :=
  (Handler.submitLedPulse 0 ++ Handler.dequeue ++ Handler.executes Handler.channelUp).map
    .handler ++ [.get 0] ++
    [.handler (.deliver ledPulseResponse.bytes), .handler .receiver, .handler .receiver,
      .handler (.execution .timeout), .handler (.execution .resume), .getWake 0 false]

theorem get_result_ledPulse : ∃ s r o, Machine.exec step init getsLedPulse = some s ∧
    s.get 0 = .returned r ∧ r.getErrorCode = trnOk ∧ s.handler.tx 0 = some o ∧
    r.request = o.request.copy := by
  have hrun : ∃ s r, Machine.exec step init getsLedPulse = some s ∧ s.get 0 = .returned r ∧
      r.getErrorCode = trnOk := ⟨_, _, rfl, rfl, rfl⟩
  obtain ⟨s, r, hexec, hret, hcode⟩ := hrun
  obtain ⟨o, ho, _, _, hown, _⟩ := (get_result ⟨_, hexec⟩).2 0 r hret
  exact ⟨s, r, o, hexec, hret, hcode, ho, hown⟩

/-! ## That `get()` returns -/

theorem note_get {e : Handler.Event} {h' : Handler.State}
    (he : Handler.step s.handler e = some h') : (note s e).get = s.get := by
  cases ha : acted s.handler e with
  | none => simp only [note, ha]
  | some p =>
    obtain ⟨i, ev⟩ := p
    obtain ⟨g, g', hg, _, hget, hnote, _⟩ := note_acted he ha
    obtain ⟨_, _, rfl⟩ := view_get hg
    rw [hnote]
    simp only [put, hget, Function.update_eq_self]

/-- A run of the handler, with the callers of `get()` where they are. -/
theorem exec_handler {es : List Handler.Event} : ∀ {s : State} {h' : Handler.State},
    Machine.exec Handler.step s.handler es = some h' →
    ∃ s', Machine.exec step s (es.map .handler) = some s' ∧ s'.handler = h' ∧ s'.get = s.get := by
  induction es with
  | nil => intro s h' he; cases he; exact ⟨s, rfl, rfl, rfl⟩
  | cons e es ih =>
    intro s h' he
    obtain ⟨h1, h1e, hrest⟩ := Machine.exec_cons_iff.mp he
    have hstep : step s (.handler e) = some { note s e with handler := h1 } := by
      simp only [step, h1e]
    obtain ⟨s', hexec, hh, hget⟩ := @ih { note s e with handler := h1 } h' hrest
    refine ⟨s', Machine.exec_cons_iff.mpr ⟨_, hstep, hexec⟩, hh, ?_⟩
    rw [hget]
    exact note_get h1e

theorem started {h : Handler.State} (hr : Machine.Reachable Handler.step Handler.init h)
    {o : Submission} (ho : h.tx i = some o) : Get.Started o.exec := by
  refine Handler.tx_inv (P := fun o => Get.Started o.exec) ?_ (fun _ _ h => h) ?_ hr ho
  · intro _ _ _ _ _ hne
    exact absurd rfl hne
  · intro o ev x hst hx
    exact Get.started_step hst hx

/-- The transaction has finished, so the wait is over. -/
theorem getWake_finished (h : Inv s) {o : Submission} (ho : s.handler.tx i = some o)
    (hf : o.exec.tr.isFinished = true) (hwait : s.get i = .waitStart ∨ s.get i = .waitFinish)
    (expired : Bool) :
    ∃ s', step s (.getWake i expired) = some s' ∧ s'.get i = .returned o.exec.tr.result := by
  have hpc : o.exec.pc = .returned := (h.get ho).wf.finished_iff.mp hf
  have hcreated := started h.handler ho (by rw [hpc]; simp)
  have hdone : Get.untilFinish o.exec.tr = .returned o.exec.tr.result := by
    simp [Get.untilFinish, hf]
  have hg : ∃ g, Get.step ⟨o.exec, s.get i, s.crashed i, s.atFinish i⟩ (.getWake expired) =
      some g ∧ g.get = .returned o.exec.tr.result := by
    have hspin : o.exec.pc ≠ .spinning := by rw [hpc]; simp
    rcases hwait with hwait | hwait
    · simp only [Get.step, if_neg hspin, hwait]
      exact ⟨_, rfl, by simp [Get.afterStart, hcreated, hdone]⟩
    · simp only [Get.step, if_neg hspin, hwait]
      exact ⟨_, rfl, hdone⟩
  obtain ⟨g, hg, hret⟩ := hg
  refine ⟨{ put s i g with handler := Handler.setTx s.handler i { o with exec := g.exec } },
    by simp only [step, onGet, ho, hg], ?_⟩
  simp [put, hret]

/-- From every reachable state in which the queue has not been stopped and what is unfinished has a
finite timeout, the own steps of the handler bring every waiting `get()` of a pushed transaction to
its end, whether its wait expires or is notified: it returns the result of its own request. -/
theorem get_returns (h : Machine.Reachable step init s)
    (hcallers : ∀ t, (s.handler.caller t).ending = false)
    (hfinite : ∀ j ∈ s.handler.queue.pushed, ∀ o, s.handler.tx j = some o →
      o.exec.tr.isFinished = false → o.exec.tr.infinitTimeout = false)
    (hpushed : i ∈ s.handler.queue.pushed) (hwait : s.get i = .waitStart ∨ s.get i = .waitFinish)
    (sendTo : List UInt8 → Except Exc Unit) (expired : Bool) :
    ∃ (es : List Handler.Event) (s' : State), (∀ e ∈ es, Handler.Own sendTo e) ∧
      Machine.exec step s (es.map .handler ++ [.getWake i expired]) = some s' ∧
      (∃ o r, s'.handler.tx i = some o ∧ s'.get i = .returned r ∧ r.request = o.request.copy) ∧
      es.length ≤ 40 * (s.handler.queue.queue.length + 2) := by
  have hi := inv_reachable h
  obtain ⟨es, h', hown, hexec, hdone, hserved, hsame, hlen⟩ :=
    (Handler.draining_of_callers hi.handler hcallers hfinite).run sendTo
  obtain ⟨s1, hexec1, hh, hget⟩ := exec_handler hexec
  have hi1 := Machine.exec_inv (fun _ _ _ hI he => inv_step hI he) hi hexec1
  obtain ⟨_, hfinished⟩ := hserved.finished hdone.reachable
  obtain ⟨o, ho, hf⟩ := hfinished i (hsame ▸ hpushed)
  rw [← hh] at ho
  obtain ⟨s', hwake, hret⟩ := getWake_finished hi1 ho hf (hget ▸ hwait) expired
  have hi' := inv_step hi1 hwake
  obtain ⟨o', ho', _, hres, _⟩ := hi'.returned hret
  refine ⟨es, s', hown, Machine.exec_append_iff.mpr ⟨s1, hexec1, ?_⟩,
    ⟨o', _, ho', hret, ?_⟩, hlen⟩
  · rw [Machine.exec_single]
    exact hwake
  · rw [← hres]
    exact (Handler.txOk hi'.handler ho').request

/-- The second of two callers waits behind the first, and the channel is down. -/
theorem get_returns_two_callers : ∃ s es s' r, Machine.exec step init
      ((Handler.submitLedPulse 0 ++ Handler.submitLedPulse 1 ++ Handler.dequeue).map .handler ++
        [.get 1]) = some s ∧
    s.get 1 = .waitFinish ∧ Machine.exec step s es = some s' ∧ s'.get 1 = .returned r := by
  have hrun : ∃ s, Machine.exec step init
      ((Handler.submitLedPulse 0 ++ Handler.submitLedPulse 1 ++ Handler.dequeue).map .handler ++
        [.get 1]) = some s ∧ s.get 1 = .waitFinish ∧ s.handler.queue.pushed = [0, 1] ∧
      (∀ t, (s.handler.caller t).ending = false) ∧
      ∀ i ∈ s.handler.queue.pushed, ∀ o, s.handler.tx i = some o →
        o.exec.tr.isFinished = false → o.exec.tr.infinitTimeout = false := by
    refine ⟨_, rfl, rfl, rfl, fun t => ?_, fun i hi o ho _ => ?_⟩
    · rcases t with _ | _ | t <;> rfl
    · rcases List.mem_pair.mp hi with rfl | rfl <;> cases ho <;> rfl
  obtain ⟨s, hexec, hwait, hpushed, hcallers, hfinite⟩ := hrun
  obtain ⟨es, s', _, hes, ⟨_, r, _, hret, _⟩, _⟩ := get_returns ⟨_, hexec⟩ hcallers hfinite
    (by rw [hpushed]; simp) (.inr hwait) Handler.channelDown false
  exact ⟨s, _, s', r, hexec, hwait, hes, hret⟩

end Steps

end Clients
end ClibDpa
