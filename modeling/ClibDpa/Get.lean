import ClibDpa.Execution

/-!
# ClibDpa.Get

`DpaTransaction2::get()` next to the other methods: the caller's two waits, and the hand-over of
the result by `std::move( m_dpaTransactionResultPtr )`. There is one caller of `get()`, and the
worker calls `execute()` once (`Handler.execute_once`).

A wait with a predicate tests it when the mutex is held again, so its end (`getWake`) is one
critical section together with what follows; `expired` is what `wait_until` reported. The first
wait is entered only when `m_infinitTimeout` is set.

`crashed` is set when a method goes through the pointer after it was moved from. `atFinish`, the
result when `m_finish` was set, is history.

* `dereferences_sound` — a step that is not listed does not depend on the result.
* `step_inv`, `Inv`    — what every step keeps.
* `get_handover`       — the hand-over, in every state of every run.
* `get_never_busy`     — a finite transaction that is not started waits on.
-/

namespace ClibDpa
namespace Get

open DpaTransaction2 Execution

inductive Position where
  | outside
  | waitStart
  | waitFinish
  | returned (result : DpaTransactionResult2)

structure State where
  exec : Execution.State
  get : Position
  crashed : Bool
  atFinish : Option DpaTransactionResult2

inductive Event where
  | get
  | getWake (expired : Bool)
  | other (e : Execution.Event)

def init (tr : DpaTransaction2) : State := ⟨Execution.init tr, .outside, false, none⟩

/-! ## The caller of `get()` -/

/-- The loop on `m_finish`. -/
def untilFinish (tr : DpaTransaction2) : Position :=
  if tr.isFinished then .returned tr.result else .waitFinish

/-- From the entry to the first wait that blocks. -/
def enter (tr : DpaTransaction2) : Position :=
  if tr.infinitTimeout then
    if tr.state ≠ .created then untilFinish tr else .waitStart
  else untilFinish tr

/-- The end of the wait for the start. -/
def afterStart (tr : DpaTransaction2) (expired : Bool) : DpaTransaction2 × Position :=
  if tr.state ≠ .created then (tr, untilFinish tr)
  else if expired then
    if !tr.infinitTimeout then
      let busy := tr.result.setErrorCode trnErrorIfaceBusy
      ({ tr with result := busy }, .returned busy)
    else (tr, untilFinish tr)
  else (tr, .waitStart)

/-! ## The pointer -/

def movedFrom : Position → Bool
  | .returned _ => true
  | _ => false

/-- The step, from `tr` to position `pc`, goes through `m_dpaTransactionResultPtr`; every other step
does the same wherever that points (`dereferences_sound`). -/
def dereferences (tr : DpaTransaction2) (pc : ExecPc) : Execution.Event → Bool
  | .execute _ _ => true
  | .receive f => !tr.isFinished &&
      (f.message.messageDirection = .response || f.message.messageDirection = .confirmation)
  | .resume => pc = .returned
  | _ => false

def setFinish (s : State) (x : Execution.State) : Option DpaTransactionResult2 :=
  if s.exec.tr.isFinished = false ∧ x.tr.isFinished = true then some x.tr.result else s.atFinish

def step (s : State) : Event → Option State
  | .get =>
    if s.exec.pc = .spinning then none
    else
      match s.get with
      | .outside => some { s with get := enter s.exec.tr }
      | _ => none
  | .getWake expired =>
    if s.exec.pc = .spinning then none
    else
      match s.get with
      | .waitStart =>
        some { s with
          exec := { s.exec with tr := (afterStart s.exec.tr expired).1 }
          get := (afterStart s.exec.tr expired).2 }
      | .waitFinish => some { s with get := untilFinish s.exec.tr }
      | _ => none
  | .other e =>
    match Execution.step s.exec e with
    | none => none
    | some x =>
      some { s with
        exec := x
        crashed := s.crashed || (movedFrom s.get && dereferences s.exec.tr x.pc e)
        atFinish := setFinish s x }

/-! ## What a step does -/

/-- A position of `get()` that fits the transaction. -/
inductive Fits (tr : DpaTransaction2) : Position → Prop where
  | outside : Fits tr .outside
  | waitStart : tr.infinitTimeout = true → Fits tr .waitStart
  | waitFinish : Fits tr .waitFinish
  | returned : tr.isFinished = true → Fits tr (.returned tr.result)

structure Inv (s : State) : Prop where
  wf : WellFormed s.exec
  fits : Fits s.exec.tr s.get
  finish : s.exec.tr.isFinished = true → s.atFinish = some s.exec.tr.result
  safe : s.crashed = false

theorem fits_untilFinish (tr : DpaTransaction2) : Fits tr (untilFinish tr) := by
  unfold untilFinish
  split
  · exact .returned ‹_›
  · exact .waitFinish

theorem fits_enter (tr : DpaTransaction2) : Fits tr (enter tr) := by
  unfold enter
  split
  · split
    · exact fits_untilFinish tr
    · exact .waitStart ‹_›
  · exact fits_untilFinish tr

/-- The branch that reports `TRN_ERROR_IFACE_BUSY` needs both values of `m_infinitTimeout`. -/
theorem afterStart_infinit {tr : DpaTransaction2} (h : tr.infinitTimeout = true)
    (expired : Bool) :
    (afterStart tr expired).1 = tr ∧ Fits tr (afterStart tr expired).2 := by
  unfold afterStart
  split
  · exact ⟨rfl, fits_untilFinish tr⟩
  · split
    · rw [if_neg (by simp [h])]
      exact ⟨rfl, fits_untilFinish tr⟩
    · exact ⟨rfl, .waitStart h⟩

/-- No method goes through the pointer of a finished transaction. -/
theorem finished_dereferences {s s' : Execution.State} {e : Execution.Event} (hw : WellFormed s)
    (hf : s.tr.isFinished = true) (he : Execution.step s e = some s') :
    dereferences s.tr s'.pc e = false := by
  have hpc : s.pc = .returned := hw.finished_iff.mp hf
  cases step_effect he with
  | execute hidle _ =>
    rw [hpc] at hidle
    cases hidle
  | receive _ => simp [dereferences, hf]
  | abort _ => rfl
  | timeout _ => rfl
  | wake _ => rfl
  | resume hwait _ =>
    rw [hpc] at hwait
    cases hwait

/-! ## What the pointer is for -/

/-- The transaction as it is, with `m_dpaTransactionResultPtr` at another object. -/
def pointTo (s : Execution.State) (r : DpaTransactionResult2) : Execution.State :=
  { s with tr := { s.tr with result := r } }

theorem evaluate_pointTo (tr : DpaTransaction2) (r : DpaTransactionResult2) (expired : Bool) :
    ({ tr with result := r } : DpaTransaction2).evaluate expired =
      ({ (tr.evaluate expired).1 with result := r }, (tr.evaluate expired).2) := by
  cases hs : tr.state <;> cases expired <;> cases hi : tr.infinitTimeout <;>
    simp [evaluate, hs, hi]

theorem loopHead_pointTo {tr : DpaTransaction2} (r : DpaTransactionResult2)
    (h : (loopHead tr).2 ≠ .returned) :
    loopHead { tr with result := r } =
      ({ (loopHead tr).1 with result := r }, (loopHead tr).2) := by
  unfold loopHead at h ⊢
  simp only [evaluate_pointTo]
  split
  · rfl
  · rename_i hzero
    rw [if_neg hzero] at h
    cases hev : tr.evaluate false with
    | mk tr' code =>
      rw [hev] at h
      cases code with
      | none => rfl
      | some code => exact absurd rfl h

theorem afterWait_pointTo {tr : DpaTransaction2} {expired : Bool} (r : DpaTransactionResult2)
    (h : (afterWait tr expired).2 ≠ .returned) :
    afterWait { tr with result := r } expired =
      ({ (afterWait tr expired).1 with result := r }, (afterWait tr expired).2) := by
  unfold afterWait at h ⊢
  simp only [evaluate_pointTo]
  cases hev : tr.evaluate expired with
  | mk tr' code =>
    rw [hev] at h
    cases code with
    | none => exact loopHead_pointTo r h
    | some code => exact absurd rfl h

/-- A frame that is dropped before the request is looked at. -/
theorem received_dropped {s : Execution.State} {m : DpaMessage}
    (h : s.tr.isFinished = true ∨
      (m.messageDirection ≠ .response ∧ m.messageDirection ≠ .confirmation)) :
    received s m = s := by
  have hrefused : (s.tr.processReceivedMessage m).1 = s.tr ∧ ¬ s.tr.Accepts m .response := by
    rcases h with hf | hd
    · simp [processReceivedMessage, Accepts, hf]
    · unfold processReceivedMessage Accepts
      simp only [checkReceived, if_pos hd]
      refine ⟨?_, fun ha => by cases ha.2⟩
      split
      · rfl
      · rfl
  rw [received, hrefused.1, if_neg hrefused.2]

/-- A step that does not go through the pointer does the same wherever it points, and leaves what
it points to. -/
theorem dereferences_sound {s x : Execution.State} {e : Execution.Event}
    (he : Execution.step s e = some x) (hno : dereferences s.tr x.pc e = false)
    (r : DpaTransactionResult2) : Execution.step (pointTo s r) e = some (pointTo x r) := by
  cases e with
  | execute err sent => cases hno
  | receive f =>
    have hdrop : s.tr.isFinished = true ∨
        (f.message.messageDirection ≠ .response ∧
          f.message.messageDirection ≠ .confirmation) := by
      cases hf : s.tr.isFinished <;> simp [dereferences, hf] at hno ⊢
      exact hno
    simp only [Execution.step] at he ⊢
    split at he
    · cases he
    · rename_i hspin
      rw [received_dropped hdrop] at he
      cases he
      rw [if_neg (show (pointTo s r).pc ≠ .spinning from hspin),
        received_dropped (s := pointTo s r) hdrop]
  | abort =>
    simp only [Execution.step] at he ⊢
    split at he
    · cases he
    · rename_i hspin
      cases he
      exact if_neg (show (pointTo s r).pc ≠ .spinning from hspin)
  | timeout =>
    simp only [Execution.step] at he ⊢
    split at he
    · cases he
      exact if_pos (show (pointTo s r).pc = .waiting from ‹_›)
    · cases he
  | wake =>
    simp only [Execution.step] at he ⊢
    split at he
    · cases he
      exact if_pos (show (pointTo s r).pc = .waiting from ‹_›)
    · cases he
  | resume =>
    simp only [Execution.step] at he
    split at he
    · rename_i expired hpc
      cases he
      have hends : (afterWait s.tr expired).2 ≠ .returned := by simpa [dereferences] using hno
      have hpc' : (pointTo s r).pc = .woken expired := hpc
      simp only [Execution.step, hpc']
      rw [show (pointTo s r).tr = { s.tr with result := r } from rfl, afterWait_pointTo r hends]
      rfl
    · cases he

theorem dereferences_frame {s x : Execution.State} {e : Execution.Event}
    (he : Execution.step s e = some x) (hno : dereferences s.tr x.pc e = false) :
    x.tr.result = s.tr.result := by
  have hsame : some x = some (pointTo x s.tr.result) :=
    he.symm.trans (dereferences_sound he hno s.tr.result)
  rw [Option.some.inj hsame]
  rfl

/-- A finished transaction keeps its result. -/
theorem finished_step {s s' : Execution.State} {e : Execution.Event} (hw : WellFormed s)
    (hf : s.tr.isFinished = true) (he : Execution.step s e = some s') :
    s'.tr.isFinished = true ∧ s'.tr.result = s.tr.result := by
  refine ⟨?_, dereferences_frame he (finished_dereferences hw hf he)⟩
  have hpc : s.pc = .returned := hw.finished_iff.mp hf
  cases step_effect he with
  | execute hidle _ => cases hpc.symm.trans hidle
  | receive _ =>
    rw [received_dropped (.inl hf)]
    exact hf
  | abort _ => exact hf
  | timeout hwait => cases hpc.symm.trans hwait
  | wake hwait => cases hpc.symm.trans hwait
  | resume hwait _ => cases hpc.symm.trans hwait

theorem fits_step {s s' : Execution.State} {e : Execution.Event} {p : Position}
    (hw : WellFormed s) (h : Fits s.tr p) (he : Execution.step s e = some s') : Fits s'.tr p := by
  cases h with
  | outside => exact .outside
  | waitStart hi => exact .waitStart ((step_const he).2.trans hi)
  | waitFinish => exact .waitFinish
  | returned hf =>
    obtain ⟨hf', hres⟩ := finished_step hw hf he
    rw [← hres]
    exact .returned hf'

theorem step_inv {s s' : State} {e : Event} (h : Inv s) (he : step s e = some s') : Inv s' := by
  cases e with
  | get =>
    simp only [step] at he
    split at he
    · cases he
    · split at he
      · cases he
        exact ⟨h.wf, fits_enter _, h.finish, h.safe⟩
      · cases he
  | getWake expired =>
    simp only [step] at he
    split at he
    · cases he
    · split at he
      · rename_i hpos
        have hi : s.exec.tr.infinitTimeout = true := by
          have hfits := h.fits
          rw [hpos] at hfits
          cases hfits
          assumption
        obtain ⟨hsame, hfits⟩ := afterStart_infinit hi expired
        cases he
        rw [hsame]
        exact ⟨h.wf, hfits, h.finish, h.safe⟩
      · cases he
        exact ⟨h.wf, fits_untilFinish _, h.finish, h.safe⟩
      · cases he
  | other e =>
    simp only [step] at he
    split at he
    · cases he
    · rename_i x hx
      cases he
      refine ⟨wellFormed_step h.wf hx, fits_step h.wf h.fits hx, ?_, ?_⟩
      · intro hf'
        by_cases hf : s.exec.tr.isFinished = true
        · obtain ⟨_, hres⟩ := finished_step h.wf hf hx
          simp only [setFinish, hf, hres, h.finish hf, Bool.true_eq_false, false_and, if_false]
        · simp only [setFinish, if_pos (And.intro (Bool.eq_false_iff.mpr hf) hf')]
      · have hfits := h.fits
        simp only [h.safe, Bool.false_or]
        generalize s.get = p at hfits
        cases hfits with
        | returned hf => exact finished_dereferences h.wf hf hx
        | _ => rfl

theorem inv_init {tr : DpaTransaction2} (h : tr.isFinished = false) : Inv (init tr) where
  wf := wellFormed_init h
  fits := .outside
  finish := by
    intro hf
    rw [show (init tr).exec.tr.isFinished = false from h] at hf
    cases hf
  safe := rfl

/-- Once `get()` has returned, `execute()` has stored its code and set `m_finish`, and what was
returned is the result as it was then. -/
structure HandedOver (s : State) : Prop where
  result : ∀ r, s.get = .returned r →
    s.exec.pc = .returned ∧ s.exec.tr.isFinished = true ∧ s.atFinish = some r
  safe : s.crashed = false

theorem Inv.handedOver {s : State} (h : Inv s) : HandedOver s where
  result := by
    intro r hr
    have hfits := h.fits
    rw [hr] at hfits
    cases hfits with
    | returned hf => exact ⟨h.wf.finished_iff.mp hf, hf, h.finish hf⟩
  safe := h.safe

/-- The hand-over is complete and final, in every state of every run. -/
theorem get_handover (request : DpaMessage) (mode : RfMode) (params : TimingParams)
    (defaultTimeout userTimeout : Int32) (err : ErrorCode) (es : List Event) :
    Machine.States step HandedOver
      (init (create request mode params defaultTimeout userTimeout err)) es := by
  have hsteps : Machine.Steps step (fun _ _ => True)
      (init (create request mode params defaultTimeout userTimeout err)) es :=
    Machine.Steps.of_mem fun _ _ _ => trivial
  exact hsteps.states (I := Inv) (fun _ _ _ h _ he => step_inv h he) (fun _ h => h.handedOver)
    (inv_init rfl)

/-- The response comes and `get()` returns it; a second response and an abort come after that. -/
def returnsResponse : List Event :=
  [.get, .other (.execute trnOk (.ok ())), .other (.receive ledPulseResponse), .other .timeout,
    .other .resume, .getWake false, .other (.receive ledPulseResponse), .other .abort]

theorem get_handover_ledPulse : ∃ s r, Machine.exec step (init ledPulseTransaction)
      returnsResponse = some s ∧ s.get = .returned r ∧ r.getErrorCode = trnOk ∧
    r.isResponded = true ∧ s.exec.tr.isFinished = true ∧ s.atFinish = some r ∧
    s.crashed = false := by
  have hrun : ∃ s r, Machine.exec step (init ledPulseTransaction) returnsResponse = some s ∧
      s.get = .returned r ∧ r.getErrorCode = trnOk ∧ r.isResponded = true :=
    ⟨_, _, rfl, rfl, rfl, rfl⟩
  obtain ⟨s, r, hexec, hret, hcode, hresponded⟩ := hrun
  obtain ⟨hresult, hsafe⟩ := (get_handover ledPulse.message .std ⟨"4.02D"⟩ 500 (-1) trnOk
    returnsResponse).last hexec
  obtain ⟨_, hfinished, hkept⟩ := hresult r hret
  exact ⟨s, r, hexec, hret, hcode, hresponded, hfinished, hkept, hsafe⟩

/-! ## A transaction that is not started -/

/-- `get()` is in one of its waits. -/
def Waiting (s : State) : Prop := s.get = .waitStart ∨ s.get = .waitFinish

/-- When the wait expires, `get()` returns `TRN_ERROR_IFACE_BUSY`, and a later `execute()` neither
sends nor touches the result. -/
def ReportsBusy (s : State) : Prop :=
  ∀ s', step s (.getWake true) = some s' →
    (∃ r, s'.get = .returned r ∧ r.getErrorCode = trnErrorIfaceBusy) ∧
    ∀ err sent s'', step s' (.other (.execute err sent)) = some s'' →
      s''.exec.handed = s'.exec.handed ∧ s''.get = s'.get ∧ s''.crashed = false

theorem settled_started {tr tr' : DpaTransaction2} {wait : Option Bool} {pc : ExecPc}
    (h : Settled tr wait tr' pc) (hst : tr.state ≠ .created) : tr'.state ≠ .created := by
  cases h with
  | enters _ => exact hst
  | goesOn _ _ => exact hst
  | spins _ _ => exact hst
  | ends _ _ =>
    change (tr.evaluate (wait.getD false)).1.state ≠ .created
    generalize wait.getD false = expired
    cases hs : tr.state <;> cases expired <;> cases hi : tr.infinitTimeout <;>
      simp_all [evaluate]

/-- The state leaves `kCreated` before `execute()` lets go of the mutex. -/
def Started (s : Execution.State) : Prop := s.pc ≠ .idle → s.tr.state ≠ .created

theorem started_step {s s' : Execution.State} {e : Execution.Event} (h : Started s)
    (he : Execution.step s e = some s') : Started s' := by
  cases step_effect he with
  | @execute err sent _ _ _ hset =>
    intro _
    refine settled_started hset ?_
    rcases begin_cases s.tr err sent with ⟨_, _, h1 | h1⟩ | ⟨_, h1⟩ | ⟨_, h1⟩ <;> simp [h1]
  | @receive f _ =>
    have hr := received_effect s f.message
    generalize received s f.message = s1 at hr ⊢
    cases hr with
    | ignored _ => exact h
    | confirmation _ =>
      intro _
      simp only [processConfirmation_state]
      split <;> exact DpaTransfer2State.noConfusion
    | response _ =>
      intro _
      rcases processResponse_state s.tr f.message with h1 | ⟨h1, _⟩ <;> simp [h1]
  | abort _ => exact fun _ => DpaTransfer2State.noConfusion
  | timeout hpc => exact fun _ => h (by simp [hpc])
  | wake hpc => exact fun _ => h (by simp [hpc])
  | resume hpc hset => exact fun _ => settled_started hset (h (by simp [hpc]))

theorem started_run {s s' : State} {e : Event} (h : Started s.exec) (he : step s e = some s') :
    Started s'.exec := by
  have hafter : ∀ tr expired, (afterStart tr expired).1.state = tr.state := by
    intro tr expired
    unfold afterStart
    split <;> [skip; split <;> [split; skip]] <;> rfl
  cases e with
  | get =>
    simp only [step] at he
    split at he
    · cases he
    · split at he <;> cases he
      exact h
  | getWake expired =>
    simp only [step] at he
    split at he
    · cases he
    · split at he <;> cases he
      · intro hpc
        simp only [hafter]
        exact h hpc
      · exact h
  | other e =>
    simp only [step] at he
    split at he
    · cases he
    · rename_i x hx
      cases he
      exact started_step h hx

/-- The wait of a finite transaction for its start is the one for its end: it expires into
itself. -/
theorem getWake_finite {s : State} (h : Inv s) (hi : s.exec.tr.infinitTimeout = false)
    (hpc : s.exec.pc = .idle) (hw : Waiting s) :
    step s (.getWake true) = some s ∧ s.get = .waitFinish := by
  have hget : s.get = .waitFinish := by
    rcases hw with hw | hw
    · have hfits := h.fits
      rw [hw] at hfits
      cases hfits with
      | waitStart hinf =>
        rw [hi] at hinf
        cases hinf
    · exact hw
  have hopen : s.exec.tr.isFinished = false := h.wf.unfinished (by simp [hpc])
  refine ⟨?_, hget⟩
  cases s with
  | mk exec get crashed atFinish =>
    simp only at hget hpc hopen
    subst hget
    simp [step, hpc, untilFinish, hopen]

theorem execute_sends {s : State} (hpc : s.exec.pc = .idle) (sent : Except Exc Unit) :
    ∃ s', step s (.other (.execute trnOk sent)) = some s' ∧
      s'.exec.handed = s.exec.handed ++ [s.exec.tr.result.request] := by
  have hx : Execution.step s.exec (.execute trnOk sent) =
      some (Execution.enter s.exec trnOk sent) := by simp [Execution.step, hpc]
  refine ⟨_, by rw [step, hx], ?_⟩
  simp [Execution.enter_eq]

/-- In no state that a run reaches does the `get()` of a finite transaction in `kCreated` report
busy: its wait goes on, and a later `execute()` sends the request. -/
theorem get_never_busy {request : DpaMessage} {mode : RfMode} {params : TimingParams}
    {defaultTimeout userTimeout : Int32} {err : ErrorCode} {es : List Event} {s : State}
    (hrun : Machine.exec step
      (init (create request mode params defaultTimeout userTimeout err)) es = some s)
    (hfinite : s.exec.tr.infinitTimeout = false) (hcreated : s.exec.tr.state = .created)
    (hwait : Waiting s) :
    ¬ ReportsBusy s ∧ step s (.getWake true) = some s ∧
      ∀ sent, ∃ s', step s (.other (.execute trnOk sent)) = some s' ∧
        s'.exec.handed = s.exec.handed ++ [s.exec.tr.result.request] := by
  obtain ⟨hinv, hstarted⟩ := Machine.exec_inv (I := fun s => Inv s ∧ Started s.exec)
    (fun _ _ _ h he => ⟨step_inv h.1 he, started_run h.2 he⟩)
    ⟨inv_init rfl, fun hne => absurd rfl hne⟩ hrun
  have hpc : s.exec.pc = .idle := by
    by_contra hne
    exact hstarted hne hcreated
  obtain ⟨hsame, hget⟩ := getWake_finite hinv hfinite hpc hwait
  refine ⟨fun h => ?_, hsame, execute_sends hpc⟩
  obtain ⟨⟨r, hr, _⟩, _⟩ := h s hsame
  rw [hget] at hr
  cases hr

theorem get_never_busy_ledPulse :
    ∃ s, Machine.exec step (init ledPulseTransaction) [.get] = some s ∧ ¬ ReportsBusy s ∧
      step s (.getWake true) = some s := by
  obtain ⟨hnot, hsame, _⟩ := @get_never_busy ledPulse.message .std ⟨"4.02D"⟩ 500 (-1) trnOk [.get]
    _ rfl (by decide) (by decide) (.inr rfl)
  exact ⟨_, rfl, hnot, hsame⟩

/-- The wait expires twice before the worker takes the transaction; then the request is sent, and
`get()` returns the response as if nothing had happened. -/
theorem late_start_not_busy :
    ∃ s s', Machine.exec step (init ledPulseTransaction) [.get] = some s ∧
      s.exec.tr.infinitTimeout = false ∧ s.exec.tr.state = .created ∧ ¬ ReportsBusy s ∧
      Machine.exec step s [.getWake true, .getWake true, .other (.execute trnOk (.ok ())),
        .other (.receive ledPulseResponse), .other .timeout, .other .resume,
        .getWake false] = some s' ∧
      s'.exec.handed.length = 1 ∧ ∃ r, s'.get = .returned r ∧ r.getErrorCode = trnOk := by
  refine ⟨_, _, rfl, by decide, by decide, ?_, rfl, by decide, _, rfl, by decide⟩
  intro h
  obtain ⟨⟨r, hr, _⟩, _⟩ := h _ rfl
  cases hr

end Get
end ClibDpa
