import ClibDpa.GatewayAnswers
import ClibDpa.GatewayWrites
import ClibDpa.SpiReturns

/-!
# ClibDpa.GatewayReturns

The whole gets to its end: the worker's call of `sendTo` returns whatever the driver answers, so
every step of the handler by itself is some steps of the whole, and with the handler's run every
`get()` returns. The receiving side need not move; it may be held up in a handler of the user.

* `execute_follows`, `step_follows`, `run_follows` — the call, a step and a run of the handler.
* `gateway_returns`                                — the bound on the steps.
-/

namespace ClibDpa
namespace Gateway

open IqrfSpiChannel

/-- The worker's way back from `sendTo`: its own steps in the channel and those of whoever holds
`m_commMutex`, with the answers of the driver, and the return. -/
inductive Sends (drv : Imp.State → Imp.Answer) (s : State) : Event → Prop where
  | channel {e : Imp.Event} : s.sending ≠ none → Imp.Drives drv worker s.channel e →
      Sends drv s (.channel e)
  | sent : Sends drv s .sent

/-- The steps of the handler's own threads; inside the channel, those of the worker and of whoever
holds `m_commMutex`, with the answers of the driver. -/
inductive Drives (drv : Imp.State → Imp.Answer) (s : State) : Event → Prop where
  | channel {e : Imp.Event} : Imp.Drives drv worker s.channel e → Drives drv s (.channel e)
  | handler {e : Handler.Event} : Handler.Own Handler.channelUp e →
      Drives drv s (.clients (.handler e))
  | sendTo (tracerIsValid : Bool) : Drives drv s (.sendTo tracerIsValid)
  | sent : Drives drv s .sent

section Returns

variable {s s' : State} {drv : Imp.State → Imp.Answer} {i : Nat}

theorem Sends.drives {e : Event} (h : Sends drv s e) : Drives drv s e := by
  cases h with
  | channel _ hd => exact .channel hd
  | sent => exact .sent

theorem running_iff : running s = true ↔
    s.channel.lambda ≠ .terminated ∧ s.clients.handler.receiver ≠ .crashed := by
  unfold running
  cases s.channel.lambda <;> cases s.clients.handler.receiver <;> simp

/-- By itself the channel does not end the process. -/
theorem Own.alive {c c' : Imp.State} (h : Own c c') (ha : c.lambda ≠ .terminated) :
    c'.lambda ≠ .terminated := by
  cases h with
  | same hl _ => rwa [hl]
  | enter _ hl _ => rw [hl]; simp
  | call _ hl _ => rw [hl]; simp
  | leave _ hl _ => rw [hl]; simp

theorem running_of (hrun : running s = true) (hlambda : s'.channel.lambda = s.channel.lambda)
    (hreceiver : s'.clients.handler.receiver = s.clients.handler.receiver) :
    running s' = true := by
  simp only [running, hlambda, hreceiver] at hrun ⊢
  exact hrun

/-! ## The call of the channel -/

/-- A run of the channel by itself is one of the whole. -/
theorem own_exec {P : Imp.State → Imp.Event → Prop} {Q : State → Event → Prop}
    (hown : ∀ c e, P c e → channelOwn c e = true) {es : List Imp.Event} :
    ∀ {s : State} {c : Imp.State}, (∀ c e, P c e → Q { s with channel := c } (.channel e)) →
      running s = true → s.channel.receiveFromFunc = true →
      Machine.Steps Imp.step P s.channel es → Machine.exec Imp.step s.channel es = some c →
      Machine.Steps step Q s (es.map .channel) ∧
        Machine.exec step s (es.map .channel) = some { s with channel := c } ∧
        running { s with channel := c } = true := by
  induction es with
  | nil =>
    intro s c _ hrun _ _ hexec
    cases hexec
    exact ⟨trivial, rfl, hrun⟩
  | cons e es ih =>
    intro s c hPQ hrun hreg hsteps hexec
    obtain ⟨c1, h1, hrest⟩ := Machine.exec_cons_iff.mp hexec
    obtain ⟨hp, hsteps1⟩ := hsteps c1 h1
    obtain ⟨hreg1, hc⟩ := channel_own hreg (hown _ _ hp) h1
    obtain ⟨halive, hsafe⟩ := running_iff.mp hrun
    have he : step s (.channel e) = some { s with channel := c1 } := by
      simp [step, hrun, move, hown _ _ hp, onChannel, h1]
    have hrun1 : running { s with channel := c1 } = true :=
      running_iff.mpr ⟨hc.alive halive, hsafe⟩
    obtain ⟨hs, hx, hend⟩ := @ih { s with channel := c1 } c hPQ hrun1 hreg1 hsteps1 hrest
    refine ⟨?_, Machine.exec_cons_iff.mpr ⟨_, he, hx⟩, hend⟩
    intro s2 h2
    rw [he] at h2
    cases h2
    exact ⟨hPQ s.channel e hp, hs⟩

theorem own_within {P : Imp.State → Imp.Event → Prop} {Q : State → Event → Prop}
    (hown : ∀ c e, P c e → channelOwn c e = true)
    (hPQ : ∀ c e, P c e → Q { s with channel := c } (.channel e)) {n : Nat} {c : Imp.State}
    (hrun : running s = true) (hreg : s.channel.receiveFromFunc = true)
    (h : Machine.Within Imp.step P n s.channel c) :
    Machine.Within step Q n s { s with channel := c } ∧
      running { s with channel := c } = true := by
  obtain ⟨es, hsteps, hexec, hlen⟩ := h
  obtain ⟨hs, hx, hend⟩ := own_exec hown hPQ hrun hreg hsteps hexec
  exact ⟨⟨es.map .channel, hs, hx, by rwa [List.length_map]⟩, hend⟩

theorem drives_own {c : Imp.State} {e : Imp.Event} (h : Imp.Drives drv worker c e) :
    channelOwn c e = true := by
  cases h <;> rfl

/-! ## A step of the handler -/

theorem own_receiver {h h' : Handler.State} {e : Handler.Event}
    (ho : Handler.Own Handler.channelUp e) (he : Handler.step h e = some h') :
    h'.receiver = h.receiver := by
  refine Handler.receiver_kept (fun message heq => ?_) (fun heq => ?_) he
  · subst heq
    cases ho
  · subst heq
    cases ho

/-- Where the functor is about to call `execute()`, it can. -/
theorem execute_enabled {h : Handler.State} {message : List UInt8}
    (hr : Machine.Reachable Handler.step Handler.init h)
    (ha : atSender h = some (i, message)) :
    ∃ h', Handler.step h (.functor Handler.channelUp) = some h' := by
  obtain ⟨n, o, hf, ho, _, _⟩ := atSender_some ha
  exact ⟨_, Handler.functorStep_execute _ hf ho (Handler.execute_once hr hf ho)⟩

/-- What a step of the handler by itself is for the whole. -/
structure Follows (s : State) (h' : Handler.State) (s' : State) : Prop where
  handler : s'.clients.handler = h'
  get : s'.clients.get = s.clients.get
  idle : s'.sending = none
  running : running s' = true

/-- The worker comes back from `m_sender`, and `execute()` goes on. -/
theorem execute_follows (h : Machine.Reachable step init s) (hrun : running s = true)
    (hs : s.sending = some i) (hdrv : ∀ x len, x.listen = .read len → (drv x).fills len = true) :
    ∃ h' s', Handler.step s.clients.handler (.functor Handler.channelUp) = some h' ∧
      Machine.Within step (Sends drv) 315 s s' ∧ Follows s h' s' := by
  have hbusy : s.sending ≠ none := by simp [hs]
  have hon : s.channel.client worker ≠ .dumping := by
    intro hd
    cases sender_reachable h with
    | idle _ hr _ => rw [hd] at hr; cases hr
    | calling _ _ hcall _ => rw [hd] at hcall; cases hcall
    | called _ _ hr _ => rw [hd] at hr; cases hr
  obtain ⟨c, r, hcall, hr⟩ := Imp.call_within (parts_reachable h).channel hon drv hdrv
  obtain ⟨hwithin, hrun1⟩ := own_within (Q := Sends drv) (fun _ _ => drives_own)
    (fun c _ => Sends.channel (s := { s with channel := c }) hbusy) hrun
    (parts_reachable h).registered hcall
  have hreach1 := hwithin.reachable h
  have hat : ∃ message, atSender s.clients.handler = some (i, message) := by
    cases sender_reachable hreach1 with
    | idle hs' _ _ => rw [show s.sending = none from hs'] at hs; cases hs
    | calling _ _ hbusy _ =>
      rw [show c.client worker = .returned r from hr] at hbusy
      cases hbusy
    | called hs' ha _ _ =>
      rw [show s.sending = _ from hs'] at hs
      cases hs
      exact ⟨_, ha⟩
  obtain ⟨message, ha⟩ := hat
  obtain ⟨h', hh⟩ := execute_enabled (parts_reachable h).inv.handler ha
  have hc : Clients.step s.clients (.handler (.functor Handler.channelUp)) =
      some { Clients.note s.clients (.functor Handler.channelUp) with handler := h' } := by
    simp [Clients.step, hh]
  have hsent : step { s with channel := c } .sent = some
      { s with
        channel := c
        clients := { Clients.note s.clients (.functor Handler.channelUp) with handler := h' }
        sending := none } := by
    rw [step, if_pos hrun1]
    simp [move, hs, hr, onClients, hc, delivered]
  refine ⟨h', _, hh, hwithin.trans (.single .sent hsent), rfl, Clients.note_get hh, rfl, ?_⟩
  exact running_of hrun1 rfl (own_receiver .functor hh)

theorem step_follows {e : Handler.Event} {h' : Handler.State}
    (h : Machine.Reachable step init s) (hrun : running s = true) (hs : s.sending = none)
    (hdrv : ∀ x len, x.listen = .read len → (drv x).fills len = true)
    (ho : Handler.Own Handler.channelUp e) (he : Handler.step s.clients.handler e = some h') :
    ∃ s', Machine.Within step (Drives drv) 316 s s' ∧ Follows s h' s' := by
  by_cases hsends : e = .functor Handler.channelUp ∧ atSender s.clients.handler ≠ none
  · obtain ⟨rfl, hat⟩ := hsends
    obtain ⟨⟨i, message⟩, ha⟩ := Option.ne_none_iff_exists'.mp hat
    obtain ⟨r, hr⟩ : ∃ r, s.channel.client worker = .returned r := by
      cases sender_reachable h with
      | idle _ hr _ => exact ⟨_, hr⟩
      | calling hs' _ _ _ => rw [hs] at hs'; cases hs'
      | called hs' _ _ _ => rw [hs] at hs'; cases hs'
    have hne := atSender_nonempty (parts_reachable h).inv.handler ha
    have hcall : step s (.sendTo true) = some
        { s with
          channel := Imp.setClient s.channel worker (.loop ⟨message, 0, []⟩)
          sending := some i } := by
      simp [step, hrun, move, hs, ha, onChannel, Imp.step, hr, Imp.enterSendTo_of_ne hne]
    have hfirst : Machine.Within step (Drives drv) 1 s
        { s with
          channel := Imp.setClient s.channel worker (.loop ⟨message, 0, []⟩)
          sending := some i } := .single (.sendTo true) hcall
    obtain ⟨h1, s', hh, hrest, hfollows⟩ :=
      execute_follows (hfirst.reachable h) hrun rfl hdrv
    have heq : h1 = h' := Option.some.inj (hh.symm.trans he)
    subst heq
    exact ⟨s', (hfirst.trans (hrest.imp fun _ _ => Sends.drives)).mono (by omega),
      hfollows.handler, hfollows.get, hfollows.idle, hfollows.running⟩
  · have hown : clientsOwn s (.handler e) = true := by
      cases ho with
      | functor =>
        have hnone : atSender s.clients.handler = none := by
          by_contra hne
          exact hsends ⟨rfl, hne⟩
        simp [clientsOwn, hnone]
      | _ => simp [clientsOwn, hs]
    have hc : Clients.step s.clients (.handler e) =
        some { Clients.note s.clients e with handler := h' } := by
      simp [Clients.step, he]
    have hstep : step s (.clients (.handler e)) = some
        { s with clients := { Clients.note s.clients e with handler := h' } } :=
      step_clients hrun hown hc
    have hone : Machine.Within step (Drives drv) 1 s
        { s with clients := { Clients.note s.clients e with handler := h' } } :=
      .single (.handler ho) hstep
    exact ⟨_, hone.mono (by omega), rfl, Clients.note_get he, hs,
      running_of hrun rfl (own_receiver ho he)⟩

/-- A run of the handler by itself, by induction on it. -/
theorem run_follows (hdrv : ∀ x len, x.listen = .read len → (drv x).fills len = true)
    {es : List Handler.Event} : ∀ {s : State} {h' : Handler.State},
    Machine.Reachable step init s → running s = true → s.sending = none →
    (∀ e ∈ es, Handler.Own Handler.channelUp e) →
    Machine.exec Handler.step s.clients.handler es = some h' →
    ∃ s', Machine.Within step (Drives drv) (316 * es.length) s s' ∧ Follows s h' s' := by
  induction es with
  | nil =>
    intro s h' _ hrun hs _ hexec
    cases hexec
    exact ⟨s, .refl s, rfl, rfl, hs, hrun⟩
  | cons e es ih =>
    intro s h' hreach hrun hs hown hexec
    obtain ⟨h1, h1e, hrest⟩ := Machine.exec_cons_iff.mp hexec
    obtain ⟨s1, hw1, hf1⟩ :=
      step_follows hreach hrun hs hdrv (hown e List.mem_cons_self) h1e
    rw [← hf1.handler] at hrest
    obtain ⟨s', hw, hf⟩ := ih (hw1.reachable hreach) hf1.running hf1.idle
      (fun e' he' => hown e' (List.mem_cons_of_mem e he')) hrest
    refine ⟨s', (hw1.trans hw).mono ?_, hf.handler, hf.get.trans hf1.get, hf.idle, hf.running⟩
    rw [List.length_cons]
    omega

/-- From every reachable state in which the process runs, the queue has not been stopped and what
is unfinished has a finite timeout, the steps of the handler's own threads and of whoever holds
`m_commMutex` bring every waiting `get()` of a pushed transaction to its end, whatever the driver
answers and wherever the receiving side is held up. -/
theorem gateway_returns (h : Machine.Reachable step init s) (hrun : running s = true)
    (hcallers : ∀ t, (s.clients.handler.caller t).ending = false)
    (hfinite : ∀ j ∈ s.clients.handler.queue.pushed, ∀ o, s.clients.handler.tx j = some o →
      o.exec.tr.isFinished = false → o.exec.tr.infinitTimeout = false)
    (hpushed : i ∈ s.clients.handler.queue.pushed)
    (hwait : s.clients.get i = .waitStart ∨ s.clients.get i = .waitFinish)
    (hdrv : ∀ x len, x.listen = .read len → (drv x).fills len = true) (expired : Bool) :
    ∃ es s', Machine.Steps step (Drives drv) s es ∧
      Machine.exec step s (es ++ [.clients (.getWake i expired)]) = some s' ∧
      (∃ o r, s'.clients.handler.tx i = some o ∧ s'.clients.get i = .returned r ∧
        r.request = o.request.copy) ∧
      es.length ≤ 316 * (40 * (s.clients.handler.queue.queue.length + 2) + 1) := by
  have hdraining := Handler.draining_of_callers (parts_reachable h).inv.handler hcallers hfinite
  -- a call of the channel that is on its way comes back first
  have hfirst : ∃ h1 s1, Machine.Within step (Drives drv) 316 s s1 ∧ Follows s h1 s1 ∧
      Handler.Draining h1 ∧ h1.queue = s.clients.handler.queue := by
    cases hs : s.sending with
    | none => exact ⟨_, s, (Machine.Within.refl s).mono (by omega), ⟨rfl, rfl, hs, hrun⟩,
        hdraining, rfl⟩
    | some j =>
      obtain ⟨h1, s1, hh, hw, hf⟩ := execute_follows h hrun hs hdrv
      have hqueue := (Handler.functorStep_frame hh).1
      exact ⟨h1, s1, (hw.imp fun _ _ => Sends.drives).mono (by omega), hf,
        hdraining.next .functor hh (hqueue ▸ hdraining.serving), hqueue⟩
  obtain ⟨h1, s1, hw1, hf1, hdraining1, hqueue⟩ := hfirst
  obtain ⟨hs, h2, hown, hexec, hdone, hserved, hsame, hlen⟩ := hdraining1.run Handler.channelUp
  rw [← hf1.handler] at hexec
  obtain ⟨s2, hw2, hf2⟩ :=
    run_follows hdrv (hw1.reachable h) hf1.running hf1.idle hown hexec
  have hw := hw1.trans hw2
  have hreach2 := hw.reachable h
  have hi2 := (parts_reachable hreach2).inv
  -- everything has finished, and the caller finds it so
  obtain ⟨_, hfinished⟩ := hserved.finished hdone.reachable
  obtain ⟨o, ho, hf⟩ := hfinished i (by rw [hsame, hqueue]; exact hpushed)
  rw [← hf2.handler] at ho
  have hwait2 : s2.clients.get i = .waitStart ∨ s2.clients.get i = .waitFinish := by
    rw [hf2.get, hf1.get]
    exact hwait
  obtain ⟨c, hwake, hret⟩ := Clients.getWake_finished hi2 ho hf hwait2 expired
  have hi' := Clients.inv_step hi2 hwake
  obtain ⟨o', ho', _, hres, _⟩ := hi'.returned hret
  have hlast := step_clients hf2.running (by simp [clientsOwn, hf2.idle]) hwake
  obtain ⟨es, hsteps, hes, hbound⟩ := hw
  refine ⟨es, { s2 with clients := c }, hsteps, Machine.exec_append_iff.mpr ⟨s2, hes, ?_⟩,
    ⟨o', _, ho', hret, ?_⟩, ?_⟩
  · rw [Machine.exec_single]
    exact hlast
  · rw [← hres]
    exact (Handler.txOk hi'.handler ho').request
  · rw [hqueue] at hlen
    omega

/-- Every call of the driver fails. -/
def deaf : Imp.State → Imp.Answer := fun _ => ⟨.other (-1), ⟨true, .other 0, 0⟩, []⟩

/-- The driver fails while the worker is in its call and the caller waits. -/
theorem gateway_returns_deaf : ∃ s es s' r, Machine.exec step init (sendsLedPulse.take 18) =
      some s ∧ s.sending = some 0 ∧ Machine.exec step s es = some s' ∧
    s'.clients.get 0 = .returned r := by
  have hrun : ∃ s, Machine.exec step init (sendsLedPulse.take 18) = some s ∧
      s.sending = some 0 ∧ running s = true ∧ s.clients.get 0 = .waitFinish ∧
      s.clients.handler.queue.pushed = [0] ∧
      (∀ t, (s.clients.handler.caller t).ending = false) ∧
      ∀ j ∈ s.clients.handler.queue.pushed, ∀ o, s.clients.handler.tx j = some o →
        o.exec.tr.isFinished = false → o.exec.tr.infinitTimeout = false := by
    refine ⟨_, rfl, rfl, rfl, rfl, rfl, fun t => ?_, fun j hj o ho _ => ?_⟩
    · rcases t with _ | t <;> rfl
    · rw [List.mem_singleton.mp hj] at ho
      cases ho
      rfl
  obtain ⟨s, hexec, hs, hrun, hwait, hpushed, hcallers, hfinite⟩ := hrun
  have hdrv : ∀ (x : Imp.State) (len : Nat), x.listen = .read len →
      (deaf x).fills len = true := by
    intro x len _
    simp [deaf, Imp.Answer.fills]
  obtain ⟨es, s', _, hes, ⟨_, r, _, hret, _⟩, _⟩ := gateway_returns ⟨_, hexec⟩ hrun hcallers
    hfinite (by rw [hpushed]; simp) (.inr hwait) hdrv true
  exact ⟨s, _, s', r, hexec, hs, hes, hret⟩

end Returns

end Gateway
end ClibDpa
