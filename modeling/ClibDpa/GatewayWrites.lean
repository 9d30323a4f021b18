import ClibDpa.Gateway
import ClibDpa.SpiSends

/-!
# ClibDpa.GatewayWrites

What reaches the module of what the callers have submitted. The worker is in `sendTo` of the
channel for one request after the other, and holds up everything that could change the request
meanwhile.

* `Sender` / `sender_step` — the worker between `execute()` and the channel.
* `module_requests`        — the messages that the module has taken.
-/

namespace ClibDpa
namespace Gateway

open IqrfSpiChannel

/-- The messages that `execute()` has passed on, up to the last call that has returned. -/
def requests (s : State) : List (List UInt8) := s.clients.handler.sent.map Prod.snd

/-- The messages of the worker's finished calls of `sendTo`. -/
def sentMessages (s : State) : List (List UInt8) := (s.channel.sent worker).map Prod.fst

/-- Where the worker is: not in `m_sender`, in the channel's `sendTo`, or on its way back. -/
inductive Sender (s : State) : Prop where
  | idle {r : Option Bool} : s.sending = none → s.channel.client worker = .returned r →
      sentMessages s = requests s → Sender s
  | calling {i : Nat} {message : List UInt8} : s.sending = some i →
      atSender s.clients.handler = some (i, message) →
      (s.channel.client worker).sending = some message → sentMessages s = requests s → Sender s
  | called {i : Nat} {message : List UInt8} {r : Option Bool} : s.sending = some i →
      atSender s.clients.handler = some (i, message) →
      s.channel.client worker = .returned r → sentMessages s = requests s ++ [message] → Sender s

/-! ## The handler's side -/

section Handler

variable {h h' : Handler.State} {i : Nat} {message : List UInt8}

theorem atSender_some (ha : atSender h = some (i, message)) :
    ∃ n o, h.functor = .branch i n ∧ h.tx i = some o ∧ Handler.executeCode o n = trnOk ∧
      message = o.exec.tr.result.request.bytes := by
  unfold atSender at ha
  split at ha
  · rename_i j n hf
    split at ha
    · cases ha
    · rename_i o ho
      rw [Handler.sends_eq] at ha
      split at ha
      · cases ha
        exact ⟨n, o, hf, ho, ‹_›, rfl⟩
      · cases ha
  · cases ha

theorem atSender_of {n : Nat} {o : Handler.Submission} (hf : h.functor = .branch i n)
    (ho : h.tx i = some o) (hcode : Handler.executeCode o n = trnOk) :
    atSender h = some (i, o.exec.tr.result.request.bytes) := by
  simp [atSender, hf, ho, Handler.sends_eq, hcode]

/-- `execute()` passes nothing empty on. -/
theorem atSender_nonempty (hr : Machine.Reachable Handler.step Handler.init h)
    (ha : atSender h = some (i, message)) : message ≠ [] := by
  obtain ⟨n, o, hf, ho, _, rfl⟩ := atSender_some ha
  have hok := Handler.ok_reachable hr
  obtain ⟨pre, hserial⟩ := hok.serial
  obtain ⟨hgp, hpp⟩ := TaskQueue.given_prefix hok.base.queue
  have hgiven : i ∈ h.queue.given := by
    rw [hserial.given, hf]
    exact List.mem_append_right pre (List.mem_singleton_self i)
  have hne := Handler.pushed_nonempty hr ((hgp.trans hpp).subset hgiven) ho
  rwa [(hok.tx i o ho).request, DpaMessage.copy_bytes]

/-- Only the functor itself leaves its place. -/
theorem functor_kept {e : Handler.Event} {n : Nat}
    (hr : Machine.Reachable Handler.step Handler.init h) (hf : h.functor = .branch i n)
    (hne : ∀ sendTo, e ≠ .functor sendTo) (he : Handler.step h e = some h') :
    h'.functor = .branch i n := by
  obtain ⟨pre, hserial⟩ := (Handler.ok_reachable hr).serial
  have hbusy := hserial.busy.mpr (by rw [hf]; simp)
  cases Handler.step_effect he with
  | submit _ => rw [Handler.submit_functor, hf]
  | @client t q _ =>
    obtain ⟨tx, htx⟩ := Handler.noteAhead_fields h t
    rw [htx]
    exact hf
  | start hpc _ =>
    obtain ⟨j, hj⟩ := hbusy
    rw [hpc] at hj
    cases hj
  | finish _ hdone _ => rw [hf] at hdone; cases hdone
  | assign _ => exact absurd rfl (hne _)
  | size _ _ => exact absurd rfl (hne _)
  | execute _ _ _ => exact absurd rfl (hne _)
  | done _ _ _ => exact absurd rfl (hne _)
  | _ => exact hf

theorem atSender_kept {e : Handler.Event}
    (hr : Machine.Reachable Handler.step Handler.init h)
    (ha : atSender h = some (i, message)) (hne : ∀ sendTo, e ≠ .functor sendTo)
    (hna : ∀ ev, Clients.acted h e ≠ some (i, ev)) (he : Handler.step h e = some h') :
    atSender h' = some (i, message) := by
  obtain ⟨n, o, hf, ho, hcode, rfl⟩ := atSender_some ha
  have hf' := functor_kept hr hf hne he
  have hu := Clients.unseen_step (Handler.base_reachable hr) he hna
  rw [ho] at hu
  generalize hnew : h'.tx i = new at hu
  cases hu with
  | same => exact atSender_of hf' hnew hcode
  | @ahead o n' => exact atSender_of (o := { o with ahead := n' }) hf' hnew hcode

/-- What does not go through `m_sender` sends nothing. -/
theorem sent_kept {e : Handler.Event} (hne : ∀ sendTo, e = .functor sendTo → atSender h = none)
    (he : Handler.step h e = some h') : h'.sent = h.sent := by
  cases Handler.step_effect he with
  | submit _ => exact Handler.submit_sent _ _ _ _ _
  | @client t q _ =>
    obtain ⟨tx, htx⟩ := Handler.noteAhead_fields h t
    rw [htx]
  | @execute j n _ o x hf ho _ =>
    have hcode : Handler.executeCode o n ≠ trnOk := by
      intro hcode
      have hnone := hne _ rfl
      rw [atSender_of hf ho hcode] at hnone
      cases hnone
    simp [Handler.sends_eq, hcode]
  | _ => rfl

theorem execute_sent {sendTo : List UInt8 → Except Exc Unit}
    (ha : atSender h = some (i, message)) (he : Handler.step h (.functor sendTo) = some h') :
    h'.sent = h.sent ++ [(i, message)] := by
  obtain ⟨n, o, hf, ho, hcode, rfl⟩ := atSender_some ha
  obtain ⟨o', x, ho', _, rfl⟩ := Handler.functorStep_branch hf he
  cases ho.symm.trans ho'
  simp [Handler.sends_eq, hcode]

end Handler

/-! ## The channel's side -/

section Channel

variable {c c' : Imp.State} {e : Imp.Event}

/-- An event of the channel's own in which the worker moves is a step inside its call. -/
theorem worker_event (ho : channelOwn c e = true) (ht : e.thread = some worker) :
    ∃ a, e = .client worker a := by
  cases e with
  | sendTo t message tracerIsValid =>
    cases ht
    simp [channelOwn] at ho
  | getState t =>
    cases ht
    simp [channelOwn] at ho
  | client t a =>
    cases ht
    exact ⟨a, rfl⟩
  | _ => cases ht

/-- Either the worker moves, or it stays where it is. -/
theorem channel_worker (ho : channelOwn c e = true) (he : Imp.step c e = some c') :
    (c'.client worker = c.client worker ∧ c'.sent worker = c.sent worker) ∨
    ∃ a l fin pc m, e = .client worker a ∧ Imp.Move c worker l fin pc m ∧
      c'.client worker = pc ∧ c'.sent = Imp.noteSent c worker fin := by
  cases Imp.step_effect he with
  | @client _ t l fin pc m ht hmove =>
    by_cases htw : t = worker
    · subst htw
      obtain ⟨a, rfl⟩ := worker_event ho ht
      exact .inr ⟨a, l, fin, pc, m, rfl, hmove, by simp [Imp.setClient], rfl⟩
    · refine .inl ⟨by simp [Imp.setClient, Ne.symm htw], ?_⟩
      cases fin with
      | none => rfl
      | some d => simp [Imp.noteSent, Ne.symm htw]
  | _ => exact .inl ⟨rfl, rfl⟩

/-- A worker that is not in a call stays outside. -/
theorem worker_outside {r : Option Bool} (ho : channelOwn c e = true)
    (he : Imp.step c e = some c') (hr : c.client worker = .returned r) :
    c'.client worker = .returned r ∧ c'.sent worker = c.sent worker := by
  rcases channel_worker ho he with ⟨hclient, hsent⟩ | ⟨a, _, _, _, _, rfl, _⟩
  · exact ⟨hclient.trans hr, hsent⟩
  · simp [Imp.step, Imp.clientStep, hr] at he

/-- The worker's call goes on, or returns. -/
theorem worker_calling {message : List UInt8} (ho : channelOwn c e = true)
    (he : Imp.step c e = some c') (hm : (c.client worker).sending = some message) :
    ((c'.client worker).sending = some message ∧ c'.sent worker = c.sent worker) ∨
    ∃ r met, c'.client worker = .returned r ∧
      c'.sent worker = c.sent worker ++ [(message, met)] := by
  have hgo : ∀ {pc : Imp.ClientPc} {d : Imp.Sending}, c.client worker = pc →
      pc.sending = some d.message → d.message = message := by
    intro pc d hpc hd
    rw [hpc, hd] at hm
    exact Option.some.inj hm
  have hend : ∀ {d : Imp.Sending}, d.message = message →
      c'.sent = Imp.noteSent c worker (some d) →
      ∃ met, c'.sent worker = c.sent worker ++ [(message, met)] := by
    intro d hd hsent
    refine ⟨d.met, ?_⟩
    simp [hsent, Imp.noteSent, hd]
  rcases channel_worker ho he with ⟨hclient, hsent⟩ | ⟨a, l, fin, pc, m, _, hmove, hpc, hsent⟩
  · exact .inl ⟨by rw [hclient]; exact hm, hsent⟩
  · rw [hpc]
    cases hmove with
    | sendTo hc => rw [hc] at hm; cases hm
    | dumps hc => rw [hc] at hm; cases hm
    | getState hc => rw [hc] at hm; cases hm
    | attempt hc _ _ => exact .inl ⟨congrArg some (hgo hc rfl), congrFun hsent worker⟩
    | exhausted hc _ =>
      obtain ⟨met, hmet⟩ := hend (hgo hc rfl) hsent
      exact .inr ⟨_, met, rfl, hmet⟩
    | ready hc _ => exact .inl ⟨congrArg some (hgo hc rfl), congrFun hsent worker⟩
    | notReady hc _ => exact .inl ⟨congrArg some (hgo hc rfl), congrFun hsent worker⟩
    | written hc => exact .inl ⟨congrArg some (hgo hc rfl), congrFun hsent worker⟩
    | refused hc _ => exact .inl ⟨congrArg some (hgo hc rfl), congrFun hsent worker⟩
    | postpone hc => exact .inl ⟨congrArg some (hgo hc rfl), congrFun hsent worker⟩
    | goOn hc => exact .inl ⟨congrArg some (hgo hc rfl), congrFun hsent worker⟩
    | waited hc _ => exact .inl ⟨congrArg some (hgo hc rfl), congrFun hsent worker⟩
    | again hc => exact .inl ⟨congrArg some (hgo hc rfl), congrFun hsent worker⟩
    | done hc =>
      obtain ⟨met, hmet⟩ := hend (hgo hc rfl) hsent
      exact .inr ⟨_, met, rfl, hmet⟩
    | lock hc _ => rw [hc] at hm; cases hm
    | first hc => rw [hc] at hm; cases hm
    | second hc => rw [hc] at hm; cases hm
    | leave hc => rw [hc] at hm; cases hm

end Channel

/-! ## Both -/

section Sender

variable {s s' : State}

theorem clients_kept {e : Clients.Event} {c c' : Clients.State} (hi : Clients.Inv c)
    (hne : ∀ sendTo, e = .handler (.functor sendTo) → atSender c.handler = none)
    (he : Clients.step c e = some c') :
    c'.handler.sent = c.handler.sent ∧
      ∀ i message, atSender c.handler = some (i, message) → locks c e ≠ some i →
        atSender c'.handler = some (i, message) := by
  cases e with
  | get j =>
    rw [Clients.onGet_handler hi (fun ev hev => by cases hev) he]
    exact ⟨rfl, fun _ _ ha _ => ha⟩
  | getWake j expired =>
    rw [Clients.onGet_handler hi (fun ev hev => by cases hev) he]
    exact ⟨rfl, fun _ _ ha _ => ha⟩
  | handler e =>
    obtain ⟨h', hh, rfl⟩ := Clients.handler_some he
    refine ⟨sent_kept (fun sendTo heq => hne sendTo (by rw [heq])) hh, fun i message ha hl => ?_⟩
    refine atSender_kept hi.handler ha (fun sendTo heq => ?_) (fun ev hev => ?_) hh
    · have hnone := hne sendTo (by rw [heq])
      rw [ha] at hnone
      cases hnone
    · exact hl (by simp [locks, hev])

theorem clientsOwn_functor {e : Clients.Event} (ho : clientsOwn s e = true)
    (sendTo : List UInt8 → Except Exc Unit) (heq : e = .handler (.functor sendTo)) :
    atSender s.clients.handler = none := by
  subst heq
  exact Option.isNone_iff_eq_none.mp ho

/-- The worker in `m_sender` holds up what would get into its transaction. -/
theorem clientsOwn_free {e : Clients.Event} {i : Nat} {message : List UInt8}
    (ho : clientsOwn s e = true) (hs : s.sending = some i)
    (ha : atSender s.clients.handler = some (i, message)) : locks s.clients e ≠ some i := by
  have hother : (s.sending.isNone || locks s.clients e != s.sending) = true →
      locks s.clients e ≠ some i := by
    intro hor hl
    simp [hs, hl] at hor
  cases e with
  | get j => exact hother ho
  | getWake j expired => exact hother ho
  | handler e =>
    cases e with
    | functor sendTo =>
      have hnone := clientsOwn_functor ho sendTo rfl
      rw [ha] at hnone
      cases hnone
    | deliver message => cases ho
    | _ => exact hother ho

/-- What happens on the handler's side leaves the worker where it is. -/
theorem Sender.clients {e : Clients.Event} {c : Clients.State} (h : Sender s) (hp : Parts s)
    (hne : ∀ sendTo, e = .handler (.functor sendTo) → atSender s.clients.handler = none)
    (hfree : ∀ i message, s.sending = some i → atSender s.clients.handler = some (i, message) →
      locks s.clients e ≠ some i)
    (he : Clients.step s.clients e = some c) (delivering : Bool) (calls : List (List UInt8)) :
    Sender { s with clients := c, delivering := delivering, calls := calls } := by
  obtain ⟨hsent, hat⟩ := clients_kept hp.inv hne he
  have hrequests : requests { s with clients := c, delivering := delivering, calls := calls } =
      requests s := by
    simp only [requests, hsent]
  cases h with
  | idle hs hc hm => exact .idle hs hc (hm.trans hrequests.symm)
  | calling hs ha hc hm =>
    exact .calling hs (hat _ _ ha (hfree _ _ hs ha)) hc (hm.trans hrequests.symm)
  | called hs ha hc hm =>
    refine .called hs (hat _ _ ha (hfree _ _ hs ha)) hc ?_
    rw [hrequests]
    exact hm

theorem sentMessages_of {c : Imp.State} {delivering : Bool}
    (h : c.sent worker = s.channel.sent worker) :
    sentMessages { s with channel := c, delivering := delivering } = sentMessages s := by
  simp only [sentMessages, h]

theorem sender_init : Sender init := .idle rfl rfl rfl

theorem sender_step {e : Event} (hp : Parts s) (h : Sender s) (he : Effect s e s') :
    Sender s' := by
  cases he with
  | @channel e c ho hc =>
    cases h with
    | idle hs hr hm =>
      obtain ⟨hr', hsent⟩ := worker_outside ho hc hr
      exact .idle hs hr' ((sentMessages_of hsent).trans hm)
    | calling hs ha hcall hm =>
      rcases worker_calling ho hc hcall with ⟨hcall', hsent⟩ | ⟨r, met, hr, hsent⟩
      · exact .calling hs ha hcall' ((sentMessages_of hsent).trans hm)
      · refine .called hs ha hr ?_
        simp only [sentMessages] at hm
        simp [sentMessages, requests, hsent, hm]
    | called hs ha hr hm =>
      obtain ⟨hr', hsent⟩ := worker_outside ho hc hr
      exact .called hs ha hr' ((sentMessages_of hsent).trans hm)
  | clients ho hc =>
    exact h.clients hp (clientsOwn_functor ho) (fun _ _ hs ha => clientsOwn_free ho hs ha) hc
      s.delivering s.calls
  | @sendTo i message _ c hs ha hc =>
    obtain ⟨⟨r, hr⟩, rfl⟩ := channel_sendTo hc
    cases h with
    | idle _ _ hm =>
      have hne := atSender_nonempty hp.inv.handler ha
      rw [Imp.enterSendTo_of_ne hne]
      exact .calling rfl ha (by simp [Imp.setClient, Imp.ClientPc.sending]) hm
    | calling hs' _ _ _ => rw [hs] at hs'; cases hs'
    | called hs' _ _ _ => rw [hs] at hs'; cases hs'
  | @sent i r c hs hr hc =>
    cases h with
    | idle hs' _ _ => rw [hs] at hs'; cases hs'
    | calling _ _ hcall _ => rw [hr] at hcall; cases hcall
    | called _ ha _ hm =>
      obtain ⟨h', hh, rfl⟩ := Clients.handler_some hc
      refine .idle rfl hr ?_
      simp only [sentMessages, requests] at hm ⊢
      rw [execute_sent ha hh, hm]
      simp
  | deliver _ _ hc =>
    refine h.clients hp (fun sendTo heq => by cases heq) (fun _ _ _ _ => ?_) hc true _
    simp [locks, Clients.acted]
  | @returned result c hd hc =>
    obtain ⟨message, hl⟩ := hp.calling hd
    obtain ⟨_, _, hclient, hsent⟩ := channel_receiveFrom hp.registered hl hc
    have hsame : sentMessages { s with channel := c, delivering := false } = sentMessages s :=
      sentMessages_of (congrFun hsent worker)
    cases h with
    | idle hs hr hm => exact .idle hs (by rw [hclient]; exact hr) (hsame.trans hm)
    | calling hs ha hcall hm =>
      exact .calling hs ha (by rw [hclient]; exact hcall) (hsame.trans hm)
    | called hs ha hr hm => exact .called hs ha (by rw [hclient]; exact hr) (hsame.trans hm)

theorem sender_reachable (h : Machine.Reachable step init s) : Sender s := by
  have hall := h.inv (I := fun s => Parts s ∧ Sender s)
    (fun _ _ _ hI he => ⟨parts_step hI.1 (step_effect he), sender_step hI.1 hI.2 (step_effect he)⟩)
    ⟨parts_init, sender_init⟩
  exact hall.2

/-! ## What the module takes -/

/-- The message of a write that the driver has accepted. -/
def acceptedMessage : DriverCall → Option (List UInt8)
  | .write message true => some message
  | _ => none

/-- The messages that the module has taken from the worker, in order. -/
def taken (log : List (Imp.Caller × Imp.Access)) : List (List UInt8) :=
  (Imp.callsOf worker log).filterMap acceptedMessage

theorem acceptedMessage_some {call : DriverCall} {m : List UInt8}
    (h : acceptedMessage call = some m) : call = .write m true := by
  unfold acceptedMessage at h
  split at h
  · cases h
    rfl
  · cases h

theorem filterMap_length (calls : List DriverCall) :
    (calls.filterMap acceptedMessage).length = (calls.filter DriverCall.accepted).length := by
  induction calls with
  | nil => rfl
  | cons call calls ih =>
    cases call with
    | getSPIStatus =>
      rw [List.filterMap_cons_none rfl, List.filter_cons_of_neg (by simp [DriverCall.accepted]), ih]
    | write m accepted =>
      cases accepted with
      | false =>
        rw [List.filterMap_cons_none rfl,
          List.filter_cons_of_neg (by simp [DriverCall.accepted]), ih]
      | true =>
        have hsome : acceptedMessage (.write m true) = some m := rfl
        rw [List.filterMap_cons_some hsome, List.filter_cons_of_pos rfl, List.length_cons,
          List.length_cons, ih]

/-- From one run of the loop the module takes its message, or nothing. -/
theorem taken_run (outcome : Nat → IqrfSpiChannel.Outcome) (message : List UInt8) :
    ((IqrfSpiChannel.sendLoop outcome message).calls.filterMap acceptedMessage).Sublist
      [message] := by
  have hlen := Imp.accepted_le_one outcome message
  rw [← filterMap_length] at hlen
  have hmem : ∀ m ∈ (IqrfSpiChannel.sendLoop outcome message).calls.filterMap acceptedMessage,
      m = message := by
    intro m hm
    obtain ⟨call, hcall, hacc⟩ := List.mem_filterMap.mp hm
    rw [acceptedMessage_some hacc] at hcall
    obtain ⟨o, _, ho⟩ := List.mem_flatMap.mp hcall
    exact calls_message ho
  generalize (IqrfSpiChannel.sendLoop outcome message).calls.filterMap acceptedMessage = l at *
  match l with
  | [] => exact List.nil_sublist _
  | [m] =>
    rw [hmem m List.mem_cons_self]
  | _ :: _ :: _ => simp at hlen

theorem taken_runs (runs : List (List UInt8 × (Nat → IqrfSpiChannel.Outcome))) :
    ((runs.flatMap fun r => (IqrfSpiChannel.sendLoop r.2 r.1).calls).filterMap
      acceptedMessage).Sublist (runs.map Prod.fst) := by
  induction runs with
  | nil => exact List.Sublist.refl _
  | cons r runs ih =>
    rw [List.flatMap_cons, List.filterMap_append, List.map_cons, ← List.singleton_append]
    exact (taken_run r.2 r.1).append ih

/-- What the module has taken is a part of what was sent, the call on its way included. -/
theorem taken_sublist (h : Machine.Reachable Imp.step Imp.init s.channel) :
    (taken s.channel.log).Sublist
      (sentMessages s ++ (s.channel.client worker).sending.toList) := by
  obtain ⟨htried, hsent, hcalls⟩ := Imp.sends_reachable h worker
  obtain ⟨runs, hfst, hruns⟩ := Imp.Sends.runs hsent
  simp only [taken, hcalls, hruns, List.filterMap_append, sentMessages, hfst]
  refine (taken_runs runs).append ?_
  cases hs : (s.channel.client worker).sending with
  | none =>
    rw [Imp.ClientPc.made_of_idle hs]
    exact List.Sublist.refl _
  | some message =>
    obtain ⟨outcome, hfront⟩ := Imp.Sends.made_front htried hs
    exact (hfront.sublist.filterMap acceptedMessage).trans (taken_run outcome message)

/-- The requests that the worker has come to, with their transactions. -/
def reached (s : State) : List (Nat × List UInt8) :=
  s.clients.handler.sent ++ if s.sending.isSome then (atSender s.clients.handler).toList else []

theorem Sender.taken (h : Sender s) (hp : Parts s) :
    (taken s.channel.log).Sublist ((reached s).map Prod.snd) := by
  refine (taken_sublist hp.channel).trans ?_
  cases h with
  | idle hs hr hm =>
    have hidle : (s.channel.client worker).sending = none := by rw [hr]; rfl
    simp [hidle, hm, reached, hs, requests]
  | calling hs ha hcall hm => simp [hcall, hm, reached, hs, ha, requests]
  | called hs ha hr hm =>
    have hidle : (s.channel.client worker).sending = none := by rw [hr]; rfl
    simp [hidle, hm, reached, hs, ha, requests]

theorem reached_facts (h : Sender s) (hp : Parts s) :
    ((reached s).map Prod.fst).Sublist s.clients.handler.queue.pushed ∧
    ∀ p ∈ reached s, ∃ o pre post, s.clients.handler.tx p.1 = some o ∧ p.2 = o.request.bytes ∧
      s.clients.handler.queue.pushed = pre ++ p.1 :: post ∧
      ∀ j ∈ pre, ∃ o', s.clients.handler.tx j = some o' ∧ o'.exec.tr.isFinished = true := by
  have hok := Handler.ok_reachable hp.inv.handler
  obtain ⟨done, hserial⟩ := hok.serial
  obtain ⟨hgp, hpp⟩ := TaskQueue.given_prefix hok.base.queue
  have hpast : ((reached s).map Prod.fst).Sublist (done ++ s.clients.handler.functor.current) ∧
      ∀ p ∈ reached s, ∃ o, s.clients.handler.tx p.1 = some o ∧ p.2 = o.request.bytes := by
    have hrunning : (Handler.sentIds s.clients.handler).Sublist
        (done ++ s.clients.handler.functor.current) := by
      refine hserial.order.trans ((List.Sublist.refl done).append ?_)
      cases s.clients.handler.functor <;>
        first | exact List.Sublist.refl _ | exact List.nil_sublist _
    have hidle : s.sending = none → reached s = s.clients.handler.sent := by
      intro hs
      simp [reached, hs]
    have hsending : ∀ i message, s.sending = some i →
        atSender s.clients.handler = some (i, message) →
        ((reached s).map Prod.fst).Sublist (done ++ s.clients.handler.functor.current) ∧
        ∀ p ∈ reached s, ∃ o, s.clients.handler.tx p.1 = some o ∧ p.2 = o.request.bytes := by
      intro i message hs ha
      have hreached : reached s = s.clients.handler.sent ++ [(i, message)] := by
        simp [reached, hs, ha]
      obtain ⟨n, o, hf, ho, _, rfl⟩ := atSender_some ha
      have horder := hserial.order
      rw [hf] at horder
      simp only [Handler.FunctorPc.running, List.append_nil] at horder
      refine ⟨?_, fun p hmem => ?_⟩
      · rw [hreached, hf, List.map_append]
        exact horder.append (List.Sublist.refl [i])
      · rw [hreached] at hmem
        rcases List.mem_append.mp hmem with hmem | hmem
        · exact hserial.payload p hmem
        · rw [List.mem_singleton.mp hmem]
          refine ⟨o, ho, ?_⟩
          rw [(hok.tx i o ho).request, DpaMessage.copy_bytes]
    cases h with
    | idle hs _ _ => rw [hidle hs]; exact ⟨hrunning, hserial.payload⟩
    | calling hs ha _ _ => exact hsending _ _ hs ha
    | called hs ha _ _ => exact hsending _ _ hs ha
  refine ⟨hpast.1.trans ?_, fun p hmem => ?_⟩
  · rw [← hserial.given]
    exact (hgp.trans hpp).sublist
  · obtain ⟨o, ho, hbytes⟩ := hpast.2 p hmem
    obtain ⟨pre, post, hsplit, hdone⟩ :=
      Clients.dequeued_before hok hserial (hpast.1.subset (List.mem_map_of_mem hmem))
    exact ⟨o, pre, post, ho, hbytes, hsplit, hdone⟩

/-- What the module has taken from the worker are requests of submitted transactions, byte for
byte, in the order in which they were pushed, each once at most; and when it has taken one,
everything pushed before that has finished. -/
theorem module_requests (h : Machine.Reachable step init s) :
    ∃ ids : List Nat, ids.Sublist s.clients.handler.queue.pushed ∧ ids.Nodup ∧
      List.Forall₂ (fun i message => ∃ o, s.clients.handler.tx i = some o ∧
        message = o.request.bytes) ids (taken s.channel.log) ∧
      ∀ i ∈ ids, ∃ pre post, s.clients.handler.queue.pushed = pre ++ i :: post ∧
        ∀ j ∈ pre, ∃ o, s.clients.handler.tx j = some o ∧ o.exec.tr.isFinished = true := by
  have hp := parts_reachable h
  have hs := sender_reachable h
  obtain ⟨horder, hfacts⟩ := reached_facts hs hp
  obtain ⟨ps, hps, htaken⟩ := List.sublist_map_iff.mp (hs.taken hp)
  have hids : (ps.map Prod.fst).Sublist s.clients.handler.queue.pushed :=
    (hps.map Prod.fst).trans horder
  refine ⟨ps.map Prod.fst, hids,
    (Handler.ok_reachable hp.inv.handler).pushes.nodup.sublist hids, ?_, fun i hi => ?_⟩
  · rw [htaken, List.forall₂_map_left_iff, List.forall₂_map_right_iff, List.forall₂_same]
    intro p hmem
    obtain ⟨o, _, _, ho, hbytes, _⟩ := hfacts p (hps.subset hmem)
    exact ⟨o, ho, hbytes⟩
  · obtain ⟨p, hmem, rfl⟩ := List.mem_map.mp hi
    obtain ⟨_, pre, post, _, _, hsplit, hdone⟩ := hfacts p (hps.subset hmem)
    exact ⟨pre, post, hsplit, hdone⟩

theorem module_requests_ledPulse : ∃ s i o, Machine.exec step init sendsLedPulse = some s ∧
    taken s.channel.log = [ledPulse.message.bytes] ∧ s.clients.handler.tx i = some o ∧
    ledPulse.message.bytes = o.request.bytes := by
  have hrun : ∃ s, Machine.exec step init sendsLedPulse = some s ∧
      taken s.channel.log = [ledPulse.message.bytes] := ⟨_, rfl, rfl⟩
  obtain ⟨s, hexec, htaken⟩ := hrun
  obtain ⟨ids, _, _, hrequests, _⟩ := module_requests ⟨_, hexec⟩
  rw [htaken] at hrequests
  cases hrequests with
  | @cons i _ _ _ hi _ =>
    obtain ⟨o, ho, hbytes⟩ := hi
    exact ⟨s, i, o, hexec, htaken, ho, hbytes⟩

end Sender

end Gateway
end ClibDpa
