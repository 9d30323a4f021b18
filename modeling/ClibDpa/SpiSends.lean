import ClibDpa.SpiBus

/-!
# ClibDpa.SpiSends

`sendTo` in the machine of all threads next to `IqrfSpiChannel.sendLoop`, the loop by itself. Other
threads come between the attempts of a call and change what the driver answers to them, nothing
else: what a thread asks of the driver is, call by call, a run of the loop.

* `Sends`              — the invariant of one thread.
* `sendTo_sequential`  — the calls of a thread in every run.
-/

namespace ClibDpa
namespace IqrfSpiChannel
namespace Imp

/-- The call, when it is one of thread `t` in `sendTo`. -/
def asCall (t : Nat) : Caller × Access → Option DriverCall
  | (.sendTo t', .getSPIStatus _ _) => if t' = t then some .getSPIStatus else none
  | (.sendTo t', .write message retval) =>
    if t' = t then some (.write message (retval = .operOk)) else none
  | _ => none

def callsOf (t : Nat) (log : List (Caller × Access)) : List DriverCall :=
  log.filterMap (asCall t)

/-- The calls of the attempts whose outcome is known. -/
def Sending.made (d : Sending) : List DriverCall := d.met.flatMap (IqrfSpiChannel.calls d.message)

/-- The calls of the send that is on its way. -/
def ClientPc.made : ClientPc → List DriverCall
  | .loop d | .getSPIStatus d | .conflict d _ | .waiting d | .unlock d _ => d.made
  | .write d _ => d.made ++ [.getSPIStatus]
  | _ => []

/-- The message of the send that is on its way. -/
def ClientPc.sending : ClientPc → Option (List UInt8)
  | .loop d | .getSPIStatus d | .conflict d _ | .waiting d | .unlock d _ | .write d _ =>
    some d.message
  | _ => none

/-- No attempt has got to the `break` yet, and `n` of them are through. -/
def Sending.Goes (d : Sending) (n : Nat) : Prop :=
  d.met.length = n ∧ n ≤ maxAttempts ∧ ∀ o ∈ d.met, breaks o = false

/-- `attempt` counts the attempts that were begun. -/
def ClientPc.Tried : ClientPc → Prop
  | .loop d | .conflict d _ | .waiting d | .unlock d false => d.Goes d.attempt
  | .getSPIStatus d | .write d _ => ∃ n, d.attempt = n + 1 ∧ n < maxAttempts ∧ d.Goes n
  | .unlock d true => Retry.Ends breaks maxAttempts d.met
  | _ => True

structure Sends (s : State) (t : Nat) : Prop where
  tried : (s.client t).Tried
  sent : ∀ p ∈ s.sent t, Retry.Ends breaks maxAttempts p.2
  calls : callsOf t s.log =
    (s.sent t).flatMap (fun p => p.2.flatMap (IqrfSpiChannel.calls p.1)) ++ (s.client t).made

section Sends

variable {s s' : State}

theorem Sending.Goes.meets {d : Sending} {n : Nat} {o : Outcome} (h : d.Goes n)
    (hn : n < maxAttempts) (ho : breaks o = false) : (d.meets o).Goes (n + 1) := by
  obtain ⟨hlen, _, hmet⟩ := h
  refine ⟨by simp [Sending.meets, hlen], hn, fun o' ho' => ?_⟩
  rcases List.mem_append.mp ho' with ho' | ho'
  · exact hmet o' ho'
  · obtain rfl := List.mem_singleton.mp ho'
    exact ho

theorem Sending.Goes.ends {d : Sending} {n : Nat} {o : Outcome} (h : d.Goes n)
    (hn : n < maxAttempts) (ho : breaks o = true) :
    Retry.Ends breaks maxAttempts (d.meets o).met :=
  .stopped h.2.2 ho (by rw [h.1]; exact hn)

theorem Sending.meets_made (d : Sending) (o : Outcome) :
    (d.meets o).made = d.made ++ IqrfSpiChannel.calls d.message o := by
  simp [Sending.made, Sending.meets]

/-- An attempt that the module is not ready for asks for the status only. -/
theorem calls_notReady (message : List UInt8) {retval : Retval} {status : DataNotReadyStatus}
    (h : ¬ (retval = .operOk ∧ status = .readyComm)) :
    IqrfSpiChannel.calls message ⟨retval, status, .operOk⟩ = [.getSPIStatus] ∧
      breaks ⟨retval, status, .operOk⟩ = false := by
  by_cases hok : retval = .operOk
  · have hnot : status ≠ .readyComm := fun hs => h ⟨hok, hs⟩
    simp [IqrfSpiChannel.calls, breaks, hok, hnot]
  · simp [IqrfSpiChannel.calls, breaks, hok]

theorem callsOf_other {t : Nat} {log l : List (Caller × Access)}
    (h : ∀ x ∈ l, ¬ x.1.isClient t) : callsOf t (log ++ l) = callsOf t log := by
  have hnone : l.filterMap (asCall t) = [] := by
    rw [List.filterMap_eq_nil_iff]
    intro x hx
    have hx := h x hx
    match x with
    | (.listen, _) => rfl
    | (.getState _, _) => rfl
    | (.sendTo t', .getSPIStatus _ _) => exact if_neg hx
    | (.sendTo t', .write _ _) => exact if_neg hx
    | (.sendTo t', .read _ _ _) => rfl
  simp [callsOf, hnone]

@[simp] theorem callsOf_getSPIStatus (t : Nat) (log : List (Caller × Access)) (retval : Retval)
    (status : SPIStatus) : callsOf t (log ++ [(.sendTo t, .getSPIStatus retval status)]) =
      callsOf t log ++ [.getSPIStatus] := by
  simp [callsOf, asCall]

@[simp] theorem callsOf_write (t : Nat) (log : List (Caller × Access)) (message : List UInt8)
    (retval : Retval) : callsOf t (log ++ [(.sendTo t, .write message retval)]) =
      callsOf t log ++ [.write message (retval = .operOk)] := by
  simp [callsOf, asCall]

@[simp] theorem callsOf_getState (t t' : Nat) (log : List (Caller × Access)) (a : Access) :
    callsOf t (log ++ [(.getState t', a)]) = callsOf t log := by
  simp [callsOf, asCall]

/-- A move of the thread itself. -/
theorem Sends.move {t : Nat} {l : List (Caller × Access)} {fin : Option Sending} {pc : ClientPc}
    {m : Option Caller} (h : Sends s t) (hm : Move s t l fin pc m) :
    pc.Tried ∧ (∀ p ∈ noteSent s t fin t, Retry.Ends breaks maxAttempts p.2) ∧
      callsOf t (s.log ++ l) = (noteSent s t fin t).flatMap
        (fun p => p.2.flatMap (IqrfSpiChannel.calls p.1)) ++ pc.made := by
  obtain ⟨htried, hsent, hcalls⟩ := h
  cases hm with
  | sendTo hc =>
    rw [hc] at hcalls
    refine ⟨⟨rfl, Nat.zero_le _, by simp⟩, hsent, ?_⟩
    simpa [noteSent, ClientPc.made, Sending.made] using hcalls
  | dumps hc =>
    rw [hc] at hcalls
    exact ⟨trivial, hsent, by simpa [noteSent, ClientPc.made] using hcalls⟩
  | getState hc =>
    rw [hc] at hcalls
    exact ⟨trivial, hsent, by simpa [noteSent, ClientPc.made] using hcalls⟩
  | @attempt d hc hlt _ =>
    rw [hc] at htried hcalls
    refine ⟨⟨d.attempt, rfl, hlt, htried⟩, hsent, ?_⟩
    simpa [noteSent, ClientPc.made, Sending.made] using hcalls
  | @exhausted d hc hlt =>
    rw [hc] at htried hcalls
    have hends : Retry.Ends breaks maxAttempts d.met :=
      .exhausted htried.2.2 (by rw [htried.1]; exact Nat.le_antisymm htried.2.1 (not_lt.mp hlt))
    refine ⟨trivial, fun p hp => ?_, ?_⟩
    · rw [noteSent, Function.update_self] at hp
      rcases List.mem_append.mp hp with hp | hp
      · exact hsent p hp
      · obtain rfl := List.mem_singleton.mp hp
        exact hends
    · simpa [noteSent, ClientPc.made, Sending.made] using hcalls
  | @ready d status hc hr =>
    rw [hc] at htried hcalls
    refine ⟨htried, hsent, ?_⟩
    rw [callsOf_getSPIStatus, hcalls]
    simp [noteSent, ClientPc.made]
  | @notReady d retval status hc hnot =>
    rw [hc] at htried hcalls
    obtain ⟨n, hn, hlt, hgoes⟩ := htried
    obtain ⟨hcall, hbreak⟩ := calls_notReady d.message hnot
    have hmeets := hgoes.meets hlt hbreak
    refine ⟨?_, hsent, ?_⟩
    · rw [← hn] at hmeets
      exact hmeets
    · rw [callsOf_getSPIStatus, hcalls]
      simp [noteSent, ClientPc.made, Sending.meets_made, hcall]
  | @written d status hc =>
    rw [hc] at htried hcalls
    obtain ⟨n, hn, hlt, hgoes⟩ := htried
    refine ⟨hgoes.ends hlt rfl, hsent, ?_⟩
    rw [callsOf_write, hcalls]
    simp [noteSent, ClientPc.made, Sending.meets_made, IqrfSpiChannel.calls]
  | @refused d status retval hc hno =>
    rw [hc] at htried hcalls
    obtain ⟨n, hn, hlt, hgoes⟩ := htried
    have hmeets := hgoes.meets (o := ⟨.operOk, .readyComm, retval⟩) hlt (by simp [breaks, hno])
    refine ⟨?_, hsent, ?_⟩
    · rw [← hn] at hmeets
      exact hmeets
    · rw [callsOf_write, hcalls]
      simp [noteSent, ClientPc.made, Sending.meets_made, IqrfSpiChannel.calls]
  | postpone hc =>
    rw [hc] at htried hcalls
    exact ⟨htried, hsent, by simpa [noteSent, ClientPc.made] using hcalls⟩
  | goOn hc =>
    rw [hc] at htried hcalls
    exact ⟨htried, hsent, by simpa [noteSent, ClientPc.made] using hcalls⟩
  | waited hc _ =>
    rw [hc] at htried hcalls
    exact ⟨htried, hsent, by simpa [noteSent, ClientPc.made] using hcalls⟩
  | again hc =>
    rw [hc] at htried hcalls
    exact ⟨htried, hsent, by simpa [noteSent, ClientPc.made] using hcalls⟩
  | @done d hc =>
    rw [hc] at htried hcalls
    refine ⟨trivial, fun p hp => ?_, ?_⟩
    · rw [noteSent, Function.update_self] at hp
      rcases List.mem_append.mp hp with hp | hp
      · exact hsent p hp
      · obtain rfl := List.mem_singleton.mp hp
        exact htried
    · simpa [noteSent, ClientPc.made, Sending.made] using hcalls
  | lock hc _ =>
    rw [hc] at hcalls
    exact ⟨trivial, hsent, by simpa [noteSent, ClientPc.made] using hcalls⟩
  | first hc =>
    rw [hc] at hcalls
    exact ⟨trivial, hsent, by simpa [noteSent, ClientPc.made] using hcalls⟩
  | second hc =>
    rw [hc] at hcalls
    exact ⟨trivial, hsent, by simpa [noteSent, ClientPc.made] using hcalls⟩
  | leave hc =>
    rw [hc] at hcalls
    exact ⟨trivial, hsent, by simpa [noteSent, ClientPc.made] using hcalls⟩

/-- A step of another thread. -/
theorem Sends.frame {t : Nat} {l : List (Caller × Access)} (h : Sends s t)
    (hclient : s'.client t = s.client t) (hsent : s'.sent t = s.sent t)
    (hlog : s'.log = s.log ++ l) (hl : ∀ x ∈ l, ¬ x.1.isClient t) : Sends s' t := by
  obtain ⟨htried, hends, hcalls⟩ := h
  refine ⟨by rw [hclient]; exact htried, by rw [hsent]; exact hends, ?_⟩
  rw [hlog, callsOf_other hl, hcalls, hclient, hsent]

theorem sends_step {e : Event} (h : ∀ t, Sends s t) (he : step s e = some s') :
    ∀ t, Sends s' t := by
  have hsame : s'.client = s.client → s'.sent = s.sent → s'.log = s.log → ∀ t, Sends s' t := by
    intro hclient hsent hlog t
    refine (h t).frame (l := []) (by rw [hclient]) (by rw [hsent]) ?_ (by simp)
    rw [hlog, List.append_nil]
  cases step_effect he with
  | @client _ t l fin pc m _ hm =>
    intro t'
    by_cases heq : t' = t
    · subst heq
      obtain ⟨htried, hsent, hcalls⟩ := (h t').move hm
      refine ⟨by simpa [setClient] using htried, hsent, ?_⟩
      simpa [setClient] using hcalls
    · refine (h t').frame (l := l) (by simp [setClient, heq]) ?_ rfl fun x hx hx' => ?_
      · cases fin <;> simp [noteSent, heq]
      · exact heq (Caller.isClient_unique
          (ClientPc.holds_isClient (hm.turn.owner x hx)) hx')
  | @listen a l pc m hm =>
    intro t
    refine (h t).frame (l := l) rfl rfl rfl fun x hx hx' => ?_
    rw [ListenPc.holds_listen (hm.turn.owner x hx)] at hx'
    exact hx'
  | read _ _ => exact fun t => (h t).frame rfl rfl rfl (by simp [Caller.isClient])
  | register _ => exact hsame rfl rfl rfl
  | push _ _ _ => exact hsame rfl rfl rfl
  | pushing _ _ => exact hsame rfl rfl rfl
  | enter _ _ => exact hsame rfl rfl rfl
  | leave _ _ _ => exact hsame rfl rfl rfl
  | worker _ _ _ => exact hsame rfl rfl rfl
  | spurious _ => exact hsame rfl rfl rfl
  | lambda _ => exact hsame rfl rfl rfl
  | closing _ => exact hsame rfl rfl rfl
  | joined _ _ => exact hsame rfl rfl rfl
  | freed _ => exact hsame rfl rfl rfl

theorem sends_init (t : Nat) : Sends init t := ⟨trivial, by simp [init], rfl⟩

theorem sends_reachable (h : Machine.Reachable step init s) : ∀ t, Sends s t :=
  h.inv (I := fun s => ∀ t, Sends s t) (fun _ _ _ hI he => sends_step hI he) sends_init

/-- The calls of an attempt that has not got to its write are a beginning of its calls. -/
theorem calls_ready (message : List UInt8) :
    [.getSPIStatus] <+: IqrfSpiChannel.calls message ⟨.operOk, .readyComm, .operOk⟩ :=
  ⟨[.write message true], rfl⟩

/-- The calls so far of a send that is on its way are a beginning of a run of the loop. -/
theorem Sends.made_front {t : Nat} {message : List UInt8} (h : (s.client t).Tried)
    (hm : (s.client t).sending = some message) : ∃ outcome : Nat → Outcome,
      (s.client t).made <+: (IqrfSpiChannel.sendLoop outcome message).calls := by
  -- between two calls the attempts so far go on, or the last of them has ended the loop
  have hgoes : ∀ {d : Sending} {n : Nat}, d.Goes n → ∃ outcome : Nat → Outcome,
      d.made <+: (IqrfSpiChannel.sendLoop outcome d.message).calls := by
    intro d n hd
    obtain ⟨outcome, rest, hrest⟩ := Retry.exists_outcome_front ⟨.operOk, .readyComm, .operOk⟩
      hd.2.2 (hd.1.trans_le hd.2.1)
    refine ⟨outcome, rest.flatMap (IqrfSpiChannel.calls d.message), ?_⟩
    simp only [IqrfSpiChannel.sendLoop, ← hrest, List.flatMap_append]
    rfl
  cases hc : s.client t with
  | loop d => rw [hc] at h hm; cases hm; exact hgoes h
  | conflict d status => rw [hc] at h hm; cases hm; exact hgoes h
  | waiting d => rw [hc] at h hm; cases hm; exact hgoes h
  | getSPIStatus d =>
    rw [hc] at h hm
    cases hm
    obtain ⟨n, _, _, hd⟩ := h
    exact hgoes hd
  | write d status =>
    rw [hc] at h hm
    cases hm
    obtain ⟨n, _, hlt, hd⟩ := h
    have hends := hd.ends (o := ⟨.operOk, .readyComm, .operOk⟩) hlt rfl
    obtain ⟨outcome, hmet⟩ := hends.exists_outcome ⟨.operOk, .readyComm, .operOk⟩
    obtain ⟨rest, hrest⟩ := calls_ready d.message
    refine ⟨outcome, rest, ?_⟩
    have hmade := d.meets_made ⟨.operOk, .readyComm, .operOk⟩
    simp only [Sending.made, ← hmet] at hmade
    simp only [IqrfSpiChannel.sendLoop, ClientPc.made]
    rw [List.append_assoc, hrest]
    exact hmade.symm
  | unlock d breaks =>
    rw [hc] at h hm
    cases hm
    cases breaks with
    | false => exact hgoes h
    | true =>
      obtain ⟨outcome, hmet⟩ := Retry.Ends.exists_outcome ⟨.operOk, .readyComm, .operOk⟩ h
      refine ⟨outcome, [], ?_⟩
      simp only [List.append_nil, ClientPc.made, Sending.made, IqrfSpiChannel.sendLoop, hmet]
  | returned r => rw [hc] at hm; cases hm
  | dumping => rw [hc] at hm; cases hm
  | lock => rw [hc] at hm; cases hm
  | first => rw [hc] at hm; cases hm
  | second status1 => rw [hc] at hm; cases hm
  | leave r => rw [hc] at hm; cases hm

theorem ClientPc.made_of_idle {pc : ClientPc} (h : pc.sending = none) : pc.made = [] := by
  cases pc <;> first | rfl | cases h

/-- The loop of a finished send. -/
theorem Sends.runs {sent : List (List UInt8 × List Outcome)}
    (h : ∀ p ∈ sent, Retry.Ends breaks maxAttempts p.2) :
    ∃ runs : List (List UInt8 × (Nat → Outcome)), sent.map Prod.fst = runs.map Prod.fst ∧
      sent.flatMap (fun p => p.2.flatMap (IqrfSpiChannel.calls p.1)) =
        runs.flatMap fun r => (IqrfSpiChannel.sendLoop r.2 r.1).calls := by
  induction sent with
  | nil => exact ⟨[], rfl, rfl⟩
  | cons p sent ih =>
    obtain ⟨runs, hfst, hcalls⟩ := ih fun q hq => h q (List.mem_cons_of_mem p hq)
    obtain ⟨outcome, hmet⟩ :=
      (h p List.mem_cons_self).exists_outcome ⟨.operOk, .readyComm, .operOk⟩
    refine ⟨(p.1, outcome) :: runs, by simp [hfst], ?_⟩
    rw [List.flatMap_cons, List.flatMap_cons, hcalls, IqrfSpiChannel.sendLoop, hmet]

/-- The driver takes the message of a run once at most. -/
theorem accepted_le_one (outcome : Nat → Outcome) (message : List UInt8) :
    ((IqrfSpiChannel.sendLoop outcome message).calls.filter DriverCall.accepted).length ≤ 1 := by
  have hends : Retry.Ends breaks maxAttempts (Retry.attempts breaks outcome maxAttempts 0) :=
    Retry.attempts_ends maxAttempts 0
  refine Retry.filter_le_one fun pre call post heq hc => ?_
  exact hends.flatMap_last
    (fun o call hmem hc => (exists_accepted_iff message o).mp ⟨call, hmem, hc⟩)
    (fun _ _ _ _ heq hc => calls_last heq hc) heq hc

theorem accepted_runs_le (runs : List (List UInt8 × (Nat → Outcome))) :
    ((runs.flatMap fun r => (IqrfSpiChannel.sendLoop r.2 r.1).calls).filter
      DriverCall.accepted).length ≤ runs.length := by
  induction runs with
  | nil => exact Nat.le_refl 0
  | cons r runs ih =>
    have hone := accepted_le_one r.2 r.1
    rw [List.flatMap_cons, List.filter_append, List.length_append, List.length_cons]
    omega

/-- Whatever the other threads do, what a thread has asked of the driver for its sends is a run
of the loop for each finished one, in their order, and the beginning of a run for the one on its
way; so the driver has taken no more messages than there were sends. -/
theorem sendTo_sequential (h : Machine.Reachable step init s) (t : Nat) :
    ∃ (runs : List (List UInt8 × (Nat → Outcome))) (rest : List DriverCall),
      (s.sent t).map Prod.fst = runs.map Prod.fst ∧
      callsOf t s.log =
        runs.flatMap (fun r => (IqrfSpiChannel.sendLoop r.2 r.1).calls) ++ rest ∧
      ((s.client t).sending = none → rest = []) ∧
      (∀ message, (s.client t).sending = some message →
        ∃ outcome, rest <+: (IqrfSpiChannel.sendLoop outcome message).calls) ∧
      ((callsOf t s.log).filter DriverCall.accepted).length ≤
        (s.sent t).length + if (s.client t).sending.isSome then 1 else 0 := by
  obtain ⟨htried, hsent, hcalls⟩ := sends_reachable h t
  obtain ⟨runs, hfst, hruns⟩ := Sends.runs hsent
  have hlen : (s.sent t).length = runs.length := by simpa using congrArg List.length hfst
  have hrest : ((s.client t).made.filter DriverCall.accepted).length ≤
      if (s.client t).sending.isSome then 1 else 0 := by
    cases hs : (s.client t).sending with
    | none => rw [ClientPc.made_of_idle hs]; exact Nat.le_refl 0
    | some message =>
      obtain ⟨outcome, hfront⟩ := Sends.made_front htried hs
      have hle := (hfront.sublist.filter DriverCall.accepted).length_le
      exact hle.trans (accepted_le_one outcome message)
  refine ⟨runs, (s.client t).made, hfst, by rw [hcalls, hruns], ClientPc.made_of_idle,
    fun message hm => Sends.made_front htried hm, ?_⟩
  have hdone := accepted_runs_le runs
  rw [hcalls, hruns, List.filter_append, List.length_append, hlen]
  omega

/-- A send that has met a conflict is a run of the loop with two attempts. -/
theorem sendTo_sequential_conflict : ∃ s, Machine.Reachable step init s ∧
    (callsOf 1 s.log).length = 3 ∧ (s.client 1).sending = none ∧
    ∃ (runs : List (List UInt8 × (Nat → Outcome))) (rest : List DriverCall),
      callsOf 1 s.log =
        runs.flatMap (fun r => (IqrfSpiChannel.sendLoop r.2 r.1).calls) ++ rest ∧ rest = [] := by
  have hrun : ∃ s, Machine.exec step init (sendsInConflict [1, 0, 6, 3, 0xff, 0xff]) = some s ∧
      (callsOf 1 s.log).length = 3 ∧ (s.client 1).sending = none := ⟨_, rfl, rfl, rfl⟩
  obtain ⟨s, hexec, hlen, hidle⟩ := hrun
  have hreach : Machine.Reachable step init s := ⟨_, hexec⟩
  obtain ⟨runs, rest, _, hcalls, hrest, _⟩ := sendTo_sequential hreach 1
  exact ⟨s, hreach, hlen, hidle, runs, rest, hcalls, hrest hidle⟩

end Sends

end Imp
end IqrfSpiChannel
end ClibDpa
