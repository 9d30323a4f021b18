import ClibDpa.Lib.Progress
import ClibDpa.SpiSends

/-!
# ClibDpa.SpiReturns

A call of `sendTo` or `getState` comes to its end whatever the driver answers: the thread's own
steps do it, and where it waits for `m_commMutex`, those of the thread that holds it. No other
thread has to move; the waits on `m_commCondition` end by their time-out. A call that does not get
past its first trace never ends.

* `stage`, `turnRank` — how far a call is from its return, and a holder from giving the mutex back.
* `call_returns`      — the bound on the steps.
-/

namespace ClibDpa
namespace IqrfSpiChannel
namespace Imp

/-- The steps of a call up to its return, if it gets the mutex. -/
def ClientPc.stage : ClientPc → Nat
  | .returned _ | .dumping => 0
  | .loop d => 7 * (maxAttempts - d.attempt) + 1
  | .getSPIStatus d => 7 * (maxAttempts - d.attempt) + 6
  | .write d _ => 7 * (maxAttempts - d.attempt) + 5
  | .conflict d _ => 7 * (maxAttempts - d.attempt) + 4
  | .waiting d => 7 * (maxAttempts - d.attempt) + 3
  | .unlock d _ => 7 * (maxAttempts - d.attempt) + 2
  | .lock => 4
  | .first => 3
  | .second _ => 2
  | .leave _ => 1

/-- The steps of a client up to the release of the mutex. -/
def ClientPc.turnRank : ClientPc → Nat
  | .getSPIStatus _ => 4
  | .write _ _ | .first => 3
  | .conflict _ _ | .second _ => 2
  | .unlock _ _ | .leave _ => 1
  | _ => 0

def ListenPc.turnRank : ListenPc → Nat
  | .getSPIStatus => 3
  | .read _ => 2
  | .unlock _ | .wait => 1
  | _ => 0

def turnRank (s : State) : Nat :=
  match s.commMutex with
  | none => 0
  | some .listen => s.listen.turnRank
  | some (.sendTo t) => (s.client t).turnRank
  | some (.getState t) => (s.client t).turnRank

/-- The step of thread `t`, or of the thread that holds the mutex, with the driver's answer. -/
inductive Drives (drv : State → Answer) (t : Nat) (s : State) : Event → Prop where
  | own : Drives drv t s (.client t (drv s))
  | client {who : Caller} {t' : Nat} : s.commMutex = some who → who.isClient t' →
      Drives drv t s (.client t' (drv s))
  | listen : s.commMutex = some .listen → Drives drv t s (.listen (drv s))

section Returns

variable {s : State}

theorem ClientPc.turnRank_le (pc : ClientPc) : pc.turnRank ≤ 4 := by
  cases pc <;> simp [ClientPc.turnRank]

/-- Thread `t` moves, and the mutex is its own afterwards or nobody's. -/
theorem turnRank_update {t : Nat} {pc : ClientPc} {s' : State}
    (hclient : s'.client = Function.update s.client t pc)
    (hm : s'.commMutex = none ∨ ∃ who, s'.commMutex = some who ∧ who.isClient t) :
    turnRank s' ≤ pc.turnRank := by
  rcases hm with hm | ⟨who, hm, hwho⟩
  · simp [turnRank, hm]
  · cases who with
    | listen => exact hwho.elim
    | sendTo t' =>
      obtain rfl : t' = t := hwho
      simp [turnRank, hm, hclient]
    | getState t' =>
      obtain rfl : t' = t := hwho
      simp [turnRank, hm, hclient]

/-- The holder's rank is that of its position. -/
theorem Locks.turnRank_client {t : Nat} {who : Caller} (h : Locks s)
    (ht : (s.client t).holds t = some who) :
    s.commMutex = some who ∧ who.isClient t ∧ turnRank s = (s.client t).turnRank := by
  have hwho := ClientPc.holds_isClient ht
  have hm := (h who).mpr ((holds_client hwho).trans ht)
  refine ⟨hm, hwho, ?_⟩
  cases who with
  | listen => exact hwho.elim
  | sendTo t' =>
    obtain rfl : t' = t := hwho
    simp [turnRank, hm]
  | getState t' =>
    obtain rfl : t' = t := hwho
    simp [turnRank, hm]

/-- Under the mutex a move brings the thread nearer to the release, and its call to the return. -/
theorem Move.under {t : Nat} {l : List (Caller × Access)} {fin : Option Sending} {pc : ClientPc}
    {m : Option Caller} (h : Move s t l fin pc m) (ht : (s.client t).holds t ≠ none) :
    (m = none ∨ m = s.commMutex) ∧ pc.turnRank < (s.client t).turnRank ∧
      pc.stage < (s.client t).stage := by
  cases h with
  | ready hc _ => rw [hc]; exact ⟨.inr rfl, by simp [ClientPc.turnRank], by simp [ClientPc.stage]⟩
  | notReady hc _ =>
    rw [hc]
    exact ⟨.inr rfl, by simp [ClientPc.turnRank], by simp [ClientPc.stage, Sending.meets]⟩
  | written hc =>
    rw [hc]
    exact ⟨.inr rfl, by simp [ClientPc.turnRank], by simp [ClientPc.stage, Sending.meets]⟩
  | refused hc _ =>
    rw [hc]
    exact ⟨.inr rfl, by simp [ClientPc.turnRank], by simp [ClientPc.stage, Sending.meets]⟩
  | postpone hc => rw [hc]; exact ⟨.inl rfl, by simp [ClientPc.turnRank], by simp [ClientPc.stage]⟩
  | goOn hc => rw [hc]; exact ⟨.inr rfl, by simp [ClientPc.turnRank], by simp [ClientPc.stage]⟩
  | again hc => rw [hc]; exact ⟨.inl rfl, by simp [ClientPc.turnRank], by simp [ClientPc.stage]⟩
  | done hc => rw [hc]; exact ⟨.inl rfl, by simp [ClientPc.turnRank], by simp [ClientPc.stage]⟩
  | first hc => rw [hc]; exact ⟨.inr rfl, by simp [ClientPc.turnRank], by simp [ClientPc.stage]⟩
  | second hc => rw [hc]; exact ⟨.inr rfl, by simp [ClientPc.turnRank], by simp [ClientPc.stage]⟩
  | leave hc => rw [hc]; exact ⟨.inl rfl, by simp [ClientPc.turnRank], by simp [ClientPc.stage]⟩
  | sendTo hc => rw [hc] at ht; exact absurd rfl ht
  | dumps hc => rw [hc] at ht; exact absurd rfl ht
  | getState hc => rw [hc] at ht; exact absurd rfl ht
  | attempt hc _ _ => rw [hc] at ht; exact absurd rfl ht
  | exhausted hc _ => rw [hc] at ht; exact absurd rfl ht
  | waited hc _ => rw [hc] at ht; exact absurd rfl ht
  | lock hc _ => rw [hc] at ht; exact absurd rfl ht

/-- With the mutex free, or with nothing to do under it, a move of a call that has not returned
brings it nearer to its return. -/
theorem Move.free {t : Nat} {l : List (Caller × Access)} {fin : Option Sending} {pc : ClientPc}
    {m : Option Caller} (h : Move s t l fin pc m) (ht : (s.client t).holds t = none)
    (hbusy : ∀ r, s.client t ≠ .returned r) :
    pc.stage < (s.client t).stage ∧ (pc.turnRank ≤ 4) ∧
      (m = s.commMutex ∨ s.commMutex = none ∧ ∃ who, m = some who ∧ who.isClient t) := by
  have hrank := pc.turnRank_le
  cases h with
  | attempt hc hlt hfree =>
    rw [hc]
    refine ⟨?_, hrank, .inr ⟨hfree, _, rfl, rfl⟩⟩
    simp only [ClientPc.stage]
    omega
  | exhausted hc _ => rw [hc]; exact ⟨by simp [ClientPc.stage], hrank, .inl rfl⟩
  | waited hc hfree =>
    rw [hc]
    exact ⟨by simp [ClientPc.stage], hrank, .inr ⟨hfree, _, rfl, rfl⟩⟩
  | lock hc hfree =>
    rw [hc]
    exact ⟨by simp [ClientPc.stage], hrank, .inr ⟨hfree, _, rfl, rfl⟩⟩
  | sendTo hc => exact absurd hc (hbusy _)
  | dumps hc => exact absurd hc (hbusy _)
  | getState hc => exact absurd hc (hbusy _)
  | ready hc _ => rw [hc] at ht; cases ht
  | notReady hc _ => rw [hc] at ht; cases ht
  | written hc => rw [hc] at ht; cases ht
  | refused hc _ => rw [hc] at ht; cases ht
  | postpone hc => rw [hc] at ht; cases ht
  | goOn hc => rw [hc] at ht; cases ht
  | again hc => rw [hc] at ht; cases ht
  | done hc => rw [hc] at ht; cases ht
  | first hc => rw [hc] at ht; cases ht
  | second hc => rw [hc] at ht; cases ht
  | leave hc => rw [hc] at ht; cases ht

/-- Only a call that begins can end up in its first trace. -/
theorem Move.gets_on {t : Nat} {l : List (Caller × Access)} {fin : Option Sending} {pc : ClientPc}
    {m : Option Caller} (h : Move s t l fin pc m) (hbusy : ∀ r, s.client t ≠ .returned r) :
    pc ≠ .dumping := by
  rintro rfl
  cases h with
  | dumps hc => exact hbusy _ hc

/-- A client that holds the mutex or finds it free can move. -/
theorem client_enabled {t : Nat} (a : Answer) (hbusy : ∀ r, s.client t ≠ .returned r)
    (hdump : s.client t ≠ .dumping) (hm : (s.client t).holds t ≠ none ∨ s.commMutex = none) :
    ∃ s', step s (.client t a) = some s' := by
  simp only [step, clientStep]
  cases hc : s.client t with
  | returned r => exact absurd hc (hbusy r)
  | dumping => exact absurd hc hdump
  | loop d =>
    have hfree := hm.resolve_left (by rw [hc]; simp [ClientPc.holds])
    simp only [hfree, if_true]
    split <;> exact ⟨_, rfl⟩
  | getSPIStatus d => simp only; split <;> exact ⟨_, rfl⟩
  | write d status => exact ⟨_, rfl⟩
  | conflict d status => simp only; split <;> exact ⟨_, rfl⟩
  | waiting d =>
    have hfree := hm.resolve_left (by rw [hc]; simp [ClientPc.holds])
    simp only [hfree, if_true]
    exact ⟨_, rfl⟩
  | unlock d breaks => exact ⟨_, rfl⟩
  | lock =>
    have hfree := hm.resolve_left (by rw [hc]; simp [ClientPc.holds])
    simp only [hfree, if_true]
    exact ⟨_, rfl⟩
  | first => exact ⟨_, rfl⟩
  | second status1 => exact ⟨_, rfl⟩
  | leave r => exact ⟨_, rfl⟩

/-- The client's move behind its step. -/
theorem client_move {s' : State} {t : Nat} {a : Answer} (he : step s (.client t a) = some s') :
    ∃ l fin pc m, Move s t l fin pc m ∧
      s' = { setClient s t pc with
        commMutex := m
        log := s.log ++ l
        sent := noteSent s t fin } := by
  cases step_effect he with
  | register ht => cases ht
  | @client _ t' l fin pc m ht hm =>
    obtain rfl : t = t' := Option.some.inj ht
    exact ⟨l, fin, pc, m, hm, rfl⟩

/-- A client that holds the mutex can move, and comes nearer to the release. -/
theorem client_releases {t : Nat} {who : Caller} (h : Locks s)
    (ht : (s.client t).holds t = some who) (a : Answer) : ∃ l fin pc m, Move s t l fin pc m ∧
      step s (.client t a) = some { setClient s t pc with
        commMutex := m
        log := s.log ++ l
        sent := noteSent s t fin } ∧
      turnRank { setClient s t pc with
        commMutex := m
        log := s.log ++ l
        sent := noteSent s t fin } < turnRank s := by
  obtain ⟨hm, hwho, hrank⟩ := h.turnRank_client ht
  have hne : (s.client t).holds t ≠ none := by rw [ht]; simp
  obtain ⟨s', he⟩ := client_enabled a (t := t) (fun r hr => by rw [hr] at ht; cases ht)
    (fun hd => by rw [hd] at ht; cases ht) (.inl hne)
  obtain ⟨l, fin, pc, m, hmove, rfl⟩ := client_move he
  obtain ⟨hfree, hlt, _⟩ := hmove.under hne
  refine ⟨l, fin, pc, m, hmove, he, lt_of_le_of_lt (@turnRank_update s t pc _ rfl ?_) (hrank ▸ hlt)⟩
  exact hfree.imp_right fun hsame => ⟨who, hsame.trans hm, hwho⟩

/-- The holder of the mutex can move, and comes nearer to the release. -/
theorem holder_moves {who : Caller} (h : Locks s) (hm : s.commMutex = some who)
    (drv : State → Answer)
    (hdrv : ∀ len, s.listen = .read len → (drv s).fills len = true) (mine : Nat) :
    ∃ e s', Drives drv mine s e ∧ step s e = some s' ∧ turnRank s' < turnRank s ∧
      ∀ t, (s.client t).holds t ≠ some who → s'.client t = s.client t := by
  have hheld := (h who).mp hm
  -- a client's thread
  have hclient : ∀ t, (s.client t).holds t = some who → ∃ e s', Drives drv mine s e ∧
      step s e = some s' ∧ turnRank s' < turnRank s ∧
      ∀ t, (s.client t).holds t ≠ some who → s'.client t = s.client t := by
    intro t ht
    obtain ⟨l, fin, pc, m, _, he, hlt⟩ := client_releases h ht (drv s)
    refine ⟨_, _, .client hm (ClientPc.holds_isClient ht), he, hlt,
      fun t' ht' => Function.update_of_ne ?_ _ _⟩
    rintro rfl
    exact ht' ht
  cases who with
  | sendTo t => exact hclient t hheld
  | getState t => exact hclient t hheld
  | listen =>
    have hrank : turnRank s = s.listen.turnRank := by simp [turnRank, hm]
    have hstep : ∃ s', listenStep s (drv s) = some s' ∧ turnRank s' < turnRank s ∧
        s'.client = s.client := by
      have hl : s.listen.holds = some .listen := hheld
      unfold listenStep
      rw [hrank]
      cases hp : s.listen with
      | wait => exact ⟨_, rfl, by simp [turnRank, ListenPc.turnRank], rfl⟩
      | getSPIStatus =>
        refine ⟨_, rfl, ?_, rfl⟩
        simp only [turnRank, access, hm]
        split <;> simp [ListenPc.turnRank]
      | read len =>
        simp only [hdrv len hp, if_true]
        exact ⟨_, rfl, by simp [turnRank, access, hm, ListenPc.turnRank], rfl⟩
      | unlock recData => exact ⟨_, rfl, by simp [turnRank, ListenPc.turnRank], rfl⟩
      | loop => rw [hp] at hl; cases hl
      | lock => rw [hp] at hl; cases hl
      | waiting => rw [hp] at hl; cases hl
      | push recData => rw [hp] at hl; cases hl
      | pushing => rw [hp] at hl; cases hl
      | stopped => rw [hp] at hl; cases hl
    obtain ⟨s', he, hlt, hclient⟩ := hstep
    exact ⟨_, s', .listen hm, he, hlt, fun t _ => by rw [hclient]⟩

/-- What is left of a call of thread `t`: each of its steps may have to wait for a holder. -/
def toReturn (t : Nat) (s : State) : Nat := 5 * (s.client t).stage + turnRank s

theorem call_steps {t : Nat} (h : Locks s) (hbusy : ∀ r, s.client t ≠ .returned r)
    (hdump : s.client t ≠ .dumping) (drv : State → Answer)
    (hdrv : ∀ len, s.listen = .read len → (drv s).fills len = true) :
    ∃ e s', Drives drv t s e ∧ step s e = some s' ∧ s'.client t ≠ .dumping ∧
      toReturn t s' < toReturn t s := by
  cases hm : s.commMutex with
  | some who =>
    by_cases hmine : (s.client t).holds t = some who
    · -- the thread's own turn
      have hne : (s.client t).holds t ≠ none := by rw [hmine]; simp
      obtain ⟨l, fin, pc, m, hmove, he, hlt⟩ := client_releases h hmine (drv s)
      have hstage := (hmove.under hne).2.2
      have hon := hmove.gets_on hbusy
      refine ⟨_, _, .own, he, by simpa [setClient] using hon, ?_⟩
      simp only [toReturn, setClient, Function.update_self] at hlt ⊢
      omega
    · obtain ⟨e, s', hd, he, hlt, hkeep⟩ := holder_moves h hm drv hdrv t
      refine ⟨e, s', hd, he, by rwa [hkeep t hmine], ?_⟩
      simp only [toReturn, hkeep t hmine]
      omega
  | none =>
    have hnone : (s.client t).holds t = none := by
      cases hh : (s.client t).holds t with
      | none => rfl
      | some who =>
        have := (h.turnRank_client hh).1
        rw [hm] at this
        cases this
    obtain ⟨s', he⟩ := client_enabled (drv s) hbusy hdump (.inr hm)
    obtain ⟨l, fin, pc, m, hmove, rfl⟩ := client_move he
    obtain ⟨hstage, hle, hfree⟩ := hmove.free hnone hbusy
    have hon := hmove.gets_on hbusy
    have hnew := @turnRank_update s t pc
      { setClient s t pc with commMutex := m, log := s.log ++ l, sent := noteSent s t fin } rfl
      (hfree.imp (fun hsame => hsame.trans hm) And.right)
    refine ⟨_, _, .own, he, by simpa [setClient] using hon, ?_⟩
    simp only [toReturn, setClient, Function.update_self] at hnew ⊢
    omega

theorem turnRank_le (s : State) : turnRank s ≤ 4 := by
  unfold turnRank
  split
  · exact Nat.zero_le 4
  · cases s.listen <;> simp [ListenPc.turnRank]
  · exact ClientPc.turnRank_le _
  · exact ClientPc.turnRank_le _

theorem ClientPc.stage_le (pc : ClientPc) : pc.stage ≤ 62 := by
  cases pc <;> simp only [ClientPc.stage, maxAttempts] <;> omega

/-- The run of a call up to its return. -/
theorem call_within (h : Machine.Reachable step init s) {t : Nat} (hdump : s.client t ≠ .dumping)
    (drv : State → Answer)
    (hdrv : ∀ x len, x.listen = .read len → (drv x).fills len = true) :
    ∃ s' r, Machine.Within step (Drives drv t) 314 s s' ∧ s'.client t = .returned r := by
  have hstep : ∀ x, Machine.Reachable step init x ∧ x.client t ≠ .dumping →
      ¬ (∃ r, x.client t = .returned r) →
      ∃ e x', Drives drv t x e ∧ step x e = some x' ∧
        (Machine.Reachable step init x' ∧ x'.client t ≠ .dumping) ∧
        toReturn t x' < toReturn t x := by
    rintro x ⟨hx, hxd⟩ hbusy
    obtain ⟨e, x', hd, he, hon, hlt⟩ := call_steps (t := t) (locks_reachable hx)
      (fun r hr => hbusy ⟨r, hr⟩) hxd drv (hdrv x)
    exact ⟨e, x', hd, he, ⟨hx.next he, hon⟩, hlt⟩
  obtain ⟨es, s', hsteps, hexec, _, ⟨r, hr⟩, hlen⟩ := Machine.reaches hstep ⟨h, hdump⟩
  have hrank := turnRank_le s
  have hstage := (s.client t).stage_le
  refine ⟨s', r, ⟨es, hsteps, hexec, ?_⟩, hr⟩
  simp only [toReturn] at hlen
  omega

theorem dumping_step {s' : State} {e : Event} {t : Nat} (hd : s.client t = .dumping)
    (he : step s e = some s') : s'.client t = .dumping := by
  -- the thread itself has no step
  have hother : e.thread ≠ some t := by
    intro ht
    cases e <;> cases ht <;> simp [step, clientStep, hd] at he
  cases step_effect he with
  | @client _ t' l fin pc m ht _ =>
    have hne : t ≠ t' := fun heq => hother (heq ▸ ht)
    simpa [setClient, hne] using hd
  | _ => exact hd

/-- From every reachable state a call of thread `t` returns by the steps of its own thread and of
the holders of the mutex, whatever the driver answers, unless it is in the first trace of an empty
message; then it never does. -/
theorem call_returns (h : Machine.Reachable step init s) (t : Nat) (drv : State → Answer)
    (hdrv : ∀ x len, x.listen = .read len → (drv x).fills len = true) :
    (s.client t ≠ .dumping →
      ∃ es s', Machine.Steps step (Drives drv t) s es ∧ Machine.exec step s es = some s' ∧
        (∃ r, s'.client t = .returned r) ∧ es.length ≤ 314) ∧
    (s.client t = .dumping →
      ∀ es s', Machine.exec step s es = some s' → s'.client t = .dumping) := by
  refine ⟨fun hdump => ?_, fun hdump es s' hexec => ?_⟩
  · obtain ⟨s', r, ⟨es, hsteps, hexec, hlen⟩, hr⟩ := call_within h hdump drv hdrv
    exact ⟨es, s', hsteps, hexec, ⟨r, hr⟩, hlen⟩
  · exact Machine.exec_inv (I := fun s => s.client t = .dumping)
      (fun _ _ _ hI he => dumping_step hI he) hdump hexec

/-- A send in the middle of a conflict returns. -/
theorem call_returns_conflict : ∃ s, Machine.Reachable step init s ∧
    (s.client 1).sending = some [1, 0, 6, 3, 0xff, 0xff] ∧
    ∃ es s', Machine.exec step s es = some s' ∧ ∃ r, s'.client 1 = .returned r := by
  have hrun : ∃ s, Machine.exec step init
      ((sendsInConflict [1, 0, 6, 3, 0xff, 0xff]).take 8) = some s ∧
      (s.client 1).sending = some [1, 0, 6, 3, 0xff, 0xff] := ⟨_, rfl, rfl⟩
  obtain ⟨s, hexec, hsending⟩ := hrun
  have hreach : Machine.Reachable step init s := ⟨_, hexec⟩
  -- a driver that never has anything
  have hdrv : ∀ (x : State) len, x.listen = .read len →
      (⟨.other 0, ⟨false, .other 0, 0⟩, []⟩ : Answer).fills len = true := by
    intro x len _
    simp [Answer.fills]
  have hon : s.client 1 ≠ .dumping := by
    intro hd
    rw [hd] at hsending
    cases hsending
  obtain ⟨es, s', _, hes, hreturned, _⟩ := (call_returns hreach 1 _ hdrv).1 hon
  exact ⟨s, hreach, hsending, es, s', hes, hreturned⟩

end Returns

end Imp
end IqrfSpiChannel
end ClibDpa
