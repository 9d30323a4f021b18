import ClibDpa.Lib.Log
import ClibDpa.Spi

/-!
# ClibDpa.SpiBus

What `m_commMutex` buys the SPI channel: a thread that has read the status of the module acts on
it before any other thread calls the driver.

* `Locks`            — the mutex belongs to the thread whose position says so.
* `AtClient`, `AtListen` — what a thread with the mutex knows about the last call of the driver.
* `Follows`          — which call may stand after which.
* `bus_exclusive`    — the log of every run.
-/

namespace ClibDpa
namespace IqrfSpiChannel
namespace Imp

/-! ## Who holds the mutex -/

def ClientPc.holds (t : Nat) : ClientPc → Option Caller
  | .getSPIStatus _ | .write _ _ | .conflict _ _ | .unlock _ _ => some (.sendTo t)
  | .first | .second _ | .leave _ => some (.getState t)
  | _ => none

def ListenPc.holds : ListenPc → Option Caller
  | .wait | .getSPIStatus | .read _ | .unlock _ => some .listen
  | _ => none

/-- What a caller's thread holds. -/
def holds (s : State) : Caller → Option Caller
  | .listen => s.listen.holds
  | .sendTo t => (s.client t).holds t
  | .getState t => (s.client t).holds t

def Locks (s : State) : Prop := ∀ who, s.commMutex = some who ↔ holds s who = some who

/-- How a move changes the mutex: it leaves it alone, and calls the driver only under it; it takes
it; or it gives it back. -/
inductive Turn (before after m m' : Option Caller) (l : List (Caller × Access)) : Prop where
  | stays : m' = m → after = before → (∀ x ∈ l, before = some x.1) →
      (l = [] ∨ ∃ x, l = [x]) → Turn before after m m' l
  | takes (who : Caller) : m = none → before = none → m' = some who → after = some who → l = [] →
      Turn before after m m' l
  | gives (who : Caller) : before = some who → m' = none → after = none → l = [] →
      Turn before after m m' l

/-- The caller is one of thread `t`. -/
def Caller.isClient (t : Nat) : Caller → Prop
  | .listen => False
  | .sendTo t' => t' = t
  | .getState t' => t' = t

section Locks

variable {s s' : State}

theorem ClientPc.holds_isClient {t : Nat} {pc : ClientPc} {who : Caller}
    (h : pc.holds t = some who) : who.isClient t := by
  cases pc <;> cases h <;> exact rfl

theorem ListenPc.holds_listen {pc : ListenPc} {who : Caller} (h : pc.holds = some who) :
    who = .listen := by
  cases pc <;> cases h <;> rfl

theorem Move.turn {t : Nat} {l : List (Caller × Access)} {fin : Option Sending} {pc : ClientPc}
    {m : Option Caller} (h : Move s t l fin pc m) :
    Turn ((s.client t).holds t) (pc.holds t) s.commMutex m l := by
  cases h with
  | sendTo hc => rw [hc]; exact .stays rfl rfl (by simp) (.inl rfl)
  | dumps hc => rw [hc]; exact .stays rfl rfl (by simp) (.inl rfl)
  | getState hc => rw [hc]; exact .stays rfl rfl (by simp) (.inl rfl)
  | attempt hc _ hfree => rw [hc]; exact .takes (.sendTo t) hfree rfl rfl rfl rfl
  | exhausted hc _ => rw [hc]; exact .stays rfl rfl (by simp) (.inl rfl)
  | ready hc _ => rw [hc]; exact .stays rfl rfl (by simp [ClientPc.holds]) (.inr ⟨_, rfl⟩)
  | notReady hc _ => rw [hc]; exact .stays rfl rfl (by simp [ClientPc.holds]) (.inr ⟨_, rfl⟩)
  | written hc => rw [hc]; exact .stays rfl rfl (by simp [ClientPc.holds]) (.inr ⟨_, rfl⟩)
  | refused hc _ => rw [hc]; exact .stays rfl rfl (by simp [ClientPc.holds]) (.inr ⟨_, rfl⟩)
  | postpone hc => rw [hc]; exact .gives (.sendTo t) rfl rfl rfl rfl
  | goOn hc => rw [hc]; exact .stays rfl rfl (by simp) (.inl rfl)
  | waited hc hfree => rw [hc]; exact .takes (.sendTo t) hfree rfl rfl rfl rfl
  | again hc => rw [hc]; exact .gives (.sendTo t) rfl rfl rfl rfl
  | done hc => rw [hc]; exact .gives (.sendTo t) rfl rfl rfl rfl
  | lock hc hfree => rw [hc]; exact .takes (.getState t) hfree rfl rfl rfl rfl
  | first hc => rw [hc]; exact .stays rfl rfl (by simp [ClientPc.holds]) (.inr ⟨_, rfl⟩)
  | second hc => rw [hc]; exact .stays rfl rfl (by simp [ClientPc.holds]) (.inr ⟨_, rfl⟩)
  | leave hc => rw [hc]; exact .gives (.getState t) rfl rfl rfl rfl

theorem ListenMove.turn {l : List (Caller × Access)} {pc : ListenPc} {m : Option Caller}
    (h : ListenMove s l pc m) : Turn s.listen.holds pc.holds s.commMutex m l := by
  cases h with
  | loop hl => rw [hl]; exact .stays rfl rfl (by simp) (.inl rfl)
  | stop hl _ => rw [hl]; exact .stays rfl rfl (by simp) (.inl rfl)
  | lock hl hfree => rw [hl]; exact .takes .listen hfree rfl rfl rfl rfl
  | wait hl => rw [hl]; exact .gives .listen rfl rfl rfl rfl
  | waited hl hfree => rw [hl]; exact .takes .listen hfree rfl rfl rfl rfl
  | dataReady hl _ _ => rw [hl]; exact .stays rfl rfl (by simp [ListenPc.holds]) (.inr ⟨_, rfl⟩)
  | notReady hl => rw [hl]; exact .stays rfl rfl (by simp [ListenPc.holds]) (.inr ⟨_, rfl⟩)
  | unlock hl => rw [hl]; exact .gives .listen rfl rfl rfl rfl
  | nothing hl => rw [hl]; exact .stays rfl rfl (by simp) (.inl rfl)
  | pushed hl _ => rw [hl]; exact .stays rfl rfl (by simp) (.inl rfl)

/-- A turn of the thread of `mine` keeps the mutex with whoever the positions name. -/
theorem Locks.turn (mine : Caller → Prop) {before after m' : Option Caller}
    {l : List (Caller × Access)} (h : Locks s) (ht : Turn before after s.commMutex m' l)
    (hbefore : ∀ who, mine who → holds s who = before)
    (hafter : ∀ who, mine who → holds s' who = after)
    (hother : ∀ who, ¬ mine who → holds s' who = holds s who)
    (hown : ∀ who, before = some who ∨ after = some who → mine who)
    (hm : s'.commMutex = m') : Locks s' := by
  intro who
  rw [hm]
  cases ht with
  | stays hm' hsame _ _ =>
    rw [hm', h who]
    by_cases hmine : mine who
    · rw [hbefore who hmine, hafter who hmine, hsame]
    · rw [hother who hmine]
  | takes taker hfree _ hm' hnow _ =>
    rw [hm']
    by_cases hmine : mine who
    · rw [hafter who hmine, hnow]
    · rw [hother who hmine, ← h who, hfree]
      constructor
      · intro heq
        obtain rfl := Option.some.inj heq
        exact absurd (hown taker (.inr hnow)) hmine
      · exact nofun
  | gives giver hheld hm' hnow _ =>
    rw [hm']
    have hmine := hown giver (.inl hheld)
    have hmutex : s.commMutex = some giver := (h giver).mpr ((hbefore giver hmine).trans hheld)
    by_cases hwho : mine who
    · rw [hafter who hwho, hnow]
    · rw [hother who hwho, ← h who, hmutex]
      constructor
      · exact nofun
      · intro heq
        rw [Option.some.inj heq] at hmine
        exact absurd hmine hwho

theorem holds_client {t : Nat} {who : Caller} (h : who.isClient t) :
    holds s who = (s.client t).holds t := by
  cases who with
  | listen => exact h.elim
  | sendTo t' => obtain rfl : t' = t := h; rfl
  | getState t' => obtain rfl : t' = t := h; rfl

theorem holds_setClient {t : Nat} {pc : ClientPc} {who : Caller}
    (hc : s'.client = Function.update s.client t pc) (hl : s'.listen = s.listen)
    (h : ¬ who.isClient t) : holds s' who = holds s who := by
  cases who with
  | listen => simp [holds, hl]
  | sendTo t' => simp only [holds, hc, Function.update_of_ne h]
  | getState t' => simp only [holds, hc, Function.update_of_ne h]

theorem locks_step {e : Event} (h : Locks s) (he : step s e = some s') : Locks s' := by
  cases step_effect he with
  | @client _ t l fin pc m _ hm =>
    refine h.turn (Caller.isClient t) hm.turn (fun who hw => holds_client hw) ?_ ?_ ?_ rfl
    · intro who hw
      rw [holds_client hw]
      simp [setClient]
    · exact fun who hw => holds_setClient rfl rfl hw
    · rintro who (hw | hw) <;> exact ClientPc.holds_isClient hw
  | listen hm =>
    refine h.turn (fun who => who = .listen) hm.turn ?_ ?_ ?_ ?_ rfl
    · rintro who rfl
      rfl
    · rintro who rfl
      rfl
    · intro who hw
      cases who with
      | listen => exact absurd rfl hw
      | _ => rfl
    · rintro who (hw | hw) <;> exact ListenPc.holds_listen hw
  | @read a len hl _ =>
    intro who
    have hwho := h who
    cases who with
    | listen => simpa [holds, hl, ListenPc.holds, access] using hwho
    | _ => exact hwho
  | @push a recData q hl _ _ =>
    intro who
    have hwho := h who
    cases who with
    | listen => simpa [holds, hl, ListenPc.holds] using hwho
    | _ => exact hwho
  | register _ => exact h
  | pushing _ _ => exact h
  | enter _ _ => exact h
  | leave _ _ _ => exact h
  | worker _ _ _ => exact h
  | spurious _ => exact h
  | lambda _ => exact h
  | closing _ => exact h
  | joined _ _ => exact h
  | freed _ => exact h

theorem locks_init : Locks init := by
  intro who
  cases who <;> simp [init, holds, ClientPc.holds, ListenPc.holds]

theorem locks_reachable (h : Machine.Reachable step init s) : Locks s :=
  h.inv (fun _ _ _ hI he => locks_step hI he) locks_init

end Locks

/-! ## What the holder knows -/

/-- What thread `t` knows of the log at position `pc`. -/
def AtClient (t : Nat) (log : List (Caller × Access)) : ClientPc → Prop
  | .write _ status =>
    log.getLast? = some (.sendTo t, .getSPIStatus .operOk status) ∧
      status.dataNotReadyStatus = .readyComm
  | .second status1 =>
    ∃ front retval, log = front ++ [(.getState t, .getSPIStatus retval status1)]
  | .leave r =>
    ∃ front retval1 status1 retval2 status2,
      log = front ++ [(.getState t, .getSPIStatus retval1 status1),
        (.getState t, .getSPIStatus retval2 status2)] ∧
      r = ready retval2 status1 status2
  | _ => True

def AtListen (log : List (Caller × Access)) : ListenPc → Prop
  | .read len =>
    len ≤ bufsize ∧ ∃ status, log.getLast? = some (.listen, .getSPIStatus .operOk status) ∧
      status.isDataReady = true ∧ status.dataReady = len
  | _ => True

/-- A `read` asks for what the same function has just been told is there, and no more than the
buffer holds; a `write` comes after a reading that has found the module ready. -/
def Follows (before : Option (Caller × Access)) : Caller × Access → Prop
  | (who, .read len retval data) =>
    who = .listen ∧ len ≤ bufsize ∧ (retval = .operOk → data.length = len) ∧
      ∃ status, before = some (.listen, .getSPIStatus .operOk status) ∧
        status.isDataReady = true ∧ status.dataReady = len
  | (who, .write _ _) =>
    ∃ t status, who = .sendTo t ∧ before = some (.sendTo t, .getSPIStatus .operOk status) ∧
      status.dataNotReadyStatus = .readyComm
  | (_, .getSPIStatus _ _) => True

structure Bus (s : State) : Prop where
  locks : Locks s
  client : ∀ t, AtClient t s.log (s.client t)
  listen : AtListen s.log s.listen
  follows : Log.Chained Follows s.log

section Bus

variable {s s' : State}

theorem AtClient.of_free {t : Nat} {log : List (Caller × Access)} {pc : ClientPc}
    (h : pc.holds t = none) : AtClient t log pc := by
  cases pc <;> trivial

theorem AtListen.of_free {log : List (Caller × Access)} {pc : ListenPc} (h : pc.holds = none) :
    AtListen log pc := by
  cases pc <;> trivial

/-- A function that calls the driver holds the mutex, so no other one does. -/
theorem Locks.others {who : Caller} (h : Locks s) (hw : holds s who = some who) (who' : Caller)
    (hne : who' ≠ who) : holds s who' ≠ some who' := by
  intro hw'
  have hm := (h who).mpr hw
  rw [(h who').mpr hw'] at hm
  exact hne (Option.some.inj hm)

theorem ClientPc.holds_cases (t : Nat) (pc : ClientPc) :
    pc.holds t = none ∨ pc.holds t = some (.sendTo t) ∨ pc.holds t = some (.getState t) := by
  cases pc <;> simp [ClientPc.holds]

/-- While another thread holds the mutex, thread `t` is at no position that knows the log. -/
theorem Locks.free_client {who : Caller} {t : Nat} (h : Locks s) (hw : holds s who = some who)
    (hne : ¬ who.isClient t) : (s.client t).holds t = none := by
  rcases ClientPc.holds_cases t (s.client t) with hnone | hsend | hstate
  · exact hnone
  · refine absurd hsend (h.others hw (.sendTo t) ?_)
    rintro rfl
    exact hne rfl
  · refine absurd hstate (h.others hw (.getState t) ?_)
    rintro rfl
    exact hne rfl

theorem Locks.free_listen {who : Caller} (h : Locks s) (hw : holds s who = some who)
    (hne : who ≠ .listen) : s.listen.holds = none := by
  cases hl : s.listen.holds with
  | none => rfl
  | some who' =>
    obtain rfl := ListenPc.holds_listen hl
    exact absurd hl (h.others hw .listen (Ne.symm hne))

/-- What a move of thread `t` makes of its knowledge, and that its call may stand in the log. -/
theorem Move.atClient {t : Nat} {l : List (Caller × Access)} {fin : Option Sending}
    {pc : ClientPc} {m : Option Caller} (h : Move s t l fin pc m)
    (hat : AtClient t s.log (s.client t)) :
    AtClient t (s.log ++ l) pc ∧ (l = [] ∨ ∃ x, l = [x] ∧ Follows s.log.getLast? x) := by
  cases h with
  | ready hc hr => exact ⟨⟨by simp, hr⟩, .inr ⟨_, rfl, trivial⟩⟩
  | notReady hc _ => exact ⟨trivial, .inr ⟨_, rfl, trivial⟩⟩
  | written hc =>
    rw [hc] at hat
    exact ⟨trivial, .inr ⟨_, rfl, t, _, rfl, hat.1, hat.2⟩⟩
  | refused hc _ =>
    rw [hc] at hat
    exact ⟨trivial, .inr ⟨_, rfl, t, _, rfl, hat.1, hat.2⟩⟩
  | first hc => exact ⟨⟨s.log, _, rfl⟩, .inr ⟨_, rfl, trivial⟩⟩
  | second hc =>
    rw [hc] at hat
    obtain ⟨front, retval, hlog⟩ := hat
    refine ⟨⟨front, retval, _, _, _, ?_, rfl⟩, .inr ⟨_, rfl, trivial⟩⟩
    rw [hlog, List.append_assoc]
    rfl
  | _ => exact ⟨trivial, .inl rfl⟩

theorem ListenMove.atListen {l : List (Caller × Access)} {pc : ListenPc} {m : Option Caller}
    (h : ListenMove s l pc m) :
    AtListen (s.log ++ l) pc ∧ (l = [] ∨ ∃ x, l = [x] ∧ Follows s.log.getLast? x) := by
  cases h with
  | dataReady hl hready hle =>
    exact ⟨⟨hle, _, by simp, hready, rfl⟩, .inr ⟨_, rfl, trivial⟩⟩
  | notReady hl => exact ⟨trivial, .inr ⟨_, rfl, trivial⟩⟩
  | _ => exact ⟨trivial, .inl rfl⟩

theorem Caller.isClient_unique {t t' : Nat} {who : Caller} (h : who.isClient t)
    (h' : who.isClient t') : t' = t := by
  cases who with
  | listen => exact h.elim
  | sendTo _ => exact (Eq.symm h').trans h
  | getState _ => exact (Eq.symm h').trans h

/-- The threads that do not move keep what they know: the log grows under the mutex only. -/
theorem Bus.keeps_client {l : List (Caller × Access)} (h : Bus s)
    (hl : ∀ x ∈ l, holds s x.1 = some x.1) {t : Nat} (hne : ∀ x ∈ l, ¬ x.1.isClient t) :
    AtClient t (s.log ++ l) (s.client t) := by
  cases l with
  | nil => rw [List.append_nil]; exact h.client t
  | cons x l =>
    have hx := hl x List.mem_cons_self
    exact .of_free (h.locks.free_client hx (hne x List.mem_cons_self))

theorem Bus.keeps_listen {l : List (Caller × Access)} (h : Bus s)
    (hl : ∀ x ∈ l, holds s x.1 = some x.1) (hne : ∀ x ∈ l, x.1 ≠ .listen) :
    AtListen (s.log ++ l) s.listen := by
  cases l with
  | nil => rw [List.append_nil]; exact h.listen
  | cons x l =>
    have hx := hl x List.mem_cons_self
    exact .of_free (h.locks.free_listen hx (hne x List.mem_cons_self))

/-- The calls of a turn are made by the thread that holds the mutex. -/
theorem Turn.owner {before after m m' : Option Caller} {l : List (Caller × Access)}
    (h : Turn before after m m' l) : ∀ x ∈ l, before = some x.1 := by
  cases h with
  | stays _ _ hown _ => exact hown
  | takes _ _ _ _ _ hl => subst hl; simp
  | gives _ _ _ _ hl => subst hl; simp

theorem bus_step {e : Event} (h : Bus s) (he : step s e = some s') : Bus s' := by
  have hlocks := locks_step h.locks he
  cases step_effect he with
  | @client _ t l fin pc m _ hm =>
    obtain ⟨hat, hfollows⟩ := hm.atClient (h.client t)
    have hmine : ∀ x ∈ l, x.1.isClient t := fun x hx =>
      ClientPc.holds_isClient (hm.turn.owner x hx)
    have hown : ∀ x ∈ l, holds s x.1 = some x.1 := fun x hx =>
      (holds_client (hmine x hx)).trans (hm.turn.owner x hx)
    refine ⟨hlocks, fun t' => ?_, ?_, h.follows.append hfollows⟩
    · by_cases heq : t' = t
      · subst heq
        simpa [setClient] using hat
      · simp only [setClient, Function.update_of_ne heq]
        exact h.keeps_client hown fun x hx hx' =>
          heq (Caller.isClient_unique (hmine x hx) hx')
    · refine h.keeps_listen hown fun x hx hx' => ?_
      have := hmine x hx
      rw [hx'] at this
      exact this
  | @listen a l pc m hm =>
    obtain ⟨hat, hfollows⟩ := hm.atListen
    have hmine : ∀ x ∈ l, x.1 = .listen := fun x hx =>
      ListenPc.holds_listen (hm.turn.owner x hx)
    have hown : ∀ x ∈ l, holds s x.1 = some x.1 := by
      intro x hx
      rw [hmine x hx]
      exact (hm.turn.owner x hx).trans (by rw [hmine x hx])
    refine ⟨hlocks, fun t => ?_, hat, h.follows.append hfollows⟩
    refine h.keeps_client hown fun x hx hx' => ?_
    rw [hmine x hx] at hx'
    exact hx'
  | @read a len hl hfills =>
    have hat := h.listen
    rw [hl] at hat
    obtain ⟨hle, hknown⟩ := hat
    have hown : holds s .listen = some .listen := by simp [holds, hl, ListenPc.holds]
    have hlen : a.retval = .operOk → a.data.length = len := by
      intro hok
      simpa [Answer.fills, hok] using hfills
    refine ⟨hlocks, fun t => ?_, trivial, h.follows.snoc ⟨rfl, hle, hlen, hknown⟩⟩
    refine h.keeps_client (l := [(.listen, .read len a.retval a.data)]) ?_ ?_
    · simpa using hown
    · simp [Caller.isClient]
  | push _ _ _ => exact ⟨hlocks, h.client, trivial, h.follows⟩
  | register _ => exact ⟨hlocks, h.client, h.listen, h.follows⟩
  | pushing _ _ => exact ⟨hlocks, h.client, h.listen, h.follows⟩
  | enter _ _ => exact ⟨hlocks, h.client, h.listen, h.follows⟩
  | leave _ _ _ => exact ⟨hlocks, h.client, h.listen, h.follows⟩
  | worker _ _ _ => exact ⟨hlocks, h.client, h.listen, h.follows⟩
  | spurious _ => exact ⟨hlocks, h.client, h.listen, h.follows⟩
  | lambda _ => exact ⟨hlocks, h.client, h.listen, h.follows⟩
  | closing _ => exact ⟨hlocks, h.client, h.listen, h.follows⟩
  | joined _ _ => exact ⟨hlocks, h.client, h.listen, h.follows⟩
  | freed _ => exact ⟨hlocks, h.client, h.listen, h.follows⟩

theorem bus_reachable (h : Machine.Reachable step init s) : Bus s :=
  h.inv (fun _ _ _ hI he => bus_step hI he)
    ⟨locks_init, fun _ => trivial, trivial, Log.chained_nil⟩

/-- In every run a `read` comes straight after the reading of the listening thread that announced
its bytes, and asks for no more than the buffer holds; a `write` comes straight after its own
thread's reading that found the module ready; and `getState` answers from two readings in a row. -/
theorem bus_exclusive (h : Machine.Reachable step init s) :
    (∀ pre who len retval data post, s.log = pre ++ (who, .read len retval data) :: post →
      who = .listen ∧ len ≤ bufsize ∧ ∃ front status,
        pre = front ++ [(.listen, .getSPIStatus .operOk status)] ∧
        status.isDataReady = true ∧ status.dataReady = len) ∧
    (∀ pre who message retval post, s.log = pre ++ (who, .write message retval) :: post →
      ∃ t front status, who = .sendTo t ∧
        pre = front ++ [(.sendTo t, .getSPIStatus .operOk status)] ∧
        status.dataNotReadyStatus = .readyComm) ∧
    (∀ t r, s.client t = .leave r → ∃ front retval1 status1 retval2 status2,
      s.log = front ++ [(.getState t, .getSPIStatus retval1 status1),
        (.getState t, .getSPIStatus retval2 status2)] ∧
      r = ready retval2 status1 status2) := by
  have hbus := bus_reachable h
  refine ⟨fun pre who len retval data post hlog => ?_,
    fun pre who message retval post hlog => ?_, fun t r hc => ?_⟩
  · obtain ⟨front, y, hpre, hwho, hle, _, status, hy, hready, hlen⟩ :=
      hbus.follows.before hlog (fun hr => by obtain ⟨_, _, _, _, hr, _⟩ := hr; cases hr)
    cases hy
    exact ⟨hwho, hle, front, status, hpre, hready, hlen⟩
  · obtain ⟨front, y, hpre, t, status, hwho, hy, hready⟩ :=
      hbus.follows.before hlog (fun hr => by obtain ⟨_, _, _, hr, _⟩ := hr; cases hr)
    cases hy
    exact ⟨t, front, status, hwho, hpre, hready⟩
  · have hat := hbus.client t
    rw [hc] at hat
    exact hat

/-- After a conflict the message is written, and only then: straight after the reading that found
the module ready. -/
theorem bus_exclusive_conflict : ∃ s front, Machine.Reachable step init s ∧
    s.log = front ++ [(.sendTo 1, .write [1, 0, 6, 3, 0xff, 0xff] .operOk)] ∧
    ∃ t front' status, Caller.sendTo 1 = .sendTo t ∧
      front = front' ++ [(.sendTo t, .getSPIStatus .operOk status)] ∧
      status.dataNotReadyStatus = .readyComm := by
  have hrun : ∃ s front, Machine.exec step init (sendsInConflict [1, 0, 6, 3, 0xff, 0xff]) =
      some s ∧ s.log = front ++ [(.sendTo 1, .write [1, 0, 6, 3, 0xff, 0xff] .operOk)] :=
    ⟨_, [(.sendTo 1, .getSPIStatus .operOk threeBytes.status),
      (.listen, .getSPIStatus .operOk threeBytes.status),
      (.listen, .read 3 .operOk threeBytes.data),
      (.sendTo 1, .getSPIStatus .operOk readyForMessage.status)], rfl, rfl⟩
  obtain ⟨s, front, hexec, hlog⟩ := hrun
  have hreach : Machine.Reachable step init s := ⟨_, hexec⟩
  exact ⟨s, front, hreach, hlog, (bus_exclusive hreach).2.1 front (.sendTo 1) _ _ [] hlog⟩

end Bus

end Imp
end IqrfSpiChannel
end ClibDpa
