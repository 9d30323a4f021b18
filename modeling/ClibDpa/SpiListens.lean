import ClibDpa.SpiDelivers
import ClibDpa.SpiReturns

/-!
# ClibDpa.SpiListens

A frame that the driver has to give is read. The listening thread may have to wait for two
mutexes: `m_commMutex`, which a caller holds, and that of the queue, which the worker holds; either
holder gives it back by its own steps, however many other callers there are.

* `ListenPc.readRank` — how far the listening thread is from its read.
* `listen_reads`      — the bound on the steps.
-/

namespace ClibDpa
namespace IqrfSpiChannel
namespace Imp

/-- Whenever the listening thread asks, the driver has a frame that fits, and the read succeeds. -/
structure Offers (drv : State → Answer) : Prop where
  status : ∀ s, s.listen = .getSPIStatus → (drv s).retval = .operOk ∧
    (drv s).status.isDataReady = true ∧ 0 < (drv s).status.dataReady ∧
    (drv s).status.dataReady ≤ bufsize
  read : ∀ s len, s.listen = .read len → (drv s).retval = .operOk ∧ (drv s).data.length = len

/-- The listening thread, and the holders of the mutexes that it may have to wait for. -/
inductive Listens (drv : State → Answer) (s : State) : Event → Prop where
  | listen : Listens drv s (.listen (drv s))
  | holder {t : Nat} : (s.client t).holds t ≠ none → Listens drv s (.client t (drv s))
  | worker : s.receiveMessageQueue.mutex = some .worker → Listens drv s .worker

/-- The steps of the listening thread up to a read that brings a frame. -/
def ListenPc.readRank (client : TaskQueue.ClientPc (List UInt8)) : ListenPc → Nat
  | .read len => if len = 0 then 9 else 1
  | .getSPIStatus => 2
  | .waiting => 3
  | .wait => 4
  | .lock => 5
  | .loop => 6
  | .pushing => 7 + inPush client
  | .push recData => if recData = 0 then 7 else 11
  | .unlock recData => if recData = 0 then 8 else 12
  | .stopped => 0

def readRank (s : State) : Nat := s.listen.readRank (s.receiveMessageQueue.client 0)

/-- What is left up to the read: each step may have to wait for a holder. -/
def toRead (s : State) : Nat :=
  10 * readRank s + turnRank s + s.receiveMessageQueue.pc.releaseRank

section Listens

variable {s s' : State} {drv : State → Answer}

theorem readRank_le (s : State) : readRank s ≤ 12 := by
  unfold readRank
  cases s.listen with
  | pushing => cases s.receiveMessageQueue.client 0 <;> simp [ListenPc.readRank, inPush]
  | read len => simp only [ListenPc.readRank]; split <;> omega
  | push recData => simp only [ListenPc.readRank]; split <;> omega
  | unlock recData => simp only [ListenPc.readRank]; split <;> omega
  | _ => simp [ListenPc.readRank]

theorem toRead_le (s : State) : toRead s ≤ 129 := by
  have hread := readRank_le s
  have hturn := turnRank_le s
  have hrelease := s.receiveMessageQueue.pc.releaseRank_le
  unfold toRead
  omega

/-- A step of the listening thread pays for whatever wait comes after it. -/
theorem toRead_lt (hread : readRank s' < readRank s) : toRead s' < toRead s := by
  have hturn := turnRank_le s'
  have hrelease := s'.receiveMessageQueue.pc.releaseRank_le
  unfold toRead
  omega

/-! ## Before the destructor -/

/-- Up to its destructor the channel listens. -/
structure Listening (s : State) : Prop where
  run : s.destructor = .alive → s.runListenThread = true
  alive : s.listen = .stopped → s.runListenThread = false

theorem listening_step {e : Event} (h : Listening s) (he : step s e = some s') : Listening s' := by
  cases step_effect he with
  | register _ => exact ⟨h.run, h.alive⟩
  | client _ _ => exact ⟨h.run, h.alive⟩
  | listen hm =>
    refine ⟨h.run, fun hl => ?_⟩
    cases hm with
    | stop _ hrun => exact hrun
    | _ => cases hl
  | read _ _ => exact ⟨h.run, fun hl => by cases hl⟩
  | push _ _ _ => exact ⟨h.run, fun hl => by cases hl⟩
  | pushing hl _ => exact ⟨h.run, h.alive⟩
  | enter _ _ => exact ⟨h.run, h.alive⟩
  | leave _ _ _ => exact ⟨h.run, h.alive⟩
  | worker _ _ _ => exact ⟨h.run, h.alive⟩
  | spurious _ => exact ⟨h.run, h.alive⟩
  | lambda _ => exact ⟨h.run, h.alive⟩
  | closing _ => exact ⟨fun hd => (by cases hd), fun _ => rfl⟩
  | joined _ _ => exact ⟨fun hd => (by cases hd), h.alive⟩
  | freed _ => exact ⟨fun hd => (by cases hd), h.alive⟩

theorem listening_reachable (h : Machine.Reachable step init s) : Listening s :=
  h.inv (fun _ _ _ hI he => listening_step hI he) ⟨fun _ => rfl, fun hl => by cases hl⟩

/-! ## A step towards the read -/

/-- What such a step leaves alone; a read that is next has been announced. -/
structure Untouched (drv : State → Answer) (s s' : State) : Prop where
  lambda : s'.lambda = s.lambda
  handled : s'.handled = s.handled
  registered : s'.receiveFromFunc = s.receiveFromFunc
  running : s'.runListenThread = s.runListenThread
  frames : frames s'.log = frames s.log
  announced : ∀ len, s'.listen = .read len →
    s.listen = .read len ∨ s.listen = .getSPIStatus ∧ (drv s).status.dataReady = len

/-- A holder of `m_commMutex` that is not the listening thread comes nearer to its release. -/
theorem holder_nearer {t : Nat} {who : Caller} (h : Machine.Reachable step init s)
    (ht : (s.client t).holds t = some who) (drv : State → Answer) :
    ∃ e s', Listens drv s e ∧ step s e = some s' ∧ Untouched drv s s' ∧ toRead s' < toRead s := by
  obtain ⟨l, fin, pc, m, hmove, he, hlt⟩ := client_releases (locks_reachable h) ht (drv s)
  have hframes : frames (s.log ++ l) = frames s.log := by
    rw [frames_append, hmove.frames, List.append_nil]
  refine ⟨_, _, .holder (by rw [ht]; simp), he,
    ⟨rfl, rfl, rfl, rfl, hframes, fun _ hl => .inl hl⟩, ?_⟩
  simp only [toRead, readRank, setClient] at hlt ⊢
  omega

/-- The worker that holds the mutex of the queue comes nearer to its release. -/
theorem worker_nearer_release (h : Machine.Reachable step init s)
    (hm : s.receiveMessageQueue.mutex = some .worker) (drv : State → Answer) :
    ∃ e s', Listens drv s e ∧ step s e = some s' ∧ Untouched drv s s' ∧ toRead s' < toRead s := by
  have hr := receive_reachable h
  obtain ⟨q, hq, hlt, _, hproc, hbusy⟩ :=
    TaskQueue.release_steps (TaskQueue.inv_reachable hr.queue) hr.serving hm
  have hl : s.lambda = .idle := by
    by_contra hne
    obtain ⟨msg, hb⟩ := hr.busy.mpr hne
    exact hbusy msg hb
  have he := workerStep_own hl hproc hbusy hq
  refine ⟨_, _, .worker hm, he, ⟨hl.symm, rfl, rfl, rfl, rfl, fun _ hp => .inl hp⟩, ?_⟩
  have hclient := (TaskQueue.workerStep_frame hq).1
  have hturn : turnRank { s with lambda := .idle, receiveMessageQueue := q } = turnRank s := rfl
  simp only [toRead, readRank, hclient, hturn]
  omega

/-- The listening thread without `m_commMutex`: it can have it, or a caller comes nearer to giving
it back. -/
theorem commMutex_nearer (h : Machine.Reachable step init s) (hl : s.listen.holds = none)
    (drv : State → Answer) :
    s.commMutex = none ∨ ∃ e s', Listens drv s e ∧ step s e = some s' ∧ Untouched drv s s' ∧
      toRead s' < toRead s := by
  cases hm : s.commMutex with
  | none => exact .inl rfl
  | some who =>
    have hheld := (locks_reachable h who).mp hm
    cases who with
    | listen => rw [show s.listen.holds = some .listen from hheld] at hl; cases hl
    | sendTo t => exact .inr (holder_nearer h hheld drv)
    | getState t => exact .inr (holder_nearer h hheld drv)

/-- A step of the listening thread. -/
theorem listen_moves (he : step s (.listen (drv s)) = some s') (hu : Untouched drv s s')
    (hread : readRank s' < readRank s) :
    ∃ e s', Listens drv s e ∧ step s e = some s' ∧ Untouched drv s s' ∧ toRead s' < toRead s :=
  ⟨_, s', .listen, he, hu, toRead_lt hread⟩

/-- A push that is due waits for the queue's mutex only, and for the worker only. -/
theorem push_nearer_read {recData : Nat} (h : Machine.Reachable step init s)
    (hl : s.listen = .push recData) (hne : recData ≠ 0) (drv : State → Answer) :
    ∃ e s', Listens drv s e ∧ step s e = some s' ∧ Untouched drv s s' ∧ toRead s' < toRead s := by
  have hr := receive_reachable h
  have hinv := TaskQueue.inv_reachable hr.queue
  by_cases hheld : s.receiveMessageQueue.mutex = some .worker
  · exact worker_nearer_release h hheld drv
  · have hout : ∀ t, ∃ r, s.receiveMessageQueue.client t = .returned r := fun t =>
      hr.others t (.inr (by rw [hl]; simp))
    have hfree : s.receiveMessageQueue.mutex = none :=
      (hr.noClient hout).free hinv (Bool.eq_false_iff.mpr fun ho => hheld (hinv.worker.mpr ho))
    obtain ⟨q, he, hc⟩ := push_enters hr hl hne hfree (drv s)
    refine listen_moves he ⟨rfl, rfl, rfl, rfl, rfl, fun _ hp => by cases hp⟩ ?_
    simp [readRank, ListenPc.readRank, hl, hne, hc]

/-- A push that has entered the queue goes through it. -/
theorem pushing_nearer_read (h : Machine.Reachable step init s) (hl : s.listen = .pushing)
    (drv : State → Answer) :
    ∃ e s', Listens drv s e ∧ step s e = some s' ∧ Untouched drv s s' ∧ toRead s' < toRead s := by
  have hr := receive_reachable h
  by_cases hdone : ∃ r, s.receiveMessageQueue.client 0 = .returned r
  · obtain ⟨r, hreturned⟩ := hdone
    have he : step s (.listen (drv s)) = some { s with listen := .loop } := by
      simp [step, listenStep, hl, hreturned]
    refine listen_moves he ⟨rfl, rfl, rfl, rfl, rfl, fun _ hp => by cases hp⟩ ?_
    simp [readRank, ListenPc.readRank, hl, hreturned, inPush]
  · have hpos : 0 < inPush (s.receiveMessageQueue.client 0) := by
      have hpushes := hr.client 0
      cases hc : s.receiveMessageQueue.client 0 with
      | returned r => exact absurd ⟨r, hc⟩ hdone
      | joining => rw [hc] at hpushes; exact hpushes.elim
      | _ => simp [inPush]
    obtain ⟨q, he, hlt⟩ := push_goes_on hr hl hpos (drv s)
    refine listen_moves he ⟨rfl, rfl, rfl, rfl, rfl, fun _ hp => .inl hp⟩ ?_
    simpa [readRank, ListenPc.readRank, hl] using hlt

/-- Up to a read that brings a frame some own step brings it nearer. -/
theorem listen_nearer (h : Machine.Reachable step init s) (hrun : s.runListenThread = true)
    (hdrv : Offers drv) (hnot : ∀ len, s.listen = .read len → len = 0) :
    ∃ e s', Listens drv s e ∧ step s e = some s' ∧ Untouched drv s s' ∧ toRead s' < toRead s := by
  cases hl : s.listen with
  | loop =>
    have he : step s (.listen (drv s)) = some { s with listen := .lock } := by
      simp [step, listenStep, hl, hrun]
    refine listen_moves he ⟨rfl, rfl, rfl, rfl, rfl, fun _ hp => by cases hp⟩ ?_
    simp [readRank, ListenPc.readRank, hl]
  | lock =>
    refine (commMutex_nearer h (by rw [hl]; rfl) drv).elim (fun hfree => ?_) id
    have he : step s (.listen (drv s)) =
        some { s with commMutex := some .listen, listen := .wait } := by
      simp [step, listenStep, hl, hfree]
    refine listen_moves he ⟨rfl, rfl, rfl, rfl, rfl, fun _ hp => by cases hp⟩ ?_
    simp [readRank, ListenPc.readRank, hl]
  | wait =>
    have he : step s (.listen (drv s)) = some { s with commMutex := none, listen := .waiting } := by
      simp [step, listenStep, hl]
    refine listen_moves he ⟨rfl, rfl, rfl, rfl, rfl, fun _ hp => by cases hp⟩ ?_
    simp [readRank, ListenPc.readRank, hl]
  | waiting =>
    refine (commMutex_nearer h (by rw [hl]; rfl) drv).elim (fun hfree => ?_) id
    have he : step s (.listen (drv s)) =
        some { s with commMutex := some .listen, listen := .getSPIStatus } := by
      simp [step, listenStep, hl, hfree]
    refine listen_moves he ⟨rfl, rfl, rfl, rfl, rfl, fun _ hp => by cases hp⟩ ?_
    simp [readRank, ListenPc.readRank, hl]
  | getSPIStatus =>
    obtain ⟨hok, hready, hpos, hfits⟩ := hdrv.status s hl
    have he : step s (.listen (drv s)) =
        some { access s .listen (.getSPIStatus (drv s).retval (drv s).status) with
          listen := .read (drv s).status.dataReady } := by
      simp [step, listenStep, hl, hok, hready, hfits]
    refine listen_moves he ⟨rfl, rfl, rfl, rfl, ?_, fun len hp => ?_⟩ ?_
    · simp [access, frames, asFrame]
    · cases hp
      exact .inr ⟨hl, rfl⟩
    · have hne : (drv s).status.dataReady ≠ 0 := by omega
      simp [readRank, ListenPc.readRank, hl, hne]
  | read len =>
    obtain rfl := hnot len hl
    obtain ⟨hok, hlen⟩ := hdrv.read s 0 hl
    have he : step s (.listen (drv s)) =
        some { access s .listen (.read 0 (drv s).retval (drv s).data) with
          rx := (drv s).data ++ s.rx.drop (drv s).data.length
          listen := .unlock 0 } := by
      simp [step, listenStep, hl, Answer.fills, hok, hlen]
    refine listen_moves he ⟨rfl, rfl, rfl, rfl, ?_, fun _ hp => by cases hp⟩ ?_
    · simp [access, frames, asFrame, hok]
    · simp [readRank, ListenPc.readRank, hl]
  | unlock recData =>
    have he : step s (.listen (drv s)) =
        some { s with commMutex := none, listen := .push recData } := by
      simp [step, listenStep, hl]
    refine listen_moves he ⟨rfl, rfl, rfl, rfl, rfl, fun _ hp => by cases hp⟩ ?_
    by_cases hzero : recData = 0 <;> simp [readRank, ListenPc.readRank, hl, hzero]
  | push recData =>
    by_cases hzero : recData = 0
    · subst hzero
      have he : step s (.listen (drv s)) = some { s with listen := .loop } := by
        simp [step, listenStep, hl]
      refine listen_moves he ⟨rfl, rfl, rfl, rfl, rfl, fun _ hp => by cases hp⟩ ?_
      simp [readRank, ListenPc.readRank, hl]
    · exact push_nearer_read h hl hzero drv
  | pushing => exact pushing_nearer_read h hl drv
  | stopped =>
    rw [(listening_reachable h).alive hl] at hrun
    cases hrun

/-- The read itself. -/
theorem read_frame {len : Nat} (hl : s.listen = .read len) (hlen : 0 < len) (hdrv : Offers drv) :
    ∃ s', step s (.listen (drv s)) = some s' ∧ (drv s).data.length = len ∧
      frames s'.log = frames s.log ++ [(drv s).data] ∧ s'.lambda = s.lambda ∧
      s'.handled = s.handled ∧ s'.receiveFromFunc = s.receiveFromFunc := by
  obtain ⟨hok, hdata⟩ := hdrv.read s len hl
  have he : step s (.listen (drv s)) =
      some { access s .listen (.read len (drv s).retval (drv s).data) with
        rx := (drv s).data ++ s.rx.drop (drv s).data.length
        listen := .unlock len } := by
    simp [step, listenStep, hl, Answer.fills, hok, hdata]
  refine ⟨_, he, hdata, ?_, rfl, rfl, rfl⟩
  have hne : len ≠ 0 := by omega
  simp [access, frames, asFrame, hok, hne]

/-- What holds on the way from `s` to its read. -/
structure ToRead (drv : State → Answer) (s x : State) : Prop where
  reachable : Machine.Reachable step init x
  running : x.runListenThread = true
  lambda : x.lambda = s.lambda
  handled : x.handled = s.handled
  registered : x.receiveFromFunc = s.receiveFromFunc
  frames : frames x.log = frames s.log
  announced : ∀ len, x.listen = .read len →
    s.listen = .read len ∨ ∃ y, y.listen = .getSPIStatus ∧ (drv y).status.dataReady = len

theorem ToRead.steps {x : State} (h : ToRead drv s x) (hdrv : Offers drv)
    (hnot : ¬ ∃ len, 0 < len ∧ x.listen = .read len) :
    ∃ e x', Listens drv x e ∧ step x e = some x' ∧ ToRead drv s x' ∧ toRead x' < toRead x := by
  obtain ⟨e, x', ho, he, hu, hlt⟩ := listen_nearer h.reachable h.running hdrv fun len hl => by
    by_contra hne
    exact hnot ⟨len, Nat.pos_of_ne_zero hne, hl⟩
  refine ⟨e, x', ho, he, ⟨h.reachable.next he, hu.running.trans h.running,
    hu.lambda.trans h.lambda, hu.handled.trans h.handled, hu.registered.trans h.registered,
    hu.frames.trans h.frames, fun len hl => ?_⟩, hlt⟩
  rcases hu.announced len hl with hl | ⟨hl, hlen⟩
  · exact h.announced len hl
  · exact .inr ⟨x, hl, hlen⟩

/-- From every reachable state before the destructor, and with any number of other callers in any
calls, the listening thread reads a frame that the driver has to give, by its own steps and those of
the holders of the two mutexes. No frame is handled meanwhile, and the lambda does not move. -/
theorem listen_reads (h : Machine.Reachable step init s) (halive : s.destructor = .alive)
    (hdrv : Offers drv) :
    ∃ es s' x, Machine.Steps step (Listens drv) s es ∧ Machine.exec step s es = some s' ∧
      x.listen = .read (drv x).data.length ∧ (drv x).data ≠ [] ∧
      frames s'.log = frames s.log ++ [(drv x).data] ∧
      (s.listen = .read (drv x).data.length ∨
        ∃ y, y.listen = .getSPIStatus ∧ (drv y).status.dataReady = (drv x).data.length) ∧
      s'.lambda = s.lambda ∧ s'.handled = s.handled ∧
      s'.receiveFromFunc = s.receiveFromFunc ∧ es.length ≤ 130 := by
  have hstart : ToRead drv s s :=
    ⟨h, (listening_reachable h).run halive, rfl, rfl, rfl, rfl, fun _ hl => .inl hl⟩
  obtain ⟨es, x, hsteps, hexec, hx, ⟨len, hpos, hl⟩, hlen⟩ :=
    Machine.reaches (fun x hx hnot => ToRead.steps hx hdrv hnot) hstart
  obtain ⟨s', he, hdata, hframes, hlambda, hhandled, hreg⟩ := read_frame hl hpos hdrv
  obtain ⟨es', hsteps', hexec', hlen'⟩ := (show Machine.Within step (Listens drv) es.length s x from
    ⟨es, hsteps, hexec, Nat.le_refl _⟩).trans (.single .listen he)
  have hle := toRead_le s
  refine ⟨es', s', x, hsteps', hexec', by rw [hdata]; exact hl, ?_, ?_, ?_,
    hlambda.trans hx.lambda, hhandled.trans hx.handled, hreg.trans hx.registered, by omega⟩
  · intro hnil
    rw [hnil] at hdata
    exact absurd hdata (by simpa using hpos.ne)
  · rw [hframes, hx.frames]
  · rw [hdata]
    exact hx.announced len hl

/-! ## A driver with one frame -/

/-- The driver has the frame, whatever happens; asked for another length it cuts or fills up. -/
def gives (frame : List UInt8) (s : State) : Answer where
  retval := .operOk
  status := ⟨true, .other 0, frame.length⟩
  data :=
    match s.listen with
    | .read len => frame.take len ++ List.replicate (len - frame.length) 0
    | _ => []

theorem gives_offers {frame : List UInt8} (hne : frame ≠ []) (hfits : frame.length ≤ bufsize) :
    Offers (gives frame) where
  status := fun _ _ => ⟨rfl, rfl, List.length_pos_iff.mpr hne, hfits⟩
  read := by
    intro s len hl
    refine ⟨rfl, ?_⟩
    simp only [gives, hl, List.length_append, List.length_take, List.length_replicate]
    omega

theorem gives_whole {frame : List UInt8} (hl : s.listen = .read frame.length) :
    (gives frame s).data = frame := by
  simp [gives, hl]

/-- The listening thread has been woken up, and a sender has the mutex. -/
theorem listen_reads_conflict : ∃ s es s', Machine.exec step init
      ((sendsInConflict [1, 0, 6, 3, 0xff, 0xff]).take 5) = some s ∧
    s.commMutex = some (.sendTo 1) ∧ s.listen = .waiting ∧ Machine.exec step s es = some s' ∧
    frames s'.log = [[0x0a, 0x0b, 0x0c]] := by
  have hrun : ∃ s, Machine.exec step init ((sendsInConflict [1, 0, 6, 3, 0xff, 0xff]).take 5) =
      some s ∧ s.commMutex = some (.sendTo 1) ∧ s.listen = .waiting ∧ s.destructor = .alive ∧
      frames s.log = [] := ⟨_, rfl, rfl, rfl, rfl, rfl⟩
  obtain ⟨s, hexec, hm, hl, halive, hnone⟩ := hrun
  have hoffers := @gives_offers [0x0a, 0x0b, 0x0c] (by simp) (by decide)
  obtain ⟨es, s', x, _, hes, hread, _, hframes, hannounced, _⟩ :=
    listen_reads ⟨_, hexec⟩ halive hoffers
  have hlen : (gives [0x0a, 0x0b, 0x0c] x).data.length = 3 := by
    rcases hannounced with hnow | ⟨y, _, hy⟩
    · rw [hl] at hnow
      cases hnow
    · exact hy.symm
  rw [hlen] at hread
  have hwhole : (gives [0x0a, 0x0b, 0x0c] x).data = [0x0a, 0x0b, 0x0c] := gives_whole hread
  exact ⟨s, es, s', hexec, hm, hl, hes, by rw [hframes, hnone, hwhole, List.nil_append]⟩

end Listens

end Imp
end IqrfSpiChannel
end ClibDpa
