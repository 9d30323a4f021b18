import ClibDpa.Clients
import ClibDpa.Lib.Config

/-!
# ClibDpa.Settings

`setTimeout`, `setRfCommunicationMode` and `setTimingParams` next to everything else. A transaction
takes the three values over in its constructor, so a setter has a say in the transactions that are
submitted after it, and in nothing that is on its way.

* `step_withSettings`      — a step that neither sets nor submits does not read them.
* `settings_at_submission` — what was in force at each submission is all that matters.
-/

namespace ClibDpa

/-- What the setters of the handler set. -/
structure Settings where
  rfMode : RfMode
  timingParams : TimingParams
  defaultTimeout : Int32

namespace Handler

def settings (h : State) : Settings := ⟨h.rfMode, h.timingParams, h.defaultTimeout⟩

def withSettings (h : State) (c : Settings) : State :=
  { h with
    rfMode := c.rfMode
    timingParams := c.timingParams
    defaultTimeout := c.defaultTimeout }

/-- What a setter makes of the settings. -/
def sets : Event → Option (Settings → Settings)
  | .setTimeout timeout => some fun c =>
    { c with defaultTimeout := if timeout < minimalTimeout then minimalTimeout else timeout }
  | .setRfCommunicationMode rfMode => some fun c => { c with rfMode := rfMode }
  | .setTimingParams params => some fun c => { c with timingParams := params }
  | _ => none

def submits : Event → Bool
  | .executeDpaTransaction _ _ _ _ => true
  | _ => false

section WithSettings

variable (h : State) (c : Settings)

theorem onQueue_withSettings (e : TaskQueue.Event Nat) :
    onQueue (withSettings h c) e = (onQueue h e).map (withSettings · c) := by
  simp only [onQueue, withSettings]
  cases TaskQueue.step h.queue e <;> rfl

theorem actOn_withSettings (i : Nat) (e : Execution.Event) :
    actOn (withSettings h c) i e = (actOn h i e).map (withSettings · c) := by
  simp only [actOn, withSettings]
  cases h.tx i with
  | none => rfl
  | some o =>
    simp only
    cases Execution.step o.exec e <;> rfl

theorem setRegistry_withSettings (r : Option Registry) :
    setRegistry (withSettings h c) r = (setRegistry h r).map (withSettings · c) := by
  cases r <;> rfl

theorem noteAhead_withSettings (t : Nat) :
    noteAhead (withSettings h c) t = withSettings (noteAhead h t) c := by
  simp only [noteAhead, withSettings]
  split
  · split <;> rfl
  · rfl

theorem callerStep_withSettings (t : Nat) :
    callerStep (withSettings h c) t = (callerStep h t).map (withSettings · c) := by
  have hcaller : (withSettings h c).caller t = h.caller t := rfl
  have hset : ∀ pc, setCaller (withSettings h c) t pc = withSettings (setCaller h t pc) c :=
    fun _ => rfl
  simp only [callerStep, hcaller, hset, onQueue_withSettings, actOn_withSettings]
  cases h.caller t <;> rfl

theorem workerStep_withSettings :
    workerStep (withSettings h c) = (workerStep h).map (withSettings · c) := by
  have hfunctor : ∀ f, { withSettings h c with functor := f } =
      withSettings { h with functor := f } c := fun _ => rfl
  have hpc : (withSettings h c).queue.pc = h.queue.pc := rfl
  have hf : (withSettings h c).functor = h.functor := rfl
  simp only [workerStep, hpc, hf, hfunctor, onQueue_withSettings]
  cases h.queue.pc <;> cases h.functor <;> rfl

theorem functorStep_withSettings (sendTo : List UInt8 → Except Exc Unit) :
    functorStep (withSettings h c) sendTo = (functorStep h sendTo).map (withSettings · c) := by
  have hf : (withSettings h c).functor = h.functor := rfl
  have htx : (withSettings h c).tx = h.tx := rfl
  have hqueue : (withSettings h c).queue = h.queue := rfl
  simp only [functorStep, hf, htx, hqueue]
  cases h.functor with
  | idle => rfl
  | assign i => rfl
  | size i => simp only; split <;> rfl
  | branch i n =>
    simp only
    cases h.tx i with
    | none => rfl
    | some o => simp only; split <;> rfl
  | executing i =>
    simp only
    cases h.tx i with
    | none => rfl
    | some o => simp only; split <;> rfl
  | done => rfl

theorem executionStep_withSettings (e : Execution.Event) :
    executionStep (withSettings h c) e = (executionStep h e).map (withSettings · c) := by
  have hf : (withSettings h c).functor = h.functor := rfl
  simp only [executionStep, hf, actOn_withSettings]
  cases h.functor <;> cases e <;> rfl

theorem deliver_withSettings (message : List UInt8) :
    deliver (withSettings h c) message = (deliver h message).map (withSettings · c) := by
  have hr : (withSettings h c).receiver = h.receiver := rfl
  have hregistry : (withSettings h c).registry = h.registry := rfl
  simp only [deliver, hr, hregistry]
  cases h.receiver with
  | idle last =>
    simp only
    cases Frame.ofString message with
    | none => rfl
    | some f =>
      simp only
      cases h.registry.processAnyMessage f.message <;> rfl
  | _ => rfl

theorem receiverStep_withSettings :
    receiverStep (withSettings h c) = (receiverStep h).map (withSettings · c) := by
  have hr : (withSettings h c).receiver = h.receiver := rfl
  have hregistry : (withSettings h c).registry = h.registry := rfl
  have hpending : (withSettings h c).pendingTransaction = h.pendingTransaction := rfl
  simp only [receiverStep, hr, hregistry, hpending]
  cases h.receiver with
  | async f =>
    simp only
    split
    · rfl
    · rfl
  | lookup f =>
    simp only
    cases h.pendingTransaction <;> rfl
  | process i f => exact actOn_withSettings { h with receiver := .idle .returned } c i _
  | _ => rfl

theorem destruct_withSettings (t : Nat) :
    destruct (withSettings h c) t = withSettings (destruct h t) c := by
  obtain ⟨rfMode, timingParams, defaultTimeout, registry, pending, queue, tx, count, caller,
    functor, receiver, sent⟩ := h
  cases pending <;> rfl

theorem step_withSettings {e : Event} (hset : sets e = none) (hsub : submits e = false) :
    step (withSettings h c) e = (step h e).map (withSettings · c) := by
  cases e with
  | executeDpaTransaction t request timeout err => cases hsub
  | getDpaQueueLen t =>
    have hcaller : (withSettings h c).caller t = h.caller t := rfl
    simp only [step, hcaller, onQueue_withSettings]
    split <;> rfl
  | destruct t =>
    have hready : ((withSettings h c).caller t = .ready ∧ outside (withSettings h c) t = true) ↔
        (h.caller t = .ready ∧ outside h t = true) := Iff.rfl
    simp only [step, hready, destruct_withSettings]
    split <;> rfl
  | caller t => exact callerStep_withSettings h c t
  | client t =>
    simp only [step, noteAhead_withSettings, onQueue_withSettings]
  | worker => exact workerStep_withSettings h c
  | spurious => exact onQueue_withSettings h c _
  | functor sendTo => exact functorStep_withSettings h c sendTo
  | execution e => exact executionStep_withSettings h c e
  | deliver message => exact deliver_withSettings h c message
  | receiver => exact receiverStep_withSettings h c
  | abort i => exact actOn_withSettings h c i _
  | setTimeout timeout => cases hset
  | setRfCommunicationMode rfMode => cases hset
  | setTimingParams params => cases hset
  | registerAsyncMessageHandler serviceId handler => exact setRegistry_withSettings h c _
  | unregisterAsyncMessageHandler serviceId => exact setRegistry_withSettings h c _
  | registerAnyMessageHandler serviceId handler => exact setRegistry_withSettings h c _
  | unregisterAnyMessageHandler serviceId => exact setRegistry_withSettings h c _

end WithSettings

end Handler

/-! ## The handler and its callers -/

namespace Clients

def settings (s : State) : Settings := Handler.settings s.handler

def withSettings (s : State) (c : Settings) : State :=
  { s with handler := Handler.withSettings s.handler c }

def sets : Event → Option (Settings → Settings)
  | .handler e => Handler.sets e
  | _ => none

def submits : Event → Bool
  | .handler e => Handler.submits e
  | _ => false

section WithSettings

variable {s s' : State} {e : Event}

theorem acted_withSettings (h : Handler.State) (c : Settings) (e : Handler.Event) :
    acted (Handler.withSettings h c) e = acted h e := by
  cases e <;> rfl

theorem note_withSettings (s : State) (c : Settings) (e : Handler.Event) :
    note (withSettings s c) e = withSettings (note s e) c := by
  have hacted : acted (withSettings s c).handler e = acted s.handler e :=
    acted_withSettings s.handler c e
  have hview : ∀ i, view (withSettings s c) i = view s i := fun _ => rfl
  simp only [note, hacted, hview]
  split
  · rfl
  · split
    · rfl
    · split <;> rfl

theorem onGet_withSettings (s : State) (c : Settings) (i : Nat) (e : Get.Event) :
    onGet (withSettings s c) i e = (onGet s i e).map (withSettings · c) := by
  have htx : (withSettings s c).handler.tx i = s.handler.tx i := rfl
  have hview : (withSettings s c).get i = s.get i ∧ (withSettings s c).crashed i = s.crashed i ∧
      (withSettings s c).atFinish i = s.atFinish i := ⟨rfl, rfl, rfl⟩
  simp only [onGet, htx, hview]
  split
  · rfl
  · split <;> rfl

theorem step_withSettings (s : State) (c : Settings) (hset : sets e = none)
    (hsub : submits e = false) :
    step (withSettings s c) e = (step s e).map (withSettings · c) := by
  cases e with
  | handler e =>
    have hstep := Handler.step_withSettings s.handler c hset hsub
    simp only [step, note_withSettings]
    rw [show (withSettings s c).handler = Handler.withSettings s.handler c from rfl, hstep]
    cases Handler.step s.handler e <;> rfl
  | get i => exact onGet_withSettings s c i .get
  | getWake i expired => exact onGet_withSettings s c i (.getWake expired)

theorem step_sets {f : Settings → Settings} (hset : sets e = some f) :
    step s e = some (withSettings s (f (settings s))) := by
  cases e with
  | handler e =>
    cases e with
    | setTimeout timeout => cases hset; rfl
    | setRfCommunicationMode rfMode => cases hset; rfl
    | setTimingParams params => cases hset; rfl
    | _ => cases hset
  | get i => cases hset
  | getWake i expired => cases hset

/-- What does not set the settings leaves them. -/
theorem settings_step (hset : sets e = none) (he : step s e = some s') :
    settings s' = settings s := by
  cases hsub : submits e with
  | false =>
    have hown : withSettings s (settings s) = s := rfl
    have hstep := step_withSettings s (settings s) hset hsub
    rw [hown, he, Option.map_some] at hstep
    rw [Option.some.inj hstep]
    rfl
  | true =>
    cases e with
    | handler e =>
      cases e with
      | executeDpaTransaction t request timeout err =>
        obtain ⟨h', hh, rfl⟩ := handler_some he
        simp only [Handler.step] at hh
        split at hh
        · cases hh
          simp only [settings, Handler.settings, Handler.submit]
          split <;> rfl
        · cases hh
      | _ => cases hsub
    | get i => cases hsub
    | getWake i expired => cases hsub

theorem configured : Machine.Configured step settings withSettings sets submits where
  get_put := fun _ _ => rfl
  put_get := fun _ => rfl
  put_put := fun _ _ _ => rfl
  setter := fun _ _ _ hset => step_sets hset
  kept := fun _ _ _ hset he => settings_step hset he
  other := fun s _ c hset hsub => step_withSettings s c hset hsub

/-- Two runs that submit and do the same, with the same settings in force at each submission, end in
the same state but for the settings, whatever was set in between. -/
theorem settings_at_submission {t : State} {es es' : List Event}
    (hst : Machine.Agree settings withSettings s t)
    (hes : Machine.inForce sets submits (settings s) es =
      Machine.inForce sets submits (settings t) es')
    (hexec : Machine.exec step s es = some s') :
    ∃ t', Machine.exec step t es' = some t' ∧ t' = withSettings s' (settings t') := by
  obtain ⟨t', ht', hagree⟩ := configured.exec hst hes hexec
  exact ⟨t', ht', hagree.symm⟩

/-- The time-out is set, and then the request is submitted. -/
def setsOnce : List Event := [.handler (.setTimeout 5000)] ++ getsLedPulse

/-- The same with other settings before and after. -/
def setsOften : List Event :=
  [.handler (.setTimeout 700), .handler (.setTimeout 5000)] ++ getsLedPulse ++
    [.handler (.setRfCommunicationMode .lp), .handler (.setTimeout 300)]

theorem settings_at_submission_ledPulse : ∃ s t r, Machine.exec step init setsOnce = some s ∧
    Machine.exec step init setsOften = some t ∧ s.get 0 = .returned r ∧
    t.get 0 = .returned r := by
  have hrun : ∃ s r, Machine.exec step init setsOnce = some s ∧ s.get 0 = .returned r :=
    ⟨_, _, rfl, rfl⟩
  obtain ⟨s, r, hexec, hret⟩ := hrun
  have hes : Machine.inForce sets submits (settings init) setsOnce =
      Machine.inForce sets submits (settings init) setsOften := rfl
  obtain ⟨t, ht, hagree⟩ := settings_at_submission (configured.agree_refl init) hes hexec
  refine ⟨s, t, r, hexec, ht, hret, ?_⟩
  rw [hagree]
  exact hret

end WithSettings

end Clients
end ClibDpa
