import ClibDpa.Crash
import ClibDpa.Deliver

/-!
# ClibDpa.Services

Services that register and unregister handlers, with frames in between. Next to the two registries
the machine keeps who has registered in each and not unregistered since, and with which handler.

The any-message registry is a map from service to handler. The asynchronous one is a single slot
that ignores the service: whoever registers takes it over, and whoever unregisters empties it.

* `Delivers`             — every frame reaches each of the services of its kind, once.
* `Alone`                — the condition on a step: the slot is left to one service.
* `services_independent` — over runs.
-/

namespace ClibDpa

namespace Registry

/-! ## The map of the any-message handlers -/

abbrev Handlers := List (String × MessageHandlerFunc)

/-- The order of `std::map`. -/
def Sorted (handlers : Handlers) : Prop := handlers.Pairwise fun p q => p.1 < q.1

section Insert

variable {serviceId : String} {handler : MessageHandlerFunc} {handlers : Handlers}

/-- A refused insertion changes nothing. -/
theorem insert_refused (h : (insert serviceId handler handlers).2 = false) :
    (insert serviceId handler handlers).1 = handlers := by
  induction handlers with
  | nil => cases h
  | cons q rest ih =>
    obtain ⟨key, g⟩ := q
    simp only [insert] at h ⊢
    split at h
    · rw [if_pos ‹_›]
    · rename_i hne
      rw [if_neg hne]
      split at h
      · cases h
      · rename_i hlt
        rw [if_neg hlt, ih h]

theorem insert_perm (h : (insert serviceId handler handlers).2 = true) :
    (insert serviceId handler handlers).1.Perm ((serviceId, handler) :: handlers) := by
  induction handlers with
  | nil => exact .refl _
  | cons q rest ih =>
    obtain ⟨key, g⟩ := q
    simp only [insert] at h ⊢
    split at h
    · cases h
    · rename_i hne
      rw [if_neg hne]
      split at h
      · rename_i hlt
        rw [if_pos hlt]
      · rename_i hlt
        rw [if_neg hlt]
        exact ((ih h).cons _).trans (.swap _ _ _)

theorem insert_sorted (hs : Sorted handlers) :
    Sorted (insert serviceId handler handlers).1 := by
  induction handlers with
  | nil => exact List.pairwise_singleton _ _
  | cons q rest ih =>
    obtain ⟨key, g⟩ := q
    obtain ⟨hall, hrest⟩ := List.pairwise_cons.mp hs
    simp only [insert]
    split
    · exact hs
    · rename_i hne
      split
      · rename_i hlt
        refine List.pairwise_cons.mpr ⟨fun p hp => ?_, hs⟩
        rcases List.mem_cons.mp hp with rfl | hp
        · exact hlt
        · exact String.lt_trans hlt (hall p hp)
      · rename_i hlt
        refine List.pairwise_cons.mpr ⟨fun p hp => ?_, ih hrest⟩
        rcases insert_mem hp with rfl | hp
        · by_contra hge
          exact hne (String.le_antisymm (String.not_lt.mp hge) (String.not_lt.mp hlt))
        · exact hall p hp

/-- In a map, a key that is accepted was not there. -/
theorem insert_fresh (hs : Sorted handlers) (h : (insert serviceId handler handlers).2 = true) :
    ∀ p ∈ handlers, p.1 ≠ serviceId := by
  induction handlers with
  | nil => nofun
  | cons q rest ih =>
    obtain ⟨key, g⟩ := q
    obtain ⟨hall, hrest⟩ := List.pairwise_cons.mp hs
    simp only [insert] at h
    split at h
    · cases h
    · rename_i hne
      intro p hp
      rcases List.mem_cons.mp hp with rfl | hp
      · exact Ne.symm hne
      · split at h
        · rename_i hlt
          have hgt := String.lt_trans hlt (hall p hp)
          intro heq
          rw [heq] at hgt
          exact String.lt_irrefl _ hgt
        · exact ih hrest h p hp

/-- The entries of the other services stay as they are, in their order. -/
theorem insert_others : (insert serviceId handler handlers).1.filter (fun p => p.1 ≠ serviceId) =
    handlers.filter fun p => p.1 ≠ serviceId := by
  induction handlers with
  | nil => simp [insert]
  | cons q rest ih =>
    obtain ⟨key, g⟩ := q
    simp only [insert]
    split
    · rfl
    · split
      · rw [List.filter_cons_of_neg (by simp)]
      · simp only [List.filter_cons, ih]

end Insert

/-- A call of `registerAnyMessageHandler` that throws leaves the registry as it was. -/
theorem registerAny_throws {r r' : Registry} {serviceId : String} {handler : MessageHandlerFunc}
    {e : Exc} (h : r.registerAnyMessageHandler serviceId handler = some (r', .error e)) :
    r' = r := by
  unfold registerAnyMessageHandler at h
  split at h
  · cases h
  · cases hret : (insert serviceId handler r.anyMessageHandlerMap).2 with
    | true =>
      simp only [hret, if_true, Option.some.injEq, Prod.mk.injEq, reduceCtorEq, and_false] at h
    | false =>
      simp only [insert_refused hret, Option.some.injEq, Prod.mk.injEq] at h
      exact h.1.symm

end Registry

/-! ## The services -/

namespace Services

open Registry

/-- `any` and `async` are history: who has registered and not unregistered since. -/
structure State where
  registry : Registry
  any : Handlers
  async : Handlers

inductive Event where
  | registerAsyncMessageHandler (serviceId : String) (handler : MessageHandlerFunc)
  | unregisterAsyncMessageHandler (serviceId : String)
  | registerAnyMessageHandler (serviceId : String) (handler : MessageHandlerFunc)
  | unregisterAnyMessageHandler (serviceId : String)
  | receive (uninit : Int) (pending : Option Execution.State) (message : List UInt8)

def init : State := ⟨.init, [], []⟩

def unsubscribe (serviceId : String) (subscribers : Handlers) : Handlers :=
  subscribers.filter fun p => p.1 ≠ serviceId

def subscribe (serviceId : String) (handler : MessageHandlerFunc) (subscribers : Handlers) :
    Handlers :=
  (serviceId, handler) :: unsubscribe serviceId subscribers

/-- A call that throws does not register. -/
def step (s : State) : Event → Option State
  | .registerAsyncMessageHandler serviceId handler =>
    match s.registry.registerAsyncMessageHandler serviceId handler with
    | none => none
    | some r => some { s with registry := r, async := subscribe serviceId handler s.async }
  | .unregisterAsyncMessageHandler serviceId =>
    match s.registry.unregisterAsyncMessageHandler serviceId with
    | none => none
    | some r => some { s with registry := r, async := unsubscribe serviceId s.async }
  | .registerAnyMessageHandler serviceId handler =>
    match s.registry.registerAnyMessageHandler serviceId handler with
    | none => none
    | some (r, .ok _) => some { s with registry := r, any := subscribe serviceId handler s.any }
    | some (r, .error _) => some { s with registry := r }
  | .unregisterAnyMessageHandler serviceId =>
    match s.registry.unregisterAnyMessageHandler serviceId with
    | none => none
    | some r => some { s with registry := r, any := unsubscribe serviceId s.any }
  | .receive uninit pending message =>
    match responseMessageHandler uninit s.registry pending message with
    | (_, .blocked) => none
    | ((r, _), _) => some { s with registry := r }

/-- One call for each service of the matching kind. -/
def anyCalls (m : DpaMessage) (subscribers : Handlers) : List Delivery :=
  subscribers.filterMap fun p => p.2.map fun h => .any p.1 h m

def asyncCalls (m : DpaMessage) (subscribers : Handlers) : List Delivery :=
  subscribers.filterMap fun p => p.2.map fun h => .async h m

def expected (s : State) (m : DpaMessage) : List Delivery :=
  anyCalls m s.any ++ if isAsynchronous m = true then asyncCalls m s.async else []

/-- Every frame is delivered once to each service of the matching kind, and to no other. -/
structure Delivers (s : State) : Prop where
  any : (s.any.map Prod.fst).Nodup
  async : (s.async.map Prod.fst).Nodup
  frames : ∀ uninit pending w f, Frame.ofString w = some f →
    ((deliveries uninit s.registry pending w).filter Delivery.toHandler).Perm
      (expected s f.message)

/-- The handlers that are registered are not empty and do not throw. -/
def Harmless : Event → Prop
  | .registerAsyncMessageHandler _ handler => handler.NoThrow
  | .registerAnyMessageHandler _ handler => handler.NoThrow
  | _ => True

/-- The slot is touched while no other service is registered there. -/
def Alone (s : State) : Event → Prop
  | .registerAsyncMessageHandler serviceId _ => ∀ p ∈ s.async, p.1 = serviceId
  | .unregisterAsyncMessageHandler serviceId => ∀ p ∈ s.async, p.1 = serviceId
  | _ => True

/-! ### Who is called -/

theorem call_ok_some {handler : MessageHandlerFunc} {m : DpaMessage}
    (h : handler.call m = .ok ()) : ∃ g, handler = some g ∧ g m = .ok () := by
  cases handler with
  | none => cases h
  | some g => exact ⟨g, rfl, h⟩

theorem noThrow_some {handler : MessageHandlerFunc} (h : handler.NoThrow) (m : DpaMessage) :
    ∃ g, handler = some g ∧ g m = .ok () :=
  call_ok_some (h m)

theorem callAllDeliveries_append {m : DpaMessage} {before after : Handlers}
    (h : ∀ p ∈ before, p.2.call m = .ok ()) :
    callAllDeliveries m (before ++ after) = anyCalls m before ++ callAllDeliveries m after := by
  induction before with
  | nil => rfl
  | cons p rest ih =>
    obtain ⟨serviceId, handler⟩ := p
    obtain ⟨g, rfl, hg⟩ := call_ok_some (h _ List.mem_cons_self)
    simp only [List.cons_append, callAllDeliveries_cons, hg,
      ih fun q hq => h q (List.mem_cons_of_mem _ hq)]
    rfl

theorem callAllDeliveries_ok {m : DpaMessage} {handlers : Handlers}
    (h : ∀ p ∈ handlers, p.2.call m = .ok ()) :
    callAllDeliveries m handlers = anyCalls m handlers := by
  rw [← List.append_nil handlers, callAllDeliveries_append h, List.append_nil]
  exact List.append_nil _

theorem toHandler_anyCalls (m : DpaMessage) (handlers : Handlers) :
    (anyCalls m handlers).filter Delivery.toHandler = anyCalls m handlers := by
  refine List.filter_eq_self.mpr fun d hd => ?_
  obtain ⟨p, _, hp⟩ := List.mem_filterMap.mp hd
  obtain ⟨h, _, rfl⟩ := Option.map_eq_some_iff.mp hp
  rfl

/-- The handlers that a frame reaches. -/
theorem handlers_called {r : Registry} (h : r.Harmless) (uninit : Int)
    (pending : Option Execution.State) {w : List UInt8} {f : Frame}
    (hf : Frame.ofString w = some f) :
    (deliveries uninit r pending w).filter Delivery.toHandler =
      anyCalls f.message r.anyMessageHandlerMap ++
        if isAsynchronous f.message = true then
          r.asyncMessageHandler.toList.map fun g => .async g f.message
        else [] := by
  rw [deliveries_of_frame hf, h.processAnyMessage, asyncDeliveries_of_free h.asyncFree,
    List.filter_append]
  simp only [anyDeliveries_eq, h.anyFree, Bool.false_eq_true, if_false,
    callAllDeliveries_ok fun p hp => h.any p hp f.message, toHandler_anyCalls]
  congr 1
  by_cases ha : isAsynchronous f.message = true
  · simp only [if_pos ha]
    cases r.asyncMessageHandler <;> rfl
  · simp only [if_neg ha]
    cases pending with
    | none => rfl
    | some x => by_cases hx : x.pc = .spinning <;> simp [hx, Delivery.toHandler]

theorem responseMessageHandler_harmless {r : Registry} (h : r.Harmless) (uninit : Int)
    (pending : Option Execution.State) (w : List UInt8) :
    (responseMessageHandler uninit r pending w).1.1 = r := by
  rcases responseMessageHandler_registry uninit r pending w with hsame | ⟨f, _, _, _, heq⟩
  · exact hsame
  · rw [heq, h.processAsynchronousMessage]

/-! ### What every step keeps -/

/-- The map holds the services of its registry, whatever happens to the slot. -/
structure Base (s : State) : Prop where
  harmless : s.registry.Harmless
  sorted : Sorted s.registry.anyMessageHandlerMap
  any : s.registry.anyMessageHandlerMap.Perm s.any

/-- The slot holds the handler of the one service. -/
def Lone (s : State) : Prop :=
  s.async.map Prod.snd = s.registry.asyncMessageHandler.toList.map some

theorem base_init : Base init := ⟨harmless_init, List.Pairwise.nil, .refl _⟩

theorem unsubscribe_fresh {serviceId : String} {subscribers : Handlers}
    (h : ∀ p ∈ subscribers, p.1 ≠ serviceId) : unsubscribe serviceId subscribers = subscribers :=
  List.filter_eq_self.mpr fun p hp => by simpa using h p hp

theorem unsubscribe_alone {serviceId : String} {subscribers : Handlers}
    (h : ∀ p ∈ subscribers, p.1 = serviceId) : unsubscribe serviceId subscribers = [] :=
  List.filter_eq_nil_iff.mpr fun p hp => by simpa using h p hp

/-- What a step makes of the two registries, and of what is known of the services. -/
inductive Effect (s : State) : Event → State → Prop where
  | registerAsync {serviceId : String} {handler : MessageHandlerFunc} :
      Effect s (.registerAsyncMessageHandler serviceId handler)
        ⟨{ s.registry with asyncMessageHandler := handler }, s.any,
          subscribe serviceId handler s.async⟩
  | unregisterAsync {serviceId : String} :
      Effect s (.unregisterAsyncMessageHandler serviceId)
        ⟨{ s.registry with asyncMessageHandler := none }, s.any, unsubscribe serviceId s.async⟩
  | registerAny {serviceId : String} {handler : MessageHandlerFunc} :
      (insert serviceId handler s.registry.anyMessageHandlerMap).2 = true →
      Effect s (.registerAnyMessageHandler serviceId handler)
        ⟨{ s.registry with
            anyMessageHandlerMap := (insert serviceId handler s.registry.anyMessageHandlerMap).1 },
          subscribe serviceId handler s.any, s.async⟩
  | throws {serviceId : String} {handler : MessageHandlerFunc} :
      Effect s (.registerAnyMessageHandler serviceId handler) s
  | unregisterAny {serviceId : String} :
      Effect s (.unregisterAnyMessageHandler serviceId)
        ⟨{ s.registry with
            anyMessageHandlerMap :=
              s.registry.anyMessageHandlerMap.filter fun p => p.1 ≠ serviceId },
          unsubscribe serviceId s.any, s.async⟩
  | receive {uninit : Int} {pending : Option Execution.State} {w : List UInt8} :
      Effect s (.receive uninit pending w) s

theorem step_effect {s s' : State} {e : Event} (h : s.registry.Harmless)
    (he : step s e = some s') : Effect s e s' := by
  have hasync : ¬ s.registry.asyncMessageMutex = true := by simp [h.asyncFree]
  have hany : ¬ s.registry.anyMessageMutex = true := by simp [h.anyFree]
  cases e with
  | registerAsyncMessageHandler serviceId handler =>
    simp only [step, registerAsyncMessageHandler, if_neg hasync, Option.some.injEq] at he
    subst he
    exact .registerAsync
  | unregisterAsyncMessageHandler serviceId =>
    simp only [step, unregisterAsyncMessageHandler, if_neg hasync, Option.some.injEq] at he
    subst he
    exact .unregisterAsync
  | registerAnyMessageHandler serviceId handler =>
    simp only [step] at he
    split at he
    · cases he
    · rename_i r hr
      cases he
      simp only [registerAnyMessageHandler, if_neg hany, Option.some.injEq, Prod.mk.injEq] at hr
      obtain ⟨rfl, hret⟩ := hr
      split at hret
      · rename_i hins
        exact .registerAny hins
      · cases hret
    · rename_i r e hr
      cases he
      rw [registerAny_throws hr]
      exact .throws
  | unregisterAnyMessageHandler serviceId =>
    simp only [step, unregisterAnyMessageHandler, if_neg hany, Option.some.injEq] at he
    subst he
    exact .unregisterAny
  | receive uninit pending w =>
    simp only [step] at he
    split at he
    · cases he
    · rename_i r x o _ hr
      cases he
      have hsame := responseMessageHandler_harmless h uninit pending w
      rw [hr] at hsame
      simp only at hsame
      rw [hsame]
      exact .receive

theorem base_step {s s' : State} {e : Event} (h : Base s) (hC : Harmless e)
    (he : Effect s e s') : Base s' := by
  obtain ⟨⟨hasync, hany, hslot, hmap⟩, hsorted, hperm⟩ := h
  cases he with
  | registerAsync => exact ⟨⟨hasync, hany, .inr hC, hmap⟩, hsorted, hperm⟩
  | unregisterAsync => exact ⟨⟨hasync, hany, .inl rfl, hmap⟩, hsorted, hperm⟩
  | @registerAny serviceId handler hins =>
    have hfresh : ∀ p ∈ s.any, p.1 ≠ serviceId := fun p hp =>
      insert_fresh hsorted hins p (hperm.mem_iff.mpr hp)
    refine ⟨⟨hasync, hany, hslot, fun p hp => ?_⟩, insert_sorted hsorted, ?_⟩
    · rcases insert_mem hp with rfl | hp
      · exact hC
      · exact hmap p hp
    · simp only [subscribe, unsubscribe_fresh hfresh]
      exact (insert_perm hins).trans (hperm.cons _)
  | throws => exact ⟨⟨hasync, hany, hslot, hmap⟩, hsorted, hperm⟩
  | unregisterAny =>
    exact ⟨⟨hasync, hany, hslot, fun p hp => hmap p (List.mem_filter.mp hp).1⟩,
      hsorted.filter _, hperm.filter _⟩
  | receive => exact ⟨⟨hasync, hany, hslot, hmap⟩, hsorted, hperm⟩

/-- A step that leaves the slot to one service keeps it so. -/
theorem lone_step {s s' : State} {e : Event} (h : Lone s) (hC : Harmless e) (hA : Alone s e)
    (he : Effect s e s') : Lone s' := by
  cases he with
  | @registerAsync serviceId handler =>
    obtain ⟨g, rfl, _⟩ := noThrow_some hC DpaMessage.empty
    simp [Lone, subscribe, unsubscribe_alone hA]
  | unregisterAsync => simp [Lone, unsubscribe_alone hA]
  | registerAny _ => exact h
  | throws => exact h
  | unregisterAny => exact h
  | receive => exact h

theorem asyncCalls_lone {s : State} (h : Lone s) (m : DpaMessage) :
    asyncCalls m s.async = s.registry.asyncMessageHandler.toList.map fun g => .async g m := by
  have hmap : asyncCalls m s.async =
      (s.async.map Prod.snd).filterMap fun p => p.map fun h => .async h m := by
    rw [asyncCalls, List.filterMap_map]
    rfl
  rw [hmap, h]
  cases s.registry.asyncMessageHandler <;> rfl

theorem sorted_nodup {handlers : Handlers} (h : Sorted handlers) :
    (handlers.map Prod.fst).Nodup := by
  refine List.pairwise_map.mpr (h.imp fun {p q} hlt heq => ?_)
  rw [heq] at hlt
  exact String.lt_irrefl _ hlt

theorem delivers_of {s : State} (h : Base s) (hl : Lone s) : Delivers s where
  any := (h.any.map Prod.fst).nodup_iff.mp (sorted_nodup h.sorted)
  async := by
    have hlen : s.async.length ≤ 1 := by
      have := congrArg List.length hl
      simp only [List.length_map] at this
      rw [this]
      cases s.registry.asyncMessageHandler <;> simp
    generalize s.async = subscribers at hlen
    match subscribers, hlen with
    | [], _ => exact List.nodup_nil
    | [p], _ => exact List.nodup_singleton _
  frames := by
    intro uninit pending w f hf
    rw [handlers_called h.harmless uninit pending hf, expected, asyncCalls_lone hl]
    exact (h.any.filterMap _).append_right _

/-! ### Over runs -/

/-- With one more service in the slot's registry than in the slot, an asynchronous frame misses
someone. -/
theorem not_delivers {s : State} (h : Base s) (m : s.registry.asyncMessageHandler.toList.length <
    (asyncCalls ledPulse.message s.async).length) : ¬ Delivers s := by
  intro hd
  have hf : Frame.ofString ledPulse.bytes = some ledPulse := rfl
  have hasync : isAsynchronous ledPulse.message = true := rfl
  have hlen := (hd.frames 0 none _ _ hf).length_eq
  have hany := (h.any.filterMap fun p =>
    p.2.map fun g => Delivery.any p.1 g ledPulse.message).length_eq
  rw [handlers_called h.harmless 0 none hf, expected, if_pos hasync, if_pos hasync,
    List.length_append, List.length_append, List.length_map] at hlen
  simp only [anyCalls] at hlen
  omega

theorem lone_single {s : State} (h : Lone s) {p : String × MessageHandlerFunc}
    (hp : p ∈ s.async) : ∃ g, s.async = [(p.1, some g)] := by
  rw [Lone] at h
  cases hslot : s.registry.asyncMessageHandler with
  | none =>
    rw [hslot] at h
    rw [List.map_eq_nil_iff.mp h] at hp
    cases hp
  | some g =>
    rw [hslot] at h
    obtain ⟨q, hq, hg⟩ := List.map_eq_singleton_iff.mp h
    rw [hq] at hp
    obtain rfl := List.mem_singleton.mp hp
    exact ⟨g, by rw [hq, ← hg]⟩

/-- A step against the condition leaves a service without its frames. -/
theorem alone_needed {s s' : State} {e : Event} (h : Base s) (hl : Lone s) (hC : Harmless e)
    (hA : ¬ Alone s e) (he : Effect s e s') : ¬ Delivers s' := by
  have hother : ∀ {serviceId : String}, ¬ (∀ p ∈ s.async, p.1 = serviceId) →
      ∃ key g, s.async = [(key, some g)] ∧ unsubscribe serviceId s.async = s.async := by
    intro serviceId hn
    simp only [not_forall] at hn
    obtain ⟨p, hp, hne⟩ := hn
    obtain ⟨g, hsingle⟩ := lone_single hl hp
    refine ⟨p.1, g, hsingle, ?_⟩
    rw [hsingle]
    exact unsubscribe_fresh fun q hq => by rw [List.mem_singleton.mp hq]; exact hne
  have hbase := base_step h hC he
  refine not_delivers hbase ?_
  cases he with
  | @registerAsync serviceId handler =>
    obtain ⟨g, rfl, _⟩ := noThrow_some hC DpaMessage.empty
    obtain ⟨key, g', hsingle, hkept⟩ := hother hA
    rw [subscribe, hkept, hsingle]
    exact Nat.one_lt_two
  | @unregisterAsync serviceId =>
    obtain ⟨key, g', hsingle, hkept⟩ := hother hA
    rw [hkept, hsingle]
    exact Nat.zero_lt_one
  | registerAny _ => exact absurd trivial hA
  | throws => exact absurd trivial hA
  | unregisterAny => exact absurd trivial hA
  | receive => exact absurd trivial hA

/-- Services are independent in every run in which handlers do not throw and the slot of the
asynchronous handlers is left to one service at a time; with such handlers this is exact. On the
any-message registry a call that throws changes nothing, and no call changes the entry of another
service. -/
theorem services_independent (es : List Event) :
    (Machine.Steps step (fun s e => Harmless e ∧ Alone s e) init es →
      Machine.States step Delivers init es) ∧
    ((∀ e ∈ es, Harmless e) →
      (Machine.States step Delivers init es ↔ Machine.Steps step Alone init es)) ∧
    (∀ (r r' : Registry) serviceId handler o,
      r.registerAnyMessageHandler serviceId handler = some (r', o) →
        ((∃ e, o = .error e) → r' = r) ∧
        r'.anyMessageHandlerMap.filter (fun p => p.1 ≠ serviceId) =
          r.anyMessageHandlerMap.filter fun p => p.1 ≠ serviceId) ∧
    ∀ (r r' : Registry) serviceId, r.unregisterAnyMessageHandler serviceId = some r' →
      r'.anyMessageHandlerMap.filter (fun p => p.1 ≠ serviceId) =
        r.anyMessageHandlerMap.filter fun p => p.1 ≠ serviceId := by
  have hstep : ∀ s e s', Harmless e → Base s ∧ Lone s → Alone s e → step s e = some s' →
      Base s' ∧ Lone s' := by
    rintro s e s' hC ⟨hb, hl⟩ hA he
    have heff := step_effect hb.harmless he
    exact ⟨base_step hb hC heff, lone_step hl hC hA heff⟩
  have hinit : Base init ∧ Lone init := ⟨base_init, rfl⟩
  refine ⟨fun h => ?_, fun hD => ?_, ?_, ?_⟩
  · exact h.states (I := fun s => Base s ∧ Lone s)
      (fun s e s' hI hC he => hstep s e s' hC.1 hI hC.2 he)
      (fun s hI => delivers_of hI.1 hI.2) hinit
  · exact Machine.states_iff_steps (I := fun s => Base s ∧ Lone s) (D := Harmless) hstep
      (fun s hI => delivers_of hI.1 hI.2)
      (fun s e s' hC hI hA he =>
        alone_needed hI.1 hI.2 hC hA (step_effect hI.1.harmless he)) hD hinit
  · intro r r' serviceId handler o h
    refine ⟨fun ⟨e, ho⟩ => registerAny_throws (ho ▸ h), ?_⟩
    unfold registerAnyMessageHandler at h
    split at h
    · cases h
    · cases h
      exact insert_others
  · intro r r' serviceId h
    obtain rfl := unregisterAny_some h
    simp only [List.filter_filter, Bool.and_self]

/-- A handler that returns. -/
def returns : MessageHandlerFunc := some fun _ => .ok ()

/-- Two services on the any-message registry and one in the slot. -/
theorem services_independent_three :
    ∃ s, Machine.exec step init [.registerAnyMessageHandler "a" returns,
        .registerAnyMessageHandler "b" returns, .registerAsyncMessageHandler "a" returns,
        .receive 0 none ledPulse.bytes] = some s ∧ Delivers s ∧
      (expected s ledPulse.message).length = 3 := by
  have hreturns : MessageHandlerFunc.NoThrow returns := fun _ => rfl
  have hrun : ∃ s, Machine.exec step init [.registerAnyMessageHandler "a" returns,
        .registerAnyMessageHandler "b" returns, .registerAsyncMessageHandler "a" returns,
        .receive 0 none ledPulse.bytes] = some s ∧ (expected s ledPulse.message).length = 3 :=
    ⟨_, rfl, rfl⟩
  obtain ⟨s, hexec, hlen⟩ := hrun
  refine ⟨s, hexec, ?_, hlen⟩
  refine ((services_independent _).1 ?_).last hexec
  intro s1 h1
  refine ⟨⟨hreturns, trivial⟩, fun s2 h2 => ⟨⟨hreturns, trivial⟩, fun _ _ => ⟨⟨hreturns, ?_⟩,
    fun _ _ => ⟨⟨trivial, trivial⟩, trivial⟩⟩⟩⟩
  cases h1
  cases h2
  exact fun p hp => absurd hp List.not_mem_nil

/-- The second service takes the slot over: a request reaches its handler only. -/
theorem slot_taken_over :
    ∃ s, Machine.exec step init [.registerAsyncMessageHandler "a" returns,
        .registerAsyncMessageHandler "b" returns] = some s ∧
      s.async.map Prod.fst = ["b", "a"] ∧
      (deliveries 0 s.registry none ledPulse.bytes).length = 1 ∧ ¬ Delivers s := by
  refine ⟨_, rfl, rfl, rfl, fun h => ?_⟩
  have hlen := (h.frames 0 none ledPulse.bytes ledPulse rfl).length_eq
  exact absurd hlen (by decide)

end Services

end ClibDpa
