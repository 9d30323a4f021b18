import ClibDpa.Lib.Machine
import ClibDpa.Message

/-!
# ClibDpa.Store

The life of `DpaMessage` objects: constructors, member functions, copies, assignments and
destructors in any order, as a machine over a store of objects.

A member function is a computation on its object that may leave by an exception; what it wrote
before it threw stays written. `dataToBuffer_run` and its like say that these are the functions of
`Message`.

A constructor starts with the zeroed union and whatever was found at `m_length` (`uninit`).
`defined` is history: `m_length` has been written, or copied from a defined one. `overrun` is
history too: some copy of `GetLength()` bytes left a buffer.

* `Effect`          — everything a step can do.
* `Valid`           — every length is defined and within the buffer, and no copy left one.
* `Initialises`     — the condition on a step: no constructor is given a length that is zero once
  it is cast.
* `store_valid_iff` — over runs.
-/

namespace ClibDpa
namespace Store

open DpaMessage

structure Object extends DpaMessage where
  defined : Bool

/-! ## Member functions -/

abbrev Method := ExceptT Exc (StateM Object)

def copyIn (src : Nat → UInt8) (n : Nat) : Method Unit :=
  modify fun o => { o with buffer := copyBytes src n o.buffer }

def assignLength (n : Int) : Method Unit :=
  modify fun o => { o with length := n, defined := true }

def dataToBuffer (data : Option (List UInt8)) (length : UInt8) : Method Unit := do
  if length = 0 then
    return
  match data with
  | none => throw (.invalidArgument "Data argument can not be null.")
  | some bytes =>
    if maxDpaBuffer < length.toNat then
      throw (.lengthError "Not enough space for this data.")
    copyIn (fun i => bytes.getD i 0) length.toNat
    assignLength length.toNat

def fillFromResponse (data : Option (List UInt8)) (length : UInt8) : Method Unit := do
  if length = 0 then
    throw (.invalidArgument "Invalid length.")
  dataToBuffer data length

/-- `operator=` of a string. -/
def assignString (message : List UInt8) : Method Unit :=
  dataToBuffer (some message) (castLength message)

def setLength (length : Int) : Method Unit := do
  if maxDpaBuffer < length ∨ length ≤ 0 then
    throw (.lengthError "Invalid length value.")
  assignLength length

/-- A write through `DpaPacket()` or `DpaPacketData()`. -/
def write (i : Fin 64) (b : UInt8) : Method Unit :=
  modify fun o => { o with buffer := Function.update o.buffer i b }

inductive Op where
  | dataToBuffer (data : Option (List UInt8)) (length : UInt8)
  | fillFromResponse (data : Option (List UInt8)) (length : UInt8)
  | assignString (message : List UInt8)
  | setLength (length : Int)
  | write (i : Fin 64) (b : UInt8)

def Op.method : Op → Method Unit
  | .dataToBuffer data length => Store.dataToBuffer data length
  | .fillFromResponse data length => Store.fillFromResponse data length
  | .assignString message => Store.assignString message
  | .setLength length => Store.setLength length
  | .write i b => Store.write i b

/-- The constructors, the copy constructor apart. -/
inductive Ctor where
  | default
  | ofData (data : Option (List UInt8)) (length : UInt8)
  | ofString (message : List UInt8)

/-- What a constructor does once the union is there. -/
def Ctor.body : Ctor → Method Unit
  | .default => assignLength 0
  | .ofData data length => Store.dataToBuffer data length
  | .ofString message => Store.dataToBuffer (some message) (castLength message)

/-! ## The store -/

structure State where
  object : Nat → Option Object
  /-- How the last call ended. -/
  thrown : Option Exc
  overrun : Bool

inductive Event where
  | construct (x : Nat) (c : Ctor) (uninit : Int)
  | copyOf (x y : Nat)
  | call (x : Nat) (op : Op)
  | assign (x y : Nat)
  | destroy (x : Nat)

def init : State := ⟨fun _ => none, none, false⟩

def put (s : State) (x : Nat) (o : Object) : State :=
  { s with object := Function.update s.object x (some o), thrown := none }

/-- A copy of `GetLength()` bytes stays within both buffers. -/
def Inside (o : Object) : Prop := 0 ≤ o.getLength ∧ o.getLength ≤ 64

instance (o : Object) : Decidable (Inside o) := inferInstanceAs (Decidable (_ ∧ _))

/-- The copy constructor, and `operator=` of another message. -/
def putCopy (s : State) (x : Nat) (other : Object) : State :=
  { put s x ⟨other.toDpaMessage.copy, other.defined⟩ with
    overrun := s.overrun || !decide (Inside other) }

def step (s : State) : Event → Option State
  | .construct x c uninit =>
    match s.object x with
    | some _ => none
    | none =>
      match c.body.run.run ⟨⟨zeroed, uninit⟩, false⟩ with
      | (.ok _, o) => some (put s x o)
      | (.error e, _) => some { s with thrown := some e }
  | .copyOf x y =>
    match s.object x, s.object y with
    | none, some other => some (putCopy s x other)
    | _, _ => none
  | .call x op =>
    match s.object x with
    | none => none
    | some o =>
      match op.method.run.run o with
      | (.ok _, o') => some (put s x o')
      | (.error e, o') => some { put s x o' with thrown := some e }
  | .assign x y =>
    match s.object x, s.object y with
    | some _, some other =>
      if x = y then some { s with thrown := none } else some (putCopy s x other)
    | _, _ => none
  | .destroy x =>
    match s.object x with
    | none => none
    | some _ => some { s with object := Function.update s.object x none, thrown := none }

/-! ## What the member functions do -/

section Run

variable (o : Object)

@[simp] theorem assignLength_run (n : Int) :
    (assignLength n).run.run o = (.ok (), { o with length := n, defined := true }) := rfl

theorem dataToBuffer_run (data : Option (List UInt8)) (length : UInt8) :
    (dataToBuffer data length).run.run o =
      match o.toDpaMessage.dataToBuffer data length with
      | .ok m => (.ok (), ⟨m, o.defined || length ≠ 0⟩)
      | .error e => (.error e, o) := by
  unfold dataToBuffer DpaMessage.dataToBuffer
  by_cases h0 : length = 0
  · simp [h0]
    rfl
  · cases data with
    | none => simp [h0]; rfl
    | some bytes =>
      by_cases hlong : maxDpaBuffer < length.toNat
      · simp [h0, hlong]; rfl
      · simp [h0, hlong]; rfl

theorem dataToBuffer_some {bytes : List UInt8} {length : UInt8} (h0 : length ≠ 0)
    (h64 : length.toNat ≤ 64) :
    (dataToBuffer (some bytes) length).run.run o =
      (.ok (), ⟨⟨copyBytes (fun i => bytes.getD i 0) length.toNat o.buffer, length.toNat⟩,
        true⟩) := by
  have hfits : ¬ maxDpaBuffer < length.toNat := Nat.not_lt.mpr h64
  simp [dataToBuffer_run, DpaMessage.dataToBuffer, h0, hfits]

theorem fillFromResponse_zero (data : Option (List UInt8)) :
    (fillFromResponse data 0).run.run o = (.error (.invalidArgument "Invalid length."), o) := rfl

theorem fillFromResponse_of_ne (data : Option (List UInt8)) {length : UInt8} (h : length ≠ 0) :
    fillFromResponse data length = dataToBuffer data length := by
  simp only [fillFromResponse, if_neg h]

theorem fillFromResponse_run (data : Option (List UInt8)) (length : UInt8) :
    (fillFromResponse data length).run.run o =
      match o.toDpaMessage.fillFromResponse data length with
      | .ok m => (.ok (), ⟨m, true⟩)
      | .error e => (.error e, o) := by
  by_cases h0 : length = 0
  · subst h0
    exact fillFromResponse_zero o data
  · rw [fillFromResponse_of_ne data h0, dataToBuffer_run]
    simp [DpaMessage.fillFromResponse, h0]

theorem setLength_run (length : Int) :
    (setLength length).run.run o =
      if 64 < length ∨ length ≤ 0 then (.error (.lengthError "Invalid length value."), o)
      else (.ok (), { o with length := length, defined := true }) := by
  unfold setLength
  by_cases h : (maxDpaBuffer : Int) < length ∨ length ≤ 0
  · have h' : 64 < length ∨ length ≤ 0 := h
    simp [h, h']
    rfl
  · have h' : ¬ (64 < length ∨ length ≤ 0) := h
    simp [h, h']

end Run

/-- The length is defined and covers a part of the buffer. -/
structure Object.Valid (o : Object) : Prop where
  inside : Inside o
  defined : o.defined = true

/-- What a member function can do. -/
inductive Ran (o : Object) : Except Exc Unit × Object → Prop where
  | threw (e : Exc) : Ran o (.error e, o)
  | kept (buffer : Buffer) : Ran o (.ok (), { o with buffer := buffer })
  | sized {o' : Object} : o'.Valid → Ran o (.ok (), o')

theorem Ran.valid {o o' : Object} (h : Ran o (.ok (), o')) (ho : o.Valid) : o'.Valid := by
  cases h with
  | kept buffer => exact ⟨ho.inside, ho.defined⟩
  | sized hv => exact hv

/-- `DataToBuffer` of a length other than zero throws, or sets the length. -/
theorem dataToBuffer_sized (o : Object) (data : Option (List UInt8)) {length : UInt8}
    (h : length ≠ 0) :
    (∃ e, (dataToBuffer data length).run.run o = (.error e, o)) ∨
      ∃ o', (dataToBuffer data length).run.run o = (.ok (), o') ∧ o'.Valid := by
  rw [dataToBuffer_run]
  unfold DpaMessage.dataToBuffer
  rw [if_neg h]
  cases data with
  | none => exact .inl ⟨_, rfl⟩
  | some bytes =>
    by_cases hlong : maxDpaBuffer < length.toNat
    · simp only [if_pos hlong]
      exact .inl ⟨_, rfl⟩
    · simp only [if_neg hlong]
      have hle : length.toNat ≤ 64 := Nat.not_lt.mp hlong
      exact .inr ⟨_, rfl, ⟨by simp [Inside, getLength]; omega, by simp [h]⟩⟩

theorem dataToBuffer_zero (o : Object) (data : Option (List UInt8)) :
    (dataToBuffer data 0).run.run o = (.ok (), o) := by
  simp [dataToBuffer_run, DpaMessage.dataToBuffer]

theorem dataToBuffer_ran (o : Object) (data : Option (List UInt8)) (length : UInt8) :
    Ran o ((dataToBuffer data length).run.run o) := by
  by_cases h : length = 0
  · subst h
    rw [dataToBuffer_zero]
    exact .kept o.buffer
  · rcases dataToBuffer_sized o data h with ⟨e, hrun⟩ | ⟨o', hrun, hv⟩
    · rw [hrun]
      exact .threw e
    · rw [hrun]
      exact .sized hv

theorem op_ran (o : Object) (op : Op) : Ran o (op.method.run.run o) := by
  cases op with
  | dataToBuffer data length => exact dataToBuffer_ran o data length
  | fillFromResponse data length =>
    by_cases h : length = 0
    · subst h
      exact .threw _
    · simp only [Op.method, fillFromResponse_of_ne data h]
      exact dataToBuffer_ran o data length
  | assignString message => exact dataToBuffer_ran o (some message) (castLength message)
  | setLength length =>
    simp only [Op.method, setLength_run]
    split
    · exact .threw _
    · refine .sized ⟨?_, rfl⟩
      simp only [Inside, getLength]
      omega
  | write i b => exact .kept _

/-! ## What a step does -/

inductive Effect (s : State) : Event → State → Prop where
  | construct {x : Nat} {c : Ctor} {uninit : Int} {o : Object} :
      c.body.run.run ⟨⟨zeroed, uninit⟩, false⟩ = (.ok (), o) →
      Effect s (.construct x c uninit) (put s x o)
  | notConstruct {x : Nat} {c : Ctor} {uninit : Int} {o : Object} {e : Exc} :
      c.body.run.run ⟨⟨zeroed, uninit⟩, false⟩ = (.error e, o) →
      Effect s (.construct x c uninit) { s with thrown := some e }
  | copyOf {x y : Nat} {other : Object} : s.object y = some other →
      Effect s (.copyOf x y) (putCopy s x other)
  | assign {x y : Nat} {other : Object} : s.object y = some other →
      Effect s (.assign x y) (putCopy s x other)
  | assignSelf {x : Nat} : Effect s (.assign x x) { s with thrown := none }
  | called {x : Nat} {op : Op} {o o' : Object} : s.object x = some o → Ran o (.ok (), o') →
      Effect s (.call x op) (put s x o')
  | threw {x : Nat} {op : Op} {e : Exc} : Effect s (.call x op) { s with thrown := some e }
  | destroy {x : Nat} :
      Effect s (.destroy x)
        { s with object := Function.update s.object x none, thrown := none }

theorem step_effect {s s' : State} {e : Event} (h : step s e = some s') : Effect s e s' := by
  cases e with
  | construct x c uninit =>
    simp only [step] at h
    split at h
    · cases h
    · split at h
      · cases h
        exact .construct ‹_›
      · cases h
        exact .notConstruct ‹_›
  | copyOf x y =>
    simp only [step] at h
    split at h
    · cases h
      exact .copyOf ‹_›
    · cases h
  | call x op =>
    simp only [step] at h
    split at h
    · cases h
    · rename_i o ho
      have hran := op_ran o op
      split at h
      · rename_i hrun
        cases h
        rw [hrun] at hran
        exact .called ho hran
      · rename_i hrun
        cases h
        rw [hrun] at hran
        cases hran
        simp only [put, ← ho, Function.update_eq_self]
        exact .threw
  | assign x y =>
    simp only [step] at h
    split at h
    · split at h
      · rename_i hxy
        cases h
        subst hxy
        exact .assignSelf
      · cases h
        exact .assign ‹_›
    · cases h
  | destroy x =>
    simp only [step] at h
    split at h
    · cases h
    · cases h
      exact .destroy

/-! ## The condition -/

/-- The length given to the constructor is not zero once it is a `uint8_t`. -/
def Ctor.Initialises : Ctor → Prop
  | .default => True
  | .ofData _ length => length ≠ 0
  | .ofString message => message.length % 256 ≠ 0

def Initialises : Event → Prop
  | .construct _ c _ => c.Initialises
  | _ => True

structure Valid (s : State) : Prop where
  object : ∀ x o, s.object x = some o → o.Valid
  inside : s.overrun = false

theorem valid_init : Valid init where
  object := fun _ _ h => by cases h
  inside := rfl

theorem castLength_ne_zero_iff (message : List UInt8) :
    castLength message ≠ 0 ↔ message.length % 256 ≠ 0 := by
  rw [← castLength_toNat, not_iff_not]
  exact UInt8.toNat_inj.symm

theorem ctor_initialises {c : Ctor} (h : c.Initialises) (o : Object) :
    (∃ e, c.body.run.run o = (.error e, o)) ∨
      ∃ o', c.body.run.run o = (.ok (), o') ∧ o'.Valid := by
  cases c with
  | default => exact .inr ⟨_, rfl, ⟨by simp [Inside, getLength], rfl⟩⟩
  | ofData data length => exact dataToBuffer_sized o data h
  | ofString message =>
    exact dataToBuffer_sized o (some message) ((castLength_ne_zero_iff message).mpr h)

/-- Nothing is written, the length included. -/
theorem ctor_skips {c : Ctor} (h : ¬ c.Initialises) (o : Object) :
    c.body.run.run o = (.ok (), o) := by
  cases c with
  | default => exact absurd trivial h
  | ofData data length =>
    have h0 : length = 0 := not_not.mp h
    subst h0
    exact dataToBuffer_zero o data
  | ofString message =>
    have h0 : castLength message = 0 :=
      not_not.mp fun hne => h ((castLength_ne_zero_iff message).mp hne)
    simp only [Ctor.body, h0]
    exact dataToBuffer_zero o (some message)

section Step

variable {s s' : State} {x : Nat} {o : Object}

@[simp] theorem put_object (s : State) (x : Nat) (o : Object) : (put s x o).object x = some o :=
  Function.update_self _ _ _

@[simp] theorem put_object_of_ne (s : State) {x y : Nat} (o : Object) (h : y ≠ x) :
    (put s x o).object y = s.object y :=
  Function.update_of_ne h _ _

theorem step_dataToBuffer {bytes : List UInt8} {length : UInt8} (ho : s.object x = some o)
    (h0 : length ≠ 0) (h64 : length.toNat ≤ 64) :
    step s (.call x (.dataToBuffer (some bytes) length)) =
      some (put s x ⟨⟨copyBytes (fun i => bytes.getD i 0) length.toNat o.buffer, length.toNat⟩,
        true⟩) := by
  simp [step, ho, Op.method, dataToBuffer_some o h0 h64]

theorem step_copyOf {y : Nat} (hx : s.object x = none) (hy : s.object y = some o) :
    step s (.copyOf x y) = some (putCopy s x o) := by
  simp [step, hx, hy]

theorem valid_put (h : Valid s) (ho : o.Valid) : Valid (put s x o) where
  object := by
    intro y o' hy
    by_cases hxy : y = x
    · subst hxy
      rw [put_object, Option.some.injEq] at hy
      exact hy ▸ ho
    · rw [put_object_of_ne s o hxy] at hy
      exact h.object y o' hy
  inside := h.inside

theorem valid_putCopy (h : Valid s) (ho : o.Valid) : Valid (putCopy s x o) where
  object := (valid_put (o := ⟨o.toDpaMessage.copy, o.defined⟩) h ⟨ho.inside, ho.defined⟩).object
  inside := by simp [putCopy, h.inside, ho.inside]

theorem valid_destroy (h : Valid s) (x : Nat) :
    Valid { s with object := Function.update s.object x none, thrown := none } where
  object := by
    intro y o' hy
    by_cases hxy : y = x
    · subst hxy
      simp at hy
    · simp only [Function.update_of_ne hxy] at hy
      exact h.object y o' hy
  inside := h.inside

/-- A constructor keeps the store valid exactly when it writes the length. -/
theorem valid_construct {c : Ctor} {uninit : Int} (h : Valid s)
    (hrun : c.body.run.run ⟨⟨zeroed, uninit⟩, false⟩ = (.ok (), o)) :
    Valid (put s x o) ↔ c.Initialises := by
  by_cases hc : c.Initialises
  · refine ⟨fun _ => hc, fun _ => ?_⟩
    rcases ctor_initialises hc ⟨⟨zeroed, uninit⟩, false⟩ with ⟨e, herr⟩ | ⟨o', hok, hv⟩
    · rw [herr] at hrun
      cases hrun
    · rw [hok] at hrun
      cases hrun
      exact valid_put h hv
  · refine ⟨fun hv => ?_, fun hi => absurd hi hc⟩
    rw [ctor_skips hc] at hrun
    cases hrun
    exact Bool.noConfusion (hv.object x _ (put_object _ _ _)).defined

/-- A step keeps the store valid exactly when it meets the condition. -/
theorem valid_step {e : Event} (h : Valid s) (he : step s e = some s') :
    Valid s' ↔ Initialises e := by
  cases step_effect he with
  | construct hrun => exact valid_construct h hrun
  | notConstruct hrun =>
    refine ⟨fun _ => ?_, fun _ => ⟨h.object, h.inside⟩⟩
    -- a constructor that leaves the length alone does not throw
    by_contra hc
    rw [ctor_skips hc] at hrun
    cases hrun
  | copyOf hy => exact iff_of_true (valid_putCopy h (h.object _ _ hy)) trivial
  | assign hy => exact iff_of_true (valid_putCopy h (h.object _ _ hy)) trivial
  | assignSelf => exact iff_of_true ⟨h.object, h.inside⟩ trivial
  | threw => exact iff_of_true ⟨h.object, h.inside⟩ trivial
  | called ho hran => exact iff_of_true (valid_put h (hran.valid (h.object _ _ ho))) trivial
  | destroy => exact iff_of_true (valid_destroy h _) trivial

/-- A call that throws leaves every object as it was. -/
theorem thrown_unchanged {e : Event} (he : step s e = some s') (ht : s'.thrown ≠ none) :
    s'.object = s.object := by
  cases step_effect he with
  | notConstruct _ => rfl
  | threw => rfl
  | _ => exact absurd rfl ht

end Step

/-- In every run, every object of every state has a defined length within the buffer, and no copy
leaves a buffer, exactly when no constructor is given a length that is zero as a `uint8_t`; and a
call that throws changes no object. -/
theorem store_valid_iff (es : List Event) :
    (Machine.States step Valid init es ↔
      Machine.Steps step (fun _ e => Initialises e) init es) ∧
    ∀ s e s', Machine.exec step init es = some s → step s e = some s' → s'.thrown ≠ none →
      s'.object = s.object := by
  refine ⟨?_, fun _ _ _ _ he ht => thrown_unchanged he ht⟩
  exact Machine.states_iff_steps (I := Valid) (D := fun _ => True)
    (fun _ _ _ _ hI hC he => (valid_step hI he).mpr hC) (fun _ h => h)
    (fun _ _ _ _ hI hC he hP => hC ((valid_step hI he).mp hP)) (fun _ _ => trivial) valid_init

/-- A message from an empty string has the length that was found there, and its copy takes as many
bytes. -/
theorem empty_string_undefined :
    ∃ s o, Machine.exec step init [.construct 0 (.ofString []) 100, .copyOf 1 0] = some s ∧
      s.object 1 = some o ∧ o.getLength = 100 ∧ o.defined = false ∧ s.overrun = true ∧
      ¬ Valid s := by
  refine ⟨_, _, rfl, rfl, rfl, rfl, rfl, fun h => ?_⟩
  exact Bool.noConfusion h.inside

end Store
end ClibDpa
