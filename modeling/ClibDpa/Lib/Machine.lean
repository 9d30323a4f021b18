import Mathlib.Tactic

/-!
# Lib.Machine

Runs of a machine given by a partial step function `step : σ → ε → Option σ` (`none`: the event
is not enabled).

* `exec step s es`  — the state after the events `es`, in order.
* `Steps step C s es` — every step of the run meets the condition `C` on the state before it and
  its event.
* `States step P s es` — every state of the run, the first one included, satisfies `P`.
* `Reachable step s` — the states some run from `s` reaches.

An invariant is proved for one step; `exec_inv` and `Steps.exec_inv` carry it to runs, and
`states_iff_steps` turns a condition that is exact for one step into one that is exact for runs.
`fold` notes something along a run, and `fold_inv` relates the note to the state.
`exec_filter` leaves out of a run the events that change nothing.
`update_rel` is about machines with a position for each of many threads.
`Simulation` relates two machines; `Simulation.exec` carries a run of the first to the second.
-/

namespace Machine

variable {σ ε τ φ : Type*}

def exec (step : σ → ε → Option σ) : σ → List ε → Option σ
  | s, [] => some s
  | s, e :: es =>
    match step s e with
    | some s' => exec step s' es
    | none => none

def Steps (step : σ → ε → Option σ) (C : σ → ε → Prop) : σ → List ε → Prop
  | _, [] => True
  | s, e :: es => ∀ s', step s e = some s' → C s e ∧ Steps step C s' es

def States (step : σ → ε → Option σ) (P : σ → Prop) : σ → List ε → Prop
  | s, [] => P s
  | s, e :: es => P s ∧ ∀ s', step s e = some s' → States step P s' es

def Reachable (step : σ → ε → Option σ) (s s' : σ) : Prop :=
  ∃ es, exec step s es = some s'

section Exec

variable {step : σ → ε → Option σ}

@[simp] theorem exec_nil (s : σ) : exec step s [] = some s := rfl

theorem exec_cons_some {s s' : σ} {e : ε} {es : List ε} (h : step s e = some s') :
    exec step s (e :: es) = exec step s' es := by
  simp [exec, h]

theorem exec_cons_iff {s s'' : σ} {e : ε} {es : List ε} :
    exec step s (e :: es) = some s'' ↔
      ∃ s', step s e = some s' ∧ exec step s' es = some s'' := by
  simp only [exec]
  cases h : step s e with
  | none => simp
  | some s' => simp

theorem exec_append {s : σ} {es es' : List ε} :
    exec step s (es ++ es') = (exec step s es).bind fun s' => exec step s' es' := by
  induction es generalizing s with
  | nil => simp
  | cons e es ih =>
    simp only [List.cons_append, exec]
    cases step s e with
    | none => simp
    | some s' => simpa using ih

theorem exec_append_iff {s s'' : σ} {es es' : List ε} :
    exec step s (es ++ es') = some s'' ↔
      ∃ s', exec step s es = some s' ∧ exec step s' es' = some s'' := by
  rw [exec_append]
  exact Option.bind_eq_some_iff

/-- A run through a step that is known. -/
theorem exec_through {s s1 s2 s' : σ} {e : ε} {es es' : List ε} (h1 : exec step s es = some s1)
    (h2 : step s1 e = some s2) (h : exec step s (es ++ e :: es') = some s') :
    exec step s2 es' = some s' := by
  rw [exec_append, h1] at h
  exact (exec_cons_some h2).symm.trans h

theorem exec_single {s : σ} {e : ε} : exec step s [e] = step s e := by
  simp only [exec]
  cases step s e <;> rfl

namespace Reachable

theorem refl (s : σ) : Reachable step s s := ⟨[], rfl⟩

theorem next {s s' s'' : σ} {e : ε} (h : Reachable step s s') (he : step s' e = some s'') :
    Reachable step s s'' := by
  obtain ⟨es, hes⟩ := h
  exact ⟨es ++ [e], exec_append_iff.mpr ⟨s', hes, by rw [exec_single]; exact he⟩⟩

end Reachable

/-! ## Invariants -/

theorem exec_inv {I : σ → Prop} (hI : ∀ s e s', I s → step s e = some s' → I s') :
    ∀ {es : List ε} {s s' : σ}, I s → exec step s es = some s' → I s' := by
  intro es
  induction es with
  | nil => intro s s' hs h; cases h; exact hs
  | cons e es ih =>
    intro s s' hs h
    obtain ⟨s1, h1, h2⟩ := exec_cons_iff.mp h
    exact ih (hI s e s1 hs h1) h2

theorem Reachable.inv {I : σ → Prop} (hI : ∀ s e s', I s → step s e = some s' → I s')
    {s s' : σ} (hs : I s) (h : Reachable step s s') : I s' := by
  obtain ⟨es, hes⟩ := h
  exact exec_inv hI hs hes

theorem Steps.of_mem {C : σ → ε → Prop} :
    ∀ {es : List ε} {s : σ}, (∀ s e, e ∈ es → C s e) → Steps step C s es := by
  intro es
  induction es with
  | nil => intro s _; trivial
  | cons e es ih =>
    intro s h s1 _
    exact ⟨h s e List.mem_cons_self, ih fun s' e' he' => h s' e' (List.mem_cons_of_mem e he')⟩

/-- An invariant that needs a condition on each step. -/
theorem Steps.exec_inv {I : σ → Prop} {C : σ → ε → Prop}
    (hI : ∀ s e s', I s → C s e → step s e = some s' → I s') :
    ∀ {es : List ε} {s s' : σ}, Steps step C s es → I s → exec step s es = some s' → I s' := by
  intro es
  induction es with
  | nil => intro s s' _ hs h; cases h; exact hs
  | cons e es ih =>
    intro s s' hC hs h
    obtain ⟨s1, h1, h2⟩ := exec_cons_iff.mp h
    obtain ⟨hc, hrest⟩ := hC s1 h1
    exact ih hrest (hI s e s1 hs hc h1) h2

theorem Steps.states {I P : σ → Prop} {C : σ → ε → Prop}
    (hI : ∀ s e s', I s → C s e → step s e = some s' → I s') (hP : ∀ s, I s → P s) :
    ∀ {es : List ε} {s : σ}, Steps step C s es → I s → States step P s es := by
  intro es
  induction es with
  | nil => intro s _ hs; exact hP s hs
  | cons e es ih =>
    intro s hC hs
    refine ⟨hP s hs, fun s1 h1 => ?_⟩
    obtain ⟨hc, hrest⟩ := hC s1 h1
    exact ih hrest (hI s e s1 hs hc h1)

theorem States.head {P : σ → Prop} {s : σ} {es : List ε} (h : States step P s es) : P s := by
  cases es with
  | nil => exact h
  | cons e es => exact h.1

theorem States.last {P : σ → Prop} : ∀ {es : List ε} {s s' : σ},
    States step P s es → exec step s es = some s' → P s' := by
  intro es
  induction es with
  | nil => intro s s' h he; cases he; exact h
  | cons e es ih =>
    intro s s' h he
    obtain ⟨s1, h1, h2⟩ := exec_cons_iff.mp he
    exact ih (h.2 s1 h1) h2

theorem States.steps {P : σ → Prop} {C : σ → ε → Prop} (hC : ∀ s e, P s → C s e) :
    ∀ {es : List ε} {s : σ}, States step P s es → Steps step C s es := by
  intro es
  induction es with
  | nil => intro s _; trivial
  | cons e es ih => intro s h s1 h1; exact ⟨hC s e h.1, ih (h.2 s1 h1)⟩

/-- A condition that decides, step by step, whether `P` survives decides it for whole runs: under
`C` an invariant that implies `P` is kept, and a step against `C` leads out of `P`. `D` restricts
the events that the runs consist of. -/
theorem states_iff_steps {I P : σ → Prop} {C : σ → ε → Prop} {D : ε → Prop}
    (hI : ∀ s e s', D e → I s → C s e → step s e = some s' → I s') (hP : ∀ s, I s → P s)
    (hV : ∀ s e s', D e → I s → ¬ C s e → step s e = some s' → ¬ P s') :
    ∀ {es : List ε} {s : σ}, (∀ e ∈ es, D e) → I s →
      (States step P s es ↔ Steps step C s es) := by
  intro es
  induction es with
  | nil => intro s _ hs; exact ⟨fun _ => trivial, fun _ => hP s hs⟩
  | cons e es ih =>
    intro s hD hs
    have hDe : D e := hD e List.mem_cons_self
    have hDes : ∀ e' ∈ es, D e' := fun e' he' => hD e' (List.mem_cons_of_mem e he')
    constructor
    · rintro ⟨_, h⟩ s1 h1
      have hc : C s e := by
        by_contra hn
        exact hV s e s1 hDe hs hn h1 (h s1 h1).head
      exact ⟨hc, (ih hDes (hI s e s1 hDe hs hc h1)).mp (h s1 h1)⟩
    · intro h
      refine ⟨hP s hs, fun s1 h1 => ?_⟩
      obtain ⟨hc, hrest⟩ := h s1 h1
      exact (ih hDes (hI s e s1 hDe hs hc h1)).mpr hrest

end Exec

/-- A note kept along a run; `note` sees every step with the state before it. -/
def fold (step : σ → ε → Option σ) (note : τ → σ → ε → τ) : τ → σ → List ε → τ
  | t, _, [] => t
  | t, s, e :: es =>
    match step s e with
    | some s' => fold step note (note t s e) s' es
    | none => t

/-- A relation between note and state that every step keeps. -/
theorem fold_inv {step : σ → ε → Option σ} {note : τ → σ → ε → τ} {R : τ → σ → Prop}
    (hR : ∀ t s e s', R t s → step s e = some s' → R (note t s e) s') :
    ∀ {es : List ε} {t : τ} {s s' : σ}, R t s → exec step s es = some s' →
      R (fold step note t s es) s' := by
  intro es
  induction es with
  | nil => intro t s s' hs h; cases h; exact hs
  | cons e es ih =>
    intro t s s' hs h
    obtain ⟨s1, h1, h2⟩ := exec_cons_iff.mp h
    simp only [fold, h1]
    exact ih (hR t s e s1 hs h1) h2

/-- Events that change nothing can be left out of a run. -/
theorem exec_filter {step : σ → ε → Option σ} {I : σ → Prop} {p : ε → Bool}
    (hI : ∀ s e s', I s → step s e = some s' → I s')
    (hp : ∀ s e s', I s → p e = false → step s e = some s' → s' = s) :
    ∀ {es : List ε} {s s' : σ}, I s → exec step s es = some s' →
      exec step s (es.filter p) = some s' := by
  intro es
  induction es with
  | nil => intro s s' _ h; exact h
  | cons e es ih =>
    intro s s' hs h
    obtain ⟨s1, h1, h2⟩ := exec_cons_iff.mp h
    have hrest := ih (hI s e s1 hs h1) h2
    cases hpe : p e with
    | true =>
      rw [List.filter_cons_of_pos hpe]
      exact exec_cons_iff.mpr ⟨s1, h1, hrest⟩
    | false =>
      rw [List.filter_cons_of_neg (by simp [hpe])]
      rwa [hp s e s1 hs hpe h1] at hrest

/-! ## Many threads -/

/-- One thread moves, the others stay where they are. -/
theorem update_rel {α β : Type*} [DecidableEq α] {R : β → β → Prop} {f : α → β} {a : α} {b : β}
    (hrefl : ∀ x, R x x) (h : R (f a) b) (x : α) : R (f x) (Function.update f a b x) := by
  by_cases hx : x = a
  · subst hx
    rw [Function.update_self]
    exact h
  · rw [Function.update_of_ne hx]
    exact hrefl (f x)

/-! ## Simulation -/

/-- Every step of the first machine is matched by some steps of the second. -/
structure Simulation (step : σ → ε → Option σ) (astep : τ → φ → Option τ)
    (R : σ → τ → Prop) : Prop where
  sim : ∀ {s : σ} {e : ε} {s' : σ} {a : τ}, R s a → step s e = some s' →
    ∃ fs a', exec astep a fs = some a' ∧ R s' a'

theorem Simulation.exec {step : σ → ε → Option σ} {astep : τ → φ → Option τ}
    {R : σ → τ → Prop} (h : Simulation step astep R) :
    ∀ {es : List ε} {s s' : σ} {a : τ}, R s a → Machine.exec step s es = some s' →
      ∃ fs a', Machine.exec astep a fs = some a' ∧ R s' a' := by
  intro es
  induction es with
  | nil => intro s s' a hR he; cases he; exact ⟨[], a, rfl, hR⟩
  | cons e es ih =>
    intro s s' a hR he
    obtain ⟨s1, h1, h2⟩ := exec_cons_iff.mp he
    obtain ⟨fs, a1, hf, hR1⟩ := h.sim hR h1
    obtain ⟨fs', a', hf', hR'⟩ := ih hR1 h2
    exact ⟨fs ++ fs', a', exec_append_iff.mpr ⟨a1, hf, hf'⟩, hR'⟩

end Machine
