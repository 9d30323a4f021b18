import ClibDpa.Lib.Machine

/-!
# Lib.Config

A machine with a configuration that some events set and some read, and that makes no difference to
the others.

* `inForce`         — the events of a run that set nothing; where one reads, what was in force.
* `Configured.exec` — what is in force where it is read is all that matters of the configuration.
-/

namespace Machine

variable {σ ε κ : Type*}

structure Configured (step : σ → ε → Option σ) (get : σ → κ) (put : σ → κ → σ)
    (sets : ε → Option (κ → κ)) (reads : ε → Bool) : Prop where
  get_put : ∀ s c, get (put s c) = c
  put_get : ∀ s, put s (get s) = s
  put_put : ∀ s c c', put (put s c) c' = put s c'
  setter : ∀ s e f, sets e = some f → step s e = some (put s (f (get s)))
  kept : ∀ s e s', sets e = none → step s e = some s' → get s' = get s
  other : ∀ s e c, sets e = none → reads e = false →
    step (put s c) e = (step s e).map fun s' => put s' c

/-- From the configuration `c` on. -/
def inForce (sets : ε → Option (κ → κ)) (reads : ε → Bool) : κ → List ε → List (ε × Option κ)
  | _, [] => []
  | c, e :: es =>
    match sets e with
    | some f => inForce sets reads (f c) es
    | none => (e, if reads e then some c else none) :: inForce sets reads c es

/-- A step with the configuration that it is to read. -/
def stepIn (step : σ → ε → Option σ) (put : σ → κ → σ) (s : σ) : ε × Option κ → Option σ
  | (e, none) => step s e
  | (e, some c) => step (put s c) e

/-- The states differ in their configurations only. -/
def Agree (get : σ → κ) (put : σ → κ → σ) (s t : σ) : Prop := put s (get t) = t

namespace Configured

variable {step : σ → ε → Option σ} {get : σ → κ} {put : σ → κ → σ}
  {sets : ε → Option (κ → κ)} {reads : ε → Bool} {s t u s' : σ}

section Agree

variable (h : Configured step get put sets reads)

include h

theorem agree_refl (s : σ) : Agree get put s s := h.put_get s

theorem agree_put (s : σ) (c : κ) : Agree get put s (put s c) := by
  rw [Agree, h.get_put]

theorem agree_symm (ha : Agree get put s t) : Agree get put t s := by
  unfold Agree at ha ⊢
  rw [← ha, h.put_put]
  exact h.put_get s

theorem agree_trans (ha : Agree get put s t) (ha' : Agree get put t u) : Agree get put s u := by
  unfold Agree at ha ha' ⊢
  rw [← ha, h.put_put] at ha'
  exact ha'

/-- The run does what its events do when each is given what is in force. -/
theorem exec_inForce : ∀ {es : List ε} {s t s' : σ}, Agree get put s t →
    exec step s es = some s' →
    ∃ t', exec (stepIn step put) t (inForce sets reads (get s) es) = some t' ∧
      Agree get put s' t' := by
  intro es
  induction es with
  | nil => intro s t s' ha he; cases he; exact ⟨t, rfl, ha⟩
  | cons e es ih =>
    intro s t s' ha he
    obtain ⟨s1, h1, h2⟩ := exec_cons_iff.mp he
    cases hset : sets e with
    | some f =>
      rw [h.setter s e f hset] at h1
      cases h1
      obtain ⟨t', ht', ha'⟩ := ih (h.agree_trans (h.agree_symm (h.agree_put s _)) ha) h2
      rw [h.get_put] at ht'
      exact ⟨t', by simp only [inForce, hset, ht'], ha'⟩
    | none =>
      have hget := h.kept s e s1 hset h1
      have hstep : ∃ t1, stepIn step put t (e, if reads e then some (get s) else none) = some t1 ∧
          Agree get put s1 t1 := by
        cases hread : reads e with
        | true =>
          refine ⟨s1, ?_, h.agree_refl s1⟩
          have hs : put t (get s) = s := h.agree_symm ha
          simp only [if_true, stepIn, hs, h1]
        | false =>
          refine ⟨put s1 (get t), ?_, h.agree_put s1 _⟩
          have ht : put s (get t) = t := ha
          have hother := h.other s e (get t) hset hread
          rw [ht, h1] at hother
          simp [stepIn, hother]
      obtain ⟨t1, ht1, ha1⟩ := hstep
      obtain ⟨t', ht', ha'⟩ := ih ha1 h2
      rw [hget] at ht'
      refine ⟨t', ?_, ha'⟩
      simp only [inForce, hset]
      exact exec_cons_iff.mpr ⟨t1, ht1, ht'⟩

/-- What the events do when each is given what is in force, the run does. -/
theorem exec_of_inForce : ∀ {es : List ε} {s t t' : σ}, Agree get put s t →
    exec (stepIn step put) t (inForce sets reads (get s) es) = some t' →
    ∃ s', exec step s es = some s' ∧ Agree get put s' t' := by
  intro es
  induction es with
  | nil => intro s t t' ha he; cases he; exact ⟨s, rfl, ha⟩
  | cons e es ih =>
    intro s t t' ha he
    cases hset : sets e with
    | some f =>
      simp only [inForce, hset] at he
      have ha1 := h.agree_trans (h.agree_symm (h.agree_put s (f (get s)))) ha
      rw [← h.get_put s (f (get s))] at he
      obtain ⟨s', hs', ha'⟩ := ih ha1 he
      exact ⟨s', exec_cons_iff.mpr ⟨_, h.setter s e f hset, hs'⟩, ha'⟩
    | none =>
      simp only [inForce, hset] at he
      obtain ⟨t1, ht1, hrest⟩ := exec_cons_iff.mp he
      have hstep : ∃ s1, step s e = some s1 ∧ Agree get put s1 t1 := by
        cases hread : reads e with
        | true =>
          have hs : put t (get s) = s := h.agree_symm ha
          simp only [hread, if_true, stepIn, hs] at ht1
          exact ⟨t1, ht1, h.agree_refl t1⟩
        | false =>
          have ht : put s (get t) = t := ha
          have hother := h.other s e (get t) hset hread
          rw [ht] at hother
          simp only [hread, Bool.false_eq_true, if_false, stepIn] at ht1
          rw [ht1] at hother
          obtain ⟨s1, hs1, rfl⟩ := Option.map_eq_some_iff.mp hother.symm
          exact ⟨s1, hs1, h.agree_put s1 _⟩
      obtain ⟨s1, hs1, ha1⟩ := hstep
      rw [← h.kept s e s1 hset hs1] at hrest
      obtain ⟨s', hs', ha'⟩ := ih ha1 hrest
      exact ⟨s', exec_cons_iff.mpr ⟨s1, hs1, hs'⟩, ha'⟩

theorem exec {es es' : List ε} (ha : Agree get put s t)
    (hes : inForce sets reads (get s) es = inForce sets reads (get t) es')
    (he : Machine.exec step s es = some s') :
    ∃ t', Machine.exec step t es' = some t' ∧ Agree get put s' t' := by
  obtain ⟨u, hu, hau⟩ := h.exec_inForce (h.agree_refl s) he
  rw [hes] at hu
  obtain ⟨t', ht', hat⟩ := h.exec_of_inForce (h.agree_symm ha) hu
  exact ⟨t', ht', h.agree_trans hau (h.agree_symm hat)⟩

end Agree

end Configured

end Machine
