import ClibDpa.Lib.Machine

/-!
# Lib.Progress

Getting somewhere. `own` marks the events that the machine takes by itself; the others are up to
its environment.

* `reaches`   — where some own step lowers a measure as long as the goal is not met, own steps alone
  meet it, and the measure bounds their number.
* `Steps.mem` — own steps of a run that goes through are its events.
* `Within`    — a run of own steps with a bound on their number, put together from pieces.
-/

namespace Machine

variable {σ ε : Type*}

/-- `own s e` may depend on the state, as when the environment answers the machine's questions. -/
theorem reaches {step : σ → ε → Option σ} {I goal : σ → Prop} {own : σ → ε → Prop} {μ : σ → Nat}
    (hstep : ∀ s, I s → ¬ goal s → ∃ e s', own s e ∧ step s e = some s' ∧ I s' ∧ μ s' < μ s)
    {s : σ} (hs : I s) :
    ∃ es s', Steps step own s es ∧ exec step s es = some s' ∧ I s' ∧ goal s' ∧
      es.length + μ s' ≤ μ s := by
  induction hn : μ s using Nat.strong_induction_on generalizing s with
  | _ n ih =>
    by_cases hg : goal s
    · exact ⟨[], s, trivial, rfl, hs, hg, by simp [hn]⟩
    · obtain ⟨e, s1, he, h1, hI1, hlt⟩ := hstep s hs hg
      obtain ⟨es, s', hes, hexec, hI', hg', hlen⟩ := ih (μ s1) (hn ▸ hlt) hI1 rfl
      refine ⟨e :: es, s', ?_, exec_cons_iff.mpr ⟨s1, h1, hexec⟩, hI', hg', ?_⟩
      · intro s2 h2
        rw [h1] at h2
        cases h2
        exact ⟨he, hes⟩
      · rw [List.length_cons]
        omega

theorem Steps.mem {step : σ → ε → Option σ} {own : ε → Prop} :
    ∀ {es : List ε} {s s' : σ}, Steps step (fun _ e => own e) s es → exec step s es = some s' →
      ∀ e ∈ es, own e := by
  intro es
  induction es with
  | nil => intro s s' _ _ e he; cases he
  | cons x es ih =>
    intro s s' hs hexec e he
    obtain ⟨s1, h1, h2⟩ := exec_cons_iff.mp hexec
    obtain ⟨hx, hrest⟩ := hs s1 h1
    rcases List.mem_cons.mp he with rfl | he
    · exact hx
    · exact ih hrest h2 e he

theorem Steps.append {step : σ → ε → Option σ} {C : σ → ε → Prop} {es' : List ε} :
    ∀ {es : List ε} {s s1 : σ}, Steps step C s es → exec step s es = some s1 →
      Steps step C s1 es' → Steps step C s (es ++ es') := by
  intro es
  induction es with
  | nil => intro s s1 _ h1 h; cases h1; exact h
  | cons x es ih =>
    intro s s1 hs hexec h s2 h2
    obtain ⟨hx, hrest⟩ := hs s2 h2
    rw [exec_cons_some h2] at hexec
    exact ⟨hx, ih hrest hexec h⟩

theorem Steps.imp {step : σ → ε → Option σ} {C D : σ → ε → Prop} (hCD : ∀ s e, C s e → D s e) :
    ∀ {es : List ε} {s : σ}, Steps step C s es → Steps step D s es := by
  intro es
  induction es with
  | nil => intro s _; trivial
  | cons e es ih => intro s h s1 h1; exact ⟨hCD s e (h s1 h1).1, ih (h s1 h1).2⟩

/-- Own steps lead from `s` to `s'`, `n` of them at most. -/
def Within (step : σ → ε → Option σ) (own : σ → ε → Prop) (n : Nat) (s s' : σ) : Prop :=
  ∃ es, Steps step own s es ∧ exec step s es = some s' ∧ es.length ≤ n

namespace Within

variable {step : σ → ε → Option σ} {own : σ → ε → Prop} {n n' : Nat} {s s1 s' : σ}

theorem refl (s : σ) : Within step own 0 s s := ⟨[], trivial, rfl, Nat.le_refl 0⟩

theorem single {e : ε} (ho : own s e) (he : step s e = some s') : Within step own 1 s s' := by
  refine ⟨[e], fun s2 _ => ⟨ho, trivial⟩, ?_, Nat.le_refl 1⟩
  rw [exec_single]
  exact he

theorem trans (h : Within step own n s s1) (h' : Within step own n' s1 s') :
    Within step own (n + n') s s' := by
  obtain ⟨es, hs, hexec, hlen⟩ := h
  obtain ⟨es', hs', hexec', hlen'⟩ := h'
  refine ⟨es ++ es', hs.append hexec hs', exec_append_iff.mpr ⟨s1, hexec, hexec'⟩, ?_⟩
  rw [List.length_append]
  omega

theorem mono (h : Within step own n s s') (hn : n ≤ n') : Within step own n' s s' := by
  obtain ⟨es, hs, hexec, hlen⟩ := h
  exact ⟨es, hs, hexec, hlen.trans hn⟩

theorem reachable {s0 : σ} (h : Within step own n s s') (hr : Reachable step s0 s) :
    Reachable step s0 s' := by
  obtain ⟨es, _, hexec, _⟩ := h
  obtain ⟨es0, hexec0⟩ := hr
  exact ⟨es0 ++ es, exec_append_iff.mpr ⟨s, hexec0, hexec⟩⟩

theorem imp {own' : σ → ε → Prop} (h : Within step own n s s')
    (hown : ∀ s e, own s e → own' s e) : Within step own' n s s' := by
  obtain ⟨es, hs, hexec, hlen⟩ := h
  exact ⟨es, hs.imp hown, hexec, hlen⟩

theorem inv {I : σ → Prop} (h : Within step own n s s')
    (hI : ∀ s e s', I s → own s e → step s e = some s' → I s') (hs : I s) : I s' := by
  obtain ⟨es, hsteps, hexec, _⟩ := h
  exact hsteps.exec_inv hI hs hexec

end Within

end Machine
