import Mathlib.Tactic

/-!
# Lib.Loop

`while (true)` with `break`: a body that makes another pass necessary or ends the loop, run with
fuel.

* `run`   — `none` when the fuel does not last.
* `total` — an invariant and a measure that every further pass lowers: the loop ends, and its
  result is what the last pass makes of the invariant.
* `never` — an invariant under which no pass is the last one: no fuel lasts.
-/

namespace Loop

variable {σ : Type*}

/-- How a pass through the body ends. -/
inductive Pass (σ : Type*) where
  | again (s : σ)
  | done (s : σ)

def run (body : σ → Pass σ) : Nat → σ → Option σ
  | 0, _ => none
  | fuel + 1, s =>
    match body s with
    | .again s' => run body fuel s'
    | .done s' => some s'

section Rules

variable {body : σ → Pass σ} {I Q : σ → Prop}

theorem run_again {s s' : σ} (h : body s = .again s') (fuel : Nat) :
    run body (fuel + 1) s = run body fuel s' := by
  simp [run, h]

theorem run_done {s s' : σ} (h : body s = .done s') (fuel : Nat) :
    run body (fuel + 1) s = some s' := by
  simp [run, h]

theorem total (measure : σ → Nat)
    (hagain : ∀ s s', I s → body s = .again s' → I s' ∧ measure s' < measure s)
    (hdone : ∀ s s', I s → body s = .done s' → Q s') {s : σ} (hs : I s) :
    ∃ fuel s', run body fuel s = some s' ∧ Q s' := by
  generalize hn : measure s = n
  induction n using Nat.strongRecOn generalizing s with
  | ind n ih =>
    cases hb : body s with
    | again s' =>
      obtain ⟨hs', hlt⟩ := hagain s s' hs hb
      rw [hn] at hlt
      obtain ⟨fuel, s'', hrun, hq⟩ := ih (measure s') hlt hs' rfl
      exact ⟨fuel + 1, s'', by rw [run_again hb, hrun], hq⟩
    | done s' => exact ⟨1, s', run_done hb 0, hdone s s' hs hb⟩

theorem never (hagain : ∀ s, I s → ∃ s', body s = .again s' ∧ I s') {s : σ} (hs : I s)
    (fuel : Nat) : run body fuel s = none := by
  induction fuel generalizing s with
  | zero => rfl
  | succ fuel ih =>
    obtain ⟨s', hb, hs'⟩ := hagain s hs
    rw [run_again hb, ih hs']

end Rules

end Loop
