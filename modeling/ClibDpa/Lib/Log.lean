import Mathlib.Tactic

/-!
# Lib.Log

A log whose entries are allowed, or not, by the entry just before them. `R before x` says that
`x` may follow `before`; `before` is `none` at the start of the log.

* `Chained R l`    — every entry of `l` may stand where it stands.
* `Chained.snoc`   — what a machine that appends to its log has to show.
* `Chained.before` — an entry that needs a predecessor has one.
* `noting f`       — the function `f`, with a log of the arguments it is called with.
* `Notes base f`   — what a program over a function comes back with, and the calls that it makes.
-/

namespace Log

variable {α : Type*} {R : Option α → α → Prop}

def Chained (R : Option α → α → Prop) (l : List α) : Prop :=
  ∀ pre x post, l = pre ++ x :: post → R pre.getLast? x

theorem chained_nil : Chained R ([] : List α) := by
  intro pre x post h
  cases pre <;> cases h

theorem Chained.snoc {l : List α} {x : α} (h : Chained R l) (hx : R l.getLast? x) :
    Chained R (l ++ [x]) := by
  intro pre y post heq
  rcases List.eq_nil_or_concat post with rfl | ⟨post, z, rfl⟩
  · obtain ⟨rfl, hy⟩ := List.append_inj' heq rfl
    cases hy
    exact hx
  · -- the new entry is the last, so the split is one of the old log
    rw [List.concat_eq_append, ← List.cons_append, ← List.append_assoc] at heq
    obtain ⟨hl, _⟩ := List.append_inj' heq rfl
    exact h pre y post hl

/-- The new entries of a step, none or one. -/
theorem Chained.append {l l' : List α} (h : Chained R l)
    (hx : l' = [] ∨ ∃ x, l' = [x] ∧ R l.getLast? x) : Chained R (l ++ l') := by
  rcases hx with rfl | ⟨x, rfl, hx⟩
  · rwa [List.append_nil]
  · exact h.snoc hx

theorem Chained.before {l pre post : List α} {x : α} (h : Chained R l)
    (hl : l = pre ++ x :: post) (hx : ¬ R none x) :
    ∃ front y, pre = front ++ [y] ∧ R (some y) x := by
  have hr := h pre x post hl
  rcases List.eq_nil_or_concat pre with rfl | ⟨front, y, rfl⟩
  · exact absurd hr hx
  · rw [List.concat_eq_append, List.getLast?_append] at hr
    exact ⟨front, y, List.concat_eq_append, hr⟩

section Noting

variable {γ : Type} {m : Type → Type} [Monad m] {β : Type}

def noting (f : γ → m β) (x : γ) : StateT (List γ) m β := do
  modify fun log => log ++ [x]
  f x

@[simp] theorem noting_run [LawfulMonad m] (f : γ → m β) (x : γ) (log : List γ) :
    (noting f x).run log = (fun y => (y, log ++ [x])) <$> f x := by
  simp [noting]

end Noting

section Notes

variable {γ β α α' : Type} {base : γ → β} {f : (γ → StateM (List γ) β) → StateM (List γ) α}
  {g : (γ → StateM (List γ) β) → α → StateM (List γ) α'} {x : α} {y : α'} {calls calls' : List γ}

/-- The program `f` over the function `base`: how it comes back, and its calls in their order. -/
def noted (base : γ → β) (f : (γ → StateM (List γ) β) → StateM (List γ) α) : α × List γ :=
  Id.run ((f (noting fun z => pure (base z))).run [])

def Notes (base : γ → β) (f : (γ → StateM (List γ) β) → StateM (List γ) α) (x : α)
    (calls : List γ) : Prop :=
  ∀ log, Id.run ((f (noting fun z => pure (base z))).run log) = (x, log ++ calls)

theorem Notes.noted (h : Notes base f x calls) : noted base f = (x, calls) := h []

theorem Notes.pure (x : α) : Notes base (fun _ => Pure.pure x) x [] := by
  intro log
  simp

theorem Notes.call (z : γ) : Notes base (fun call => call z) (base z) [z] := by
  intro log
  simp

theorem Notes.bind (h : Notes base f x calls) (h' : Notes base (g · x) y calls') :
    Notes base (fun call => f call >>= g call) y (calls ++ calls') := by
  intro log
  have hf := h log
  have hg := h' (log ++ calls)
  rw [List.append_assoc] at hg
  rw [StateT.run_bind, Id.run_bind, hf]
  exact hg

/-- The end of a program calls nothing. -/
theorem Notes.map (h : Notes base f x calls) (k : α → α') :
    Notes base (fun call => f call >>= fun z => Pure.pure (k z)) (k x) calls := by
  have hb := h.bind (g := fun _ z => Pure.pure (k z)) (Notes.pure (k x))
  rwa [List.append_nil] at hb

end Notes

end Log
