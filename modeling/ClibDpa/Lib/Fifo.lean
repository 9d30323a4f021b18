import ClibDpa.Lib.Machine

/-!
# Lib.Fifo

A first-in first-out channel with its history, as an abstract machine. `put` and `taken` are
everything that was ever put and taken, `waiting` what is in between. A closed channel still
accepts items and gives none out.

* `step_ordered`  — nothing is lost, duplicated or reordered.
* `exec_closed`   — a closed channel stays closed and gives nothing out.
* `Refines`       — a machine that does the same through an abstraction function, and what its
  runs inherit.
-/

structure Fifo (α : Type*) where
  put : List α
  taken : List α
  waiting : List α
  closed : Bool

namespace Fifo

variable {α : Type*}

inductive Event (α : Type*) where
  | put (a : α)
  | take
  | close

def empty : Fifo α := ⟨[], [], [], false⟩

def step (q : Fifo α) : Event α → Option (Fifo α)
  | .put a => some { q with put := q.put ++ [a], waiting := q.waiting ++ [a] }
  | .take =>
    match q.waiting, q.closed with
    | a :: rest, false => some { q with taken := q.taken ++ [a], waiting := rest }
    | _, _ => none
  | .close => some { q with closed := true }

/-- What was put is what was taken followed by what waits. -/
def Ordered (q : Fifo α) : Prop := q.taken ++ q.waiting = q.put

theorem ordered_empty : Ordered (empty : Fifo α) := rfl

theorem step_ordered {q q' : Fifo α} {e : Event α} (h : q.Ordered) (he : step q e = some q') :
    q'.Ordered := by
  unfold Ordered at h ⊢
  cases e with
  | put a =>
    cases he
    rw [← h]
    simp
  | take =>
    simp only [step] at he
    split at he
    · rename_i a rest hw _
      cases he
      rw [← h, hw]
      simp
    · cases he
  | close => cases he; exact h

theorem Ordered.taken_prefix_put {q : Fifo α} (h : q.Ordered) : q.taken <+: q.put :=
  ⟨q.waiting, h⟩

theorem step_closed {q q' : Fifo α} {e : Event α} (h : q.closed = true)
    (he : step q e = some q') : q'.closed = true ∧ q'.taken = q.taken := by
  cases e with
  | put a => cases he; exact ⟨h, rfl⟩
  | take =>
    simp only [step] at he
    split at he
    · rename_i hc
      rw [h] at hc
      cases hc
    · cases he
  | close => cases he; exact ⟨rfl, rfl⟩

theorem exec_closed {q q' : Fifo α} {es : List (Event α)} (h : q.closed = true)
    (he : Machine.exec step q es = some q') : q'.closed = true ∧ q'.taken = q.taken :=
  Machine.exec_inv (I := fun p => p.closed = true ∧ p.taken = q.taken)
    (fun _ _ _ hI hp => by
      obtain ⟨hc, ht⟩ := step_closed hI.1 hp
      exact ⟨hc, ht.trans hI.2⟩) ⟨h, rfl⟩ he

/-! ## Refinement -/

section Refines

variable {σ ε : Type*}

/-- A machine with an invariant whose steps, seen through `abs`, are steps of the channel. -/
abbrev Refines (mstep : σ → ε → Option σ) (I : σ → Prop) (abs : σ → Fifo α) : Prop :=
  Machine.Simulation mstep step fun s q => I s ∧ q = abs s

variable {mstep : σ → ε → Option σ} {I : σ → Prop} {abs : σ → Fifo α}

theorem Refines.ordered (h : Refines mstep I abs) {s s' : σ} (hI : I s)
    (hs : (abs s).Ordered) (hr : Machine.Reachable mstep s s') : (abs s').Ordered := by
  obtain ⟨es, hes⟩ := hr
  obtain ⟨fs, q, hfs, _, rfl⟩ := h.exec ⟨hI, rfl⟩ hes
  exact Machine.exec_inv (fun _ _ _ hq he => step_ordered hq he) hs hfs

theorem Refines.closed (h : Refines mstep I abs) {s s' : σ} (hI : I s)
    (hc : (abs s).closed = true) (hr : Machine.Reachable mstep s s') :
    (abs s').taken = (abs s).taken := by
  obtain ⟨es, hes⟩ := hr
  obtain ⟨fs, q, hfs, _, rfl⟩ := h.exec ⟨hI, rfl⟩ hes
  exact (exec_closed hc hfs).2

end Refines

end Fifo
