import Mathlib.Tactic

/-!
# Lib.Retry

A bounded loop of attempts. `outcome k` is what attempt `k` meets; the loop ends at the first
outcome that satisfies `stop`, or after `n` attempts.

* `attempts stop outcome n k` — the outcomes met by the attempts `k`, `k + 1`, …, in order.
* `Ends`                      — how such a list ends; `attempts_ends`.
* `Ends.flatMap_last`         — where in the calls of all attempts the stopping one stands.
* `attempts_front`            — attempts that go on are the front of the loop, and
  `Ends.exists_outcome` turns every list that ends as a loop does into one.
* `exists_stop_iff`           — one of them stops the loop iff one of the next `n` would.
-/

namespace Retry

variable {α β : Type*}

def attempts (stop : α → Bool) (outcome : Nat → α) : Nat → Nat → List α
  | 0, _ => []
  | n + 1, k =>
    if stop (outcome k) then [outcome k] else outcome k :: attempts stop outcome n (k + 1)

/-- Attempts that go on, and then the one that stops or the end of the budget. -/
inductive Ends (stop : α → Bool) (n : Nat) : List α → Prop where
  | stopped {front : List α} {a : α} : (∀ b ∈ front, stop b = false) → stop a = true →
      front.length < n → Ends stop n (front ++ [a])
  | exhausted {front : List α} : (∀ b ∈ front, stop b = false) → front.length = n →
      Ends stop n front

section Attempts

variable {stop : α → Bool} {outcome : Nat → α}

theorem Ends.cons {n : Nat} {a : α} {as : List α} (ha : stop a = false) (h : Ends stop n as) :
    Ends stop (n + 1) (a :: as) := by
  have hcons : ∀ {front : List α}, (∀ b ∈ front, stop b = false) →
      ∀ b ∈ a :: front, stop b = false := by
    intro front hfront b hb
    rcases List.mem_cons.mp hb with rfl | hb
    · exact ha
    · exact hfront b hb
  cases h with
  | @stopped front c hfront hc hlt =>
    have hfront' := hcons hfront
    exact .stopped hfront' hc (Nat.succ_lt_succ hlt)
  | exhausted hfront hlen => exact .exhausted (hcons hfront) (by rw [List.length_cons, hlen])

theorem attempts_ends (n k : Nat) : Ends stop n (attempts stop outcome n k) := by
  induction n generalizing k with
  | zero => exact .exhausted (by simp [attempts]) rfl
  | succ n ih =>
    cases h : stop (outcome k) with
    | true =>
      simp only [attempts, h, if_true]
      have hnone : ∀ b ∈ ([] : List α), stop b = false := by simp
      exact .stopped hnone h (Nat.succ_pos n)
    | false =>
      simp only [attempts, h, Bool.false_eq_true, if_false]
      exact (ih (k + 1)).cons h

theorem Ends.length_le {n : Nat} {as : List α} (h : Ends stop n as) : as.length ≤ n := by
  cases h with
  | stopped _ _ hlt => simpa using hlt
  | exhausted _ hlen => exact hlen.le

/-- Each outcome is met by the calls `f`. A call with `p` stops the loop and is the last of its
attempt, so it is the last of all. -/
theorem Ends.flatMap_last {n : Nat} {as : List α} {f : α → List β} {p : β → Bool}
    (hstop : ∀ a b, b ∈ f a → p b = true → stop a = true)
    (hlast : ∀ a pre b post, f a = pre ++ b :: post → p b = true → post = [])
    (h : Ends stop n as) {pre post : List β} {b : β} (heq : as.flatMap f = pre ++ b :: post)
    (hb : p b = true) : post = [] := by
  have hfront : ∀ front : List α, (∀ a ∈ front, stop a = false) → b ∉ front.flatMap f := by
    intro front hf hmem
    obtain ⟨a, ha, hba⟩ := List.mem_flatMap.mp hmem
    have := hstop a b hba hb
    rw [hf a ha] at this
    cases this
  cases h with
  | @stopped front a hf _ _ =>
    rw [List.flatMap_append, List.flatMap_singleton] at heq
    rcases List.append_eq_append_iff.mp heq with ⟨x, _, hfa⟩ | ⟨x, hff, hx⟩
    · exact hlast a x b post hfa hb
    · cases x with
      | nil => exact hlast a [] b post hx.symm hb
      | cons c x =>
        obtain ⟨rfl, _⟩ := List.cons.inj hx
        exact absurd (by rw [hff]; simp) (hfront front hf)
  | exhausted hf _ => exact absurd (by rw [heq]; simp) (hfront as hf)

/-- What can only be last is there once at most. -/
theorem filter_le_one {p : β → Bool} : ∀ {bs : List β},
    (∀ pre b post, bs = pre ++ b :: post → p b = true → post = []) →
      (bs.filter p).length ≤ 1 := by
  intro bs
  induction bs with
  | nil => intro _; simp
  | cons b bs ih =>
    intro h
    cases hb : p b with
    | true =>
      have hnil : bs = [] := h [] b bs rfl hb
      simp [hnil, hb]
    | false =>
      rw [List.filter_cons_of_neg (by simp [hb])]
      exact ih fun pre c post heq => h (b :: pre) c post (by rw [heq]; rfl)

theorem attempts_front {front : List α} (hfront : ∀ b ∈ front, stop b = false) :
    ∀ {n k : Nat}, front.length ≤ n → (∀ i a, front[i]? = some a → outcome (k + i) = a) →
      attempts stop outcome n k =
        front ++ attempts stop outcome (n - front.length) (k + front.length) := by
  induction front with
  | nil => intro n k _ _; rfl
  | cons a front ih =>
    intro n k hle hat
    obtain ⟨n, rfl⟩ : ∃ m, n = m + 1 := ⟨n - 1, by rw [List.length_cons] at hle; omega⟩
    have ha : outcome k = a := hat 0 a rfl
    have hrest := ih (fun b hb => hfront b (List.mem_cons_of_mem a hb)) (n := n) (k := k + 1)
      (Nat.le_of_succ_le_succ hle) fun i b hb => by
        rw [Nat.add_right_comm]
        exact hat (i + 1) b hb
    simp only [attempts, ha, hfront a List.mem_cons_self, Bool.false_eq_true, if_false]
    rw [hrest, List.length_cons, Nat.add_sub_add_right, Nat.add_right_comm, Nat.add_assoc]
    rfl

/-- An outcome for every attempt that begins with `as`. -/
theorem exists_outcome (as : List α) (d : α) :
    ∃ outcome : Nat → α, ∀ i a, as[i]? = some a → outcome (0 + i) = a := by
  refine ⟨fun k => as.getD k d, fun i a h => ?_⟩
  simp [List.getD_eq_getElem?_getD, h]

/-- A list that ends as a loop of `n` attempts does is what such a loop meets. -/
theorem Ends.exists_outcome {n : Nat} {as : List α} (d : α) (h : Ends stop n as) :
    ∃ outcome, attempts stop outcome n 0 = as := by
  obtain ⟨outcome, hat⟩ := Retry.exists_outcome as d
  refine ⟨outcome, ?_⟩
  cases h with
  | @stopped front a hfront ha hlt =>
    have hsplit := attempts_front hfront hlt.le fun i b hb =>
      hat i b (by rw [List.getElem?_append_left (List.getElem?_eq_some_iff.mp hb).1]; exact hb)
    have hlast : outcome (0 + front.length) = a := hat front.length a (by simp)
    obtain ⟨m, hm⟩ : ∃ m, n - front.length = m + 1 := ⟨n - front.length - 1, by omega⟩
    rw [hsplit, hm, attempts, hlast, ha, if_pos rfl]
  | exhausted hfront hlen =>
    rw [attempts_front hfront hlen.le hat, hlen, Nat.sub_self]
    simp [attempts]

/-- Attempts that go on are the front of some loop. -/
theorem exists_outcome_front {n : Nat} {front : List α} (d : α)
    (hfront : ∀ b ∈ front, stop b = false) (hle : front.length ≤ n) :
    ∃ outcome, front <+: attempts stop outcome n 0 := by
  obtain ⟨outcome, hat⟩ := Retry.exists_outcome front d
  exact ⟨outcome, _, (attempts_front hfront hle hat).symm⟩

theorem exists_stop_iff (n k : Nat) :
    (∃ a ∈ attempts stop outcome n k, stop a = true) ↔
      ∃ j, k ≤ j ∧ j < k + n ∧ stop (outcome j) = true := by
  induction n generalizing k with
  | zero =>
    simp only [attempts, List.not_mem_nil, false_and, exists_false, false_iff]
    rintro ⟨j, h1, h2, _⟩
    omega
  | succ n ih =>
    cases h : stop (outcome k) with
    | true =>
      simp only [attempts, h, if_true]
      exact ⟨fun _ => ⟨k, le_refl k, by omega, h⟩,
        fun _ => ⟨outcome k, List.mem_singleton_self _, h⟩⟩
    | false =>
      simp only [attempts, h, Bool.false_eq_true, if_false, List.mem_cons, exists_eq_or_imp,
        false_or]
      rw [ih (k + 1)]
      constructor
      · rintro ⟨j, h1, h2, h3⟩
        exact ⟨j, by omega, by omega, h3⟩
      · rintro ⟨j, h1, h2, h3⟩
        refine ⟨j, ?_, by omega, h3⟩
        rcases Nat.eq_or_lt_of_le h1 with rfl | hlt
        · rw [h] at h3
          cases h3
        · exact hlt

end Attempts

end Retry
