import ClibDpa.Lib.Machine

/-!
# Lib.Server

A server that takes up its jobs one at a time, in the order of their arrival. While it serves a job
it may send one message for it; it ends with a result, which is collected once at most.

* `Wf` / `wf_step`       — one job at a time, at most one message and one result for each.
* `Later` / `later_step` — what is done is not undone.
* `Refines`              — a machine that is such a server when seen through an abstraction.
-/

structure Server (ι μ ρ : Type*) where
  waiting : List ι
  serving : Option ι
  sent : List (ι × μ)
  results : List (ι × ρ)
  collected : ι → Option ρ

namespace Server

variable {ι μ ρ : Type*}

inductive Event (ι μ ρ : Type*) where
  | arrive (i : ι)
  | start
  | send (m : μ)
  | finish (r : ρ)
  | collect (i : ι)

def empty : Server ι μ ρ := ⟨[], none, [], [], fun _ => none⟩

/-- The jobs that the server has taken up. -/
def started (s : Server ι μ ρ) : List ι := s.results.map Prod.fst ++ s.serving.toList

/-- All jobs, in the order of their arrival. -/
def arrived (s : Server ι μ ρ) : List ι := s.started ++ s.waiting

section Facts

variable {s s' s'' : Server ι μ ρ} {i : ι}

/-! ## What holds in every run -/

structure Wf (s : Server ι μ ρ) : Prop where
  nodup : s.arrived.Nodup
  sent : (s.sent.map Prod.fst).Sublist s.started
  collected : ∀ i r, s.collected i = some r → (i, r) ∈ s.results

theorem wf_empty : Wf (empty : Server ι μ ρ) where
  nodup := List.nodup_nil
  sent := List.Sublist.refl []
  collected := fun _ _ h => by cases h

theorem Wf.idle_sent (h : Wf s) (hs : s.serving = none) :
    (s.sent.map Prod.fst).Sublist (s.results.map Prod.fst) := by
  have hsent := h.sent
  rwa [started, hs, Option.toList_none, List.append_nil] at hsent

/-- Whoever is served has not sent before, so the message goes to the end. -/
theorem Wf.send (h : Wf s) (hs : s.serving = some i) (hnew : i ∉ s.sent.map Prod.fst) :
    (s.sent.map Prod.fst ++ [i]).Sublist s.started := by
  have hsent := h.sent
  rw [started, hs, Option.toList_some] at hsent ⊢
  obtain ⟨l, l', hl, hpast, hlast⟩ := List.sublist_append_iff.mp hsent
  have hnil : l' = [] := by
    cases l' with
    | nil => rfl
    | cons j l' =>
      have hj : j = i := List.mem_singleton.mp (hlast.subset List.mem_cons_self)
      rw [hl, hj] at hnew
      exact absurd (List.mem_append_right l List.mem_cons_self) hnew
  rw [hl, hnil, List.append_nil]
  exact hpast.append (List.Sublist.refl [i])

theorem Wf.results_nodup (h : Wf s) : (s.results.map Prod.fst).Nodup :=
  h.nodup.sublist ((List.sublist_append_left _ _).trans (List.sublist_append_left _ _))

/-- A job has one result. -/
theorem Wf.result_unique (h : Wf s) {r r' : ρ} (hr : (i, r) ∈ s.results)
    (hr' : (i, r') ∈ s.results) : r = r' := by
  have heq := List.inj_on_of_nodup_map h.results_nodup hr hr' rfl
  exact (Prod.mk.inj heq).2

/-- When a message is sent for a job, the jobs that arrived before it have their results. -/
theorem Wf.sent_after (h : Wf s) (hi : i ∈ s.sent.map Prod.fst) :
    ∃ pre post, s.arrived = pre ++ i :: post ∧ ∀ j ∈ pre, j ∈ s.results.map Prod.fst := by
  rcases List.mem_append.mp (h.sent.subset hi) with hi | hi
  · obtain ⟨pre, post, hsplit⟩ := List.append_of_mem hi
    refine ⟨pre, post ++ s.serving.toList ++ s.waiting, ?_, fun j hj => ?_⟩
    · simp [arrived, started, hsplit]
    · rw [hsplit]
      exact List.mem_append_left _ hj
  · refine ⟨s.results.map Prod.fst, s.waiting, ?_, fun _ hj => hj⟩
    simp [arrived, started, Option.mem_toList.mp hi]

/-! ## What is done is not undone -/

structure Later (s s' : Server ι μ ρ) : Prop where
  arrived : s.arrived <+: s'.arrived
  sent : s.sent <+: s'.sent
  results : s.results <+: s'.results
  collected : ∀ i r, s.collected i = some r → s'.collected i = some r

theorem Later.refl (s : Server ι μ ρ) : Later s s :=
  ⟨List.prefix_rfl, List.prefix_rfl, List.prefix_rfl, fun _ _ h => h⟩

theorem Later.trans (h : Later s s') (h' : Later s' s'') : Later s s'' where
  arrived := h.arrived.trans h'.arrived
  sent := h.sent.trans h'.sent
  results := h.results.trans h'.results
  collected := fun i r hr => h'.collected i r (h.collected i r hr)

end Facts

/-! ## The machine -/

section Step

variable [DecidableEq ι] {s s' : Server ι μ ρ} {i : ι}

def step (s : Server ι μ ρ) : Event ι μ ρ → Option (Server ι μ ρ)
  | .arrive i =>
    if i ∈ s.arrived then none else some { s with waiting := s.waiting ++ [i] }
  | .start =>
    match s.serving, s.waiting with
    | none, i :: rest => some { s with serving := some i, waiting := rest }
    | _, _ => none
  | .send m =>
    match s.serving with
    | none => none
    | some i =>
      if i ∈ s.sent.map Prod.fst then none else some { s with sent := s.sent ++ [(i, m)] }
  | .finish r =>
    match s.serving with
    | none => none
    | some i => some { s with serving := none, results := s.results ++ [(i, r)] }
  | .collect i =>
    match s.collected i, s.results.lookup i with
    | none, some r => some { s with collected := Function.update s.collected i (some r) }
    | _, _ => none

inductive Effect (s : Server ι μ ρ) : Server ι μ ρ → Prop where
  | arrive {i : ι} : i ∉ s.arrived → Effect s { s with waiting := s.waiting ++ [i] }
  | start {i : ι} {rest : List ι} : s.serving = none → s.waiting = i :: rest →
      Effect s { s with serving := some i, waiting := rest }
  | send {i : ι} {m : μ} : s.serving = some i → i ∉ s.sent.map Prod.fst →
      Effect s { s with sent := s.sent ++ [(i, m)] }
  | finish {i : ι} {r : ρ} : s.serving = some i →
      Effect s { s with serving := none, results := s.results ++ [(i, r)] }
  | collect {i : ι} {r : ρ} : s.collected i = none → (i, r) ∈ s.results →
      Effect s { s with collected := Function.update s.collected i (some r) }

theorem mem_of_lookup {l : List (ι × ρ)} {r : ρ} (h : l.lookup i = some r) : (i, r) ∈ l := by
  obtain ⟨pre, post, hsplit, _⟩ := List.lookup_eq_some_iff.mp h
  rw [hsplit]
  simp

theorem step_effect {e : Event ι μ ρ} (h : step s e = some s') : Effect s s' := by
  cases e with
  | arrive i =>
    simp only [step] at h
    split at h
    · cases h
    · cases h
      exact .arrive ‹_›
  | start =>
    simp only [step] at h
    split at h
    · cases h
      exact .start ‹_› ‹_›
    · cases h
  | send m =>
    simp only [step] at h
    split at h
    · cases h
    · split at h
      · cases h
      · cases h
        exact .send ‹_› ‹_›
  | finish r =>
    simp only [step] at h
    split at h
    · cases h
    · cases h
      exact .finish ‹_›
  | collect i =>
    simp only [step] at h
    split at h
    · rename_i r hc hr
      cases h
      exact .collect hc (mem_of_lookup hr)
    · cases h

theorem wf_step (h : Wf s) (he : Effect s s') : Wf s' := by
  cases he with
  | @arrive i hnew =>
    refine ⟨?_, h.sent, h.collected⟩
    have harrived : ({ s with waiting := s.waiting ++ [i] } : Server ι μ ρ).arrived =
        s.arrived ++ [i] := (List.append_assoc _ _ _).symm
    rw [harrived, List.nodup_append']
    exact ⟨h.nodup, List.nodup_singleton i, by simpa using hnew⟩
  | @start i rest hs hw =>
    have hsent := h.idle_sent hs
    have hnodup := h.nodup
    refine ⟨?_, hsent.trans (List.sublist_append_left _ _), h.collected⟩
    simpa [arrived, started, hs, hw] using hnodup
  | send hs hnew =>
    refine ⟨h.nodup, ?_, h.collected⟩
    rw [List.map_append]
    exact h.send hs hnew
  | @finish i r hs =>
    have hstarted : ({ s with serving := none, results := s.results ++ [(i, r)] } :
        Server ι μ ρ).started = s.started := by simp [started, hs]
    refine ⟨?_, ?_, fun j r' hj => List.mem_append_left _ (h.collected j r' hj)⟩
    · rw [arrived, hstarted]
      exact h.nodup
    · rw [hstarted]
      exact h.sent
  | @collect i r _ hr =>
    refine ⟨h.nodup, h.sent, fun j r' hj => ?_⟩
    change Function.update s.collected i (some r) j = some r' at hj
    by_cases hij : j = i
    · subst hij
      rw [Function.update_self] at hj
      cases hj
      exact hr
    · rw [Function.update_of_ne hij] at hj
      exact h.collected j r' hj

theorem wf_reachable (h : Machine.Reachable step empty s) : Wf s :=
  h.inv (fun _ _ _ hI he => wf_step hI (step_effect he)) wf_empty

theorem Wf.lookup (h : Wf s) {r : ρ} (hr : (i, r) ∈ s.results) : s.results.lookup i = some r := by
  cases hl : s.results.lookup i with
  | none => simpa using List.lookup_eq_none_iff.mp hl _ hr
  | some r' => rw [h.result_unique hr (mem_of_lookup hl)]

theorem later_step (he : Effect s s') : Later s s' := by
  cases he with
  | arrive _ =>
    refine { Later.refl s with arrived := ?_ }
    exact ⟨[_], List.append_assoc _ _ _⟩
  | @start i rest hs hw =>
    refine { Later.refl s with arrived := ?_ }
    simp [arrived, started, hs, hw]
  | send _ _ => exact { Later.refl s with sent := List.prefix_append _ _ }
  | @finish i r hs =>
    refine { Later.refl s with arrived := ?_, results := List.prefix_append _ _ }
    simp [arrived, started, hs]
  | @collect i r hnone _ =>
    refine { Later.refl s with collected := fun j r' hj => ?_ }
    have hij : j ≠ i := by
      rintro rfl
      rw [hnone] at hj
      cases hj
    simpa [hij] using hj

theorem later_reachable (h : Machine.Reachable step s s') : Later s s' :=
  h.inv (I := Later s) (fun _ _ _ hI he => hI.trans (later_step (step_effect he))) (.refl s)

/-! ## Refinement -/

variable {σ ε : Type*} {mstep : σ → ε → Option σ} {I : σ → Prop} {abs : σ → Server ι μ ρ}

/-- A machine with an invariant whose steps, seen through `abs`, are steps of the server. -/
abbrev Refines (mstep : σ → ε → Option σ) (I : σ → Prop) (abs : σ → Server ι μ ρ) : Prop :=
  Machine.Simulation mstep step fun s a => I s ∧ a = abs s

theorem Refines.reachable (h : Refines mstep I abs) {x x' : σ} (hI : I x)
    (hr : Machine.Reachable mstep x x') : Machine.Reachable step (abs x) (abs x') := by
  obtain ⟨es, hes⟩ := hr
  obtain ⟨fs, a, hfs, _, rfl⟩ := h.exec ⟨hI, rfl⟩ hes
  exact ⟨fs, hfs⟩

end Step

end Server
