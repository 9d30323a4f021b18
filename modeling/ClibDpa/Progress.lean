import ClibDpa.Execution
import ClibDpa.Timeout

/-!
# ClibDpa.Progress

`execute()` never loops with the mutex held: whenever it goes on there is a positive time to wait.
A transaction starts with the default timeout (`create_duration`), every estimate is positive
(`processConfirmation_duration`, `processResponse_duration`), and the two places that clear the
duration set a state that ends the loop.
-/

namespace ClibDpa
namespace Execution

open DpaTransaction2

theorem create_duration (request : DpaMessage) (mode : RfMode) (params : TimingParams)
    {defaultTimeout : Int32} (userTimeout : Int32) (err : ErrorCode)
    (h : 0 < defaultTimeout.toInt) :
    0 < (create request mode params defaultTimeout userTimeout err).expectedDurationMs := by
  have hexp := (create_times request mode params userTimeout err h).2
  have hbond : 0 < bondTimeoutMs := by decide
  split_ifs at hexp <;> omega

/-- The conversion keeps the estimate. -/
theorem toUint32_estimateFrom (tr : DpaTransaction2) (responseDataLength : Int8) :
    (toUint32 (tr.estimateFrom responseDataLength) : Int) =
      tr.estimateFrom responseDataLength := by
  have hb := estimate_bounds tr.currentCommunicationMode tr.currentTimingParams tr.hops.toUInt8
    tr.timeslotLength.toUInt8 tr.hopsResponse.toUInt8 responseDataLength
  unfold estimateFrom
  rw [toUint32_of_nonneg (by omega) (by omega)]
  omega

theorem toUint32_estimateFrom_bounds (tr : DpaTransaction2) (responseDataLength : Int8) :
    80 ≤ toUint32 (tr.estimateFrom responseDataLength) ∧
      toUint32 (tr.estimateFrom responseDataLength) ≤ 704040 := by
  have hb : 80 ≤ tr.estimateFrom responseDataLength ∧
      tr.estimateFrom responseDataLength ≤ 704040 := estimate_bounds _ _ _ _ _ _
  have heq := toUint32_estimateFrom tr responseDataLength
  omega

theorem estimateFrom_pos (tr : DpaTransaction2) (responseDataLength : Int8) :
    0 < toUint32 (tr.estimateFrom responseDataLength) :=
  lt_of_lt_of_le (by decide) (toUint32_estimateFrom_bounds tr responseDataLength).1

theorem processConfirmation_duration (tr : DpaTransaction2) (m : DpaMessage) :
    0 < (tr.processConfirmation m).expectedDurationMs := by
  have hest := estimateFrom_pos (tr.saveHops m) (-1)
  have hpos : 0 < (tr.saveHops m).estimateFrom (-1) :=
    lt_of_lt_of_le (by decide) (estimate_bounds _ _ _ _ _ _).1
  simp only [processConfirmation, if_pos hpos]
  split <;> omega

theorem processResponse_duration (tr : DpaTransaction2) (m : DpaMessage) :
    ((tr.processResponse m).expectedDurationMs = tr.expectedDurationMs ∧
      (tr.processResponse m).state = .processed) ∨
    0 < (tr.processResponse m).expectedDurationMs := by
  unfold processResponse
  split
  · exact .inl ⟨rfl, rfl⟩
  · split
    · exact .inr (estimateFrom_pos tr _)
    · exact .inl ⟨rfl, rfl⟩

/-- When the loop goes on, it waits. -/
structure Timed (s : State) : Prop where
  idle : s.pc = .idle → 0 < s.tr.expectedDurationMs
  ends : s.tr.isFinished = false → s.tr.expectedDurationMs = 0 → (s.tr.evaluate false).2 ≠ none
  waits : s.pc ≠ .spinning

theorem timed_init {tr : DpaTransaction2} (h : 0 < tr.expectedDurationMs) : Timed (init tr) where
  idle := fun _ => h
  ends := fun _ hd => absurd hd (Nat.ne_of_gt h)
  waits := ExecPc.noConfusion

theorem evaluate_ends {tr : DpaTransaction2} (h : tr.state = .processed ∨
    tr.state = .aborted ∨ tr.state = .interfaceError ∨ tr.state = .defaultError) :
    (tr.evaluate false).2 ≠ none := by
  rcases h with h | h | h | h <;> simp [evaluate, h]

theorem timed_settled {s : State} {tr : DpaTransaction2} {wait : Option Bool}
    {tr' : DpaTransaction2} {pc : ExecPc}
    (hends : tr.expectedDurationMs = 0 → (tr.evaluate false).2 ≠ none)
    (h : Settled tr wait tr' pc) : Timed { s with tr := tr', pc := pc } := by
  cases h with
  | enters _ => exact ⟨nofun, fun _ => hends, ExecPc.noConfusion⟩
  | goesOn _ _ => exact ⟨nofun, fun _ => hends, ExecPc.noConfusion⟩
  | spins hn hd => exact absurd (evaluate_none_of_expired hn) (hends hd)
  | ends _ _ => exact ⟨nofun, nofun, ExecPc.noConfusion⟩

theorem timed_step {s s' : State} {e : Event} (hw : WellFormed s) (h : Timed s)
    (he : step s e = some s') : Timed s' := by
  cases step_effect he with
  | @execute err sent tr' pc' hpc hs =>
    have hpos := h.idle hpc
    refine timed_settled (s := { s with
      handed := if err = trnOk then s.handed ++ [s.tr.result.request] else s.handed
      lastResponse := none }) (fun hd => ?_) hs
    rcases begin_cases s.tr err sent with ⟨_, hsame, _⟩ | ⟨_, hst⟩ | ⟨_, hst⟩
    · omega
    · exact evaluate_ends (.inr (.inr (.inl hst)))
    · exact evaluate_ends (.inr (.inr (.inr hst)))
  | @receive f hspin =>
    have hr := received_effect s f.message
    generalize received s f.message = s1 at hr ⊢
    cases hr with
    | ignored _ => exact h
    | confirmation _ =>
      have hd := processConfirmation_duration s.tr f.message
      exact ⟨fun _ => hd, fun _ h0 => absurd h0 (Nat.ne_of_gt hd), hspin⟩
    | response _ =>
      rcases processResponse_duration s.tr f.message with ⟨hsame, hst⟩ | hd
      · exact ⟨fun hpc => hsame ▸ h.idle hpc, fun _ _ => evaluate_ends (.inl hst), hspin⟩
      · exact ⟨fun _ => hd, fun _ h0 => absurd h0 (Nat.ne_of_gt hd), hspin⟩
  | abort hspin =>
    exact ⟨h.idle, fun _ _ => evaluate_ends (.inr (.inl rfl)), hspin⟩
  | timeout _ => exact ⟨nofun, h.ends, ExecPc.noConfusion⟩
  | wake _ => exact ⟨nofun, h.ends, ExecPc.noConfusion⟩
  | resume hpc hs =>
    have hopen := hw.at_resume hpc
    exact timed_settled (h.ends hopen) hs

end Execution
end ClibDpa
