import ClibDpa.Dpa

/-!
# ClibDpa.Timing

`EstimateStdTimeout` and `EstimateLpTimeout` of `Dpa/DpaTransaction2.cpp`. The hop counts and the
time slot are `uint8_t`, the response data length is an `int8_t` whose value `-1` selects the
worst case (no response yet); the arithmetic is that of `int`, which `estimate_bounds` shows not to
overflow.

* `estimate_le_worst` — no length exceeds the worst case.
* `responseSlot_mono` — the tables are monotone, apart from the length `-1`.
-/

namespace ClibDpa

/-- `( hopsRequest + 1 ) * timeslotReq * 10` and the response part, for a given response slot. -/
def estimatedTimeout (hopsRequest timeslotReq hopsResponse : UInt8)
    (responseTimeSlotLengthMs : Int) : Int :=
  ((hopsRequest.toNat : Int) + 1) * timeslotReq.toNat * 10 +
    (((hopsResponse.toNat : Int) + 1) * responseTimeSlotLengthMs + safetyTimeoutMs)

def stdResponseSlot (params : TimingParams) (timeslotReq : UInt8) (responseDataLength : Int8) :
    Int :=
  if responseDataLength.toInt = -1 then
    if timeslotReq = 20 then 200 else 60
  else if params.osVersion = "4.03D" then
    if responseDataLength.toInt < 17 then 40
    else if responseDataLength.toInt < 41 then 50
    else 60
  else
    if responseDataLength.toInt < 16 then 40
    else if responseDataLength.toInt < 40 then 50
    else 60

def lpResponseSlot (params : TimingParams) (timeslotReq : UInt8) (responseDataLength : Int8) :
    Int :=
  if responseDataLength.toInt = -1 then
    if timeslotReq = 20 then 200 else 110
  else if params.osVersion = "4.03D" then
    if responseDataLength.toInt < 17 then 80
    else if responseDataLength.toInt < 41 then 90
    else 100
  else
    if responseDataLength.toInt < 11 then 80
    else if responseDataLength.toInt < 34 then 90
    else if responseDataLength.toInt < 57 then 100
    else 110

def estimateStdTimeout (params : TimingParams) (hopsRequest timeslotReq hopsResponse : UInt8)
    (responseDataLength : Int8) : Int :=
  estimatedTimeout hopsRequest timeslotReq hopsResponse
    (stdResponseSlot params timeslotReq responseDataLength)

def estimateLpTimeout (params : TimingParams) (hopsRequest timeslotReq hopsResponse : UInt8)
    (responseDataLength : Int8) : Int :=
  estimatedTimeout hopsRequest timeslotReq hopsResponse
    (lpResponseSlot params timeslotReq responseDataLength)

/-- The choice both callers make by `m_currentCommunicationMode`. -/
def estimate (mode : RfMode) (params : TimingParams)
    (hopsRequest timeslotReq hopsResponse : UInt8) (responseDataLength : Int8) : Int :=
  match mode with
  | .lp => estimateLpTimeout params hopsRequest timeslotReq hopsResponse responseDataLength
  | .std => estimateStdTimeout params hopsRequest timeslotReq hopsResponse responseDataLength

theorem stdResponseSlot_bounds (params : TimingParams) (t : UInt8) (n : Int8) :
    40 ≤ stdResponseSlot params t n ∧ stdResponseSlot params t n ≤ 200 := by
  unfold stdResponseSlot
  split_ifs <;> omega

theorem lpResponseSlot_bounds (params : TimingParams) (t : UInt8) (n : Int8) :
    40 ≤ lpResponseSlot params t n ∧ lpResponseSlot params t n ≤ 200 := by
  unfold lpResponseSlot
  split_ifs <;> omega

/-- The response slot of either mode. -/
def responseSlot (mode : RfMode) (params : TimingParams) (timeslotReq : UInt8)
    (responseDataLength : Int8) : Int :=
  match mode with
  | .lp => lpResponseSlot params timeslotReq responseDataLength
  | .std => stdResponseSlot params timeslotReq responseDataLength

theorem estimate_eq (mode : RfMode) (params : TimingParams) (h t r : UInt8) (n : Int8) :
    estimate mode params h t r n = estimatedTimeout h t r (responseSlot mode params t n) := by
  cases mode <;> rfl

theorem responseSlot_bounds (mode : RfMode) (params : TimingParams) (t : UInt8) (n : Int8) :
    40 ≤ responseSlot mode params t n ∧ responseSlot mode params t n ≤ 200 := by
  cases mode with
  | std => exact stdResponseSlot_bounds params t n
  | lp => exact lpResponseSlot_bounds params t n

theorem estimatedTimeout_bounds {h t r : UInt8} {slot : Int} (hs : 40 ≤ slot ∧ slot ≤ 200) :
    80 ≤ estimatedTimeout h t r slot ∧ estimatedTimeout h t r slot ≤ 704040 := by
  have h1 : h.toNat < 256 := h.toNat_lt
  have h2 : t.toNat < 256 := t.toNat_lt
  have h3 : r.toNat < 256 := r.toNat_lt
  have hreq : (0 : Int) ≤ ((h.toNat : Int) + 1) * t.toNat := by positivity
  have hreq' : ((h.toNat : Int) + 1) * t.toNat ≤ 256 * 255 := by
    apply mul_le_mul <;> omega
  have hresp : (40 : Int) ≤ ((r.toNat : Int) + 1) * slot := by nlinarith
  have hresp' : ((r.toNat : Int) + 1) * slot ≤ 256 * 200 := by
    apply mul_le_mul <;> omega
  unfold estimatedTimeout safetyTimeoutMs
  omega

/-- The estimate fits `int32_t` and is never zero. -/
theorem estimate_bounds (mode : RfMode) (params : TimingParams) (h t r : UInt8) (n : Int8) :
    80 ≤ estimate mode params h t r n ∧ estimate mode params h t r n ≤ 704040 := by
  rw [estimate_eq]
  exact estimatedTimeout_bounds (responseSlot_bounds mode params t n)

/-! ## Longer responses -/

/-- The response slot before the length of the response is known. -/
def worstSlot (mode : RfMode) (timeslotReq : UInt8) : Int :=
  if timeslotReq = 20 then 200
  else
    match mode with
    | .std => 60
    | .lp => 110

section Slots

variable {mode : RfMode} {params : TimingParams} {h t r : UInt8} {n m : Int8}

theorem responseSlot_worst : responseSlot mode params t (-1) = worstSlot mode t := by
  have hminus : (-1 : Int8).toInt = -1 := by decide
  cases mode with
  | std => simp only [responseSlot, stdResponseSlot, worstSlot, hminus, if_true]
  | lp => simp only [responseSlot, lpResponseSlot, worstSlot, hminus, if_true]

theorem responseSlot_le_worst : responseSlot mode params t n ≤ worstSlot mode t := by
  cases mode with
  | std =>
    simp only [responseSlot, stdResponseSlot, worstSlot]
    split_ifs <;> omega
  | lp =>
    simp only [responseSlot, lpResponseSlot, worstSlot]
    split_ifs <;> omega

/-- The tables for known lengths are monotone. -/
theorem responseSlot_mono (hn : n.toInt ≠ -1) (hm : m.toInt ≠ -1) (hle : n.toInt ≤ m.toInt) :
    responseSlot mode params t n ≤ responseSlot mode params t m := by
  cases mode with
  | std =>
    simp only [responseSlot, stdResponseSlot, if_neg hn, if_neg hm]
    split_ifs <;> omega
  | lp =>
    simp only [responseSlot, lpResponseSlot, if_neg hn, if_neg hm]
    split_ifs <;> omega

theorem estimate_le (hle : responseSlot mode params t n ≤ responseSlot mode params t m) :
    estimate mode params h t r n ≤ estimate mode params h t r m := by
  have hmul : ((r.toNat : Int) + 1) * responseSlot mode params t n ≤
      (r.toNat + 1) * responseSlot mode params t m :=
    mul_le_mul_of_nonneg_left hle (by positivity)
  rw [estimate_eq, estimate_eq]
  unfold estimatedTimeout
  omega

theorem estimate_le_worst : estimate mode params h t r n ≤ estimate mode params h t r (-1) :=
  estimate_le (by rw [responseSlot_worst]; exact responseSlot_le_worst)

end Slots

end ClibDpa
