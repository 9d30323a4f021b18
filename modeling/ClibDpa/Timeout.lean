import ClibDpa.Transaction

/-!
# ClibDpa.Timeout

Which requests the constructor of `DpaTransaction2` lets wait for ever, and how long it lets the
others wait.

The comments of the constructor name five commands of the coordinator. The test for a negative
timeout (`infinitForDefault`) lists them; the test for `INFINITE_TIMEOUT` (`forcedToDefault`) was
written as its negation, but denies the permission only to the other commands of the two
peripherals: a request to any third peripheral of the coordinator passes it.

The corrections of the user's timeout together take the maximum of it and the default
(`correctTimeout_eq`); bonding with the default timeout gets a time of its own instead.

* `infinit_documented_iff` — where the permission agrees with the comments.
* `timeout_kept`           — the times of a new transaction.
-/

namespace ClibDpa
namespace DpaTransaction2

/-- Discovery, SmartConnect, Authorize and FRC, as the comments of the constructor list them. -/
def InfinitDocumented (message : DpaMessage) : Prop :=
  message.addressByte = coordinatorAddress ∧
    ((message.peripheralType = pnumCoordinator ∧
        (message.peripheralCommand = cmdCoordinatorDiscovery ∨
          message.peripheralCommand = cmdCoordinatorSmartConnect ∨
          message.peripheralCommand = cmdCoordinatorAuthorizeBond)) ∨
      (message.peripheralType = pnumFrc ∧
        (message.peripheralCommand = cmdFrcSend ∨
          message.peripheralCommand = cmdFrcSendSelective)))

/-- The coordinator is addressed, at a peripheral that neither list mentions. -/
def OtherPeripheral (message : DpaMessage) : Prop :=
  message.addressByte = coordinatorAddress ∧ message.peripheralType ≠ pnumCoordinator ∧
    message.peripheralType ≠ pnumFrc

theorem infinitForDefault_iff (message : DpaMessage) :
    infinitForDefault message = true ↔ InfinitDocumented message := by
  simp [infinitForDefault, InfinitDocumented, or_assoc]

theorem forcedToDefault_iff (message : DpaMessage) :
    forcedToDefault message = false ↔ InfinitDocumented message ∨ OtherPeripheral message := by
  have hdistinct : pnumCoordinator ≠ pnumFrc := by decide
  simp only [forcedToDefault, InfinitDocumented, OtherPeripheral, Bool.or_eq_false_iff,
    Bool.and_eq_false_iff, decide_eq_false_iff_not, not_not]
  by_cases hc : message.peripheralType = pnumCoordinator
  · have hf : message.peripheralType ≠ pnumFrc := hc ▸ hdistinct
    simp [hc, hdistinct, or_assoc]
  · by_cases hf : message.peripheralType = pnumFrc
    · simp [hf, hdistinct.symm]
    · simp [hc, hf]

section Create

variable (request : DpaMessage) (mode : RfMode) (params : TimingParams)
  (defaultTimeout userTimeout : Int32) (err : ErrorCode)

theorem create_infinitTimeout_iff :
    (create request mode params defaultTimeout userTimeout err).infinitTimeout = true ↔
      (userTimeout.toInt < 0 ∧ InfinitDocumented request.copy) ∨
      (userTimeout.toInt = 0 ∧
        (InfinitDocumented request.copy ∨ OtherPeripheral request.copy)) := by
  change (correctTimeout request.copy defaultTimeout.toInt userTimeout.toInt).2 = true ↔ _
  unfold correctTimeout
  split
  · rename_i hneg
    rw [infinitForDefault_iff]
    constructor
    · exact fun h => .inl ⟨hneg, h⟩
    · rintro (⟨_, h⟩ | ⟨hz, _⟩)
      · exact h
      · omega
  · rename_i hneg
    split
    · rename_i hz
      have hz0 : userTimeout.toInt = 0 := hz
      rw [← forcedToDefault_iff]
      cases hforced : forcedToDefault request.copy <;> simp [hz0]
    · rename_i hz
      have hz0 : userTimeout.toInt ≠ 0 := hz
      split <;> simp [hneg, hz0]

/-- Infinite waiting is the coordinator's. -/
theorem create_infinit
    (h : (create request mode params defaultTimeout userTimeout err).infinitTimeout = true) :
    request.copy.addressByte = coordinatorAddress := by
  rcases (create_infinitTimeout_iff request mode params defaultTimeout userTimeout err).mp h with
    ⟨_, hd⟩ | ⟨_, hd | ho⟩
  · exact hd.1
  · exact hd.1
  · exact ho.1

/-- The constructor grants infinite waiting to exactly the documented commands, for exactly the
inputs that are not a zero timeout of a request to another peripheral of the coordinator; and the
two special timeouts agree about a request exactly when it is none of those. -/
theorem infinit_documented_iff :
    (((create request mode params defaultTimeout userTimeout err).infinitTimeout = true ↔
        userTimeout.toInt ≤ 0 ∧ InfinitDocumented request.copy) ↔
      ¬ (userTimeout.toInt = 0 ∧ OtherPeripheral request.copy)) ∧
    ((create request mode params defaultTimeout (-1) err).infinitTimeout =
        (create request mode params defaultTimeout 0 err).infinitTimeout ↔
      ¬ OtherPeripheral request.copy) := by
  have hexcl : OtherPeripheral request.copy → ¬ InfinitDocumented request.copy := by
    rintro ⟨_, hc, hf⟩ ⟨_, ⟨hc', _⟩ | ⟨hf', _⟩⟩
    · exact hc hc'
    · exact hf hf'
  refine ⟨?_, ?_⟩
  · rw [create_infinitTimeout_iff]
    rcases lt_trichotomy userTimeout.toInt 0 with hu | hu | hu
    · simp [hu, ne_of_lt hu, le_of_lt hu]
    · by_cases ho : OtherPeripheral request.copy
      · simp [hu, ho, hexcl ho]
      · simp [hu, ho]
    · simp [not_lt.mpr (le_of_lt hu), ne_of_gt hu, not_le.mpr hu]
  · have h1 := create_infinitTimeout_iff request mode params defaultTimeout (-1) err
    have h0 := create_infinitTimeout_iff request mode params defaultTimeout 0 err
    have hneg : (-1 : Int32).toInt = -1 := by decide
    have hzero : (0 : Int32).toInt = 0 := by decide
    rw [Bool.eq_iff_iff, h1, h0, hneg, hzero]
    by_cases ho : OtherPeripheral request.copy
    · simp [ho, hexcl ho]
    · simp [ho]

/-- The OS read command to the coordinator. -/
def osRead : Frame := ⟨[0x00, 0x00, 0x02, 0x00, 0xff, 0xff], by decide, by decide⟩

/-- It may wait for ever when its timeout is zero, and not when it is the default. -/
theorem infinit_undocumented :
    (create osRead.message .std ⟨"4.02D"⟩ 500 0 trnOk).infinitTimeout = true ∧
    (create osRead.message .std ⟨"4.02D"⟩ 500 (-1) trnOk).infinitTimeout = false ∧
    ¬ InfinitDocumented osRead.message.copy := by
  refine ⟨by decide, by decide, ?_⟩
  rintro ⟨_, ⟨h, _⟩ | ⟨h, _⟩⟩ <;> exact absurd h (by decide)

/-! ## The times -/

/-- The request of the bonding special timeout. -/
def BondsByDefault (message : DpaMessage) (userTimeout : Int32) : Prop :=
  message.addressByte = coordinatorAddress ∧ message.peripheralType = pnumCoordinator ∧
    message.peripheralCommand = cmdCoordinatorBondNode ∧ userTimeout.toInt < 0

instance (message : DpaMessage) (userTimeout : Int32) :
    Decidable (BondsByDefault message userTimeout) :=
  inferInstanceAs (Decidable (_ ∧ _ ∧ _ ∧ _))

theorem correctTimeout_eq {message : DpaMessage} {d u : Int} (h : 0 < d) :
    (correctTimeout message d u).1 = max d u := by
  unfold correctTimeout infiniteTimeout
  repeat' split
  all_goals simp only; omega

theorem specialTimeout_eq {message : DpaMessage} {d : Int} {userTimeout : Int32} :
    specialTimeout message d userTimeout.toInt (max d userTimeout.toInt) =
      if BondsByDefault message userTimeout then (bondTimeoutMs, toUint32 bondTimeoutMs)
      else (max d userTimeout.toInt,
        toUint32 (if message.addressByte = coordinatorAddress then max d userTimeout.toInt
          else d)) := by
  unfold specialTimeout BondsByDefault
  by_cases ha : message.addressByte = coordinatorAddress
  · simp only [ha, true_and, if_true]
    split
    · rfl
    · split
      · rfl
      · rw [max_eq_left (by omega)]
  · simp [ha]

variable {defaultTimeout} in
/-- The times of a new transaction, when the default is a real time. -/
theorem create_times (h : 0 < defaultTimeout.toInt) :
    ((create request mode params defaultTimeout userTimeout err).userTimeoutMs : Int) =
      (if BondsByDefault request.copy userTimeout then bondTimeoutMs
        else max defaultTimeout.toInt userTimeout.toInt) ∧
    ((create request mode params defaultTimeout userTimeout err).expectedDurationMs : Int) =
      (if BondsByDefault request.copy userTimeout then bondTimeoutMs
        else if request.copy.addressByte = coordinatorAddress then
          max defaultTimeout.toInt userTimeout.toInt
        else defaultTimeout.toInt) := by
  have hd := defaultTimeout.toInt_lt
  have hu := userTimeout.toInt_lt
  have hstored : ∀ x : Int, 0 < x → x < 2 ^ 31 → (toUint32 x : Int) = x := fun x hx hx' => by
    rw [toUint32_of_nonneg (by omega) (by omega)]
    omega
  have hmax := hstored (max defaultTimeout.toInt userTimeout.toInt) (by omega) (by omega)
  have hspecial := @specialTimeout_eq request.copy defaultTimeout.toInt userTimeout
  rw [← @correctTimeout_eq request.copy _ userTimeout.toInt h] at hspecial
  change (toUint32 (specialTimeout request.copy defaultTimeout.toInt userTimeout.toInt
      (correctTimeout request.copy defaultTimeout.toInt userTimeout.toInt).1).1 : Int) = _ ∧
    ((specialTimeout request.copy defaultTimeout.toInt userTimeout.toInt
      (correctTimeout request.copy defaultTimeout.toInt userTimeout.toInt).1).2 : Int) = _
  rw [hspecial, correctTimeout_eq h]
  by_cases hb : BondsByDefault request.copy userTimeout
  · simp only [hb, if_true]
    exact ⟨rfl, rfl⟩
  · by_cases ha : request.copy.addressByte = coordinatorAddress
    · simp only [hb, ha, if_false, if_true]
      exact ⟨hmax, hmax⟩
    · simp only [hb, ha, if_false]
      exact ⟨hmax, hstored _ h hd⟩

variable {defaultTimeout} in
/-- The correction never shortens a wait, except that bonding with the default timeout gets
`BOND_TIMEOUT_MS`, whatever the default is. -/
theorem timeout_kept (h : minimalTimeout ≤ defaultTimeout) :
    userTimeout.toInt ≤
      (create request mode params defaultTimeout userTimeout err).userTimeoutMs ∧
    (request.copy.addressByte = coordinatorAddress →
      (create request mode params defaultTimeout userTimeout err).expectedDurationMs =
        (create request mode params defaultTimeout userTimeout err).userTimeoutMs) ∧
    (¬ BondsByDefault request.copy userTimeout →
      defaultTimeout.toInt ≤
        (create request mode params defaultTimeout userTimeout err).userTimeoutMs ∧
      defaultTimeout.toInt ≤
        (create request mode params defaultTimeout userTimeout err).expectedDurationMs) ∧
    (BondsByDefault request.copy userTimeout →
      (create request mode params defaultTimeout userTimeout err).userTimeoutMs =
        bondTimeoutMs ∧
      (create request mode params defaultTimeout userTimeout err).expectedDurationMs =
        bondTimeoutMs) := by
  have hpos : 0 < defaultTimeout.toInt :=
    Int.lt_of_lt_of_le (by decide) (Int32.le_iff_toInt_le.mp h)
  obtain ⟨huser, hexp⟩ := create_times request mode params userTimeout err hpos
  refine ⟨?_, ?_, ?_, ?_⟩
  · rw [huser]
    split
    · have hneg : userTimeout.toInt < 0 := by rename_i hb; exact hb.2.2.2
      have hbond : 0 < bondTimeoutMs := by decide
      omega
    · exact le_max_right _ _
  · intro ha
    rw [if_pos ha, ← huser] at hexp
    exact_mod_cast hexp
  · intro hb
    rw [if_neg hb] at huser hexp
    rw [huser, hexp]
    refine ⟨le_max_left _ _, ?_⟩
    split
    · exact le_max_left _ _
    · exact le_refl _
  · intro hb
    rw [if_pos hb] at huser hexp
    exact ⟨huser, hexp⟩

/-- A request to bond any node. -/
def bondNode : Frame :=
  ⟨[0x00, 0x00, 0x00, 0x04, 0xff, 0xff, 0x00, 0x00], by decide, by decide⟩

theorem timeout_kept_bondNode :
    1500 ≤ (create bondNode.message .std ⟨"4.02D"⟩ 1000 1500 trnOk).userTimeoutMs ∧
    (create bondNode.message .std ⟨"4.02D"⟩ 1000 1500 trnOk).expectedDurationMs =
      (create bondNode.message .std ⟨"4.02D"⟩ 1000 1500 trnOk).userTimeoutMs := by
  obtain ⟨huser, hcoord, _⟩ :=
    @timeout_kept bondNode.message .std ⟨"4.02D"⟩ 1000 1500 trnOk (by decide)
  have hval : (1500 : Int32).toInt = 1500 := by decide
  rw [hval] at huser
  exact ⟨by exact_mod_cast huser, hcoord (by decide)⟩

/-- Bonding with a default timeout of twelve seconds waits eleven. -/
theorem bonding_shortens_default :
    minimalTimeout ≤ (12000 : Int32) ∧
    (create bondNode.message .std ⟨"4.02D"⟩ 12000 (-1) trnOk).userTimeoutMs < 12000 ∧
    (create bondNode.message .std ⟨"4.02D"⟩ 12000 (-1) trnOk).expectedDurationMs < 12000 :=
  ⟨by decide, by decide, by decide⟩

end Create

end DpaTransaction2
end ClibDpa
