import ClibDpa.Store

/-!
# ClibDpa.OwnBytes

Whether a message means its own bytes only. `DataToBuffer` and `SetLength` leave in the buffer what
was there after the new length, and a copy has zeros there; `MessageDirection()` and
`ResponseCode()` read the bytes 3 and 6 at lengths that do not cover them.

* `Built`         — the messages that constructors, calls, copies and assignments make.
* `Covered`       — the byte strings whose length covers what the two functions read.
* `own_bytes_iff` — exactly for these every message with the same bytes is classified alike, and
  every copy like its original.
-/

namespace ClibDpa

open DpaMessage

/-- The message of an object that some run of a store holds. -/
def Built (m : DpaMessage) : Prop :=
  ∃ es s x o, Machine.exec Store.step Store.init es = some s ∧ s.object x = some o ∧
    o.toDpaMessage = m

/-- `GetLength()` and the first `GetLength()` bytes. -/
structure Holds (m : DpaMessage) (b : List UInt8) : Prop where
  length : m.getLength = b.length
  bytes : m.bytes = b

/-- The two messages cannot be told apart by their direction and their response code. -/
structure Alike (m m' : DpaMessage) : Prop where
  messageDirection : m.messageDirection = m'.messageDirection
  responseCode : m.responseCode = m'.responseCode

/-- `MessageDirection()` reads PCMD from a length of 3 on; a response of 4 to 6 bytes has no
ResponseCode. -/
def Covered (b : List UInt8) : Prop :=
  b.length ≠ 3 ∧ ¬ (4 ≤ b.length ∧ b.length ≤ 6 ∧ b.getD 3 0 &&& 0x80 ≠ 0)

section Own

variable {m m' : DpaMessage} {b : List UInt8}

theorem Holds.buffer (h : Holds m b) {i : Fin 64} (hi : i.val < b.length) :
    m.buffer i = b.getD i.val 0 := by
  have hlen : i.val < m.length.toNat := by
    have hl : m.length = b.length := h.length
    omega
  have hat : m.bytes[i.val]? = some (m.buffer i) := by
    rw [DpaMessage.bytes, List.getElem?_take, if_pos hlen, List.getElem?_ofFn, dif_pos i.isLt]
  rw [h.bytes] at hat
  simp [hat]

theorem Holds.peripheralCommand (h : Holds m b) (h4 : 4 ≤ b.length) :
    m.peripheralCommand = b.getD 3 0 :=
  h.buffer (i := 3) h4

theorem Holds.responseCodeField (h : Holds m b) (h7 : 7 ≤ b.length) :
    m.responseCodeField = b.getD 6 0 :=
  h.buffer (i := 6) h7

theorem responseCode_of_request (h : m.messageDirection = .request) :
    m.responseCode =
      .error (.logicError "Only response packet has response error defined.") := by
  simp [DpaMessage.responseCode, h]

theorem alike_of_request (h : m.messageDirection = .request) (h' : m'.messageDirection = .request) :
    Alike m m' where
  messageDirection := h.trans h'.symm
  responseCode := by rw [responseCode_of_request h, responseCode_of_request h']

/-- Too short for the test of PCMD, or for that of the confirmation. -/
theorem Holds.request (h : Holds m b)
    (hb : b.length < 3 ∨ (4 ≤ b.length ∧ b.length ≤ 6 ∧ b.getD 3 0 &&& 0x80 = 0)) :
    m.messageDirection = .request := by
  have hl : m.length = b.length := h.length
  unfold DpaMessage.messageDirection
  rcases hb with h3 | ⟨h4, h6, hbit⟩
  · rw [if_pos (by rw [hl, kCommandIndex]; omega)]
  · rw [if_neg (by rw [hl, kCommandIndex]; omega), h.peripheralCommand h4,
      if_neg (not_not.mpr hbit), if_neg]
    rintro ⟨hlt, _⟩
    rw [hl, kStatusCodeIndex] at hlt
    omega

/-- Both read the same bytes when all of them are their own. -/
theorem alike_of_long (h : Holds m b) (h' : Holds m' b) (h7 : 7 ≤ b.length) : Alike m m' := by
  have hlen : m.length = m'.length := h.length.trans h'.length.symm
  have hcmd : m.peripheralCommand = m'.peripheralCommand := by
    rw [h.peripheralCommand (by omega), h'.peripheralCommand (by omega)]
  have hcode : m.responseCodeField = m'.responseCodeField := by
    rw [h.responseCodeField h7, h'.responseCodeField h7]
  have hdir : m.messageDirection = m'.messageDirection := by
    rw [DpaMessage.messageDirection, DpaMessage.messageDirection, isConfirmationMessage,
      isConfirmationMessage, hlen, hcmd, hcode]
  exact ⟨hdir, by simp only [DpaMessage.responseCode, hdir, hcode]⟩

theorem alike_of_covered (hc : Covered b) (h : Holds m b) (h' : Holds m' b) : Alike m m' := by
  by_cases h7 : 7 ≤ b.length
  · exact alike_of_long h h' h7
  · have hb : b.length < 3 ∨ (4 ≤ b.length ∧ b.length ≤ 6 ∧ b.getD 3 0 &&& 0x80 = 0) := by
      by_cases h3 : b.length < 3
      · exact .inl h3
      · have hne := hc.1
        refine .inr ⟨by omega, by omega, ?_⟩
        by_contra hbit
        exact hc.2 ⟨by omega, by omega, hbit⟩
    exact alike_of_request (h.request hb) (h'.request hb)

end Own

/-! ## What a longer message leaves behind -/

section Reuse

variable (b : List UInt8)

/-- Seven bytes: `b`, and `0x80` after it. -/
def longer : List UInt8 := b ++ List.replicate (7 - b.length) 0x80

/-- They are read into a message, then `b` alone; then the message is copied. -/
def reuse : List Store.Event :=
  [.construct 0 .default 0,
    .call 0 (.dataToBuffer (some (longer b)) 7),
    .call 0 (.dataToBuffer (some b) (UInt8.ofNat b.length)),
    .copyOf 1 0]

def reused : DpaMessage :=
  ⟨copyBytes (fun i => b.getD i 0) b.length
    (copyBytes (fun i => (longer b).getD i 0) 7 zeroed), b.length⟩

variable {b}

theorem reuse_run (h3 : 3 ≤ b.length) (h6 : b.length ≤ 6) :
    ∃ s, Machine.exec Store.step Store.init (reuse b) = some s ∧
      s.object 0 = some ⟨reused b, true⟩ ∧ s.object 1 = some ⟨(reused b).copy, true⟩ := by
  have hcast : (UInt8.ofNat b.length).toNat = b.length := by
    rw [UInt8.toNat_ofNat']
    omega
  have hne : UInt8.ofNat b.length ≠ 0 := by
    intro h
    rw [h] at hcast
    simp at hcast
    omega
  let s1 := Store.put Store.init 0 ⟨⟨zeroed, 0⟩, true⟩
  let s2 := Store.put s1 0 ⟨⟨copyBytes (fun i => (longer b).getD i 0) 7 zeroed, 7⟩, true⟩
  let s3 := Store.put s2 0 ⟨reused b, true⟩
  have h1 : Store.step Store.init (.construct 0 .default 0) = some s1 := rfl
  have h2 : Store.step s1 (.call 0 (.dataToBuffer (some (longer b)) 7)) = some s2 :=
    Store.step_dataToBuffer (Store.put_object _ _ _) (by decide) (by decide)
  have hs3 : Store.step s2 (.call 0 (.dataToBuffer (some b) (UInt8.ofNat b.length))) = some s3 := by
    rw [Store.step_dataToBuffer (Store.put_object _ _ _) hne (by omega), hcast]
    rfl
  have h4 : Store.step s3 (.copyOf 1 0) = some (Store.putCopy s3 1 ⟨reused b, true⟩) :=
    Store.step_copyOf rfl (Store.put_object _ _ _)
  refine ⟨Store.putCopy s3 1 ⟨reused b, true⟩, ?_, rfl, rfl⟩
  rw [reuse, Machine.exec_cons_some h1, Machine.exec_cons_some h2, Machine.exec_cons_some hs3,
    Machine.exec_single, h4]

theorem built_reused (h3 : 3 ≤ b.length) (h6 : b.length ≤ 6) :
    Built (reused b) ∧ Built (reused b).copy := by
  obtain ⟨s, hrun, h0, h1⟩ := reuse_run h3 h6
  exact ⟨⟨reuse b, s, 0, _, hrun, h0, rfl⟩, ⟨reuse b, s, 1, _, hrun, h1, rfl⟩⟩

theorem holds_reused (h6 : b.length ≤ 6) : Holds (reused b) b where
  length := rfl
  bytes := by
    apply List.ext_getElem?
    intro i
    rw [DpaMessage.bytes, List.getElem?_take, List.getElem?_ofFn]
    by_cases hi : i < b.length
    · have h64 : i < 64 := by omega
      simp [reused, copyBytes, hi, h64]
    · simp [reused, hi]

theorem Holds.copy {m : DpaMessage} (h : Holds m b) : Holds m.copy b :=
  ⟨h.length, (copy_bytes m).trans h.bytes⟩

/-- Behind the bytes of `b`: what the longer message had there, and zeros in the copy. -/
theorem reused_buffer {i : Fin 64} (hi : b.length ≤ i.val) (h7 : i.val < 7) :
    (reused b).buffer i = 0x80 ∧ (reused b).copy.buffer i = 0 := by
  have hlt : ¬ i.val < b.length := Nat.not_lt.mpr hi
  have hat : (longer b)[i.val]? = some 0x80 := by
    rw [longer, List.getElem?_append_right hi, List.getElem?_replicate, if_pos (by omega)]
  constructor
  · simp [reused, copyBytes, hlt, h7, hat]
  · have hout : ¬ (i.val : Int) < (reused b).length := by
      simp only [reused]
      omega
    simp only [DpaMessage.copy, if_neg hout]

/-- Three bytes: PCMD is what the longer message had there. -/
theorem not_alike_three (hb : b.length = 3) : ¬ Alike (reused b) (reused b).copy := by
  intro ha
  have hl : (reused b).length = b.length := rfl
  have hlow : ¬ (reused b).length < kCommandIndex := by
    rw [hl, hb]
    decide
  have hlow' : ¬ (reused b).copy.length < kCommandIndex := hlow
  have hcmd := reused_buffer (i := 3) (b := b) (by rw [hb]; decide) (by decide)
  have hres : (reused b).messageDirection = .response := by
    rw [DpaMessage.messageDirection, if_neg hlow, DpaMessage.peripheralCommand, hcmd.1,
      if_pos (by decide)]
  have hreq : (reused b).copy.messageDirection = .request := by
    rw [DpaMessage.messageDirection, if_neg hlow', DpaMessage.peripheralCommand, hcmd.2,
      if_neg (by decide), if_neg]
    rintro ⟨hlt, _⟩
    rw [DpaMessage.copy_length, hl, hb] at hlt
    exact absurd hlt (by decide)
  have hdir := ha.messageDirection
  rw [hres, hreq] at hdir
  cases hdir

theorem Holds.response {m : DpaMessage} (h : Holds m b) (h4 : 4 ≤ b.length)
    (hbit : b.getD 3 0 &&& 0x80 ≠ 0) : m.messageDirection = .response := by
  have hlen : m.length = b.length := h.length
  rw [DpaMessage.messageDirection, if_neg (by rw [hlen, kCommandIndex]; omega),
    h.peripheralCommand h4, if_pos hbit]

/-- A response without a ResponseCode is given the one of the longer message. -/
theorem not_alike_response (h4 : 4 ≤ b.length) (h6 : b.length ≤ 6)
    (hbit : b.getD 3 0 &&& 0x80 ≠ 0) : ¬ Alike (reused b) (reused b).copy := by
  intro ha
  have hold := holds_reused h6
  have hcode := reused_buffer (i := 6) (b := b) h6 (by decide)
  have hsame := ha.responseCode
  rw [DpaMessage.responseCode, DpaMessage.responseCode, hold.response h4 hbit,
    hold.copy.response h4 hbit] at hsame
  simp only [ne_eq, not_true_eq_false, if_false, Except.ok.injEq] at hsame
  rw [DpaMessage.responseCodeField, DpaMessage.responseCodeField, hcode.1, hcode.2] at hsame
  exact absurd hsame (by decide)

theorem not_alike_reused (h3 : 3 ≤ b.length) (h6 : b.length ≤ 6) (hc : ¬ Covered b) :
    ¬ Alike (reused b) (reused b).copy := by
  by_cases hb : b.length = 3
  · exact not_alike_three hb
  · have hbit : b.getD 3 0 &&& 0x80 ≠ 0 := by
      by_contra hn
      exact hc ⟨hb, fun h => h.2.2 hn⟩
    exact not_alike_response (by omega) h6 hbit

end Reuse

theorem length_of_not_covered {b : List UInt8} (h : ¬ Covered b) :
    3 ≤ b.length ∧ b.length ≤ 6 := by
  unfold Covered at h
  by_cases h3 : b.length = 3
  · omega
  · have hb : 4 ≤ b.length ∧ b.length ≤ 6 ∧ b.getD 3 0 &&& 0x80 ≠ 0 := by
      by_contra hn
      exact h ⟨h3, hn⟩
    omega

/-- For exactly the byte strings that cover what is read, all messages that hold them, however they
were built, have the same direction and the same response code; and for exactly these every copy is
classified like its original. -/
theorem own_bytes_iff (b : List UInt8) :
    ((∀ m m', Built m → Built m' → Holds m b → Holds m' b → Alike m m') ↔ Covered b) ∧
    ((∀ m, Built m → Holds m b → Alike m m.copy) ↔ Covered b) := by
  constructor
  · constructor
    · intro h
      by_contra hc
      obtain ⟨h3, h6⟩ := length_of_not_covered hc
      obtain ⟨hb, hb'⟩ := built_reused h3 h6
      have hold := holds_reused h6
      exact not_alike_reused h3 h6 hc (h _ _ hb hb' hold hold.copy)
    · exact fun hc m m' _ _ h h' => alike_of_covered hc h h'
  · constructor
    · intro h
      by_contra hc
      obtain ⟨h3, h6⟩ := length_of_not_covered hc
      exact not_alike_reused h3 h6 hc (h _ (built_reused h3 h6).1 (holds_reused h6))
    · exact fun hc m _ h => alike_of_covered hc h h.copy

/-- A buffer that held an LED pulse response keeps its PCMD behind three new bytes; the copy of
that message is no response any more. -/
theorem reused_buffer_misread :
    ∃ s o o', Machine.exec Store.step Store.init
        [.construct 0 (.ofString ledPulseResponse.bytes) 0,
          .call 0 (.dataToBuffer (some [0x01, 0x00, 0x06]) 3), .copyOf 1 0] = some s ∧
      s.object 0 = some o ∧ s.object 1 = some o' ∧ o.getLength = o'.getLength ∧
      o.toDpaMessage.bytes = o'.toDpaMessage.bytes ∧
      o.messageDirection = .response ∧ o'.messageDirection = .request :=
  ⟨_, _, _, rfl, rfl, rfl, rfl, rfl, rfl, rfl⟩

end ClibDpa
