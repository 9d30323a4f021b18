import ClibDpa.Dpa

/-!
# ClibDpa.Message

`DpaMessage` of `include/DpaMessage.h`: the 64-byte union behind the message as a buffer of
bytes, and the length. The packet layouts are read through the byte offsets of the union:
NADR 0-1, PNUM 2, PCMD 3, HWPID 4-5, ResponseCode 6, DpaValue 7, and Hops, TimeSlotLength,
HopsResponse of a confirmation at 8-10.

A constructor that does not initialise `m_length` takes the value found there as `uninit`.

`Frame` is what the channel delivers and the handler accepts: between 1 and 64 bytes. Its message
has zeros after them, since every `DpaMessage` starts from a zero-initialised buffer.
-/

namespace ClibDpa

def maxDpaBuffer : Nat := 64

abbrev Buffer := Fin 64 → UInt8

structure DpaMessage where
  buffer : Buffer
  length : Int

inductive MessageType where
  | request
  | confirmation
  | notification
  | response
  deriving DecidableEq, Repr

namespace DpaMessage

def kCommandIndex : Int := 0x03
def kStatusCodeIndex : Int := 0x06

def zeroed : Buffer := fun _ => 0

/-- `std::copy` of `n` bytes into a buffer; the cells after them keep what they held. -/
def copyBytes (src : Nat → UInt8) (n : Nat) (dst : Buffer) : Buffer :=
  fun i => if i.val < n then src i.val else dst i

/-- Default constructor. -/
def empty : DpaMessage := ⟨zeroed, 0⟩

/-- `data` is `none` for a null pointer. -/
def dataToBuffer (m : DpaMessage) (data : Option (List UInt8)) (length : UInt8) :
    Except Exc DpaMessage :=
  if length = 0 then .ok m
  else
    match data with
    | none => .error (.invalidArgument "Data argument can not be null.")
    | some bytes =>
      if maxDpaBuffer < length.toNat then
        .error (.lengthError "Not enough space for this data.")
      else
        .ok ⟨copyBytes (fun i => bytes.getD i 0) length.toNat m.buffer, length.toNat⟩

def fillFromResponse (m : DpaMessage) (data : Option (List UInt8)) (length : UInt8) :
    Except Exc DpaMessage :=
  if length = 0 then .error (.invalidArgument "Invalid length.")
  else m.dataToBuffer data length

/-- `static_cast<uint8_t>(message.length())`. -/
def castLength (message : List UInt8) : UInt8 := UInt8.ofNat message.length

/-- Constructor from data. -/
def ofData (uninit : Int) (data : Option (List UInt8)) (length : UInt8) :
    Except Exc DpaMessage :=
  dataToBuffer ⟨zeroed, uninit⟩ data length

/-- Constructor from string. -/
def ofString (uninit : Int) (message : List UInt8) : Except Exc DpaMessage :=
  dataToBuffer ⟨zeroed, uninit⟩ (some message) (castLength message)

/-- Copy constructor, and `operator=` of another message: a fresh buffer with the bytes that the
length covers. -/
def copy (other : DpaMessage) : DpaMessage :=
  ⟨fun i => if (i.val : Int) < other.length then other.buffer i else 0, other.length⟩

def getLength (m : DpaMessage) : Int := m.length

def nodeAddress (m : DpaMessage) : UInt16 :=
  (m.buffer 0).toUInt16 ||| (m.buffer 1).toUInt16 <<< 8

def peripheralType (m : DpaMessage) : UInt8 := m.buffer 2

def peripheralCommand (m : DpaMessage) : UInt8 := m.buffer 3

/-- `DpaPacket().DpaResponsePacket_t.ResponseCode`. -/
def responseCodeField (m : DpaMessage) : UInt8 := m.buffer 6

def isConfirmationMessage (m : DpaMessage) : Bool := m.responseCodeField == statusConfirmation

def messageDirection (m : DpaMessage) : MessageType :=
  if m.length < kCommandIndex then .request
  else if m.peripheralCommand &&& 0x80 ≠ 0 then .response
  else if kStatusCodeIndex < m.length ∧ m.isConfirmationMessage = true then .confirmation
  else .request

def responseCode (m : DpaMessage) : Except Exc UInt8 :=
  if m.messageDirection ≠ .response then
    .error (.logicError "Only response packet has response error defined.")
  else .ok m.responseCodeField

/-- `DpaPacket().DpaResponsePacket_t.DpaMessage.IFaceConfirmation`. -/
def hops (m : DpaMessage) : UInt8 := m.buffer 8
def timeSlotLength (m : DpaMessage) : UInt8 := m.buffer 9
def hopsResponse (m : DpaMessage) : UInt8 := m.buffer 10

/-- The low byte of NADR, as the code isolates it. -/
def addressByte (m : DpaMessage) : UInt16 := m.nodeAddress &&& broadcastAddress

/-- The bytes that the length covers: what `DpaPacketData()` and `GetLength()` hand out. -/
def bytes (m : DpaMessage) : List UInt8 := (List.ofFn m.buffer).take m.length.toNat

theorem bytes_length {m : DpaMessage} (h : 0 ≤ m.length) (h' : m.length ≤ 64) :
    (m.bytes.length : Int) = m.getLength := by
  simp only [bytes, List.length_take, List.length_ofFn, getLength]
  omega

theorem copy_bytes (m : DpaMessage) : m.copy.bytes = m.bytes := by
  apply List.ext_getElem?
  intro i
  simp only [bytes, copy, List.getElem?_take, List.getElem?_ofFn]
  by_cases hi : i < m.length.toNat
  · by_cases h64 : i < 64
    · have hlt : (i : Int) < m.length := by omega
      simp [hi, h64, hlt]
    · simp [h64]
  · simp [hi]

@[simp] theorem copy_length (m : DpaMessage) : m.copy.length = m.length := rfl

/-- A message whose bytes after the length are zero is its own copy. -/
theorem copy_eq_self {m : DpaMessage} (h : ∀ i : Fin 64, m.length ≤ i.val → m.buffer i = 0) :
    m.copy = m := by
  cases m with
  | mk buffer length =>
    simp only [copy, DpaMessage.mk.injEq, and_true]
    funext i
    by_cases hi : (i.val : Int) < length
    · simp [hi]
    · simp only [if_neg hi]
      exact (h i (by simpa using hi)).symm

end DpaMessage

/-! ## Frames -/

structure Frame where
  bytes : List UInt8
  nonempty : 0 < bytes.length
  fits : bytes.length ≤ 64

namespace Frame

def message (f : Frame) : DpaMessage :=
  ⟨fun i => f.bytes.getD i.val 0, f.bytes.length⟩

theorem message_copy (f : Frame) : f.message.copy = f.message := by
  apply DpaMessage.copy_eq_self
  intro i hi
  have hle : f.bytes.length ≤ i.val := by simpa [message] using hi
  simp [message, List.getElem?_eq_none hle]

theorem message_length_pos (f : Frame) : 0 < f.message.length := by
  have := f.nonempty
  simp only [message]
  omega

end Frame

/-- The bytes of `w` that the cast length keeps, when the handler accepts that length. -/
def Frame.ofString (w : List UInt8) : Option Frame :=
  if h : 0 < w.length % 256 ∧ w.length % 256 ≤ 64 then
    some ⟨w.take (w.length % 256), by
      rw [List.length_take]; have := Nat.mod_le w.length 256; omega, by
      rw [List.length_take]; omega⟩
  else none

theorem Frame.ofString_length {w : List UInt8} {f : Frame} (h : Frame.ofString w = some f) :
    0 < w.length % 256 ∧ w.length % 256 ≤ 64 := by
  unfold Frame.ofString at h
  split at h
  · assumption
  · cases h

theorem Frame.ofString_bytes {w : List UInt8} {f : Frame} (h : Frame.ofString w = some f) :
    f.bytes = w.take (w.length % 256) := by
  unfold Frame.ofString at h
  split at h
  · cases h
    rfl
  · cases h

theorem Frame.message_bytes (f : Frame) : f.message.bytes = f.bytes := by
  apply List.ext_getElem?
  intro i
  have hfits := f.fits
  simp only [DpaMessage.bytes, Frame.message, Int.toNat_natCast, List.getElem?_take,
    List.getElem?_ofFn]
  by_cases hi : i < f.bytes.length
  · have h64 : i < 64 := by omega
    simp [hi, h64]
  · simp [hi]

/-- Up to 64 bytes the cast keeps the length, so the frame is the string itself. -/
theorem Frame.ofString_whole {w : List UInt8} (h0 : 1 ≤ w.length) (h64 : w.length ≤ 64) :
    ∃ f, Frame.ofString w = some f ∧ f.bytes = w := by
  have hmod : w.length % 256 = w.length := Nat.mod_eq_of_lt (by omega)
  refine ⟨⟨w, h0, h64⟩, ?_, rfl⟩
  unfold Frame.ofString
  rw [dif_pos (by omega)]
  simp [hmod]

theorem Frame.ofString_refused {w : List UInt8}
    (h : w.length % 256 = 0 ∨ 64 < w.length % 256) : Frame.ofString w = none := by
  unfold Frame.ofString
  rw [dif_neg (by omega)]

theorem castLength_toNat (w : List UInt8) :
    (DpaMessage.castLength w).toNat = w.length % 256 := by
  simp [DpaMessage.castLength]

theorem dataToBuffer_frame {b : DpaMessage} (hb : b.buffer = DpaMessage.zeroed)
    {w : List UInt8} {f : Frame} (h : Frame.ofString w = some f) :
    b.dataToBuffer (some w) (DpaMessage.castLength w) = .ok f.message := by
  unfold Frame.ofString at h
  split at h
  · rename_i hw
    cases h
    have hn := castLength_toNat w
    have h0 : DpaMessage.castLength w ≠ 0 := by
      intro h0
      rw [h0] at hn
      simp at hn
      omega
    have hle : w.length % 256 ≤ w.length := Nat.mod_le _ _
    simp only [DpaMessage.dataToBuffer, if_neg h0, hn, maxDpaBuffer]
    rw [if_neg (by omega)]
    have hbuf : DpaMessage.copyBytes (fun i => w.getD i 0) (w.length % 256) b.buffer =
        fun i => (w.take (w.length % 256)).getD i.val 0 := by
      funext i
      by_cases hi : i.val < w.length % 256
      · simp [DpaMessage.copyBytes, hi]
      · simp [DpaMessage.copyBytes, hi, hb, DpaMessage.zeroed]
    rw [hbuf]
    simp [Frame.message, Nat.min_eq_left hle]
  · cases h

/-- What the channel delivered is a frame, or is refused. -/
theorem fillFromResponse_cases (w : List UInt8) :
    (∃ f, Frame.ofString w = some f ∧ DpaMessage.empty.fillFromResponse (some w)
      (DpaMessage.castLength w) = .ok f.message) ∨
    (Frame.ofString w = none ∧ ∃ e, DpaMessage.empty.fillFromResponse (some w)
      (DpaMessage.castLength w) = .error e) := by
  have hn := castLength_toNat w
  unfold DpaMessage.fillFromResponse
  cases hf : Frame.ofString w with
  | some f =>
    left
    refine ⟨f, rfl, ?_⟩
    obtain ⟨hw, _⟩ := Frame.ofString_length hf
    have h0 : DpaMessage.castLength w ≠ 0 := by
      intro h0
      rw [h0] at hn
      simp at hn
      omega
    rw [if_neg h0]
    exact dataToBuffer_frame rfl hf
  | none =>
    right
    refine ⟨rfl, ?_⟩
    split
    · exact ⟨_, rfl⟩
    · rename_i h0
      have hpos : (DpaMessage.castLength w).toNat ≠ 0 := fun h => h0 (UInt8.toNat_inj.mp h)
      have hlong : 64 < (DpaMessage.castLength w).toNat := by
        unfold Frame.ofString at hf
        split at hf
        · cases hf
        · omega
      simp [DpaMessage.dataToBuffer, h0, maxDpaBuffer, hlong]

theorem ofString_frame {w : List UInt8} {f : Frame} (uninit : Int)
    (h : Frame.ofString w = some f) : DpaMessage.ofString uninit w = .ok f.message :=
  dataToBuffer_frame rfl h

/-! ## What a frame is -/

theorem Frame.peripheralCommand_eq (f : Frame) :
    f.message.peripheralCommand = f.bytes.getD 3 0 := rfl

theorem Frame.responseCodeField_eq (f : Frame) :
    f.message.responseCodeField = f.bytes.getD 6 0 := rfl

/-- A frame that ends before PCMD has the bit clear: the buffer behind it is zero. -/
theorem Frame.response_iff (f : Frame) :
    f.message.messageDirection = .response ↔
      4 ≤ f.bytes.length ∧ f.bytes.getD 3 0 &&& 0x80 ≠ 0 := by
  have hlen : f.message.length = f.bytes.length := rfl
  have hshort : f.bytes.length ≤ 3 → f.bytes.getD 3 0 = 0 := by
    intro h
    simp [List.getElem?_eq_none h]
  simp only [DpaMessage.messageDirection, hlen, f.peripheralCommand_eq, DpaMessage.kCommandIndex]
  constructor
  · intro h
    split at h
    · cases h
    · split at h
      · rename_i hbit
        refine ⟨?_, hbit⟩
        by_contra hn
        rw [hshort (by omega)] at hbit
        exact hbit (by decide)
      · split at h <;> cases h
  · rintro ⟨h4, hbit⟩
    rw [if_neg (by omega), if_pos hbit]

theorem Frame.confirmation_iff (f : Frame) :
    f.message.messageDirection = .confirmation ↔
      7 ≤ f.bytes.length ∧ f.bytes.getD 3 0 &&& 0x80 = 0 ∧
        f.bytes.getD 6 0 = statusConfirmation := by
  have hlen : f.message.length = f.bytes.length := rfl
  have hconf : f.message.isConfirmationMessage = true ↔
      f.bytes.getD 6 0 = statusConfirmation := by
    rw [DpaMessage.isConfirmationMessage, beq_iff_eq, f.responseCodeField_eq]
  simp only [DpaMessage.messageDirection, hlen, f.peripheralCommand_eq, DpaMessage.kCommandIndex,
    DpaMessage.kStatusCodeIndex, hconf]
  constructor
  · intro h
    split at h
    · cases h
    · split at h
      · cases h
      · rename_i hbit
        split at h
        · rename_i hc
          exact ⟨by omega, not_not.mp hbit, hc.2⟩
        · cases h
  · rintro ⟨h7, hbit, hc⟩
    rw [if_neg (by omega), if_neg (not_not.mpr hbit), if_pos ⟨by omega, hc⟩]

/-! ## An LED pulse of node 1, its confirmation and its response -/

def ledPulse : Frame := ⟨[0x01, 0x00, 0x06, 0x03, 0xff, 0xff], by decide, by decide⟩

def ledPulseConfirmation : Frame :=
  ⟨[0x01, 0x00, 0x06, 0x03, 0xff, 0xff, 0xff, 0x37, 0x01, 0x04, 0x01], by decide, by decide⟩

def ledPulseResponse : Frame :=
  ⟨[0x01, 0x00, 0x06, 0x83, 0xff, 0xff, 0x00, 0x37], by decide, by decide⟩

end ClibDpa
