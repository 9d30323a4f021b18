import ClibDpa.Orphan
import ClibDpa.Lib.Hex
import ClibDpa.Lib.Loop

/-!
# ClibDpa.TraceHex

`TracerMemHex`, the hex dump of `MEM_HEX`, and the trace that puts a message together with it. The
loop reads a byte and counts it before it compares the count with `len`: it ends at the last byte of
the buffer, but it cannot end before the first.

Memory is a function of the index: the buffer, and behind it whatever is there. `reads` is history.
A positive `len` is a `long` like `i`, so `i` does not overflow on its way there.

* `Dumped`             — the bytes of the buffer were read in order, and the text decodes to them.
* `construct_iff`      — the loop ends so for every buffer but the empty one.
* `trcInformation_iff` — what that means for the trace of a message.
* `sent_dumped`        — the handler sends nothing that is empty.
-/

namespace ClibDpa

/-! ## The stream -/

/-- `std::ostringstream`. An output is filled up on the left to `width`, which then is 0 again. -/
structure OStringStream where
  basefield : Nat
  fill : Char
  width : Nat
  str : List Char

namespace OStringStream

def init : OStringStream := ⟨10, ' ', 0, []⟩

def setw (os : OStringStream) (n : Nat) : OStringStream := { os with width := n }

def put (os : OStringStream) (text : List Char) : OStringStream :=
  { os with str := os.str ++ List.leftpad os.width os.fill text, width := 0 }

/-- `os << (short int)bt`; a byte is not negative. -/
def putShort (os : OStringStream) (bt : UInt8) : OStringStream :=
  os.put (Nat.toDigits os.basefield bt.toNat)

def putChar (os : OStringStream) (c : Char) : OStringStream := os.put [c]

end OStringStream

/-! ## The dump -/

namespace TracerMemHex

structure State where
  i : Nat
  osbyte : OStringStream
  reads : List Nat

/-- The stream after `setf( hex )` and `fill( '0' )`. -/
def start : State := ⟨0, { OStringStream.init with basefield := 16, fill := '0' }, []⟩

/-- One pass of `while (true)`. -/
def body (buf : Nat → UInt8) (len : Int) (separator : Char) (s : State) : Loop.Pass State :=
  let bt := buf s.i
  let i := s.i + 1
  let osbyte := (s.osbyte.setw 2).putShort bt
  let reads := s.reads ++ [s.i]
  if (i : Int) = len then .done ⟨i, osbyte, reads⟩
  else .again ⟨i, osbyte.putChar separator, reads⟩

def construct (buf : Nat → UInt8) (len : Int) (separator : Char) (fuel : Nat) : Option State :=
  Loop.run (body buf len separator) fuel start

/-- The memory from the first byte of the buffer on. -/
def memory (buffer : List UInt8) (beyond : Nat → UInt8) (k : Nat) : UInt8 :=
  buffer.getD k (beyond k)

structure Dumped (buffer : List UInt8) (separator : Char) (s : State) : Prop where
  reads : s.reads = List.range buffer.length
  inside : ∀ k ∈ s.reads, k < buffer.length
  text : s.osbyte.str = Hex.joined separator buffer
  decodes : Hex.decode separator s.osbyte.str = some buffer

section Construct

variable {buffer : List UInt8} {beyond : Nat → UInt8} {separator : Char}

/-- The state before the byte that follows `front`. -/
def before (separator : Char) (front : List UInt8) : State :=
  ⟨front.length, ⟨16, '0', 0, Hex.started separator front⟩, List.range front.length⟩

/-- The state after the last byte of the buffer. -/
def final (separator : Char) (buffer : List UInt8) : State :=
  ⟨buffer.length, ⟨16, '0', 0, Hex.joined separator buffer⟩, List.range buffer.length⟩

theorem memory_front (front : List UInt8) (bt : UInt8) (rest : List UInt8) :
    memory (front ++ bt :: rest) beyond front.length = bt := by
  simp [memory]

theorem body_before (front : List UInt8) (bt : UInt8) (rest : List UInt8) :
    body (memory (front ++ bt :: rest) beyond) (front ++ bt :: rest).length separator
        (before separator front) =
      if rest = [] then .done (final separator (front ++ [bt]))
      else .again (before separator (front ++ [bt])) := by
  have hshort : ((before separator front).osbyte.setw 2).putShort bt =
      ⟨16, '0', 0, Hex.started separator front ++ Hex.pair bt⟩ := by
    simp only [before, OStringStream.setw, OStringStream.putShort, OStringStream.put,
      Hex.leftpad_toDigits]
  have hchar : (⟨16, '0', 0, Hex.started separator front ++ Hex.pair bt⟩ :
      OStringStream).putChar separator =
        ⟨16, '0', 0, Hex.started separator (front ++ [bt])⟩ := by
    rw [Hex.started_snoc]
    rfl
  have hlen : (((before separator front).i + 1 : Nat) : Int) = (front ++ bt :: rest).length ↔
      rest = [] := by
    rw [List.length_append, List.length_cons, ← List.length_eq_zero_iff]
    show ((front.length + 1 : Nat) : Int) = _ ↔ _
    omega
  have hbt : memory (front ++ bt :: rest) beyond (before separator front).i = bt :=
    memory_front front bt rest
  have hi : (before separator front).i + 1 = (front ++ [bt]).length := by
    rw [List.length_append]
    rfl
  have hreads : (before separator front).reads ++ [(before separator front).i] =
      List.range (front ++ [bt]).length := by
    rw [← hi, List.range_succ]
    rfl
  simp only [body, hbt, hshort, hchar, hreads]
  by_cases hrest : rest = []
  · rw [if_pos hrest, if_pos (hlen.mpr hrest), hi, final, Hex.joined_snoc]
  · rw [if_neg hrest, if_neg fun h => hrest (hlen.mp h), hi, before]

theorem final_dumped (separator : Char) (buffer : List UInt8) :
    Dumped buffer separator (final separator buffer) where
  reads := rfl
  inside := fun _ hk => List.mem_range.mp hk
  text := rfl
  decodes := Hex.decode_joined separator buffer

/-- The measure is the number of bytes that are left. -/
theorem construct_ends (hne : buffer ≠ []) :
    ∃ fuel s, construct (memory buffer beyond) buffer.length separator fuel = some s ∧
      Dumped buffer separator s := by
  refine Loop.total (fun s => buffer.length - s.i)
    (I := fun s => ∃ front bt rest, buffer = front ++ bt :: rest ∧ s = before separator front)
    ?_ ?_ ?_
  · rintro s s' ⟨front, bt, rest, rfl, rfl⟩ h
    rw [body_before] at h
    split at h
    · cases h
    · rename_i hrest
      cases h
      obtain ⟨bt', rest', rfl⟩ := List.exists_cons_of_ne_nil hrest
      refine ⟨⟨front ++ [bt], bt', rest', by simp, rfl⟩, ?_⟩
      simp only [before, List.length_append, List.length_cons, List.length_nil]
      omega
  · rintro s s' ⟨front, bt, rest, rfl, rfl⟩ h
    rw [body_before] at h
    split at h
    · rename_i hrest
      cases h
      rw [hrest]
      exact final_dumped separator (front ++ [bt])
    · cases h
  · obtain ⟨bt, rest, rfl⟩ := List.exists_cons_of_ne_nil hne
    exact ⟨[], bt, rest, rfl, rfl⟩

/-- The count has passed `len`, and it only grows. -/
theorem construct_never {buf : Nat → UInt8} {len : Int} (hlen : len ≤ 0) (fuel : Nat) :
    construct buf len separator fuel = none := by
  refine Loop.never (I := fun s => len ≤ s.i) (fun s hs => ?_) hlen fuel
  have hne : ¬ ((s.i + 1 : Nat) : Int) = len := by omega
  refine ⟨_, if_neg hne, ?_⟩
  show len ≤ ((s.i + 1 : Nat) : Int)
  omega

theorem construct_iff (buffer : List UInt8) (beyond : Nat → UInt8) (separator : Char) :
    (∃ fuel s, construct (memory buffer beyond) buffer.length separator fuel = some s ∧
      Dumped buffer separator s) ↔ buffer ≠ [] := by
  refine ⟨?_, construct_ends⟩
  rintro ⟨fuel, s, hrun, _⟩ rfl
  have hnever : construct (memory [] beyond) ([] : List UInt8).length separator fuel = none :=
    construct_never (by simp) fuel
  rw [hnever] at hrun
  cases hrun

end Construct

end TracerMemHex

/-! ## A message that is traced -/

/-- `TRC_INFORMATION( text << MEM_HEX( message.data(), message.size() ) )`; the text is put together
when the tracer takes the level. -/
def trcInformation (tracerIsValid : Bool) (beyond : Nat → UInt8) (message : List UInt8)
    (fuel : Nat) : Option Unit :=
  if tracerIsValid then
    (TracerMemHex.construct (TracerMemHex.memory message beyond) message.length '.' fuel).map
      fun _ => ()
  else some ()

theorem trcInformation_empty (beyond : Nat → UInt8) (fuel : Nat) :
    trcInformation true beyond [] fuel = none := by
  simp [trcInformation, TracerMemHex.construct_never]

/-- The trace gets past every message but the empty one. -/
theorem trcInformation_iff (tracerIsValid : Bool) (beyond : Nat → UInt8) (message : List UInt8) :
    (∃ fuel, trcInformation tracerIsValid beyond message fuel = some ()) ↔
      (tracerIsValid = true → message ≠ []) := by
  cases tracerIsValid with
  | false => exact ⟨fun _ h => (by cases h), fun _ => ⟨0, rfl⟩⟩
  | true =>
    constructor
    · rintro ⟨fuel, hrun⟩ _ rfl
      rw [trcInformation_empty] at hrun
      cases hrun
    · intro hne
      obtain ⟨fuel, s, hrun, _⟩ :=
        (TracerMemHex.construct_iff message beyond '.').mpr (hne rfl)
      exact ⟨fuel, by simp [trcInformation, hrun]⟩

namespace Handler

/-- A request that was pushed is not empty. -/
theorem pushed_nonempty {s : State} (h : Machine.Reachable step init s) {i : Nat} {o : Submission}
    (hpushed : i ∈ s.queue.pushed) (ho : s.tx i = some o) : o.request.bytes ≠ [] := by
  obtain ⟨o', ho', hlen⟩ := (placed_reachable h).pushed i hpushed
  cases ho.symm.trans ho'
  intro hnil
  have hzero : (List.ofFn o.request.buffer).take o.request.length.toNat = [] := hnil
  have hcount := congrArg List.length hzero
  simp only [List.length_take, List.length_ofFn, List.length_nil, DpaMessage.getLength]
    at hcount hlen
  omega

/-- The handler sends no empty request: the dump of what it sends always ends. -/
theorem sent_dumped {s : State} (h : Machine.Reachable step init s) {i : Nat} {b : List UInt8}
    (hmem : (i, b) ∈ s.sent) (beyond : Nat → UInt8) :
    ∃ fuel dump, TracerMemHex.construct (TracerMemHex.memory b beyond) b.length '.' fuel =
      some dump ∧ TracerMemHex.Dumped b '.' dump := by
  obtain ⟨_, hs⟩ := (ok_reachable h).serial
  obtain ⟨o, ho, hbytes⟩ := hs.payload (i, b) hmem
  have hpushed : i ∈ s.queue.pushed :=
    (sentIds_pushed h).subset (List.mem_map.mpr ⟨(i, b), hmem, rfl⟩)
  have hne := pushed_nonempty h hpushed ho
  rw [← show b = o.request.bytes from hbytes] at hne
  exact TracerMemHex.construct_ends hne

end Handler

end ClibDpa
