import ClibDpa.TraceHex
import ClibDpa.Lib.HexTable

/-!
# ClibDpa.TraceTable

`TracerMemHexChar`, the table of `MEM_HEX_CHAR`: rows of 16 bytes as hexadecimal digits and as
characters. `m_oschar` is never emptied. After a full row its put position is set back, so the next
row goes over the one before; the blanks that fill up the last row are what covers the rest of it.

A pass of the loop that aligns the last row is a pass of the outer loop in which `aligning` is set.
As with `TracerMemHex`, memory is a function of the index and `reads` is history.

* `Fills` / `Aligns`   — the state between two bytes, and between two blanks of the last row.
* `Tabled`             — the bytes were read in order, and the table decodes to them.
* `table_faithful_iff` — the loops end so for every buffer but the empty one.
-/

namespace ClibDpa

/-! ## The streams -/

/-- `std::ostringstream` with its put position: an output goes over what stands there. -/
structure OCharStream where
  str : List Char
  pos : Nat

namespace OCharStream

def put (os : OCharStream) (c : Char) : OCharStream :=
  { str := os.str.take os.pos ++ [c] ++ os.str.drop (os.pos + 1), pos := os.pos + 1 }

def seekp (os : OCharStream) (pos : Nat) : OCharStream := { os with pos := pos }

/-- Up to its put position the stream holds `text`, and it is not longer than a row. -/
structure Holds (os : OCharStream) (text : List Char) : Prop where
  pos : os.pos = text.length
  text : os.str.take text.length = text
  length : os.str.length ≤ 16

theorem Holds.put {os : OCharStream} {text : List Char} (h : Holds os text)
    (hlt : text.length < 16) (c : Char) : Holds (os.put c) (text ++ [c]) := by
  have hle : text.length ≤ os.str.length := by
    have htext := congrArg List.length h.text
    rw [List.length_take] at htext
    omega
  have hlen := h.length
  refine ⟨?_, ?_, ?_⟩
  · simp [OCharStream.put, h.pos]
  · simp only [OCharStream.put, h.pos, h.text]
    exact List.take_left' rfl
  · simp only [OCharStream.put, h.pos, h.text, List.length_append, List.length_drop,
      List.length_cons, List.length_nil]
    omega

/-- A row that is full is all there is. -/
theorem Holds.full {os : OCharStream} {text : List Char} (h : Holds os text)
    (hfull : text.length = 16) : os.str = text := by
  have htext := h.text
  rwa [hfull, List.take_of_length_le h.length] at htext

theorem Holds.seekp {os : OCharStream} {text : List Char} (h : Holds os text) :
    Holds (os.seekp 0) [] := ⟨rfl, rfl, h.length⟩

end OCharStream

namespace TracerMemHexChar

/-- `isgraph( bt ) ? (char)bt : '.'`, in the C locale. -/
def graph (bt : UInt8) : Char :=
  if 0x21 ≤ bt.toNat ∧ bt.toNat ≤ 0x7e then Char.ofNat bt.toNat else '.'

structure State where
  i : Nat
  osbyte : OStringStream
  oschar : OCharStream
  aligning : Bool
  reads : List Nat

def start : State :=
  ⟨0, { OStringStream.init with basefield := 16, fill := '0' }, ⟨[], 0⟩, false, []⟩

/-- `m_osbyte << "  " << m_oschar.str()` -/
def putChars (osbyte : OStringStream) (oschar : OCharStream) : OStringStream :=
  (osbyte.put [' ', ' ']).put oschar.str

/-- One pass of `while (i++ % 16)`, and what follows it. -/
def align (s : State) : Loop.Pass State :=
  if s.i % 16 ≠ 0 then
    .again { s with
      i := s.i + 1
      osbyte := s.osbyte.put [' ', ' ', ' ']
      oschar := s.oschar.put ' ' }
  else .done { s with i := s.i + 1, osbyte := putChars s.osbyte s.oschar }

/-- One pass of `while (true)`. -/
def body (buf : Nat → UInt8) (len : Int) (separator : Char) (s : State) : Loop.Pass State :=
  if s.aligning then align s
  else
    let bt := buf s.i
    let i := s.i + 1
    let osbyte := ((s.osbyte.setw 2).putShort bt).putChar separator
    let oschar := s.oschar.put (graph bt)
    let reads := s.reads ++ [s.i]
    if (i : Int) = len then .again ⟨i, osbyte, oschar, true, reads⟩
    else if i % 16 = 0 then
      .again ⟨i, (putChars osbyte oschar).put ['\n'], oschar.seekp 0, false, reads⟩
    else .again ⟨i, osbyte, oschar, false, reads⟩

def construct (buf : Nat → UInt8) (len : Int) (separator : Char) (fuel : Nat) : Option State :=
  Loop.run (body buf len separator) fuel start

structure Tabled (buffer : List UInt8) (separator : Char) (s : State) : Prop where
  reads : s.reads = List.range buffer.length
  text : s.osbyte.str = Hex.table 16 separator graph ((buffer.length - 1) / 16) buffer
  decodes : Hex.readText 16 s.osbyte.str = buffer

section Construct

variable {buffer : List UInt8} {beyond : Nat → UInt8} {separator : Char}

/-- The rows that are written, each with the end of its line. -/
def written (separator : Char) (rows : List (List UInt8)) : List Char :=
  rows.flatMap fun r => Hex.row 16 separator graph r ++ ['\n']

/-- `rows` are full and written; of the next row, `part` has been read. -/
structure Fills (separator : Char) (rows : List (List UInt8)) (part : List UInt8) (s : State) :
    Prop where
  full : ∀ r ∈ rows, r.length = 16
  i : s.i = 16 * rows.length + part.length
  osbyte : s.osbyte = ⟨16, '0', 0, written separator rows ++ Hex.started separator part⟩
  oschar : s.oschar.Holds (part.map graph)
  reads : s.reads = List.range s.i

/-- The same for the last row, which is not empty, with `blank` cells that stand for no byte. -/
structure Aligns (separator : Char) (rows : List (List UInt8)) (last : List UInt8) (blank : Nat)
    (s : State) : Prop where
  full : ∀ r ∈ rows, r.length = 16
  size : 0 < last.length ∧ last.length + blank ≤ 16
  i : s.i = 16 * rows.length + last.length + blank
  osbyte : s.osbyte = ⟨16, '0', 0, written separator rows ++ Hex.started separator last ++
    List.replicate (3 * blank) ' '⟩
  oschar : s.oschar.Holds (last.map graph ++ List.replicate blank ' ')
  reads : s.reads = List.range (16 * rows.length + last.length)

/-- What a pass puts out for a byte. -/
theorem putShort_putChar (text : List Char) (bt : UInt8) :
    (((⟨16, '0', 0, text⟩ : OStringStream).setw 2).putShort bt).putChar separator =
      ⟨16, '0', 0, text ++ (Hex.pair bt ++ [separator])⟩ := by
  simp only [OStringStream.setw, OStringStream.putShort, OStringStream.putChar,
    OStringStream.put, Hex.leftpad_toDigits]
  simp [List.leftpad]

theorem putChars_text (text : List Char) (oschar : OCharStream) :
    putChars ⟨16, '0', 0, text⟩ oschar =
      ⟨16, '0', 0, text ++ ([' ', ' '] ++ oschar.str)⟩ := by
  simp [putChars, OStringStream.put, List.leftpad]

theorem put_text (text out : List Char) :
    (⟨16, '0', 0, text⟩ : OStringStream).put out = ⟨16, '0', 0, text ++ out⟩ := by
  simp [OStringStream.put, List.leftpad]

theorem flatten_length {rows : List (List UInt8)} (h : ∀ r ∈ rows, r.length = 16) :
    rows.flatten.length = 16 * rows.length := by
  induction rows with
  | nil => rfl
  | cons r rest ih =>
    have hr := h r List.mem_cons_self
    have hrest := ih fun x hx => h x (List.mem_cons_of_mem r hx)
    rw [List.flatten_cons, List.length_append, hr, hrest, List.length_cons]
    omega

theorem row_full {bytes : List UInt8} (h : bytes.length = 16) :
    Hex.row 16 separator graph bytes =
      Hex.started separator bytes ++ ([' ', ' '] ++ bytes.map graph) := by
  simp [Hex.row, h]

/-- The state after the byte `bt` of the row. -/
def taken (separator : Char) (bt : UInt8) (s : State) : State :=
  { s with
    i := s.i + 1
    osbyte := ((s.osbyte.setw 2).putShort bt).putChar separator
    oschar := s.oschar.put (graph bt)
    reads := s.reads ++ [s.i] }

section Taken

variable {rows : List (List UInt8)} {part : List UInt8} {bt : UInt8} {s : State}

/-- What one more byte makes of the row; it may fill it. -/
theorem Fills.taken (h : Fills separator rows part s) (hpart : part.length < 16) (bt : UInt8) :
    Fills separator rows (part ++ [bt]) (taken separator bt s) where
  full := h.full
  i := by
    simp only [TracerMemHexChar.taken, h.i, List.length_append]
    rfl
  osbyte := by
    simp only [TracerMemHexChar.taken, h.osbyte, putShort_putChar, Hex.started_snoc,
      List.append_assoc]
  oschar := by
    rw [List.map_append]
    exact h.oschar.put (by simpa using hpart) _
  reads := by simp only [TracerMemHexChar.taken, h.reads, List.range_succ]

/-- The end of a row. -/
theorem Fills.newRow (h : Fills separator rows part s) (hfull : part.length = 16) :
    Fills separator (rows ++ [part]) []
      { s with
        osbyte := (putChars s.osbyte s.oschar).put ['\n']
        oschar := s.oschar.seekp 0 } where
  full := by
    intro r hr
    rcases List.mem_append.mp hr with hr | hr
    · exact h.full r hr
    · rw [List.mem_singleton.mp hr]
      exact hfull
  i := by
    have hi := h.i
    simp only [List.length_append, List.length_cons, List.length_nil]
    omega
  osbyte := by
    have hchars := h.oschar.full (by simpa using hfull)
    rw [h.osbyte, putChars_text, put_text, hchars]
    simp only [written, List.flatMap_append, List.flatMap_cons, List.flatMap_nil,
      row_full hfull, List.append_assoc, List.append_nil, Hex.started]
  oschar := h.oschar.seekp
  reads := h.reads

/-- The end of the bytes. -/
theorem Fills.aligns (h : Fills separator rows part s) (hpos : 0 < part.length)
    (hle : part.length ≤ 16) : Aligns separator rows part 0 { s with aligning := true } where
  full := h.full
  size := ⟨hpos, hle⟩
  i := h.i
  osbyte := by simpa using h.osbyte
  oschar := by simpa using h.oschar
  reads := by rw [← h.i]; exact h.reads

end Taken

section Aligned

variable {rows : List (List UInt8)} {last : List UInt8} {blank : Nat} {s : State}

/-- The last row ends where it is full. -/
theorem Aligns.full_iff (h : Aligns separator rows last blank s) :
    s.i % 16 = 0 ↔ last.length + blank = 16 := by
  have hi := h.i
  have hsize := h.size
  omega

theorem Aligns.fillUp (h : Aligns separator rows last blank s) (hopen : s.i % 16 ≠ 0) :
    Aligns separator rows last (blank + 1)
      { s with
        i := s.i + 1
        osbyte := s.osbyte.put [' ', ' ', ' ']
        oschar := s.oschar.put ' ' } where
  full := h.full
  size := by
    have hne := mt h.full_iff.mpr hopen
    have hsize := h.size
    omega
  i := by
    have hi := h.i
    simp only
    omega
  osbyte := by
    have hblank : List.replicate (3 * (blank + 1)) ' ' =
        List.replicate (3 * blank) ' ' ++ [' ', ' ', ' '] := by
      rw [Nat.mul_succ, List.replicate_add]
      rfl
    rw [h.osbyte, put_text, hblank, List.append_assoc _ _ [' ', ' ', ' ']]
  oschar := by
    have hne := mt h.full_iff.mpr hopen
    have hsize := h.size
    rw [List.replicate_succ', ← List.append_assoc]
    refine h.oschar.put ?_ ' '
    simp only [List.length_append, List.length_map, List.length_replicate]
    omega
  reads := h.reads

/-- The characters follow, and the row is complete. -/
theorem Aligns.tabled (h : Aligns separator rows last blank s) (hend : s.i % 16 = 0)
    {buffer : List UInt8} (hbuffer : buffer = rows.flatten ++ last) (i : Nat) :
    Tabled buffer separator { s with i := i, osbyte := putChars s.osbyte s.oschar } := by
  have hfull := h.full_iff.mp hend
  obtain ⟨hpos, hle⟩ := h.size
  have hlen : buffer.length = 16 * rows.length + last.length := by
    rw [hbuffer, List.length_append, flatten_length h.full]
  have hrows : (buffer.length - 1) / 16 = rows.length := by omega
  have hchars : s.oschar.str = last.map graph ++ List.replicate blank ' ' := by
    refine h.oschar.full ?_
    simp only [List.length_append, List.length_map, List.length_replicate]
    exact hfull
  have hblank : 16 - last.length = blank := by omega
  have htext : (putChars s.osbyte s.oschar).str =
      Hex.table 16 separator graph rows.length buffer := by
    rw [h.osbyte, putChars_text, hchars, hbuffer, Hex.table_rows last h.full, Hex.row, hblank]
    simp only [written, List.append_assoc]
  refine ⟨?_, ?_, ?_⟩
  · rw [hlen]
    exact h.reads
  · rw [hrows]
    exact htext
  · simp only [htext]
    exact Hex.readText_table (by omega) (by omega)

end Aligned

/-- Where a pass of the loop starts. -/
inductive At (separator : Char) (buffer : List UInt8) (s : State) : Prop where
  | fills {rows : List (List UInt8)} {part rest : List UInt8} {bt : UInt8} : s.aligning = false →
      Fills separator rows part s → part.length < 16 →
      buffer = rows.flatten ++ part ++ bt :: rest → At separator buffer s
  | aligns {rows : List (List UInt8)} {last : List UInt8} {blank : Nat} : s.aligning = true →
      Aligns separator rows last blank s → buffer = rows.flatten ++ last → At separator buffer s

/-- How far the loops are from their end. -/
def left (buffer : List UInt8) (s : State) : Nat :=
  if s.aligning then (16 - s.i % 16) % 16 else 16 + (buffer.length - s.i)

theorem left_reading {s : State} (h : s.aligning = false) :
    left buffer s = 16 + (buffer.length - s.i) := by simp [left, h]

/-- A pass that reads a byte. -/
theorem body_fills {s s' : State} {rows : List (List UInt8)} {part rest : List UInt8} {bt : UInt8}
    (hreading : s.aligning = false) (h : Fills separator rows part s) (hpart : part.length < 16)
    (hbuffer : buffer = rows.flatten ++ part ++ bt :: rest)
    (he : body (TracerMemHex.memory buffer beyond) buffer.length separator s = .again s') :
    At separator buffer s' ∧ left buffer s' < left buffer s := by
  have hfront : (rows.flatten ++ part).length = s.i := by
    rw [List.length_append, flatten_length h.full, h.i]
  have hbt : TracerMemHex.memory buffer beyond s.i = bt := by
    rw [hbuffer, ← hfront]
    exact TracerMemHex.memory_front _ _ _
  have hlen : buffer.length = s.i + 1 + rest.length := by
    rw [hbuffer, List.length_append, hfront, List.length_cons]
    omega
  have htaken := h.taken hpart bt
  have hi : s.i + 1 = 16 * rows.length + (part ++ [bt]).length := htaken.i
  have hsnoc : (part ++ [bt]).length = part.length + 1 := List.length_append
  rw [left_reading hreading]
  simp only [body, hreading, Bool.false_eq_true, if_false, hbt] at he
  split at he
  · rename_i hlast
    cases he
    have hrest : rest = [] := List.length_eq_zero_iff.mp (by omega)
    refine ⟨.aligns rfl (htaken.aligns (by omega) (by omega)) ?_, ?_⟩
    · rw [hbuffer, hrest, List.append_assoc]
    · simp only [left, if_true]
      omega
  · rename_i hmore
    obtain ⟨bt', rest', rfl⟩ : ∃ bt' rest', rest = bt' :: rest' :=
      List.exists_cons_of_ne_nil fun hnil => hmore (by rw [hlen, hnil]; simp)
    rw [List.length_cons] at hlen
    split at he
    · rename_i hfull
      cases he
      have hrow : (part ++ [bt]).length = 16 := by omega
      have hrows := htaken.newRow hrow
      simp only [taken, hreading] at hrows
      have hrest : buffer = (rows ++ [part ++ [bt]]).flatten ++ [] ++ bt' :: rest' := by
        rw [hbuffer]
        simp
      refine ⟨.fills rfl hrows (by simp) hrest, ?_⟩
      rw [left_reading rfl]
      simp only
      omega
    · cases he
      simp only [taken, hreading] at htaken
      have hrest : buffer = rows.flatten ++ (part ++ [bt]) ++ bt' :: rest' := by
        rw [hbuffer]
        simp
      refine ⟨.fills rfl htaken (by omega) hrest, ?_⟩
      rw [left_reading rfl]
      simp only
      omega

/-- A pass that fills the last row up. -/
theorem body_aligns {s s' : State} {rows : List (List UInt8)} {last : List UInt8} {blank : Nat}
    {buf : Nat → UInt8} {len : Int} (hal : s.aligning = true)
    (h : Aligns separator rows last blank s) (hbuffer : buffer = rows.flatten ++ last)
    (he : body buf len separator s = .again s') :
    At separator buffer s' ∧ left buffer s' < left buffer s := by
  simp only [body, hal, if_true, align] at he
  split at he
  · rename_i hopen
    cases he
    have hnext := h.fillUp hopen
    rw [hal] at hnext
    refine ⟨.aligns rfl hnext hbuffer, ?_⟩
    simp only [left, hal, if_true]
    omega
  · cases he

theorem construct_ends (hne : buffer ≠ []) :
    ∃ fuel s, construct (TracerMemHex.memory buffer beyond) buffer.length separator fuel =
      some s ∧ Tabled buffer separator s := by
  refine Loop.total (left buffer) (I := At separator buffer) ?_ ?_ ?_
  · intro s s' hs h
    cases hs with
    | fills hreading hfills hpart hbuffer => exact body_fills hreading hfills hpart hbuffer h
    | aligns hal haligns hbuffer => exact body_aligns hal haligns hbuffer h
  · intro s s' hs h
    cases hs with
    | fills hreading _ _ _ =>
      simp only [body, hreading, Bool.false_eq_true, if_false] at h
      split at h
      · cases h
      · split at h <;> cases h
    | aligns hal haligns hbuffer =>
      simp only [body, hal, if_true, align] at h
      split at h
      · cases h
      · rename_i hend
        cases h
        have htabled := haligns.tabled (by omega) hbuffer (s.i + 1)
        rw [hal] at htabled
        exact htabled
  · obtain ⟨bt, rest, rfl⟩ := List.exists_cons_of_ne_nil hne
    refine @At.fills separator (bt :: rest) start [] [] rest bt rfl ⟨?_, rfl, rfl, ?_, rfl⟩
      (by simp) rfl
    · intro r hr
      cases hr
    · exact ⟨rfl, rfl, by simp [start]⟩

/-- The count has passed `len`, and it only grows. -/
theorem construct_never {buf : Nat → UInt8} {len : Int} (hlen : len ≤ 0) (fuel : Nat) :
    construct buf len separator fuel = none := by
  refine Loop.never (I := fun s => s.aligning = false ∧ len ≤ s.i) ?_ ⟨rfl, hlen⟩ fuel
  rintro s ⟨hreading, hs⟩
  have hne : ¬ ((s.i + 1 : Nat) : Int) = len := by omega
  simp only [body, hreading, Bool.false_eq_true, if_false, if_neg hne]
  split
  · refine ⟨_, rfl, rfl, ?_⟩
    simp only
    omega
  · refine ⟨_, rfl, rfl, ?_⟩
    simp only
    omega

/-- The table reads a buffer from its first byte to its last and writes it in rows of 16 that can be
read back, unless the buffer is empty. Then no pass is the last. -/
theorem table_faithful_iff (buffer : List UInt8) (beyond : Nat → UInt8) (separator : Char) :
    ((∃ fuel s, construct (TracerMemHex.memory buffer beyond) buffer.length separator fuel =
      some s ∧ Tabled buffer separator s) ↔ buffer ≠ []) ∧
    ∀ fuel, construct (TracerMemHex.memory [] beyond) ([] : List UInt8).length separator fuel =
      none := by
  have hnever : ∀ fuel, construct (TracerMemHex.memory [] beyond) ([] : List UInt8).length
      separator fuel = none := fun fuel => construct_never (by simp) fuel
  refine ⟨⟨?_, construct_ends⟩, hnever⟩
  rintro ⟨fuel, s, hrun, _⟩ rfl
  rw [hnever fuel] at hrun
  cases hrun

end Construct

end TracerMemHexChar
end ClibDpa
