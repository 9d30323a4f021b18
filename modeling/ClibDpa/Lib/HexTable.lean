import ClibDpa.Lib.Hex

/-!
# Lib.HexTable

Bytes as a table: rows of `w` bytes, each row as cells of two digits and a separator and then as one
character for each byte. In the last row, what is missing is blank. Everything stands at a fixed
place, so the text can be read back whatever the separator and the characters are.

* `table_rows`        — the table of rows that are full, and a last one.
* `readText_table`    — the round trip.
-/

namespace Hex

section Table

variable {w : Nat} {separator : Char} {glyph : UInt8 → Char}

def row (w : Nat) (separator : Char) (glyph : UInt8 → Char) (bytes : List UInt8) : List Char :=
  started separator bytes ++ List.replicate (3 * (w - bytes.length)) ' ' ++ [' ', ' '] ++
    bytes.map glyph ++ List.replicate (w - bytes.length) ' '

/-- `n` full rows, and the row of the bytes behind them. -/
def table (w : Nat) (separator : Char) (glyph : UInt8 → Char) : Nat → List UInt8 → List Char
  | 0, bytes => row w separator glyph bytes
  | n + 1, bytes =>
    row w separator glyph (bytes.take w) ++ '\n' :: table w separator glyph n (bytes.drop w)

/-- The cells of a row, up to a blank one. -/
def readCells : Nat → List Char → List UInt8
  | n + 1, hi :: lo :: _ :: rest =>
    match byte hi lo with
    | some b => b :: readCells n rest
    | none => []
  | _, _ => []

def readTable (w : Nat) : Nat → List Char → List UInt8
  | 0, text => readCells w text
  | n + 1, text => readCells w text ++ readTable w n (text.drop (4 * w + 3))

/-- The number of full rows is in the length of the text. -/
def readText (w : Nat) (text : List Char) : List UInt8 :=
  readTable w (text.length / (4 * w + 3)) text

theorem started_length (bytes : List UInt8) :
    (started separator bytes).length = 3 * bytes.length := by
  induction bytes with
  | nil => rfl
  | cons b rest ih =>
    have hrest : (started separator (b :: rest)).length =
        3 + (started separator rest).length := by
      simp [started, pair]
      omega
    rw [hrest, ih, List.length_cons]
    omega

theorem row_length {bytes : List UInt8} (h : bytes.length ≤ w) :
    (row w separator glyph bytes).length = 4 * w + 2 := by
  simp only [row, List.length_append, List.length_replicate, List.length_map, started_length,
    List.length_cons, List.length_nil]
  omega

theorem readCells_blank (n : Nat) (tail : List Char) :
    readCells n (List.replicate (3 * n) ' ' ++ tail) = [] := by
  cases n with
  | zero => simp [readCells]
  | succ n =>
    have hblank : List.replicate (3 * (n + 1)) ' ' ++ tail =
        ' ' :: ' ' :: ' ' :: (List.replicate (3 * n) ' ' ++ tail) := by
      rw [show 3 * (n + 1) = 3 * n + 1 + 1 + 1 by omega]
      simp [List.replicate_succ]
    rw [hblank]
    rfl

theorem readCells_started (tail : List Char) : ∀ {bytes : List UInt8} {n : Nat},
    bytes.length ≤ n → readCells n
      (started separator bytes ++ (List.replicate (3 * (n - bytes.length)) ' ' ++ tail)) =
        bytes := by
  intro bytes
  induction bytes with
  | nil => intro n _; exact readCells_blank n tail
  | cons b rest ih =>
    intro n hn
    rw [List.length_cons] at hn
    obtain ⟨m, rfl⟩ : ∃ m, n = m + 1 := ⟨n - 1, by omega⟩
    have hm : rest.length ≤ m := by omega
    have hrest := ih hm
    have htext : started separator (b :: rest) =
        Nat.digitChar (b.toNat / 16) :: Nat.digitChar (b.toNat % 16) :: separator ::
          started separator rest := by simp [started, pair]
    rw [htext, List.length_cons, Nat.add_sub_add_right]
    simp only [List.cons_append, readCells, byte_pair, hrest]

theorem readCells_row {bytes : List UInt8} (h : bytes.length ≤ w) (tail : List Char) :
    readCells w (row w separator glyph bytes ++ tail) = bytes := by
  rw [row]
  simp only [List.append_assoc]
  exact readCells_started _ h

theorem table_length : ∀ {n : Nat} {bytes : List UInt8}, n * w ≤ bytes.length →
    bytes.length ≤ (n + 1) * w →
      (table w separator glyph n bytes).length = n * (4 * w + 3) + (4 * w + 2) := by
  intro n
  induction n with
  | zero =>
    intro bytes _ h
    rw [table, row_length (by simpa using h)]
    omega
  | succ n ih =>
    intro bytes hlo hhi
    have hmul : (n + 1) * w = n * w + w := Nat.succ_mul n w
    have hmul' : (n + 1 + 1) * w = (n + 1) * w + w := Nat.succ_mul (n + 1) w
    have hdrop : (bytes.drop w).length = bytes.length - w := List.length_drop
    have htake : (bytes.take w).length ≤ w := List.length_take_le w bytes
    have hrest := @ih (bytes.drop w) (by omega) (by omega)
    rw [table, List.length_append, List.length_cons, row_length htake, hrest]
    have hlen : (n + 1) * (4 * w + 3) = n * (4 * w + 3) + (4 * w + 3) := Nat.succ_mul n _
    omega

theorem readTable_table : ∀ {n : Nat} {bytes : List UInt8}, bytes.length ≤ (n + 1) * w →
    readTable w n (table w separator glyph n bytes) = bytes := by
  intro n
  induction n with
  | zero =>
    intro bytes h
    have hrow : readCells w (row w separator glyph bytes ++ []) = bytes :=
      readCells_row (by simpa using h) []
    rw [List.append_nil] at hrow
    exact hrow
  | succ n ih =>
    intro bytes h
    have htake : (bytes.take w).length ≤ w := List.length_take_le w bytes
    have hdrop : (bytes.drop w).length ≤ (n + 1) * w := by
      have hmul : (n + 1 + 1) * w = (n + 1) * w + w := Nat.succ_mul (n + 1) w
      rw [List.length_drop]
      omega
    have hrest : (table w separator glyph (n + 1) bytes).drop (4 * w + 3) =
        table w separator glyph n (bytes.drop w) := by
      rw [table, ← List.singleton_append, ← List.append_assoc]
      refine List.drop_left' ?_
      rw [List.length_append, row_length htake]
      rfl
    rw [readTable, hrest, ih hdrop, table, readCells_row htake, List.take_append_drop]

theorem readText_table {n : Nat} {bytes : List UInt8} (hlo : n * w ≤ bytes.length)
    (hhi : bytes.length ≤ (n + 1) * w) :
    readText w (table w separator glyph n bytes) = bytes := by
  have hn : (table w separator glyph n bytes).length / (4 * w + 3) = n := by
    rw [table_length hlo hhi, Nat.mul_comm, Nat.mul_add_div (by omega)]
    rw [Nat.div_eq_of_lt (by omega), Nat.add_zero]
  rw [readText, hn, readTable_table hhi]

theorem table_rows (last : List UInt8) : ∀ {rows : List (List UInt8)},
    (∀ r ∈ rows, r.length = w) →
      table w separator glyph rows.length (rows.flatten ++ last) =
        (rows.flatMap fun r => row w separator glyph r ++ ['\n']) ++
          row w separator glyph last := by
  intro rows
  induction rows with
  | nil => intro _; rfl
  | cons r rest ih =>
    intro h
    have hr := h r List.mem_cons_self
    have hrest := ih fun x hx => h x (List.mem_cons_of_mem r hx)
    rw [List.length_cons, table, List.flatten_cons, List.append_assoc, List.take_left' hr,
      List.drop_left' hr, hrest]
    simp

end Table

end Hex
