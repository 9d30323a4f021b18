import Mathlib.Tactic

/-!
# Lib.Hex

Bytes as two lower-case hexadecimal digits each, joined by a separator, and the reader that takes
such a text back to its bytes. The digits stand at fixed places, so the separator can be any
character.

* `leftpad_toDigits` — a number below 256, written in base 16 and filled up with zeros.
* `decode_joined`    — the round trip.
-/

namespace Hex

/-- The two digits of a byte, the high one first. -/
def pair (b : UInt8) : List Char := [Nat.digitChar (b.toNat / 16), Nat.digitChar (b.toNat % 16)]

def joined (separator : Char) (bytes : List UInt8) : List Char :=
  List.intercalate [separator] (bytes.map pair)

def value (c : Char) : Option Nat :=
  if '0' ≤ c ∧ c ≤ '9' then some (c.toNat - '0'.toNat)
  else if 'a' ≤ c ∧ c ≤ 'f' then some (c.toNat - 'a'.toNat + 10)
  else none

def byte (hi lo : Char) : Option UInt8 :=
  match value hi, value lo with
  | some h, some l => some (UInt8.ofNat (16 * h + l))
  | _, _ => none

def decode (separator : Char) : List Char → Option (List UInt8)
  | [] => some []
  | [_] => none
  | [hi, lo] => (byte hi lo).map fun b => [b]
  | hi :: lo :: c :: rest =>
    if c = separator then
      match byte hi lo, decode separator rest with
      | some b, some bytes => some (b :: bytes)
      | _, _ => none
    else none

theorem value_digitChar {d : Nat} (h : d < 16) : value (Nat.digitChar d) = some d := by
  interval_cases d <;> rfl

theorem byte_pair (b : UInt8) :
    byte (Nat.digitChar (b.toNat / 16)) (Nat.digitChar (b.toNat % 16)) = some b := by
  have hb : b.toNat < 256 := b.toNat_lt
  have hhi : b.toNat / 16 < 16 := by omega
  have hlo : b.toNat % 16 < 16 := by omega
  have hsum : 16 * (b.toNat / 16) + b.toNat % 16 = b.toNat := by omega
  simp only [byte, value_digitChar hhi, value_digitChar hlo, hsum, UInt8.ofNat_toNat]

theorem leftpad_toDigits (b : UInt8) : List.leftpad 2 '0' (Nat.toDigits 16 b.toNat) = pair b := by
  have hb : b.toNat < 256 := b.toNat_lt
  by_cases hlt : b.toNat < 16
  · rw [Nat.toDigits_of_lt_base hlt, pair, Nat.div_eq_of_lt hlt, Nat.mod_eq_of_lt hlt]
    rfl
  · have hhi : b.toNat / 16 < 16 := by omega
    rw [Nat.toDigits_of_base_le (by omega) (by omega), Nat.toDigits_of_lt_base hhi]
    rfl

/-- Text of the bytes before the last one, each with its separator. -/
def started (separator : Char) (bytes : List UInt8) : List Char :=
  bytes.flatMap fun b => pair b ++ [separator]

theorem started_snoc (separator : Char) (bytes : List UInt8) (b : UInt8) :
    started separator (bytes ++ [b]) = started separator bytes ++ pair b ++ [separator] := by
  simp [started]

theorem joined_snoc (separator : Char) (bytes : List UInt8) (b : UInt8) :
    joined separator (bytes ++ [b]) = started separator bytes ++ pair b := by
  induction bytes with
  | nil => simp [joined, started]
  | cons x rest ih =>
    have hne : (rest ++ [b]).map pair ≠ [] := by simp
    have hrest : List.intercalate [separator] ((rest ++ [b]).map pair) =
        started separator rest ++ pair b := ih
    rw [joined, List.cons_append, List.map_cons, List.intercalate_cons_of_ne_nil hne, hrest]
    simp [started]

theorem decode_joined (separator : Char) (bytes : List UInt8) :
    decode separator (joined separator bytes) = some bytes := by
  induction bytes with
  | nil => rfl
  | cons b rest ih =>
    cases rest with
    | nil => simp [joined, pair, decode, byte_pair]
    | cons x rest =>
      have htext : joined separator (b :: x :: rest) =
          Nat.digitChar (b.toNat / 16) :: Nat.digitChar (b.toNat % 16) :: separator ::
            joined separator (x :: rest) := by
        simp [joined, pair]
      rw [htext, decode, if_pos rfl, byte_pair, ih]

end Hex
