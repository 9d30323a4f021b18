import Mathlib.Tactic

/-!
# Lib.Checked

Integer arithmetic within a range: an operation whose exact result leaves the range has no value.
An expression that has a value in this arithmetic overflows nowhere on the way to it.

* `check`                  — the value, if the range has it.
* `add_of_le`, `mul_of_le` — operations on values between zero and known bounds.
-/

namespace Checked

structure Range where
  lo : Int
  hi : Int

/-- The values of a signed type of `w` bits. -/
def signed (w : Nat) : Range := ⟨-2 ^ (w - 1), 2 ^ (w - 1) - 1⟩

def Range.Has (R : Range) (x : Int) : Prop := R.lo ≤ x ∧ x ≤ R.hi

instance (R : Range) (x : Int) : Decidable (R.Has x) := inferInstanceAs (Decidable (_ ∧ _))

def check (R : Range) (x : Int) : Option Int := if R.Has x then some x else none

def add (R : Range) (x y : Int) : Option Int := check R (x + y)

def mul (R : Range) (x y : Int) : Option Int := check R (x * y)

section Rules

variable {R : Range} {x y a b : Int}

theorem check_of_has (h : R.Has x) : check R x = some x := if_pos h

/-- A value between zero and a bound of the range. -/
theorem check_of_le (hR : R.lo ≤ 0) (hx : 0 ≤ x) (ha : x ≤ a) (hb : a ≤ R.hi) :
    check R x = some x :=
  check_of_has ⟨hR.trans hx, ha.trans hb⟩

theorem add_of_le (hR : R.lo ≤ 0) (hx : 0 ≤ x) (hxa : x ≤ a) (hy : 0 ≤ y) (hyb : y ≤ b)
    (h : a + b ≤ R.hi) : add R x y = some (x + y) :=
  check_of_le hR (add_nonneg hx hy) (add_le_add hxa hyb) h

theorem mul_of_le (hR : R.lo ≤ 0) (hx : 0 ≤ x) (hxa : x ≤ a) (hy : 0 ≤ y) (hyb : y ≤ b)
    (h : a * b ≤ R.hi) : mul R x y = some (x * y) :=
  check_of_le hR (mul_nonneg hx hy) (mul_le_mul hxa hyb hy (hx.trans hxa)) h

end Rules

end Checked
