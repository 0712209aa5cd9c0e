import Mathlib

/-!
# Machine integers

Counts of the source are `u32` and `u64`; here they are natural numbers, and the operations whose result depends
on the width are written out: adding with saturation, and what a sum of the width keeps when it wraps (as a
release build adds).
-/

namespace HidraNet.Ints

/-- The largest `u32`. -/
def u32Max : Nat := 2 ^ 32 - 1

/-- `u32::saturating_add`. -/
def satAdd32 (a b : Nat) : Nat := min (a + b) u32Max

/-- `u64::saturating_add`. -/
def satAdd64 (a b : Nat) : Nat := min (a + b) (2 ^ 64 - 1)

/-- What a `u32` keeps of a sum. -/
def wrap32 (n : Nat) : Nat := n % 2 ^ 32

/-- What a `u64` keeps of a sum. -/
def wrap64 (n : Nat) : Nat := n % 2 ^ 64

theorem satAdd32_of_lt {a b : Nat} (h : a + b < 2 ^ 32) : satAdd32 a b = a + b := by
  unfold satAdd32 u32Max
  omega

end HidraNet.Ints
