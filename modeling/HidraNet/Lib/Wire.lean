import Mathlib

/-!
# Numbers as bytes

The `k` bytes of a number, most significant first (`beBytes`) or last (`leBytes`), and the number back from them.  A
number below `256 ^ k` is its `k` bytes (`ofBe_beBytes`), so that different ones have different bytes.
-/

namespace HidraNet.Wire

def beBytes : Nat → Nat → List UInt8
  | 0, _ => []
  | k + 1, n => UInt8.ofNat (n / 256 ^ k) :: beBytes k n

def leBytes (k n : Nat) : List UInt8 := (beBytes k n).reverse

def ofBe (bytes : List UInt8) : Nat := bytes.foldl (fun n b => n * 256 + b.toNat) 0

def ofLe (bytes : List UInt8) : Nat := ofBe bytes.reverse

@[simp] theorem length_beBytes (k n : Nat) : (beBytes k n).length = k := by
  induction k with
  | zero => rfl
  | succ k ih => simp [beBytes, ih]

@[simp] theorem length_leBytes (k n : Nat) : (leBytes k n).length = k := by simp [leBytes]

private theorem foldl_beBytes (k n acc : Nat) :
    (beBytes k n).foldl (fun n b => n * 256 + b.toNat) acc = acc * 256 ^ k + n % 256 ^ k := by
  induction k generalizing acc with
  | zero => simp [beBytes, Nat.mod_one]
  | succ k ih =>
    have hbyte : (UInt8.ofNat (n / 256 ^ k)).toNat = n / 256 ^ k % 256 := UInt8.toNat_ofNat'
    rw [beBytes, List.foldl_cons, ih, hbyte, Nat.mod_pow_succ]
    ring

theorem ofBe_beBytes {k n : Nat} (h : n < 256 ^ k) : ofBe (beBytes k n) = n := by
  rw [ofBe, foldl_beBytes, Nat.mod_eq_of_lt h]
  omega

theorem ofLe_leBytes {k n : Nat} (h : n < 256 ^ k) : ofLe (leBytes k n) = n := by
  rw [ofLe, leBytes, List.reverse_reverse, ofBe_beBytes h]

theorem beBytes_inj {k m n : Nat} (hm : m < 256 ^ k) (hn : n < 256 ^ k) (h : beBytes k m = beBytes k n) : m = n := by
  rw [← ofBe_beBytes hm, ← ofBe_beBytes hn, h]

end HidraNet.Wire
