import HidraNet.Lib.Text

/-!
# Decimal numbers

Numbers written with zeros in front up to a width, as `format!` pads them, and read back (`ofDigitChars_padded`).  The
value of a text of digits is below the power of ten of its length (`ofDigitChars_lt`).
-/

namespace HidraNet.Decimal

open Text

/-- `{:0w$}` of an unsigned number. -/
def padded (w n : Nat) : List Char := List.replicate (w - (Nat.toDigits 10 n).length) '0' ++ Nat.toDigits 10 n

/-- `{:0w$}` of a signed number; the sign counts. -/
def paddedInt (w : Nat) (n : Int) : List Char := if n < 0 then '-' :: padded (w - 1) n.natAbs else padded w n.natAbs

theorem length_padded {w n : Nat} (hw : 0 < w) (h : n < 10 ^ w) : (padded w n).length = w := by
  have hlen := (Nat.length_toDigits_le_iff (by decide) hw).2 h
  unfold padded
  rw [List.length_append, List.length_replicate]
  omega

theorem isDigit_of_mem_padded {w n : Nat} {c : Char} (h : c ∈ padded w n) : c.isDigit = true := by
  rcases List.mem_append.1 h with h | h
  · rw [List.eq_of_mem_replicate h]
    rfl
  · exact Nat.isDigit_of_mem_toDigits (by decide) (by decide) h

@[simp] theorem ofDigitChars_padded (w n : Nat) : Nat.ofDigitChars 10 (padded w n) 0 = n := by
  simp [padded, Nat.ofDigitChars_append]

theorem paddedInt_natCast (w n : Nat) : paddedInt w n = padded w n := by
  unfold paddedInt
  rw [if_neg (by omega), Int.natAbs_natCast]

theorem digit_lt {c : Char} (h : c.isDigit = true) : c.toNat - '0'.toNat < 10 := by
  simp only [Char.isDigit, Bool.and_eq_true, decide_eq_true_eq] at h
  have hle : c.val.toNat ≤ 57 := UInt32.le_iff_toNat_le.1 h.2
  show c.val.toNat - 48 < 10
  omega

theorem ofDigitChars_lt {l : List Char} (h : ∀ c ∈ l, c.isDigit = true) : Nat.ofDigitChars 10 l 0 < 10 ^ l.length := by
  induction l with
  | nil => simp
  | cons c l ih =>
    have hc := digit_lt (h c List.mem_cons_self)
    have hl := ih fun d hd => h d (List.mem_cons_of_mem _ hd)
    rw [Nat.ofDigitChars_cons, Nat.ofDigitChars_eq_ofDigitChars_zero, List.length_cons, Nat.pow_succ]
    have hmul : 10 ^ l.length * (10 * 0 + (c.toNat - '0'.toNat)) ≤ 10 ^ l.length * 9 := Nat.mul_le_mul_left _ (by omega)
    omega

theorem isWhitespace_of_isDigit {c : Char} (h : c.isDigit = true) : isWhitespace c = false := by
  simp only [Char.isDigit, Bool.and_eq_true, decide_eq_true_eq] at h
  have hge : 48 ≤ c.toNat := UInt32.le_iff_toNat_le.1 h.1
  have hle : c.toNat ≤ 57 := UInt32.le_iff_toNat_le.1 h.2
  by_contra hws
  simp only [isWhitespace, Bool.not_eq_false, Bool.or_eq_true, Bool.and_eq_true, decide_eq_true_eq, List.mem_cons,
    List.not_mem_nil, or_false, UInt32.le_iff_toNat_le, ← UInt32.toNat_inj] at hws
  simp at hws
  omega

end HidraNet.Decimal
