import Mathlib

/-!
# Numbers in one base and another

A number held as its digits, the lowest first, times a factor and plus a carry (`mulAdd_digits`).  Where the zeros in
front of a text are kept apart, the way to another base and back gives the text again (`convert_convert`).
-/

namespace HidraNet.Positional

def mulAdd (b m : Nat) : List Nat → Nat → List Nat
  | [], carry => Nat.digits b carry
  | d :: ds, carry => (carry + d * m) % b :: mulAdd b m ds ((carry + d * m) / b)

theorem mulAdd_digits {b m : Nat} (hb : 1 < b) (hm : 0 < m) (n carry : Nat) :
    mulAdd b m (Nat.digits b n) carry = Nat.digits b (n * m + carry) := by
  induction n using Nat.strong_induction_on generalizing carry with
  | _ n ih =>
    rcases Nat.eq_zero_or_pos n with rfl | hn
    · simp [mulAdd]
    · -- the lowest digit apart, the rest is the quotient's
      have hsplit : n * m + carry = b * (n / b * m) + (carry + n % b * m) := by
        calc n * m + carry = (b * (n / b) + n % b) * m + carry := by rw [Nat.div_add_mod]
          _ = b * (n / b * m) + (carry + n % b * m) := by ring
      have hpos : 0 < n * m + carry := Nat.add_pos_left (Nat.mul_pos hn hm) carry
      rw [Nat.digits_def' hb hn, mulAdd, ih _ (Nat.div_lt_self hn hb), Nat.digits_def' hb hpos, hsplit,
        Nat.mul_add_mod, Nat.mul_add_div (by omega)]

theorem foldl_eq_ofDigits (m : Nat) (l : List Nat) (n : Nat) :
    l.foldl (fun n d => n * m + d) n = n * m ^ l.length + Nat.ofDigits m l.reverse := by
  induction l generalizing n with
  | nil => simp
  | cons d l ih =>
    rw [List.foldl_cons, ih, List.reverse_cons, Nat.ofDigits_append, List.length_reverse, List.length_cons,
      Nat.ofDigits_singleton]
    ring

theorem carry_lt {b m d carry : Nat} (hd : d < b) (hc : carry < m) : (carry + d * m) / b < m := by
  rw [Nat.div_lt_iff_lt_mul (by omega)]
  calc carry + d * m < m + d * m := Nat.add_lt_add_right hc _
    _ = m * (d + 1) := by ring
    _ ≤ m * b := Nat.mul_le_mul_left m hd

theorem carry_sum_lt {b m d carry : Nat} (hd : d < b) (hc : carry < m) : carry + d * m < m * b := by
  have h := carry_lt hd hc
  rwa [Nat.div_lt_iff_lt_mul (by omega)] at h

/-! ### Texts with zeros in front -/

def zeros (l : List Nat) : Nat := (l.takeWhile (· = 0)).length

/-- The digits in base `b` of a text of digits in base `m`, the highest first, as many zeros in front as it has. -/
def convert (b m : Nat) (l : List Nat) : List Nat :=
  List.replicate (zeros l) 0 ++ (Nat.digits b (Nat.ofDigits m l.reverse)).reverse

theorem mem_convert_lt {b m d : Nat} (hb : 1 < b) {l : List Nat} (h : d ∈ convert b m l) : d < b := by
  rcases List.mem_append.1 h with h | h
  · rw [List.eq_of_mem_replicate h]
    exact Nat.zero_lt_of_lt hb
  · exact Nat.digits_lt_base hb (List.mem_reverse.1 h)

private theorem zeros_replicate_append {z : Nat} {l : List Nat} (h : ∀ d ∈ l.head?, d ≠ 0) :
    zeros (List.replicate z 0 ++ l) = z := by
  unfold zeros
  rw [List.takeWhile_append_of_pos fun d hd => decide_eq_true (List.eq_of_mem_replicate hd)]
  cases l with
  | nil => simp
  | cons d l => simp [h d (by simp)]

private theorem replicate_zeros_append (l : List Nat) : List.replicate (zeros l) 0 ++ l.dropWhile (· = 0) = l := by
  have htake : l.takeWhile (· = 0) = List.replicate (zeros l) 0 :=
    List.eq_replicate_of_mem fun d hd => by simpa using List.mem_takeWhile_imp hd
  rw [← htake]
  exact List.takeWhile_append_dropWhile

private theorem ofDigits_zeros_append (m z : Nat) (l : List Nat) :
    Nat.ofDigits m (List.replicate z 0 ++ l).reverse = Nat.ofDigits m l.reverse := by
  rw [List.reverse_append, List.reverse_replicate, Nat.ofDigits_append_replicate_zero]

private theorem head?_digits_reverse {b n d : Nat} (h : d ∈ (Nat.digits b n).reverse.head?) : d ≠ 0 := by
  rw [List.head?_reverse] at h
  have hn : n ≠ 0 := by
    rintro rfl
    simp at h
  have hne : Nat.digits b n ≠ [] := Nat.digits_ne_nil_iff_ne_zero.2 hn
  rw [List.getLast?_eq_some_getLast hne] at h
  obtain rfl := Option.some.inj h
  exact Nat.getLast_digit_ne_zero b hn

theorem convert_convert {b m : Nat} (hm : 1 < m) {l : List Nat} (h : ∀ d ∈ l, d < m) :
    convert m b (convert b m l) = l := by
  have hzeros : zeros (convert b m l) = zeros l := zeros_replicate_append fun _ => head?_digits_reverse
  have hvalue : Nat.ofDigits b (convert b m l).reverse = Nat.ofDigits m (l.dropWhile (· = 0)).reverse := by
    conv_rhs => rw [← ofDigits_zeros_append m (zeros l), replicate_zeros_append]
    rw [convert, ofDigits_zeros_append, List.reverse_reverse, Nat.ofDigits_digits]
  have hdigits : Nat.digits m (Nat.ofDigits m (l.dropWhile (· = 0)).reverse) = (l.dropWhile (· = 0)).reverse := by
    apply Nat.digits_ofDigits m hm
    · intro d hd
      exact h d ((List.dropWhile_suffix _).subset (List.mem_reverse.1 hd))
    · intro hne
      rw [List.getLast_reverse]
      have hhead := List.head_dropWhile_not (fun d => decide (d = 0)) (by simpa using hne)
      simpa using hhead
  rw [convert, hzeros, hvalue, hdigits, List.reverse_reverse, replicate_zeros_append]

end HidraNet.Positional
