import Mathlib

/-!
# Base64

The standard alphabet with padding, as bytes are written (`encode`) and as strictly as they are read (`decode`): whole
groups of four, padding in the last group only, and no bits behind it.  What is written is read back (`decode_encode`),
nothing else is read (`encode_of_decode`), and what is written has no character but letters, digits, `+`, `/` and `=`
(`mem_encode`).  Browsers read more (`atob`).
-/

namespace HidraNet.Base64

def digit (n : Nat) : Char :=
  if n < 26 then Char.ofNat (65 + n)
  else if n < 52 then Char.ofNat (71 + n)
  else if n < 62 then Char.ofNat (n - 4)
  else if n = 62 then '+' else '/'

def value (c : Char) : Option Nat :=
  if c.isUpper then some (c.toNat - 65)
  else if c.isLower then some (c.toNat - 71)
  else if c.isDigit then some (c.toNat + 4)
  else if c = '+' then some 62
  else if c = '/' then some 63
  else none

def encode : List UInt8 → List Char
  | [] => []
  | [a] => [digit (a.toNat / 4), digit (a.toNat % 4 * 16), '=', '=']
  | [a, b] => [digit (a.toNat / 4), digit (a.toNat % 4 * 16 + b.toNat / 16), digit (b.toNat % 16 * 4), '=']
  | a :: b :: c :: rest =>
    digit (a.toNat / 4) :: digit (a.toNat % 4 * 16 + b.toNat / 16) :: digit (b.toNat % 16 * 4 + c.toNat / 64) ::
      digit (c.toNat % 64) :: encode rest

def one (p q : Char) : Option (List UInt8) := do
  let p ← value p
  let q ← value q
  if q % 16 = 0 then some [UInt8.ofNat (p * 4 + q / 16)] else none

def two (p q r : Char) : Option (List UInt8) := do
  let p ← value p
  let q ← value q
  let r ← value r
  if r % 4 = 0 then some [UInt8.ofNat (p * 4 + q / 16), UInt8.ofNat (q % 16 * 16 + r / 4)] else none

def three (p q r s : Char) : Option (List UInt8) := do
  let p ← value p
  let q ← value q
  let r ← value r
  let s ← value s
  some [UInt8.ofNat (p * 4 + q / 16), UInt8.ofNat (q % 16 * 16 + r / 4), UInt8.ofNat (r % 4 * 64 + s)]

def decode : List Char → Option (List UInt8)
  | [] => some []
  | p :: q :: r :: s :: rest =>
    if s = '=' ∧ rest = [] then if r = '=' then one p q else two p q r
    else (three p q r s).bind fun bytes => (decode rest).map (bytes ++ ·)
  | _ => none

example : encode [77, 97] = "TWE=".toList ∧ decode "TWF=".toList = none := by decide

theorem value_digit {n : Nat} (h : n < 64) : value (digit n) = some n := by
  revert n
  decide

theorem digit_ne_pad (n : Nat) : digit n ≠ '=' := by
  by_cases h : n < 64
  · intro heq
    have hvalue := value_digit h
    rw [heq] at hvalue
    exact absurd (hvalue.symm.trans (show value '=' = none by decide)) (by nofun)
  · unfold digit
    rw [if_neg (by omega), if_neg (by omega), if_neg (by omega), if_neg (by omega)]
    decide

private theorem ofNat_of_eq {a : UInt8} {n : Nat} (h : n = a.toNat) : UInt8.ofNat n = a := by
  rw [h, UInt8.ofNat_toNat]

theorem decode_encode (bytes : List UInt8) : decode (encode bytes) = some bytes := by
  fun_induction encode bytes with
  | case1 => rfl
  | case2 a =>
    have ha := a.toNat_lt
    unfold decode one
    rw [if_pos ⟨rfl, rfl⟩, if_pos rfl, value_digit (by omega), value_digit (by omega)]
    simp only [bind, Option.bind_some]
    rw [if_pos (by omega), @ofNat_of_eq a _ (by omega)]
  | case3 a b =>
    have ha := a.toNat_lt
    have hb := b.toNat_lt
    unfold decode two
    rw [if_pos ⟨rfl, rfl⟩, if_neg (digit_ne_pad _), value_digit (by omega), value_digit (by omega),
      value_digit (by omega)]
    simp only [bind, Option.bind_some]
    rw [if_pos (by omega), @ofNat_of_eq a _ (by omega), @ofNat_of_eq b _ (by omega)]
  | case4 a b c rest ih =>
    have ha := a.toNat_lt
    have hb := b.toNat_lt
    have hc := c.toNat_lt
    unfold decode three
    rw [if_neg (fun h => digit_ne_pad _ h.1), value_digit (by omega), value_digit (by omega), value_digit (by omega),
      value_digit (by omega), ih]
    simp only [bind, Option.bind_some, Option.map_some]
    rw [@ofNat_of_eq a _ (by omega), @ofNat_of_eq b _ (by omega), @ofNat_of_eq c _ (by omega)]
    rfl

private theorem value_small : ∀ a < 128, ∀ n ∈ value (Char.ofNat a), n < 64 ∧ digit n = Char.ofNat a := by
  decide

theorem digit_of_value {c : Char} {n : Nat} (h : value c = some n) : n < 64 ∧ digit n = c := by
  have hc : c.toNat < 128 := by
    have hcodes : 'Z'.toNat = 90 ∧ 'z'.toNat = 122 ∧ '9'.toNat = 57 ∧ '+'.toNat = 43 ∧ '/'.toNat = 47 :=
      ⟨rfl, rfl, rfl, rfl, rfl⟩
    unfold value at h
    split_ifs at h with hupper hlower hdigit hplus hslash
    · have hle : c.toNat ≤ 'Z'.toNat := by
        unfold Char.isUpper at hupper
        exact UInt32.le_iff_toNat_le.1 (of_decide_eq_true hupper).2
      omega
    · have hle : c.toNat ≤ 'z'.toNat := by
        unfold Char.isLower at hlower
        exact UInt32.le_iff_toNat_le.1 (of_decide_eq_true (Bool.and_eq_true _ _ ▸ hlower).2)
      omega
    · have hle := (Char.isDigit_iff_toNat.1 hdigit).2
      omega
    · rw [hplus]
      decide
    · rw [hslash]
      decide
  have hsmall := value_small c.toNat hc n
  rw [Char.ofNat_toNat] at hsmall
  exact hsmall h

private theorem digit_of_value' {c : Char} {n m : Nat} (h : value c = some n) (hm : m = n) : digit m = c := by
  rw [hm]
  exact (digit_of_value h).2

private theorem toNat_ofNat {n : Nat} (h : n < 256) : (UInt8.ofNat n).toNat = n := by
  rw [UInt8.toNat_ofNat']
  exact Nat.mod_eq_of_lt h

/-- A text that is read is the one that is written. -/
theorem encode_of_decode {l : List Char} {bytes : List UInt8} (h : decode l = some bytes) : encode bytes = l := by
  fun_induction decode l generalizing bytes with
  | case1 =>
    cases h
    rfl
  | case2 p q s rest hpad =>
    obtain ⟨rfl, rfl⟩ := hpad
    unfold one at h
    obtain ⟨x, hx, h⟩ := Option.bind_eq_some_iff.1 h
    obtain ⟨y, hy, h⟩ := Option.bind_eq_some_iff.1 h
    split_ifs at h with hzero
    obtain rfl := Option.some.inj h
    have hxlt := (digit_of_value hx).1
    have hylt := (digit_of_value hy).1
    unfold encode
    rw [toNat_ofNat (by omega), digit_of_value' hx (by omega), digit_of_value' hy (by omega)]
  | case3 p q r s rest hpad hr =>
    obtain ⟨rfl, rfl⟩ := hpad
    unfold two at h
    obtain ⟨x, hx, h⟩ := Option.bind_eq_some_iff.1 h
    obtain ⟨y, hy, h⟩ := Option.bind_eq_some_iff.1 h
    obtain ⟨z, hz, h⟩ := Option.bind_eq_some_iff.1 h
    split_ifs at h with hzero
    obtain rfl := Option.some.inj h
    have hxlt := (digit_of_value hx).1
    have hylt := (digit_of_value hy).1
    have hzlt := (digit_of_value hz).1
    unfold encode
    rw [toNat_ofNat (by omega), toNat_ofNat (by omega), digit_of_value' hx (by omega), digit_of_value' hy (by omega),
      digit_of_value' hz (by omega)]
  | case4 p q r s rest hpad ih =>
    obtain ⟨group, hgroup, h⟩ := Option.bind_eq_some_iff.1 h
    obtain ⟨bytes', hbytes, rfl⟩ := Option.map_eq_some_iff.1 h
    unfold three at hgroup
    obtain ⟨x, hx, hgroup⟩ := Option.bind_eq_some_iff.1 hgroup
    obtain ⟨y, hy, hgroup⟩ := Option.bind_eq_some_iff.1 hgroup
    obtain ⟨z, hz, hgroup⟩ := Option.bind_eq_some_iff.1 hgroup
    obtain ⟨w, hw, hgroup⟩ := Option.bind_eq_some_iff.1 hgroup
    obtain rfl := Option.some.inj hgroup
    have hxlt := (digit_of_value hx).1
    have hylt := (digit_of_value hy).1
    have hzlt := (digit_of_value hz).1
    have hwlt := (digit_of_value hw).1
    simp only [List.cons_append, List.nil_append]
    unfold encode
    rw [toNat_ofNat (by omega), toNat_ofNat (by omega), toNat_ofNat (by omega), digit_of_value' hx (by omega),
      digit_of_value' hy (by omega), digit_of_value' hz (by omega), digit_of_value' hw (by omega), ih hbytes]
  | case5 => cases h

def written (c : Char) : Bool := c.isAlphanum || c == '+' || c == '/' || c == '='

theorem written_digit (n : Nat) : written (digit n) := by
  by_cases h : n < 64
  · revert n
    decide
  · unfold digit
    rw [if_neg (by omega), if_neg (by omega), if_neg (by omega), if_neg (by omega)]
    decide

theorem mem_encode {bytes : List UInt8} {c : Char} (h : c ∈ encode bytes) : written c := by
  have hpad : written '=' := by decide
  fun_induction encode bytes with
  | case1 => cases h
  | case2 a =>
    simp only [List.mem_cons, List.not_mem_nil, or_false] at h
    rcases h with rfl | rfl | rfl | rfl <;> first | exact written_digit _ | exact hpad
  | case3 a b =>
    simp only [List.mem_cons, List.not_mem_nil, or_false] at h
    rcases h with rfl | rfl | rfl | rfl <;> first | exact written_digit _ | exact hpad
  | case4 a b c' rest ih =>
    simp only [List.mem_cons] at h
    rcases h with rfl | rfl | rfl | rfl | h
    · exact written_digit _
    · exact written_digit _
    · exact written_digit _
    · exact written_digit _
    · exact ih h

/-! ### As browsers read it -/

def isSpace (c : Char) : Bool := c ∈ [' ', '\t', '\n', '\x0c', '\r']

/-- The bytes of the digits' values; bits behind the last byte are left. -/
def ofValues : List Nat → Option (List UInt8)
  | [] => some []
  | [_] => none
  | [p, q] => some [UInt8.ofNat (p * 4 + q / 16)]
  | [p, q, r] => some [UInt8.ofNat (p * 4 + q / 16), UInt8.ofNat (q % 16 * 16 + r / 4)]
  | p :: q :: r :: s :: rest => (ofValues rest).map fun bytes =>
    UInt8.ofNat (p * 4 + q / 16) :: UInt8.ofNat (q % 16 * 16 + r / 4) :: UInt8.ofNat (r % 4 * 64 + s) :: bytes

def unpadded (l : List Char) : List Char :=
  if l.length % 4 ≠ 0 then l
  else if ['=', '='].isSuffixOf l then l.take (l.length - 2)
  else if ['='].isSuffixOf l then l.take (l.length - 1)
  else l

def atob (l : List Char) : Option (List UInt8) := ((unpadded (l.filter (!isSpace ·))).mapM value).bind ofValues

theorem atob_other {c : Char} {l : List Char} (hspace : isSpace c = false) (hvalue : value c = none) :
    atob (c :: l) = none := by
  have hhead : ∃ rest, unpadded ((c :: l).filter (!isSpace ·)) = c :: rest := by
    have hfilter : (c :: l).filter (!isSpace ·) = c :: l.filter (!isSpace ·) := by simp [hspace]
    rw [hfilter]
    generalize l.filter (!isSpace ·) = rest
    unfold unpadded
    split_ifs with hwhole htwo hone
    · exact ⟨rest, rfl⟩
    · -- four or more, so that the first is not among the last two
      have hlength : 2 ≤ rest.length := by
        rw [List.length_cons] at hwhole
        omega
      refine ⟨rest.take (rest.length - 2), ?_⟩
      rw [List.length_cons, show rest.length + 1 - 2 = rest.length - 2 + 1 by omega, List.take_succ_cons]
    · have hlength : 1 ≤ rest.length := by
        rw [List.length_cons] at hwhole
        omega
      refine ⟨rest.take (rest.length - 1), ?_⟩
      rw [List.length_cons, show rest.length + 1 - 1 = rest.length - 1 + 1 by omega, List.take_succ_cons]
    · exact ⟨rest, rfl⟩
  obtain ⟨rest, hrest⟩ := hhead
  unfold atob
  rw [hrest, List.mapM_cons, hvalue]
  rfl

example : atob "TW F=".toList = some [77, 97] ∧ atob "TWE".toList = some [77, 97] := by decide

end HidraNet.Base64
