import HidraNet.Lib.Json
import HidraNet.Lib.Text

/-!
# JSON as it is read

A text as the value it writes, or nothing where it is not JSON: white space between the parts, every escape, and of a
surrogate's escape only a pair.  A number is kept as it is written.
-/

namespace HidraNet.Json

open Text

def isBlank (c : Char) : Bool := c = ' ' || c = '\t' || c = '\n' || c = '\r'

def skip (text : List Char) : List Char := text.dropWhile isBlank

/-- What one letter after a backslash stands for. -/
def unescape (c : Char) : Option Char :=
  if c = '"' ∨ c = '\\' ∨ c = '/' then some c
  else if c = 'b' then some '\x08'
  else if c = 'f' then some '\x0c'
  else if c = 'n' then some '\n'
  else if c = 'r' then some '\r'
  else if c = 't' then some '\t'
  else none

def hexUnit (digits : List Char) : Option Nat := (digits.mapM hexVal).map fun values => values.foldl (16 * · + ·) 0

/-- What stands before the quote that ends a string, and what after. -/
def readChars : List Char → Option (List Char × List Char)
  | [] => none
  | c :: rest =>
    if c = '"' then some ([], rest)
    else if c.toNat < 0x20 then none
    else if c = '\\' then
      match rest with
      | 'u' :: a :: b :: c :: d :: rest =>
        (hexUnit [a, b, c, d]).bind fun u =>
          if u < 0xD800 ∨ 0xE000 ≤ u then (readChars rest).map fun r => (Char.ofNat u :: r.1, r.2)
          else
            match rest with
            | '\\' :: 'u' :: a :: b :: c :: d :: rest =>
              (hexUnit [a, b, c, d]).bind fun l =>
                if u < 0xDC00 ∧ 0xDC00 ≤ l ∧ l < 0xE000 then
                  (readChars rest).map fun r =>
                    (Char.ofNat (0x10000 + (u - 0xD800) * 0x400 + (l - 0xDC00)) :: r.1, r.2)
                else none
            | _ => none
      | e :: rest => (unescape e).bind fun e => (readChars rest).map fun r => (e :: r.1, r.2)
      | [] => none
    else (readChars rest).map fun r => (c :: r.1, r.2)

def isDigits (text : List Char) : Bool := text ≠ [] && text.all Char.isDigit

def isNumber (text : List Char) : Bool :=
  let mantissa := text.takeWhile fun c => c ≠ 'e' && c ≠ 'E'
  let exponent := text.drop mantissa.length
  let unsigned := if mantissa.head? = some '-' then mantissa.tail else mantissa
  let whole := unsigned.takeWhile (· ≠ '.')
  let fraction := unsigned.drop whole.length
  let power := exponent.tail
  isDigits whole && (whole.length = 1 || whole.head? ≠ some '0') && (fraction = [] || isDigits fraction.tail) &&
    (exponent = [] || isDigits (if power.head? = some '-' ∨ power.head? = some '+' then power.tail else power))

def inNumber (c : Char) : Bool := c.isDigit || c = '-' || c = '+' || c = '.' || c = 'e' || c = 'E'

def readNumber (text : List Char) : Option (Value × List Char) :=
  let written := text.takeWhile inNumber
  if isNumber written then some (.number written, text.drop written.length) else none

mutual

def readValue : Nat → List Char → Option (Value × List Char)
  | 0, _ => none
  | n + 1, text =>
    match skip text with
    | '"' :: rest => (readChars rest).map fun r => (.string r.1, r.2)
    | '[' :: rest =>
      match skip rest with
      | ']' :: rest => some (.array [], rest)
      | _ => (readItems n rest).map fun r => (.array r.1, r.2)
    | '\x7b' :: rest =>
      match skip rest with
      | '\x7d' :: rest => some (.object [], rest)
      | _ => (readFields n rest).map fun r => (.object r.1, r.2)
    | 'n' :: 'u' :: 'l' :: 'l' :: rest => some (.null, rest)
    | 't' :: 'r' :: 'u' :: 'e' :: rest => some (.bool true, rest)
    | 'f' :: 'a' :: 'l' :: 's' :: 'e' :: rest => some (.bool false, rest)
    | text => readNumber text

def readItems : Nat → List Char → Option (List Value × List Char)
  | 0, _ => none
  | n + 1, text =>
    (readValue n text).bind fun r =>
      match skip r.2 with
      | ',' :: rest => (readItems n rest).map fun more => (r.1 :: more.1, more.2)
      | ']' :: rest => some ([r.1], rest)
      | _ => none

def readFields : Nat → List Char → Option (List (List Char × Value) × List Char)
  | 0, _ => none
  | n + 1, text =>
    match skip text with
    | '"' :: rest =>
      (readChars rest).bind fun name =>
        match skip name.2 with
        | ':' :: rest =>
          (readValue n rest).bind fun r =>
            match skip r.2 with
            | ',' :: rest => (readFields n rest).map fun more => ((name.1, r.1) :: more.1, more.2)
            | '\x7d' :: rest => some ([(name.1, r.1)], rest)
            | _ => none
        | _ => none
    | _ => none

end

def parse (text : List Char) : Option Value :=
  (readValue (text.length + 1) text).bind fun r => if skip r.2 = [] then some r.1 else none

/-! ### Strings -/

def Bare (text : List Char) : Prop := ∀ c ∈ text, 0x20 ≤ c.toNat ∧ c ≠ '"' ∧ c ≠ '\\'

instance (text : List Char) : Decidable (Bare text) := List.decidableBAll ..

theorem readChars_plain {c : Char} (h : 0x20 ≤ c.toNat ∧ c ≠ '"' ∧ c ≠ '\\') (rest : List Char) :
    readChars (c :: rest) = (readChars rest).map fun r => (c :: r.1, r.2) := by
  rw [readChars.eq_def]
  dsimp only
  rw [if_neg h.2.1, if_neg (by omega), if_neg h.2.2]

theorem readChars_bare {s : List Char} (h : Bare s) (rest : List Char) :
    readChars (s ++ '"' :: rest) = some (s, rest) := by
  induction s with
  | nil =>
    rw [List.nil_append, readChars.eq_def]
    rfl
  | cons c s ih =>
    obtain ⟨hc, hs⟩ := List.forall_mem_cons.1 h
    rw [List.cons_append, readChars_plain hc, ih hs]
    rfl

theorem readChars_escaped {c e : Char} (h : unescape e = some c) (rest : List Char) :
    readChars ('\\' :: e :: rest) = (readChars rest).map fun r => (c :: r.1, r.2) := by
  have hu : e ≠ 'u' := by
    rintro rfl
    cases h
  rw [readChars.eq_def]
  dsimp only
  rw [if_neg (by decide), if_neg (by decide), if_pos rfl]
  split
  · rename_i heq
    exact absurd (List.cons.inj heq).1 hu
  · rename_i heq
    cases heq
    rw [h]
    rfl
  · rename_i heq
    cases heq

/-- No more is read than was written, and as much only where no escape was. -/
theorem length_of_readChars {text s r : List Char} (h : readChars text = some (s, r)) :
    s.length + r.length + 1 ≤ text.length ∧ (s.length + r.length + 1 = text.length → Bare s) := by
  fun_induction readChars text generalizing s r with
  | case1 => cases h
  | case2 rest =>
    cases h
    exact ⟨by simp, fun _ c hc => absurd hc List.not_mem_nil⟩
  | case3 => cases h
  | case4 a b c d rest _ _ ih ihpair =>
    obtain ⟨u, -, h⟩ := Option.bind_eq_some_iff.1 h
    simp only [List.length_cons]
    split at h
    · obtain ⟨p, hp, heq⟩ := Option.map_eq_some_iff.1 h
      cases heq
      have hle := (ih hp).1
      simp only [List.length_cons]
      omega
    · split at h
      · obtain ⟨l, -, h⟩ := Option.bind_eq_some_iff.1 h
        split at h
        · obtain ⟨p, hp, heq⟩ := Option.map_eq_some_iff.1 h
          cases heq
          have hle := (ihpair hp).1
          simp only [List.length_cons]
          omega
        · cases h
      · cases h
  | case5 e rest _ _ _ ih =>
    obtain ⟨e', -, h⟩ := Option.bind_eq_some_iff.1 h
    obtain ⟨p, hp, heq⟩ := Option.map_eq_some_iff.1 h
    cases heq
    have hle := (ih hp).1
    simp only [List.length_cons]
    omega
  | case6 => cases h
  | case7 c rest hquote hlow hslash ih =>
    obtain ⟨p, hp, heq⟩ := Option.map_eq_some_iff.1 h
    cases heq
    obtain ⟨hle, hbare⟩ := ih hp
    simp only [List.length_cons]
    refine ⟨by omega, fun hsame => List.forall_mem_cons.2 ⟨⟨by omega, hquote, hslash⟩, hbare (by omega)⟩⟩

/-! ### Numbers -/

theorem digit_of_number {n : Nat} {c : Char} (h : c ∈ number n) : c.isDigit = true :=
  Nat.isDigit_of_mem_toDigits (by decide) (by decide) h

theorem head?_number (n : Nat) (hn : 0 < n) : (number n).head? ≠ some '0' := by
  induction n using Nat.strong_induction_on with
  | _ n ih =>
    unfold number at ih ⊢
    rw [Nat.toDigits_eq_if (by decide)]
    split
    · interval_cases n <;> decide
    · have hlt := ih (n / 10) (by omega) (by omega)
      rw [List.head?_append_of_ne_nil _ Nat.toDigits_ne_nil]
      exact hlt

theorem isNumber_number (n : Nat) : isNumber (number n) = true := by
  have hall : ∀ p : Char → Bool, (∀ c, c.isDigit = true → p c = true) → (number n).takeWhile p = number n := fun p hp =>
    List.takeWhile_eq_self_iff.2 fun c hc => hp c (digit_of_number hc)
  have hne : number n ≠ [] := Nat.toDigits_ne_nil
  have hminus : (number n).head? ≠ some '-' := by
    intro hhead
    have hdigit := digit_of_number (List.mem_of_mem_head? hhead)
    exact absurd hdigit (by decide)
  have hdigits : isDigits (number n) = true := by
    unfold isDigits
    rw [Bool.and_eq_true, decide_eq_true_eq, List.all_eq_true]
    exact ⟨hne, fun c hc => digit_of_number hc⟩
  have hzero : (number n).length = 1 ∨ (number n).head? ≠ some '0' := by
    obtain rfl | hn := Nat.eq_zero_or_pos n
    · exact .inl rfl
    · exact .inr (head?_number n hn)
  have hexp := hall (fun c => c ≠ 'e' && c ≠ 'E') (by
    intro c hc
    rw [Bool.and_eq_true, decide_eq_true_eq, decide_eq_true_eq]
    constructor <;> (rintro rfl; revert hc; decide))
  have hfrac := hall (fun c => c ≠ '.') (by
    intro c hc
    rw [decide_eq_true_eq]
    rintro rfl
    revert hc
    decide)
  unfold isNumber
  simp only [hexp, if_neg hminus, hfrac, List.drop_length, hdigits]
  simpa using hzero

theorem readValue_number (n : Nat) (k : Nat) {c : Char} (hc : inNumber c = false) (rest : List Char) :
    readValue (k + 1) (number n ++ c :: rest) = some (.nat n, c :: rest) := by
  have hread : readNumber (number n ++ c :: rest) = some (.nat n, c :: rest) := by
    have htake : (number n ++ c :: rest).takeWhile inNumber = number n := by
      rw [List.takeWhile_append_of_pos fun d hd => by simp [inNumber, digit_of_number hd],
        List.takeWhile_cons_of_neg (by simp [hc]), List.append_nil]
    unfold readNumber
    rw [htake]
    simp [isNumber_number, Value.nat]
  rw [← hread]
  cases hnum : number n with
  | nil => exact absurd hnum Nat.toDigits_ne_nil
  | cons d ds =>
    have hdigit : d.isDigit = true := digit_of_number (n := n) (by rw [hnum]; exact List.mem_cons_self)
    have hskip : skip (d :: ds ++ c :: rest) = d :: ds ++ c :: rest := by
      unfold skip
      rw [List.cons_append, List.dropWhile_cons_of_neg]
      intro hblank
      simp only [isBlank, Bool.or_eq_true, decide_eq_true_eq] at hblank
      obtain ((rfl | rfl) | rfl) | rfl := hblank <;> revert hdigit <;> decide
    unfold readValue
    rw [hskip, List.cons_append]
    split <;> first | rfl | (rename_i heq; rw [(List.cons.inj heq).1] at hdigit; exact absurd hdigit (by decide))

/-! ### Fields -/

theorem readValue_string (n : Nat) (text : List Char) :
    readValue (n + 1) ('"' :: text) = (readChars text).map fun r => (.string r.1, r.2) := rfl

theorem readFields_quoted {name : List Char} (h : Bare name) (n : Nat) (text : List Char) :
    readFields (n + 1) ('"' :: (name ++ '"' :: ':' :: text)) = (readValue n text).bind fun r =>
      match skip r.2 with
      | ',' :: rest => (readFields n rest).map fun more => ((name, r.1) :: more.1, more.2)
      | '\x7d' :: rest => some ([(name, r.1)], rest)
      | _ => none := by
  show (readChars (name ++ '"' :: ':' :: text)).bind _ = _
  rw [readChars_bare h]
  rfl

/-- An object with a field, read as its fields are. -/
theorem parse_object (text : List Char) : parse ('\x7b' :: '"' :: text) =
    (readFields (text.length + 2) ('"' :: text)).bind fun r => if skip r.2 = [] then some (.object r.1) else none := by
  show ((readFields (text.length + 2) ('"' :: text)).map _).bind _ = _
  rw [Option.bind_map]
  rfl

end HidraNet.Json
