import HidraNet.Core.PassIssuer
import HidraNet.Lib.Positional
import HidraNet.Lib.Utf8

/-!
# Base58

A transaction's signature and an address are bytes written in base58.  Both directions keep a number as its digits and
multiply and add with a carry, and are here as a build that checks its sums has them: none is an overflow.  None occurs
(`carryLoop_eq`), and what is read is `base58Decode` (`base58Decode_checked`).

What is written is read back, and what is read is written as it was, but for white space around it (`base58_bijective`).
-/

namespace HidraNet.Core

open Positional Text

/-- A `u32`, or none where it overflows. -/
def u32 (n : Nat) : Option Nat := if n < 2 ^ 32 then some n else none

def pushCarry (base : Nat) : Nat → Nat → List Nat
  | 0, _ => []
  | n + 1, carry => if carry > 0 then carry % base :: pushCarry base n (carry / base) else []

def carryLoop (base factor : Nat) : List Nat → Nat → Option (List Nat)
  | [], carry => some (pushCarry base carry carry)
  | d :: ds, carry => do
    let carry ← u32 (carry + (← u32 (d * factor)))
    return carry % base :: (← carryLoop base factor ds (carry / base))

/-- The digits read so far, of the rest of a text. -/
def decodeLoop : List UInt8 → List Nat → Option (Except String (List Nat))
  | [], out => some (.ok out)
  | c :: cs, out =>
    match ALPHABET.findIdx? (· = c) with
    | none => some (.error ("not base58: the character " ++ debugChar (Char.ofNat c.toNat)))
    | some carry => do decodeLoop cs (← carryLoop 256 58 out carry)

/-- Bytes of a base58 text. -/
def base58DecodeChecked (s : String) : Option (Except String (List UInt8)) :=
  let s := Utf8.encode (trim s).toList
  if s.isEmpty || s.length > 128 then some (.error "not base58: empty or too long")
  else do
    let out ← decodeLoop s []
    -- each leading '1' is a leading zero byte
    let zeros := (s.takeWhile (· = 49)).length
    return out.map fun out => (out ++ List.replicate zeros 0).reverse.map UInt8.ofNat

def base58EncodeChecked (bytes : List UInt8) : Option String := do
  let digits ← bytes.foldlM (fun digits b => carryLoop 58 256 digits b.toNat) []
  let zeros := (bytes.takeWhile (· = 0)).length
  let tail ← digits.reverse.mapM fun d => ALPHABET[d]?
  return String.ofList (List.replicate zeros '1' ++ tail.map fun a => Char.ofNat a.toNat)

example : base58EncodeChecked [0, 0, 1] = some "112" ∧ base58DecodeChecked " 112\n" = some (.ok [0, 0, 1]) := by
  decide

example : base58DecodeChecked "1\u00e9" = some (.error "not base58: the character 'Ã'") := by decide

/-! ### The loops -/

theorem pushCarry_eq {base : Nat} (hb : 1 < base) {n carry : Nat} (h : carry ≤ n) :
    pushCarry base n carry = Nat.digits base carry := by
  induction n generalizing carry with
  | zero =>
    obtain rfl : carry = 0 := Nat.le_zero.1 h
    simp [pushCarry]
  | succ n ih =>
    rw [pushCarry]
    split
    · rename_i hpos
      have hlt := Nat.div_lt_self hpos hb
      rw [Nat.digits_def' hb hpos, ih (by omega)]
    · rename_i hzero
      obtain rfl : carry = 0 := by omega
      simp

/-- With the digits below the base and the carry below the factor nothing overflows. -/
theorem carryLoop_eq {base factor : Nat} (hb : 1 < base) (hfits : factor * base ≤ 2 ^ 32) {ds : List Nat}
    (hds : ∀ d ∈ ds, d < base) {carry : Nat} (hc : carry < factor) :
    carryLoop base factor ds carry = some (mulAdd base factor ds carry) := by
  induction ds generalizing carry with
  | nil => rw [carryLoop, pushCarry_eq hb (Nat.le_refl _), mulAdd]
  | cons d ds ih =>
    have hd := hds d List.mem_cons_self
    have hsum := carry_sum_lt hd hc
    have hstep := ih (fun d h => hds d (List.mem_cons_of_mem _ h)) (carry_lt hd hc)
    rw [carryLoop, mulAdd, u32, if_pos (by omega), Option.bind_eq_bind, Option.bind_some, u32, if_pos (by omega),
      Option.bind_some, hstep]
    rfl

theorem carryLoop_digits {base factor : Nat} (hb : 1 < base) (hfits : factor * base ≤ 2 ^ 32) (n : Nat) {carry : Nat}
    (hc : carry < factor) :
    carryLoop base factor (Nat.digits base n) carry = some (Nat.digits base (n * factor + carry)) := by
  rw [carryLoop_eq hb hfits (fun d hd => Nat.digits_lt_base hb hd) hc, mulAdd_digits hb (by omega)]

/-! ### The alphabet -/

def byteOf (d : Nat) : UInt8 := ALPHABET.getD d 0

def symbol (d : Nat) : Char := Char.ofNat (byteOf d).toNat

private theorem alphabet_facts : ∀ d < 58, ALPHABET.findIdx? (· = byteOf d) = some d ∧ ALPHABET[d]? = some (byteOf d) ∧
    ((byteOf d = 49) ↔ d = 0) ∧ (symbol d).toNat = (byteOf d).toNat ∧ (byteOf d).toNat < 128 ∧
    isWhitespace (symbol d) = false := by
  decide

example : symbol 57 = 'z' := by decide

theorem eq_byteOf {c : UInt8} {d : Nat} (h : ALPHABET.findIdx? (· = c) = some d) : d < 58 ∧ c = byteOf d := by
  obtain ⟨hlt, heq, -⟩ := List.findIdx?_eq_some_iff_getElem.1 h
  refine ⟨hlt, ?_⟩
  rw [byteOf, List.getD_eq_getElem _ _ hlt]
  exact (of_decide_eq_true heq).symm

theorem encode_symbols {ds : List Nat} (h : ∀ d ∈ ds, d < 58) : Utf8.encode (ds.map symbol) = ds.map byteOf := by
  rw [Utf8.encode_ascii, List.map_map]
  · apply List.map_congr_left
    intro d hd
    have hfacts := alphabet_facts d (h d hd)
    simp [hfacts.2.2.2.1]
  · intro c hc
    obtain ⟨d, hd, rfl⟩ := List.mem_map.1 hc
    have hfacts := alphabet_facts d (h d hd)
    omega

theorem length_takeWhile_byteOf {ds : List Nat} (h : ∀ d ∈ ds, d < 58) :
    ((ds.map byteOf).takeWhile (· = 49)).length = zeros ds := by
  unfold zeros
  induction ds with
  | nil => rfl
  | cons d ds ih =>
    have hfacts := alphabet_facts d (h d List.mem_cons_self)
    have htail := ih fun d hd => h d (List.mem_cons_of_mem _ hd)
    rw [List.map_cons, List.takeWhile_cons, List.takeWhile_cons]
    by_cases hd : d = 0
    · rw [if_pos (decide_eq_true (hfacts.2.2.1.2 hd)), if_pos (decide_eq_true hd), List.length_cons, htail,
        List.length_cons]
    · have hne : ¬ byteOf d = 49 := fun heq => hd (hfacts.2.2.1.1 heq)
      rw [if_neg (by simpa using hne), if_neg (by simpa using hd)]
      rfl

/-! ### Encoding -/

theorem encode_digits (bytes : List UInt8) (n : Nat) :
    bytes.foldlM (fun digits b => carryLoop 58 256 digits b.toNat) (Nat.digits 58 n) =
      some (Nat.digits 58 ((bytes.map UInt8.toNat).foldl (fun n d => n * 256 + d) n)) := by
  induction bytes generalizing n with
  | nil => rfl
  | cons b bytes ih =>
    rw [List.foldlM_cons, carryLoop_digits (by decide) (by decide) n b.toNat_lt, Option.bind_eq_bind,
      Option.bind_some, ih]
    rfl

private theorem mapM_alphabet {ds : List Nat} (h : ∀ d ∈ ds, d < 58) :
    ds.mapM (fun d => ALPHABET[d]?) = some (ds.map byteOf) := by
  induction ds with
  | nil => rfl
  | cons d ds ih =>
    have hfacts := alphabet_facts d (h d List.mem_cons_self)
    rw [List.mapM_cons, hfacts.2.1, ih fun d hd => h d (List.mem_cons_of_mem _ hd)]
    rfl

private theorem takeWhile_toNat (bytes : List UInt8) :
    (bytes.takeWhile (· = 0)).length = zeros (bytes.map UInt8.toNat) := by
  have hzero : ∀ b : UInt8, decide (b.toNat = 0) = decide (b = 0) := fun b =>
    decide_eq_decide.2 (UInt8.toNat_inj (b := 0))
  unfold zeros
  rw [List.takeWhile_map, List.length_map]
  simp [Function.comp_def, hzero]

theorem base58EncodeChecked_eq (bytes : List UInt8) :
    base58EncodeChecked bytes = some (String.ofList ((convert 58 256 (bytes.map UInt8.toNat)).map symbol)) := by
  have hdigits := encode_digits bytes 0
  rw [Nat.digits_zero, foldl_eq_ofDigits, Nat.zero_mul, Nat.zero_add] at hdigits
  have hlt : ∀ d ∈ (Nat.digits 58 (Nat.ofDigits 256 (bytes.map UInt8.toNat).reverse)).reverse, d < 58 := by
    intro d hd
    exact Nat.digits_lt_base (by decide) (List.mem_reverse.1 hd)
  unfold base58EncodeChecked
  rw [hdigits, Option.bind_eq_bind, Option.bind_some]
  dsimp only
  rw [mapM_alphabet hlt, Option.bind_eq_bind, Option.bind_some, takeWhile_toNat, convert, List.map_append,
    List.map_replicate, List.map_map]
  rfl

/-! ### Decoding -/

theorem decodeLoop_byteOf {ds : List Nat} (h : ∀ d ∈ ds, d < 58) (n : Nat) :
    decodeLoop (ds.map byteOf) (Nat.digits 256 n) =
      some (.ok (Nat.digits 256 (ds.foldl (fun n d => n * 58 + d) n))) := by
  induction ds generalizing n with
  | nil => rfl
  | cons d ds ih =>
    have hd := h d List.mem_cons_self
    rw [List.map_cons, decodeLoop, (alphabet_facts d hd).1]
    dsimp only
    rw [carryLoop_digits (by decide) (by decide) n hd, Option.bind_eq_bind, Option.bind_some,
      ih fun d hd => h d (List.mem_cons_of_mem _ hd), List.foldl_cons]

theorem decodeLoop_cases (cs : List UInt8) (n : Nat) :
    (∃ ds : List Nat, (∀ d ∈ ds, d < 58) ∧ cs = ds.map byteOf) ∨
      ∃ e, decodeLoop cs (Nat.digits 256 n) = some (.error e) := by
  induction cs generalizing n with
  | nil => exact Or.inl ⟨[], by simp⟩
  | cons c cs ih =>
    cases hc : ALPHABET.findIdx? (· = c) with
    | none => exact Or.inr ⟨_, by rw [decodeLoop, hc]⟩
    | some d =>
      obtain ⟨hd, rfl⟩ := eq_byteOf hc
      rcases ih (n * 58 + d) with ⟨ds, hds, rfl⟩ | ⟨e, he⟩
      · exact Or.inl ⟨d :: ds, List.forall_mem_cons.2 ⟨hd, hds⟩, rfl⟩
      · refine Or.inr ⟨e, ?_⟩
        rw [decodeLoop, hc]
        dsimp only
        rw [carryLoop_digits (by decide) (by decide) n hd, Option.bind_eq_bind, Option.bind_some, he]

theorem base58DecodeChecked_digits {s : String} {ds : List Nat} (h : ∀ d ∈ ds, d < 58)
    (hs : Utf8.encode (trim s).toList = ds.map byteOf) (hne : ds ≠ []) (hlen : ds.length ≤ 128) :
    base58DecodeChecked s = some (.ok ((convert 256 58 ds).map UInt8.ofNat)) := by
  have hloop := decodeLoop_byteOf h 0
  rw [Nat.digits_zero, foldl_eq_ofDigits, Nat.zero_mul, Nat.zero_add] at hloop
  unfold base58DecodeChecked
  rw [hs, if_neg (by simpa [hne] using hlen), hloop, Option.bind_eq_bind, Option.bind_some,
    length_takeWhile_byteOf h]
  simp [convert, Except.map]

theorem base58DecodeChecked_size {s : String} {bytes : List UInt8} (h : base58DecodeChecked s = some (.ok bytes)) :
    Utf8.encode (trim s).toList ≠ [] ∧ (Utf8.encode (trim s).toList).length ≤ 128 := by
  unfold base58DecodeChecked at h
  dsimp only at h
  split at h
  · cases h
  · rename_i hsize
    simpa using hsize

theorem base58DecodeChecked_ok {s : String} {bytes : List UInt8} (h : base58DecodeChecked s = some (.ok bytes)) :
    ∃ ds, (∀ d ∈ ds, d < 58) ∧ Utf8.encode (trim s).toList = ds.map byteOf ∧
      bytes = (convert 256 58 ds).map UInt8.ofNat := by
  obtain ⟨hne, hlen⟩ := base58DecodeChecked_size h
  rcases decodeLoop_cases (Utf8.encode (trim s).toList) 0 with ⟨ds, hds, heq⟩ | ⟨e, he⟩
  · refine ⟨ds, hds, heq, ?_⟩
    rw [heq] at hne hlen
    rw [base58DecodeChecked_digits hds heq (by simpa using hne) (by simpa using hlen)] at h
    exact (Except.ok.inj (Option.some.inj h)).symm
  · unfold base58DecodeChecked at h
    rw [Nat.digits_zero] at he
    dsimp only at h
    split at h
    · cases h
    · rw [he] at h
      cases h

theorem base58DecodeChecked_isSome (s : String) : ∃ r, base58DecodeChecked s = some r := by
  unfold base58DecodeChecked
  dsimp only
  split
  · exact ⟨_, rfl⟩
  · rcases decodeLoop_cases (Utf8.encode (trim s).toList) 0 with ⟨ds, hds, heq⟩ | ⟨e, he⟩
    · have hloop := decodeLoop_byteOf hds 0
      rw [Nat.digits_zero] at hloop
      rw [heq, hloop]
      exact ⟨_, rfl⟩
    · rw [Nat.digits_zero] at he
      rw [he]
      exact ⟨_, rfl⟩

private theorem map_ofNat_toNat (bytes : List UInt8) : (bytes.map UInt8.toNat).map UInt8.ofNat = bytes := by
  simp [Function.comp_def]

private theorem map_toNat_ofNat {l : List Nat} (h : ∀ d ∈ l, d < 256) : (l.map UInt8.ofNat).map UInt8.toNat = l := by
  rw [List.map_map]
  conv_rhs => rw [← List.map_id l]
  apply List.map_congr_left
  intro d hd
  simpa using h d hd

private theorem trim_symbols {ds : List Nat} (h : ∀ d ∈ ds, d < 58) :
    trim (String.ofList (ds.map symbol)) = String.ofList (ds.map symbol) := by
  have hsymbol : ∀ c ∈ ds.map symbol, isWhitespace c = false := by
    intro c hc
    obtain ⟨d, hd, rfl⟩ := List.mem_map.1 hc
    exact (alphabet_facts d (h d hd)).2.2.2.2.2
  exact trim_ofList (fun c hc => hsymbol c (List.mem_of_mem_head? hc)) fun c hc => hsymbol c (List.mem_of_getLast? hc)

/-! ### Without the checks -/

theorem carryBytes_eq {n carry : Nat} (h : carry < 256 ^ n) :
    carryBytes n carry = (Nat.digits 256 carry).map UInt8.ofNat := by
  induction n generalizing carry with
  | zero =>
    obtain rfl : carry = 0 := by omega
    simp [carryBytes]
  | succ n ih =>
    have hdiv : carry / 256 < 256 ^ n := Nat.div_lt_of_lt_mul (by rw [Nat.pow_succ] at h; omega)
    rw [carryBytes]
    split
    · rename_i hzero
      simp [hzero]
    · rename_i hpos
      have hmod : UInt8.ofNat (carry % 256) = UInt8.ofNat carry := by
        rw [← UInt8.toNat_inj]
        simp
      rw [ih hdiv, Nat.digits_def' (by decide) (Nat.pos_of_ne_zero hpos), List.map_cons, hmod]

theorem timesBase_eq {ds : List Nat} (hds : ∀ d ∈ ds, d < 256) {carry : Nat} (hc : carry < 58) :
    (timesBase (ds.map UInt8.ofNat) carry).1 ++ carryBytes 4 (timesBase (ds.map UInt8.ofNat) carry).2 =
      (mulAdd 256 58 ds carry).map UInt8.ofNat := by
  induction ds generalizing carry with
  | nil =>
    show [] ++ carryBytes 4 carry = (Nat.digits 256 carry).map UInt8.ofNat
    rw [List.nil_append, carryBytes_eq (by omega)]
  | cons d ds ih =>
    obtain ⟨hd, htail⟩ := List.forall_mem_cons.1 hds
    have hbyte : (UInt8.ofNat d).toNat = d := by simpa using hd
    have hmod : UInt8.ofNat ((carry + d * 58) % 256) = UInt8.ofNat (carry + d * 58) := by
      rw [← UInt8.toNat_inj]
      simp
    have hstep := ih htail (carry_lt hd hc)
    rw [List.map_cons, timesBase, hbyte, mulAdd, List.map_cons, ← hstep, hmod]
    rfl

theorem base58Digits_eq (cs : List UInt8) (n : Nat) :
    (decodeLoop cs (Nat.digits 256 n)).map (fun r => r.toOption.map fun out => out.map UInt8.ofNat) =
      some (base58Digits ((Nat.digits 256 n).map UInt8.ofNat) cs).toOption := by
  induction cs generalizing n with
  | nil => rfl
  | cons c cs ih =>
    cases hc : ALPHABET.findIdx? (· = c) with
    | none =>
      rw [decodeLoop, base58Digits, hc]
      rfl
    | some d =>
      have hd := (eq_byteOf hc).1
      have hlt : ∀ x ∈ Nat.digits 256 n, x < 256 := fun x hx => Nat.digits_lt_base (by decide) hx
      have hloop : carryLoop 256 58 (Nat.digits 256 n) d = some (Nat.digits 256 (n * 58 + d)) :=
        carryLoop_digits (by decide) (by decide) n hd
      rw [decodeLoop, base58Digits, hc]
      dsimp only
      rw [timesBase_eq hlt hd, mulAdd_digits (by decide) (by decide), hloop, Option.bind_eq_bind, Option.bind_some, ih]

/-- What is read is what is read without the checks. -/
theorem base58Decode_checked (s : String) :
    (base58DecodeChecked s).map Except.toOption = some (base58Decode s).toOption := by
  have hdigits := base58Digits_eq (Utf8.encode (trim s).toList) 0
  have hbytes : asBytes (trim s) = Utf8.encode (trim s).toList := rfl
  have hempty : trim s = "" ↔ Utf8.encode (trim s).toList = [] := by
    constructor
    · intro h
      rw [h]
      rfl
    · intro h
      have hnil : (trim s).toList = [] := Utf8.encode_injective (h.trans Utf8.encode_nil.symm)
      rw [← String.ofList_toList (s := trim s), hnil]
  rw [Nat.digits_zero, List.map_nil] at hdigits
  unfold base58DecodeChecked base58Decode
  dsimp only
  by_cases hsize : Utf8.encode (trim s).toList = [] ∨ (Utf8.encode (trim s).toList).length > 128
  · rw [if_pos (by simpa using hsize), Redemption.ensure, if_neg (by rwa [hempty, hbytes, not_not])]
    rfl
  · rw [if_neg (by simpa using hsize), Redemption.ensure, if_pos (by rwa [hempty, hbytes])]
    cases hloop : decodeLoop (Utf8.encode (trim s).toList) [] with
    | none =>
      rw [hloop] at hdigits
      cases hdigits
    | some r =>
      rw [hloop, Option.map_some] at hdigits
      have hr := Option.some.inj hdigits
      show some (r.map _).toOption = some _
      rw [hbytes]
      cases hout : base58Digits [] (Utf8.encode (trim s).toList) with
      | error e =>
        rw [hout] at hr
        cases r with
        | error e' => rfl
        | ok out => cases hr
      | ok out =>
        rw [hout] at hr
        cases r with
        | error e' => cases hr
        | ok out' =>
          obtain rfl := Option.some.inj hr
          have hlist : ∀ z, ((out' ++ List.replicate z 0).reverse).map UInt8.ofNat =
              (out'.map UInt8.ofNat ++ List.replicate z 0).reverse := by
            intro z
            rw [List.map_reverse, List.map_append, List.map_replicate]
            rfl
          simp only [Except.map, Except.toOption, bind, Except.bind, hlist]

/-- Every byte string is written and every text is read or refused, without an overflow.  What is written is read back
where it is not empty and has 128 characters at most, and what is read is written as the text was, but for the white
space around it; so one byte string has one spelling. -/
theorem base58_bijective :
    (∀ bytes, ∃ text, base58EncodeChecked bytes = some text) ∧ (∀ s, ∃ r, base58DecodeChecked s = some r) ∧
    (∀ bytes text, base58EncodeChecked bytes = some text → text.toList ≠ [] → text.toList.length ≤ 128 →
      base58DecodeChecked text = some (.ok bytes)) ∧
    (∀ s bytes, base58DecodeChecked s = some (.ok bytes) → base58EncodeChecked bytes = some (trim s)) ∧
    ∀ s s' bytes, base58DecodeChecked s = some (.ok bytes) → base58DecodeChecked s' = some (.ok bytes) →
      trim s = trim s' := by
  have hback : ∀ s bytes, base58DecodeChecked s = some (.ok bytes) → base58EncodeChecked bytes = some (trim s) := by
    intro s bytes h
    obtain ⟨ds, hds, hs, rfl⟩ := base58DecodeChecked_ok h
    have htext : ds.map symbol = (trim s).toList := Utf8.encode_injective (by rw [encode_symbols hds, hs])
    rw [base58EncodeChecked_eq, map_toNat_ofNat fun d hd => mem_convert_lt (by decide) hd,
      convert_convert (by decide) hds, htext, String.ofList_toList]
  refine ⟨fun bytes => ⟨_, base58EncodeChecked_eq bytes⟩, base58DecodeChecked_isSome, ?_, hback, ?_⟩
  · intro bytes text h hne hlen
    rw [base58EncodeChecked_eq] at h
    obtain rfl := Option.some.inj h
    have hds : ∀ d ∈ convert 58 256 (bytes.map UInt8.toNat), d < 58 := fun d hd => mem_convert_lt (by decide) hd
    have hbytes : ∀ d ∈ bytes.map UInt8.toNat, d < 256 := by
      intro d hd
      obtain ⟨b, -, rfl⟩ := List.mem_map.1 hd
      exact b.toNat_lt
    rw [String.toList_ofList] at hne hlen
    rw [base58DecodeChecked_digits hds (by rw [trim_symbols hds, String.toList_ofList, encode_symbols hds])
      (by simpa using hne) (by simpa using hlen), convert_convert (by decide) hbytes, map_ofNat_toNat]
  · intro s s' bytes h h'
    have heq := (hback s bytes h).symm.trans (hback s' bytes h')
    exact Option.some.inj heq

end HidraNet.Core
