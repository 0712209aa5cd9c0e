import HidraNet.Issuer.Prices
import HidraNet.Lib.Decimal

/-!
# Amounts

An amount in raw units written with every decimal, and a decimal amount read as raw units, as a build that checks its
sums has both: none is an overflow.  None occurs (`amounts_exact`), and what is read is `amountFromString`
(`amountFromStringChecked_eq`).

An amount is read where its text is a decimal number of no more places than the token has and what it is worth fits
`2 ^ 64`; what is read is then just that (`Spells`, `decimalValue`).
-/

namespace HidraNet.Issuer

open HidraNet.Core Decimal Net Text

/-- A `u64`, or none where it overflows. -/
def u64 (n : Nat) : Option Nat := if n < 2 ^ 64 then some n else none

def amountToStringChecked (raw decimals : Nat) : Option String := do
  let scale ← u64 (10 ^ decimals)
  if decimals = 0 then some (String.ofList (Nat.toDigits 10 raw))
  else some (String.ofList (Nat.toDigits 10 (raw / scale) ++ '.' :: padded decimals (raw % scale)))

/-- A decimal amount as raw units. -/
def amountFromStringChecked (s : String) (decimals : Nat) : Option (Except String Nat) :=
  if decimals > MAX_DECIMALS then
    some (.error s!"a token with {decimals} decimals; no amount is read with more than {MAX_DECIMALS}")
  else
    let s := trim s
    let (whole, frac) := (splitOnce '.' s.toList).getD (s.toList, [])
    if whole = [] ∧ frac = [] then some (.error (debug s ++ " is not an amount"))
    else if ¬ (whole.all Char.isDigit ∧ frac.all Char.isDigit) then some (.error (debug s ++ " is not an amount"))
    else if frac.length > decimals then
      some (.error
        (debug s ++ " has more than " ++ toString decimals ++ " decimals, which the token does not have"))
    else
      match if whole = [] then some 0 else parseU64 whole with
      | none => some (.error (debug s ++ " is too large an amount"))
      | some whole =>
        match if frac = [] then some 0 else parseU64 frac with
        | none => some (.error "number too large to fit in target type")
        | some fracRaw => do
          let fracScale ← u64 (10 ^ (decimals - frac.length))
          let fracRaw ← u64 (fracRaw * fracScale)
          let scale ← u64 (10 ^ decimals)
          -- these two are checked in every build
          match (u64 (whole * scale)).bind fun w => u64 (w + fracRaw) with
          | none => some (.error (debug s ++ " is too large an amount"))
          | some raw => some (.ok raw)

example : amountToStringChecked 50004213 6 = some "50.004213" ∧
    amountFromStringChecked " .5" 6 = some (.ok 500000) := by
  decide

/-! ### Decimal numbers -/

def Spells (l whole frac : List Char) : Prop :=
  (l = whole ++ '.' :: frac ∨ (l = whole ∧ frac = [])) ∧ (∀ c ∈ whole, c.isDigit = true) ∧
    (∀ c ∈ frac, c.isDigit = true) ∧ ¬ (whole = [] ∧ frac = [])

def decimalValue (whole frac : List Char) : ℚ :=
  Nat.ofDigitChars 10 whole 0 + Nat.ofDigitChars 10 frac 0 / 10 ^ frac.length

theorem decimalValue_mul (whole : List Char) {frac : List Char} {decimals : Nat} (h : frac.length ≤ decimals) :
    decimalValue whole frac * 10 ^ decimals =
      ((Nat.ofDigitChars 10 whole 0 * 10 ^ decimals +
        Nat.ofDigitChars 10 frac 0 * 10 ^ (decimals - frac.length) : Nat) : ℚ) := by
  have hpow : (10 : ℚ) ^ decimals = 10 ^ frac.length * 10 ^ (decimals - frac.length) := by
    rw [← pow_add]
    congr 1
    omega
  have hne : (10 : ℚ) ^ frac.length ≠ 0 := by positivity
  unfold decimalValue
  push_cast
  rw [add_mul]
  congr 1
  rw [hpow]
  field_simp

theorem spells_iff {l whole frac : List Char} :
    Spells l whole frac ↔ (splitOnce '.' l).getD (l, []) = (whole, frac) ∧ ¬ (whole = [] ∧ frac = []) ∧
      whole.all Char.isDigit ∧ frac.all Char.isDigit := by
  have hpoint : ∀ {w : List Char}, (∀ c ∈ w, c.isDigit = true) → '.' ∉ w := by
    intro w hw h
    exact absurd (hw _ h) (by decide)
  constructor
  · rintro ⟨hl | ⟨rfl, rfl⟩, hwhole, hfrac, hne⟩
    · refine ⟨?_, hne, List.all_eq_true.2 hwhole, List.all_eq_true.2 hfrac⟩
      rw [hl, splitOnce_append _ (hpoint hwhole), Option.getD_some]
    · refine ⟨?_, hne, List.all_eq_true.2 hwhole, List.all_eq_true.2 hfrac⟩
      rw [splitOnce_eq_none.2 (hpoint hwhole), Option.getD_none]
  · rintro ⟨hsplit, hne, hwhole, hfrac⟩
    refine ⟨?_, List.all_eq_true.1 hwhole, List.all_eq_true.1 hfrac, hne⟩
    cases h : splitOnce '.' l with
    | none =>
      rw [h, Option.getD_none] at hsplit
      obtain ⟨rfl, rfl⟩ := Prod.mk.inj hsplit
      exact Or.inr ⟨rfl, rfl⟩
    | some halves =>
      rw [h, Option.getD_some] at hsplit
      subst hsplit
      exact Or.inl (splitOnce_eq_some.1 h).1

theorem parseU64_digits {l : List Char} (hne : l ≠ []) (h : l.all Char.isDigit) :
    parseU64 l = u64 (Nat.ofDigitChars 10 l 0) := by
  have hplus : l.head? ≠ some '+' := by
    intro hhead
    exact absurd (List.all_eq_true.1 h _ (List.mem_of_mem_head? hhead)) (by decide)
  unfold parseU64 parseUnsigned u64
  rw [if_neg hplus]
  dsimp only
  by_cases hfits : Nat.ofDigitChars 10 l 0 < 2 ^ 64
  · rw [if_pos ⟨hne, h, by omega⟩, if_pos hfits]
  · rw [if_neg (fun hall => hfits (by omega)), if_neg hfits]

theorem half_digits {l : List Char} (h : l.all Char.isDigit) :
    (if l = [] then some 0 else parseU64 l) = u64 (Nat.ofDigitChars 10 l 0) := by
  split
  · rename_i hnil
    rw [hnil]
    rfl
  · rename_i hne
    exact parseU64_digits hne h

/-! ### Reading an amount -/

def rawValue (whole frac : List Char) (decimals : Nat) : Nat :=
  Nat.ofDigitChars 10 whole 0 * 10 ^ decimals + Nat.ofDigitChars 10 frac 0 * 10 ^ (decimals - frac.length)

private theorem pow_fits {n : Nat} (h : n ≤ MAX_DECIMALS) : 10 ^ n < 2 ^ 64 :=
  (Nat.pow_le_pow_right (by decide) h).trans_lt (by decide : 10 ^ MAX_DECIMALS < 2 ^ 64)

theorem u64_of_lt {n : Nat} (h : n < 2 ^ 64) : u64 n = some n := if_pos h

theorem frac_lt {frac : List Char} {decimals : Nat} (hfrac : frac.all Char.isDigit) (hlen : frac.length ≤ decimals) :
    Nat.ofDigitChars 10 frac 0 * 10 ^ (decimals - frac.length) < 10 ^ decimals := by
  have hlt := ofDigitChars_lt (List.all_eq_true.1 hfrac)
  calc Nat.ofDigitChars 10 frac 0 * 10 ^ (decimals - frac.length)
      < 10 ^ frac.length * 10 ^ (decimals - frac.length) := Nat.mul_lt_mul_of_pos_right hlt (by positivity)
    _ = 10 ^ decimals := by
      rw [← Nat.pow_add]
      congr 1
      omega

theorem amountFromStringChecked_digits {s : String} {decimals : Nat} {whole frac : List Char}
    (hd : decimals ≤ MAX_DECIMALS) (h : Spells (trim s).toList whole frac) (hlen : frac.length ≤ decimals) :
    amountFromStringChecked s decimals = some (if rawValue whole frac decimals < 2 ^ 64 then
      .ok (rawValue whole frac decimals) else .error (debug (trim s) ++ " is too large an amount")) := by
  obtain ⟨hsplit, hne, hwhole, hfrac⟩ := spells_iff.1 h
  have hpow := pow_fits hd
  have hfraw := frac_lt hfrac hlen
  have hfle : Nat.ofDigitChars 10 frac 0 < 2 ^ 64 :=
    (Nat.le_mul_of_pos_right _ (by positivity)).trans_lt (hfraw.trans hpow)
  unfold amountFromStringChecked rawValue
  rw [if_neg (by omega)]
  dsimp only
  rw [hsplit]
  dsimp only
  rw [if_neg hne, if_neg (by simp [hwhole, hfrac]), if_neg (by omega), half_digits hwhole, half_digits hfrac,
    u64_of_lt hfle]
  by_cases hw : Nat.ofDigitChars 10 whole 0 < 2 ^ 64
  · rw [u64_of_lt hw]
    dsimp only
    rw [u64_of_lt (pow_fits (by omega)), Option.bind_eq_bind, Option.bind_some, u64_of_lt (hfraw.trans hpow),
      Option.bind_some, u64_of_lt hpow, Option.bind_some]
    by_cases hprod : Nat.ofDigitChars 10 whole 0 * 10 ^ decimals < 2 ^ 64
    · rw [u64_of_lt hprod, Option.bind_some]
      by_cases hsum : Nat.ofDigitChars 10 whole 0 * 10 ^ decimals +
          Nat.ofDigitChars 10 frac 0 * 10 ^ (decimals - frac.length) < 2 ^ 64
      · rw [u64_of_lt hsum, if_pos hsum]
      · rw [u64, if_neg hsum, if_neg hsum]
    · rw [u64, if_neg hprod, if_neg (by omega)]
      rfl
  · have hbig : ¬ Nat.ofDigitChars 10 whole 0 * 10 ^ decimals < 2 ^ 64 := by
      intro hprod
      exact hw ((Nat.le_mul_of_pos_right _ (by positivity)).trans_lt hprod)
    rw [u64, if_neg hw, if_neg (by omega)]

theorem spells_of_ok {s : String} {decimals raw : Nat} (h : amountFromStringChecked s decimals = some (.ok raw)) :
    ∃ whole frac, Spells (trim s).toList whole frac ∧ frac.length ≤ decimals := by
  unfold amountFromStringChecked at h
  split at h
  · cases h
  · dsimp only at h
    obtain ⟨⟨whole, frac⟩, hsplit⟩ : ∃ x, (splitOnce '.' (trim s).toList).getD ((trim s).toList, []) = x := ⟨_, rfl⟩
    rw [hsplit] at h
    dsimp only at h
    split at h
    · cases h
    · rename_i hne
      split at h
      · cases h
      · rename_i hdigits
        rw [not_not] at hdigits
        split at h
        · cases h
        · exact ⟨whole, frac, spells_iff.2 ⟨hsplit, hne, hdigits.1, hdigits.2⟩, by omega⟩

private theorem ensure_bind {p : Prop} [Decidable p] {why : String} {α : Type} {f : Unit → Except String α} :
    (Redemption.ensure p why >>= f) = if p then f () else .error why := by
  unfold Redemption.ensure
  split <;> rfl

private theorem elim_bind {o : Option Nat} {why : String} {α : Type} {f : Nat → Except String α} :
    (o.elim (.error why) .ok >>= f) = match o with | none => .error why | some n => f n := by
  cases o <;> rfl

/-- What is read is what is read without the checks. -/
theorem amountFromStringChecked_eq (s : String) (decimals : Nat) :
    amountFromStringChecked s decimals = some (amountFromString s decimals) := by
  obtain ⟨⟨whole, frac⟩, hsplit⟩ : ∃ x, (splitOnce '.' (trim s).toList).getD ((trim s).toList, []) = x := ⟨_, rfl⟩
  unfold amountFromString
  dsimp only
  rw [hsplit]
  simp only [ensure_bind, elim_bind]
  by_cases hd : decimals ≤ MAX_DECIMALS
  · rw [if_pos hd]
    by_cases hne : whole = [] ∧ frac = []
    · rw [if_neg (not_not.2 hne), amountFromStringChecked, if_neg (by omega)]
      dsimp only
      rw [hsplit]
      exact if_pos hne
    · rw [if_pos hne]
      by_cases hdigits : whole.all Char.isDigit ∧ frac.all Char.isDigit
      · rw [if_pos hdigits]
        by_cases hlen : frac.length ≤ decimals
        · have hspells : Spells (trim s).toList whole frac := spells_iff.2 ⟨hsplit, hne, hdigits.1, hdigits.2⟩
          have hfle : Nat.ofDigitChars 10 frac 0 < 2 ^ 64 :=
            (Nat.le_mul_of_pos_right _ (by positivity)).trans_lt ((frac_lt hdigits.2 hlen).trans (pow_fits hd))
          rw [if_pos hlen, amountFromStringChecked_digits hd hspells hlen, half_digits hdigits.1, half_digits hdigits.2,
            u64_of_lt hfle]
          by_cases hw : Nat.ofDigitChars 10 whole 0 < 2 ^ 64
          · rw [u64_of_lt hw]
            rfl
          · have hbig : ¬ rawValue whole frac decimals < 2 ^ 64 := by
              intro hraw
              have hle := Nat.le_mul_of_pos_right (Nat.ofDigitChars 10 whole 0) (show 0 < 10 ^ decimals by positivity)
              unfold rawValue at hraw
              omega
            rw [u64, if_neg hw, if_neg hbig]
        · rw [if_neg hlen, amountFromStringChecked, if_neg (by omega)]
          dsimp only
          rw [hsplit]
          dsimp only
          rw [if_neg hne, if_neg (not_not.2 hdigits), if_pos (by omega)]
      · rw [if_neg hdigits, amountFromStringChecked, if_neg (by omega)]
        dsimp only
        rw [hsplit]
        dsimp only
        rw [if_neg hne, if_pos hdigits]
  · rw [if_neg hd, amountFromStringChecked, if_pos (by omega)]

/-! ### Writing an amount -/

private theorem isDigit_of_mem_toDigits {n : Nat} {c : Char} (h : c ∈ Nat.toDigits 10 n) : c.isDigit = true :=
  Nat.isDigit_of_mem_toDigits (by decide) (by decide) h

private theorem trim_digits {whole frac : List Char} (hwhole : ∀ c ∈ whole, c.isDigit = true)
    (hfrac : ∀ c ∈ frac, c.isDigit = true) (hw : whole ≠ []) (hf : frac ≠ []) :
    trim (String.ofList (whole ++ '.' :: frac)) = String.ofList (whole ++ '.' :: frac) := by
  apply trim_ofList
  · intro c hc
    rw [List.head?_append_of_ne_nil _ hw] at hc
    exact isWhitespace_of_isDigit (hwhole c (List.mem_of_mem_head? hc))
  · intro c hc
    rw [List.getLast?_append_cons, List.getLast?_cons_of_ne_nil hf] at hc
    exact isWhitespace_of_isDigit (hfrac c (List.mem_of_getLast? hc))

theorem amountToStringChecked_spells (raw : Nat) {decimals : Nat} (hd : decimals ≤ MAX_DECIMALS) :
    ∃ s whole frac, amountToStringChecked raw decimals = some s ∧ Spells (trim s).toList whole frac ∧
      frac.length ≤ decimals ∧ rawValue whole frac decimals = raw := by
  unfold amountToStringChecked
  rw [u64_of_lt (pow_fits hd), Option.bind_eq_bind, Option.bind_some]
  by_cases hzero : decimals = 0
  · have htrim : trim (String.ofList (Nat.toDigits 10 raw)) = String.ofList (Nat.toDigits 10 raw) :=
      trim_ofList (fun c hc => isWhitespace_of_isDigit (isDigit_of_mem_toDigits (List.mem_of_mem_head? hc)))
        fun c hc => isWhitespace_of_isDigit (isDigit_of_mem_toDigits (List.mem_of_getLast? hc))
    refine ⟨_, Nat.toDigits 10 raw, [], if_pos hzero, ?_, Nat.zero_le _, ?_⟩
    · rw [htrim, String.toList_ofList]
      exact ⟨Or.inr ⟨rfl, rfl⟩, fun _ => isDigit_of_mem_toDigits, by simp, fun h => Nat.toDigits_ne_nil h.1⟩
    · rw [rawValue, hzero]
      simp
  · have hlen : (padded decimals (raw % 10 ^ decimals)).length = decimals :=
      length_padded (Nat.pos_of_ne_zero hzero) (Nat.mod_lt _ (by positivity))
    have hne : padded decimals (raw % 10 ^ decimals) ≠ [] := by
      rw [← List.length_pos_iff]
      omega
    refine ⟨_, Nat.toDigits 10 (raw / 10 ^ decimals), padded decimals (raw % 10 ^ decimals), if_neg hzero, ?_, hlen.le,
      ?_⟩
    · rw [trim_digits (fun _ => isDigit_of_mem_toDigits) (fun _ => isDigit_of_mem_padded) Nat.toDigits_ne_nil hne,
        String.toList_ofList]
      exact ⟨Or.inl rfl, fun _ => isDigit_of_mem_toDigits, fun _ => isDigit_of_mem_padded, fun h => hne h.2⟩
    · rw [rawValue, hlen, Nat.ofDigitChars_ten_toDigits, ofDigitChars_padded, Nat.sub_self, Nat.pow_zero, Nat.mul_one,
        Nat.div_add_mod']

/-- Amounts are exact, and neither writing nor reading one overflows: what is written is read back, and a text is read
just where it is a decimal number with no more places than the token has and worth less than `2 ^ 64` raw units, as
what it is worth. -/
theorem amounts_exact {decimals : Nat} (hd : decimals ≤ MAX_DECIMALS) :
    (∀ s, ∃ r, amountFromStringChecked s decimals = some r) ∧
    (∀ raw < 2 ^ 64, ∃ s, amountToStringChecked raw decimals = some s ∧
      amountFromStringChecked s decimals = some (.ok raw)) ∧
    ∀ s raw, amountFromStringChecked s decimals = some (.ok raw) ↔ raw < 2 ^ 64 ∧
      ∃ whole frac, Spells (trim s).toList whole frac ∧ frac.length ≤ decimals ∧
        (raw : ℚ) = decimalValue whole frac * 10 ^ decimals := by
  refine ⟨fun s => ⟨_, amountFromStringChecked_eq s decimals⟩, ?_, ?_⟩
  · intro raw hraw
    obtain ⟨s, whole, frac, hs, hspells, hlen, hvalue⟩ := amountToStringChecked_spells raw hd
    refine ⟨s, hs, ?_⟩
    rw [amountFromStringChecked_digits hd hspells hlen, hvalue, if_pos hraw]
  · intro s raw
    constructor
    · intro h
      obtain ⟨whole, frac, hspells, hlen⟩ := spells_of_ok h
      rw [amountFromStringChecked_digits hd hspells hlen] at h
      have hok := Option.some.inj h
      split at hok
      · rename_i hfits
        obtain rfl := Except.ok.inj hok
        exact ⟨hfits, whole, frac, hspells, hlen, (decimalValue_mul whole hlen).symm⟩
      · cases hok
    · rintro ⟨hfits, whole, frac, hspells, hlen, hvalue⟩
      rw [decimalValue_mul whole hlen] at hvalue
      have hraw : raw = rawValue whole frac decimals := Nat.cast_injective hvalue
      rw [amountFromStringChecked_digits hd hspells hlen, ← hraw, if_pos hfits]

theorem amounts_exact_six :
    (∀ s, ∃ r, amountFromStringChecked s 6 = some r) ∧
    (∀ raw < 2 ^ 64, ∃ s, amountToStringChecked raw 6 = some s ∧ amountFromStringChecked s 6 = some (.ok raw)) ∧
    ∀ s raw, amountFromStringChecked s 6 = some (.ok raw) ↔ raw < 2 ^ 64 ∧
      ∃ whole frac, Spells (trim s).toList whole frac ∧ frac.length ≤ 6 ∧
        (raw : ℚ) = decimalValue whole frac * 10 ^ 6 :=
  amounts_exact (by decide)

end HidraNet.Issuer
