import HidraNet.Core.Timefmt
import HidraNet.Lib.Civil
import HidraNet.Lib.Decimal

/-!
# Dates in the calendar

The fields of a date that is accepted, and the time they stand for.  The days are counted as the calendar counts them
(`daysFromCivil_eq`), past the end of a month too.

Of two accepted texts with dates of the calendar the one with the earlier date is the earlier time, but for a second of
60 at the end of a day, which is the first of the next (`time_le_of_before`).
-/

namespace HidraNet.Core

open Civil Decimal Text

/-! ### Days -/

private theorem era_eq (y : Int) : (if y ≥ 0 then y else y - 399).tdiv 400 = y / 400 := by
  split
  · exact Int.tdiv_eq_ediv_of_nonneg (by omega)
  · rw [← Int.neg_neg (y - 399), Int.neg_tdiv, Int.tdiv_eq_ediv_of_nonneg (by omega)]
    omega

/-- The days since 1970 of a year's, a month's and a day's number, as the calendar counts them. -/
theorem daysFromCivil_eq (y : Int) {m : Nat} (d : Nat) (h1 : 1 ≤ m) (h12 : m ≤ 12) :
    daysFromCivil y m d = yearStart y + monthStart y m + d - 1 - 719528 := by
  have hmp : ((m : Int) + 9).tmod 12 = if m ≤ 2 then (m : Int) + 9 else m - 3 := by
    rw [Int.tmod_eq_emod_of_nonneg (by omega)]
    split <;> omega
  unfold daysFromCivil
  simp only [era_eq, hmp, monthStart_eq y h1 h12]
  have hyoe : 0 ≤ (if m ≤ 2 then y - 1 else y) - (if m ≤ 2 then y - 1 else y) / 400 * 400 := by omega
  rw [Int.tdiv_eq_ediv_of_nonneg hyoe, Int.tdiv_eq_ediv_of_nonneg hyoe,
    Int.tdiv_eq_ediv_of_nonneg (by split <;> omega)]
  unfold yearStart
  by_cases hm : m ≤ 2
  · simp only [if_pos hm]
    omega
  · simp only [if_neg hm]
    by_cases hleap : Leap y
    · rw [if_pos hleap]
      unfold Leap at hleap
      omega
    · rw [if_neg hleap]
      unfold Leap at hleap
      omega

theorem daysFromCivil_date (a : Date) : daysFromCivil a.year a.month a.day = a.number - 719528 :=
  daysFromCivil_eq a.year a.day a.month_mem.1 a.month_mem.2

/-! ### The fields of a text -/

/-- The fields of a time. -/
structure Stamp where
  year : Nat
  month : Nat
  day : Nat
  hour : Nat
  minute : Nat
  second : Nat
deriving DecidableEq

namespace Stamp

variable {x x₁ x₂ : Stamp} {a b : Date}

def InRange (x : Stamp) : Prop :=
  1 ≤ x.month ∧ x.month ≤ 12 ∧ 1 ≤ x.day ∧ x.day ≤ 31 ∧ x.hour ≤ 23 ∧ x.minute ≤ 59 ∧ x.second ≤ 60

instance (x : Stamp) : Decidable x.InRange := inferInstanceAs (Decidable (_ ∧ _))

def clock (x : Stamp) : Nat := x.hour * 3600 + x.minute * 60 + x.second

def unix (x : Stamp) : Int := daysFromCivil x.year x.month x.day * 86400 + x.hour * 3600 + x.minute * 60 + x.second

def Names (x : Stamp) (a : Date) : Prop := (x.year : Int) = a.year ∧ x.month = a.month ∧ x.day = a.day

instance (x : Stamp) (a : Date) : Decidable (x.Names a) := inferInstanceAs (Decidable (_ ∧ _))

theorem unix_eq (h : x.Names a) : x.unix = (a.number - 719528) * 86400 + x.clock := by
  unfold unix clock
  rw [h.1, h.2.1, h.2.2, daysFromCivil_date]
  omega

theorem clock_le (h : x.InRange) : x.clock ≤ 86400 := by
  obtain ⟨-, -, -, -, hhour, hminute, hsecond⟩ := h
  unfold clock
  omega

theorem unix_le_of_before (hx₁ : x₁.InRange) (ha : x₁.Names a) (hb : x₂.Names b) (h : a.Before b) :
    x₁.unix ≤ x₂.unix := by
  have hlt := Date.number_lt h
  have hclock := clock_le hx₁
  rw [unix_eq ha, unix_eq hb]
  omega

theorem unix_eq_iff_of_before (hx₁ : x₁.InRange) (ha : x₁.Names a) (hb : x₂.Names b) (h : a.Before b) :
    x₁.unix = x₂.unix ↔ b.number = a.number + 1 ∧ (x₁.hour = 23 ∧ x₁.minute = 59 ∧ x₁.second = 60) ∧
      (x₂.hour = 0 ∧ x₂.minute = 0 ∧ x₂.second = 0) := by
  have hlt := Date.number_lt h
  obtain ⟨-, -, -, -, hhour, hminute, hsecond⟩ := hx₁
  rw [unix_eq ha, unix_eq hb]
  unfold clock
  omega

end Stamp

/-- The fields of a text that has the shape of a time. -/
def stampOf (s : String) : Option Stamp := do
  let (date, rest) ← splitOnce 'T' (trim s).toList
  let time ← (stripSuffix ['Z'] rest).or (stripSuffix ['+', '0', '0', ':', '0', '0'] rest)
  let (time, frac) := (splitOnce '.' time).getD (time, ['0'])
  if frac.isEmpty || !frac.all Char.isDigit then none
  else
    let (y, m, day) ← dateFields date '-' 4 2 2
    let (h, mi, sec) ← dateFields time ':' 2 2 2
    some ⟨y, m, day, h, mi, sec⟩

theorem rfc3339ToUnix_ok {s : String} {t : Int} :
    rfc3339ToUnix s = .ok t ↔ ∃ x, stampOf s = some x ∧ x.InRange ∧ t = x.unix := by
  unfold rfc3339ToUnix stampOf
  cases splitOnce 'T' (trim s).toList with
  | none => simp
  | some halves =>
    obtain ⟨date, rest⟩ := halves
    simp only [Option.bind_eq_bind, Option.bind_some]
    cases (stripSuffix ['Z'] rest).or (stripSuffix ['+', '0', '0', ':', '0', '0'] rest) with
    | none => simp
    | some time =>
      simp only [Option.bind_some]
      split
      · simp
      · cases dateFields date '-' 4 2 2 with
        | none => simp
        | some ymd =>
          cases dateFields ((splitOnce '.' time).getD (time, ['0'])).1 ':' 2 2 2 with
          | none => simp
          | some hms =>
            simp only [Option.bind_some, Option.some.injEq, exists_eq_left', Stamp.InRange, Stamp.unix]
            split
            · rename_i hout
              simp at hout
              simp
              omega
            · rename_i hin
              simp at hin
              simp [eq_comm]
              omega

/-! ### Fields as they are written -/

def joined (sep : Char) (a b c : List Char) : List Char := a ++ sep :: (b ++ sep :: c)

theorem dateFields_joined {sep : Char} (hsep : sep.isDigit = false) {w₁ w₂ w₃ a b c : Nat} (h₁ : 0 < w₁) (h₂ : 0 < w₂)
    (h₃ : 0 < w₃) (ha : a < 10 ^ w₁) (hb : b < 10 ^ w₂) (hc : c < 10 ^ w₃) :
    dateFields (joined sep (padded w₁ a) (padded w₂ b) (padded w₃ c)) sep w₁ w₂ w₃ = some (a, b, c) := by
  have hmem : ∀ w n, sep ∉ padded w n := by
    intro w n h
    rw [isDigit_of_mem_padded h] at hsep
    cases hsep
  have hall : ∀ w n, (padded w n).all Char.isDigit = true := fun w n =>
    List.all_eq_true.2 fun _ h => isDigit_of_mem_padded h
  unfold dateFields joined
  rw [List.splitOn_append_cons_self_of_not_mem (hmem w₁ a), List.splitOn_append_cons_self_of_not_mem (hmem w₂ b),
    List.splitOn_eq_singleton (hmem w₃ c)]
  simp [length_padded, hall, h₁, h₂, h₃, ha, hb, hc]

namespace Stamp

def text (x : Stamp) : List Char :=
  joined '-' (padded 4 x.year) (padded 2 x.month) (padded 2 x.day) ++
    'T' :: (joined ':' (padded 2 x.hour) (padded 2 x.minute) (padded 2 x.second) ++ ['Z'])

private theorem mem_joined {sep c : Char} {w₁ w₂ w₃ a b d : Nat}
    (h : c ∈ joined sep (padded w₁ a) (padded w₂ b) (padded w₃ d)) : c = sep ∨ c.isDigit = true := by
  simp only [joined, List.mem_append, List.mem_cons] at h
  rcases h with h | h | h | h | h
  · exact Or.inr (isDigit_of_mem_padded h)
  · exact Or.inl h
  · exact Or.inr (isDigit_of_mem_padded h)
  · exact Or.inl h
  · exact Or.inr (isDigit_of_mem_padded h)

theorem stampOf_text {x : Stamp} (hyear : x.year < 10000) (hmonth : x.month < 100) (hday : x.day < 100)
    (hhour : x.hour < 100) (hminute : x.minute < 100) (hsecond : x.second < 100) :
    stampOf (String.ofList x.text) = some x := by
  have hT : 'T' ∉ joined '-' (padded 4 x.year) (padded 2 x.month) (padded 2 x.day) := by
    intro h
    rcases mem_joined h with h | h <;> cases h
  have hdot : '.' ∉ joined ':' (padded 2 x.hour) (padded 2 x.minute) (padded 2 x.second) := by
    intro h
    rcases mem_joined h with h | h <;> cases h
  have htrim : trim (String.ofList x.text) = String.ofList x.text := by
    apply trim_ofList
    · intro c hc
      have hne : padded 4 x.year ≠ [] := by
        rw [← List.length_pos_iff, length_padded (by decide) hyear]
        decide
      obtain ⟨d, ds, hd⟩ := List.exists_cons_of_ne_nil hne
      have hdigit : d.isDigit = true := isDigit_of_mem_padded (hd ▸ List.mem_cons_self)
      simp only [text, joined, hd, List.cons_append, List.head?_cons, Option.mem_some_iff] at hc
      exact hc ▸ isWhitespace_of_isDigit hdigit
    · intro c hc
      have hlast : x.text.getLast? = some 'Z' := by
        rw [text, ← List.cons_append, ← List.append_assoc, List.getLast?_append]
        rfl
      rw [hlast] at hc
      obtain rfl := Option.some.inj hc
      decide
  unfold stampOf
  rw [htrim, String.toList_ofList, text, splitOnce_append _ hT]
  simp only [Option.bind_eq_bind, Option.bind_some, stripSuffix_append, Option.some_or, splitOnce_eq_none.2 hdot,
    Option.getD_none]
  rw [if_neg (by decide), dateFields_joined (by decide) (by decide) (by decide) (by decide) hyear hmonth hday,
    Option.bind_some, dateFields_joined (by decide) (by decide) (by decide) (by decide) hhour hminute hsecond]
  rfl

end Stamp

/-- Two accepted texts with dates of the calendar: the earlier date is the earlier time, and the times are the same only
where the second of 60 that ends a day is the first of the next. -/
theorem time_le_of_before {s₁ s₂ : String} {t₁ t₂ : Int} (h₁ : rfc3339ToUnix s₁ = .ok t₁)
    (h₂ : rfc3339ToUnix s₂ = .ok t₂) :
    ∃ x₁ x₂, stampOf s₁ = some x₁ ∧ stampOf s₂ = some x₂ ∧ x₁.InRange ∧ x₂.InRange ∧
      ∀ a b : Date, x₁.Names a → x₂.Names b → a.Before b → t₁ ≤ t₂ ∧
        (t₁ = t₂ ↔ b.number = a.number + 1 ∧ (x₁.hour = 23 ∧ x₁.minute = 59 ∧ x₁.second = 60) ∧
          (x₂.hour = 0 ∧ x₂.minute = 0 ∧ x₂.second = 0)) := by
  obtain ⟨x₁, hx₁, hin₁, rfl⟩ := rfc3339ToUnix_ok.1 h₁
  obtain ⟨x₂, hx₂, hin₂, rfl⟩ := rfc3339ToUnix_ok.1 h₂
  refine ⟨x₁, x₂, hx₁, hx₂, hin₁, hin₂, fun a b ha hb hlt => ⟨?_, ?_⟩⟩
  · exact Stamp.unix_le_of_before hin₁ ha hb hlt
  · exact Stamp.unix_eq_iff_of_before hin₁ ha hb hlt

theorem time_le_of_before_leap_second :
    ∃ x₁ x₂, stampOf "2016-12-31T23:59:60Z" = some x₁ ∧ stampOf "2017-01-01T00:00:00Z" = some x₂ ∧
      x₁.InRange ∧ x₂.InRange ∧
      ∀ a b : Date, x₁.Names a → x₂.Names b → a.Before b → (1483228800 : Int) ≤ 1483228800 ∧
        ((1483228800 : Int) = 1483228800 ↔
          b.number = a.number + 1 ∧ (x₁.hour = 23 ∧ x₁.minute = 59 ∧ x₁.second = 60) ∧
          (x₂.hour = 0 ∧ x₂.minute = 0 ∧ x₂.second = 0)) :=
  time_le_of_before (by decide) (by decide)

/-- The 30 February is accepted, the 31 is a later time than the 1 March, and the second of 60 is the next midnight. -/
theorem february_accepted :
    (rfc3339ToUnix "2026-02-30T00:00:00Z" = .ok 1772409600 ∧
      stampOf "2026-02-30T00:00:00Z" = some ⟨2026, 2, 30, 0, 0, 0⟩ ∧
      ∀ a : Date, ¬ (⟨2026, 2, 30, 0, 0, 0⟩ : Stamp).Names a) ∧
    (rfc3339ToUnix "2026-02-31T00:00:00Z" = .ok 1772496000 ∧ rfc3339ToUnix "2026-03-01T00:00:00Z" = .ok 1772323200) ∧
    (rfc3339ToUnix "2016-12-31T23:59:60Z" = .ok 1483228800 ∧ rfc3339ToUnix "2017-01-01T00:00:00Z" = .ok 1483228800) := by
  refine ⟨⟨by decide, by decide, ?_⟩, ⟨by decide, by decide⟩, by decide, by decide⟩
  rintro a ⟨hyear, hmonth, hday⟩
  have hle := a.day_le
  rw [← hyear, ← hmonth, ← hday] at hle
  exact absurd hle (by decide)

end HidraNet.Core
