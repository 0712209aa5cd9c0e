import Mathlib

/-!
# The civil calendar

The dates of the Gregorian calendar, reckoned back before it was in use, and their days counted from the first of the
year 0.  Later dates have greater counts (`Date.number_lt`), so no two dates share one.
-/

namespace HidraNet.Civil

def Leap (y : Int) : Prop := y % 4 = 0 ∧ (y % 100 ≠ 0 ∨ y % 400 = 0)

instance (y : Int) : Decidable (Leap y) := inferInstanceAs (Decidable (_ ∧ _))

def yearLength (y : Int) : Nat := if Leap y then 366 else 365

def monthLength (y : Int) (m : Nat) : Nat :=
  if m ∈ [1, 3, 5, 7, 8, 10, 12] then 31
  else if m ∈ [4, 6, 9, 11] then 30
  else if m = 2 then if Leap y then 29 else 28
  else 0

theorem monthLength_le (y : Int) (m : Nat) : monthLength y m ≤ 31 := by
  unfold monthLength
  split_ifs <;> decide

/-- A date that the calendar has. -/
@[ext] structure Date where
  year : Int
  month : Nat
  day : Nat
  day_pos : 1 ≤ day
  day_le : day ≤ monthLength year month
deriving DecidableEq

def yearStart (y : Int) : Int := 365 * y + (y + 3) / 4 - (y + 99) / 100 + (y + 399) / 400

def monthStart (y : Int) : Nat → Nat
  | 0 => 0
  | m + 1 => monthStart y m + monthLength y m

theorem yearStart_succ (y : Int) : yearStart (y + 1) = yearStart y + yearLength y := by
  unfold yearStart yearLength
  by_cases h : Leap y
  · rw [if_pos h]
    unfold Leap at h
    omega
  · rw [if_neg h]
    unfold Leap at h
    omega

theorem yearStart_add_leap (y : Int) :
    yearStart y + (if Leap y then 1 else 0) = 365 * y + y / 4 - y / 100 + y / 400 + 1 := by
  unfold yearStart
  by_cases h : Leap y
  · rw [if_pos h]
    unfold Leap at h
    omega
  · rw [if_neg h]
    unfold Leap at h
    omega

theorem yearStart_mono {y y' : Int} (h : y ≤ y') : yearStart y ≤ yearStart y' := by
  unfold yearStart
  omega

theorem monthStart_mono (y : Int) {m m' : Nat} (h : m ≤ m') : monthStart y m ≤ monthStart y m' := by
  induction h with
  | refl => exact Nat.le_refl _
  | step _ ih => exact ih.trans (Nat.le_add_right _ _)

theorem monthStart_thirteen (y : Int) : monthStart y 13 = yearLength y := by
  unfold yearLength
  by_cases h : Leap y <;> simp [monthStart, monthLength, h]

theorem monthStart_eq (y : Int) {m : Nat} (h1 : 1 ≤ m) (h12 : m ≤ 12) :
    (monthStart y m : Int) = if m ≤ 2 then 31 * ((m : Int) - 1)
      else (153 * (m - 3) + 2) / 5 + 59 + if Leap y then 1 else 0 := by
  interval_cases m <;> by_cases h : Leap y <;> simp [monthStart, monthLength, h]

namespace Date

variable {a b : Date}

theorem month_mem (a : Date) : 1 ≤ a.month ∧ a.month ≤ 12 := by
  have hlen : 0 < monthLength a.year a.month := Nat.lt_of_lt_of_le a.day_pos a.day_le
  unfold monthLength at hlen
  split at hlen
  · rename_i h
    simp only [List.mem_cons, List.not_mem_nil, or_false] at h
    omega
  · split at hlen
    · rename_i h
      simp only [List.mem_cons, List.not_mem_nil, or_false] at h
      omega
    · split at hlen
      · omega
      · exact absurd hlen (Nat.lt_irrefl 0)

def Before (a b : Date) : Prop :=
  a.year < b.year ∨ a.year = b.year ∧ (a.month < b.month ∨ a.month = b.month ∧ a.day < b.day)

instance (a b : Date) : Decidable (Before a b) := inferInstanceAs (Decidable (_ ∨ _))

def number (a : Date) : Int := yearStart a.year + monthStart a.year a.month + a.day - 1

theorem day_le_31 (a : Date) : a.day ≤ 31 := a.day_le.trans (monthLength_le a.year a.month)

theorem number_ge (a : Date) : yearStart a.year + monthStart a.year a.month ≤ a.number := by
  have := a.day_pos
  unfold number
  omega

theorem number_lt_monthStart (a : Date) : a.number < yearStart a.year + monthStart a.year (a.month + 1) := by
  have := a.day_le
  unfold number
  rw [monthStart]
  omega

theorem number_lt_yearStart (a : Date) : a.number < yearStart (a.year + 1) := by
  have hlt := a.number_lt_monthStart
  have hmono := monthStart_mono a.year (show a.month + 1 ≤ 13 from Nat.succ_le_succ a.month_mem.2)
  rw [monthStart_thirteen] at hmono
  rw [yearStart_succ]
  omega

theorem year_mem {y y' : Int} (h : yearStart y ≤ a.number) (h' : a.number < yearStart y') :
    y ≤ a.year ∧ a.year < y' := by
  constructor
  · by_contra hlt
    have hmono := yearStart_mono (show a.year + 1 ≤ y from not_le.1 hlt)
    exact absurd (h.trans_lt (a.number_lt_yearStart.trans_le hmono)) (lt_irrefl _)
  · by_contra hge
    have hmono := yearStart_mono (not_lt.1 hge)
    have hnum := a.number_ge
    omega

theorem number_lt (h : Before a b) : a.number < b.number := by
  have hge := b.number_ge
  rcases h with hyear | ⟨hyear, hmonth | ⟨hmonth, hday⟩⟩
  · have hlt := a.number_lt_yearStart
    have hmono := yearStart_mono (show a.year + 1 ≤ b.year from hyear)
    omega
  · have hlt := a.number_lt_monthStart
    have hmono := monthStart_mono a.year (show a.month + 1 ≤ b.month from hmonth)
    rw [← hyear] at hge
    omega
  · unfold number
    rw [hyear, hmonth]
    omega

end Date

end HidraNet.Civil
