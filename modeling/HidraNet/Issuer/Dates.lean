import HidraNet.Core.Dates

/-!
# The issuer's dates

The issuer writes a time as a date of the calendar, by the day or to the second, and what it writes from the year 0 to
the year 9999 is read back as the time, or as the midnight that starts its day (`rfc3339_read_back`).
-/

namespace HidraNet.Issuer

open Civil HidraNet.Core Decimal Text

/-- The year, month and day of a day since 0000-03-01. -/
def civilFromDays (z : Int) : Int × Int × Int :=
  let era := z / 146097
  let doe := z - era * 146097
  let yoe := (doe - doe.tdiv 1460 + doe.tdiv 36524 - doe.tdiv 146096).tdiv 365
  let doy := doe - (365 * yoe + yoe.tdiv 4 - yoe.tdiv 100)
  let mp := (5 * doy + 2).tdiv 153
  let d := doy - (153 * mp + 2).tdiv 5 + 1
  let m := if mp < 10 then mp + 3 else mp - 9
  let y := yoe + era * 400 + if m ≤ 2 then 1 else 0
  (y, m, d)

def rfc3339 (unix : Int) : String :=
  let (y, m, d) := civilFromDays (unix / 86400 + 719468)
  String.ofList (paddedInt 4 y ++ '-' :: paddedInt 2 m ++ '-' :: paddedInt 2 d ++ "T00:00:00Z".toList)

def rfc3339Full (unix : Int) : String :=
  let date := rfc3339 unix
  let secs := unix % 86400
  String.ofList (date.toList.take 10 ++ 'T' :: paddedInt 2 (secs / 3600) ++ ':' :: paddedInt 2 (secs % 3600 / 60) ++
    ':' :: paddedInt 2 (secs % 60) ++ ['Z'])

example : rfc3339Full 951868799 = "2000-02-29T23:59:59Z" ∧ rfc3339 (-1) = "1969-12-31T00:00:00Z" := by decide

/-! ### From days to dates -/

private theorem doe_split {doe : Int} (h0 : 0 ≤ doe) (h1 : doe ≤ 146096) :
    ∃ c q k doy : Int, doe = 36524 * c + 1461 * q + 365 * k + doy ∧ 0 ≤ c ∧ c ≤ 3 ∧ 0 ≤ q ∧ q ≤ 24 ∧ 0 ≤ k ∧ k ≤ 3 ∧
      0 ≤ doy ∧ doy ≤ 365 ∧ (doy = 365 → k = 3 ∧ (q ≤ 23 ∨ c = 3)) := by
  have hc : ∃ c r : Int, doe = 36524 * c + r ∧ 0 ≤ c ∧ c ≤ 3 ∧ 0 ≤ r ∧ r ≤ 36524 ∧ (r = 36524 → c = 3) := by
    by_cases hlast : doe = 146096
    · exact ⟨3, 36524, by omega⟩
    · exact ⟨doe / 36524, doe % 36524, by omega⟩
  obtain ⟨c, r, hr, hc0, hc3, hr0, hr1, hlast⟩ := hc
  have hk : ∃ k doy : Int, r % 1461 = 365 * k + doy ∧ 0 ≤ k ∧ k ≤ 3 ∧ 0 ≤ doy ∧ doy ≤ 365 ∧ (doy = 365 → k = 3) := by
    by_cases hleap : r % 1461 = 1460
    · exact ⟨3, 365, by omega⟩
    · exact ⟨r % 1461 / 365, r % 1461 % 365, by omega⟩
  obtain ⟨k, doy, hdoy, hk0, hk3, hdoy0, hdoy1, hleap⟩ := hk
  exact ⟨c, r / 1461, k, doy, by omega⟩

private theorem yoe_eq {c q k doy : Int} (hc0 : 0 ≤ c) (hc3 : c ≤ 3) (hq0 : 0 ≤ q) (hq : q ≤ 24) (hk0 : 0 ≤ k)
    (hk : k ≤ 3) (hd0 : 0 ≤ doy) (hd : doy ≤ 365) (hleap : doy = 365 → k = 3 ∧ (q ≤ 23 ∨ c = 3)) :
    let doe := 36524 * c + 1461 * q + 365 * k + doy
    (doe - doe / 1460 + doe / 36524 - doe / 146096) / 365 = 100 * c + 4 * q + k := by
  intro doe
  have h146096 : doe / 146096 = if doe = 146096 then 1 else 0 := by
    split <;> omega
  have h36524 : doe / 36524 = c + if doe = 146096 then 1 else 0 := by
    split <;> omega
  have h1460 : doe / 1460 = 25 * c + q + if 24 * c + q + 365 * k + doy < 1460 then 0 else 1 := by
    split <;> omega
  rw [h146096, h36524, h1460]
  split <;> omega

private theorem day_le {y doy mp : Int} {m d : Nat} (hd : doy ≤ 365) (hmp : mp = (5 * doy + 2) / 153) (hmp0 : 0 ≤ mp)
    (hm : (m : Int) = if mp < 10 then mp + 3 else mp - 9) (hday : (d : Int) = doy - (153 * mp + 2) / 5 + 1)
    (hleap : m ≤ 2 → doy = 365 → Leap y) : 1 ≤ d ∧ d ≤ monthLength y m := by
  have hmonth : 1 ≤ m ∧ m ≤ 12 ∧ (mp = m - 3 ∨ (m ≤ 2 ∧ mp = m + 9)) := by
    split at hm <;> omega
  obtain ⟨h1, h12, hmonth⟩ := hmonth
  refine ⟨by omega, ?_⟩
  interval_cases m
  case «2» =>
    -- the last day of that year is the 29 February
    by_cases h365 : doy = 365
    · simp [monthLength, hleap (by decide) h365]
      omega
    · have hle : 28 ≤ monthLength y 2 := by
        by_cases h : Leap y <;> simp [monthLength, h]
      omega
  all_goals
    simp only [monthLength]
    simp
    omega

private theorem yearStart_era {c q k era : Int} (hc0 : 0 ≤ c) (hc3 : c ≤ 3) (hq0 : 0 ≤ q) (hq : q ≤ 24) (hk0 : 0 ≤ k)
    (hk : k ≤ 3) :
    let y := 100 * c + 4 * q + k + era * 400
    yearStart y + (if Leap y then 1 else 0) = era * 146097 + 36524 * c + 1461 * q + 365 * k + 1 := by
  intro y
  have h4 : y / 4 = 25 * c + q + 100 * era := by omega
  have h100 : y / 100 = c + 4 * era := by omega
  have h400 : y / 400 = era := by omega
  rw [yearStart_add_leap, h4, h100, h400]
  omega

private theorem era_day {doe : Int} (h0 : 0 ≤ doe) (h1 : doe ≤ 146096) :
    ∃ yoe doy : Int, (doe - doe / 1460 + doe / 36524 - doe / 146096) / 365 = yoe ∧
      doe - (365 * yoe + yoe / 4 - yoe / 100) = doy ∧ 0 ≤ yoe ∧ 0 ≤ doy ∧ doy ≤ 365 ∧
      ∀ era : Int, (doy = 365 → Leap (yoe + era * 400 + 1)) ∧
        yearStart (yoe + era * 400) + (if Leap (yoe + era * 400) then 1 else 0) = era * 146097 + doe - doy + 1 := by
  obtain ⟨c, q, k, doy, hdoe, hc0, hc3, hq0, hq, hk0, hk3, hdoy0, hdoy, hlast⟩ := doe_split h0 h1
  have h4 : (100 * c + 4 * q + k) / 4 = 25 * c + q := by omega
  have h100 : (100 * c + 4 * q + k) / 100 = c := by omega
  have hyoe0 : 0 ≤ 100 * c + 4 * q + k := by omega
  have hleap : ∀ era : Int, doy = 365 → Leap (100 * c + 4 * q + k + era * 400 + 1) := by
    intro era h365
    obtain ⟨rfl, hcycle⟩ := hlast h365
    unfold Leap
    omega
  have hyoe := yoe_eq hc0 hc3 hq0 hq hk0 hk3 hdoy0 hdoy hlast
  dsimp only at hyoe
  rw [← hdoe] at hyoe
  refine ⟨100 * c + 4 * q + k, doy, hyoe, ?_, hyoe0, hdoy0, hdoy, fun era => ⟨hleap era, ?_⟩⟩
  · rw [h4, h100, hdoe]
    ring
  · rw [yearStart_era hc0 hc3 hq0 hq hk0 hk3, hdoe]
    ring

private theorem number_march (start : Int) {y y' doy mp : Int} {m d : Nat} (hdoy : doy ≤ 365)
    (hmp : mp = (5 * doy + 2) / 153) (hmp0 : 0 ≤ mp) (hm : (m : Int) = if mp < 10 then mp + 3 else mp - 9)
    (hd : (d : Int) = doy - (153 * mp + 2) / 5 + 1) (hy : y = y' + if m ≤ 2 then 1 else 0)
    (hstart : yearStart y' + (if Leap y' then 1 else 0) = start + 1) :
    yearStart y + monthStart y m + d - 1 = start + doy + 60 := by
  have hmonth : 1 ≤ m ∧ m ≤ 12 := by
    split at hm <;> omega
  rw [monthStart_eq y hmonth.1 hmonth.2, hd]
  by_cases hm2 : m ≤ 2
  · have hmp' : mp = m + 9 := by
      split at hm <;> omega
    have hyear : (yearLength y' : Int) = 365 + if Leap y' then 1 else 0 := by
      unfold yearLength
      split <;> rfl
    rw [if_pos hm2] at hy ⊢
    rw [hy, yearStart_succ, hyear]
    omega
  · have hmp' : mp = m - 3 := by
      split at hm <;> omega
    rw [if_neg hm2] at hy ⊢
    rw [hy, Int.add_zero]
    omega

theorem civilFromDays_eq (z : Int) :
    ∃ a : Date, civilFromDays z = (a.year, (a.month : Int), (a.day : Int)) ∧ a.number = z + 60 := by
  have hdoe : z - z / 146097 * 146097 = z % 146097 := by omega
  have hdoe0 : 0 ≤ z % 146097 := Int.emod_nonneg z (by decide)
  have hdoe1 : z % 146097 < 146097 := Int.emod_lt_of_pos z (by decide)
  obtain ⟨yoe, doy, hyoe, hdays, hyoe0, hdoy0, hdoy, hyear⟩ := era_day hdoe0 (Int.le_of_lt_add_one hdoe1)
  obtain ⟨hlast, hstart⟩ := hyear (z / 146097)
  obtain ⟨mp, hmp⟩ : ∃ mp : Int, mp = (5 * doy + 2) / 153 := ⟨_, rfl⟩
  have hmp0 : 0 ≤ mp := hmp ▸ Int.ediv_nonneg (by linarith) (by decide)
  obtain ⟨m, hm⟩ : ∃ m : Nat, (m : Int) = if mp < 10 then mp + 3 else mp - 9 :=
    ⟨_, Int.toNat_of_nonneg (by split <;> linarith)⟩
  obtain ⟨d, hd⟩ : ∃ d : Nat, (d : Int) = doy - (153 * mp + 2) / 5 + 1 :=
    ⟨_, Int.toNat_of_nonneg (by clear hyoe hdays hlast hstart; omega)⟩
  obtain ⟨y, hy⟩ : ∃ y : Int, y = yoe + z / 146097 * 400 + if m ≤ 2 then 1 else 0 := ⟨_, rfl⟩
  have hleap : m ≤ 2 → doy = 365 → Leap y := by
    intro hm2 h365
    rw [hy, if_pos hm2]
    exact hlast h365
  obtain ⟨hday1, hday⟩ := day_le hdoy hmp hmp0 hm hd hleap
  refine ⟨⟨y, m, d, hday1, hday⟩, ?_, ?_⟩
  · have hyoe' : 0 ≤ z % 146097 - z % 146097 / 1460 + z % 146097 / 36524 - z % 146097 / 146096 := by
      clear hyoe hdays hlast hstart
      omega
    have hmp' : 0 ≤ 5 * doy + 2 := by linarith
    have hd' : 0 ≤ 153 * mp + 2 := by linarith
    unfold civilFromDays
    simp only [hdoe]
    rw [Int.tdiv_eq_ediv_of_nonneg hdoe0, Int.tdiv_eq_ediv_of_nonneg hdoe0, Int.tdiv_eq_ediv_of_nonneg hdoe0,
      Int.tdiv_eq_ediv_of_nonneg hyoe', hyoe, Int.tdiv_eq_ediv_of_nonneg hyoe0, Int.tdiv_eq_ediv_of_nonneg hyoe0,
      hdays, Int.tdiv_eq_ediv_of_nonneg hmp', ← hmp, Int.tdiv_eq_ediv_of_nonneg hd', ← hd, ← hm]
    simp only [Nat.cast_le_ofNat, ← hy]
  · have hnumber := number_march (z / 146097 * 146097 + z % 146097 - doy) hdoy hmp hmp0 hm hd hy hstart
    show yearStart y + monthStart y m + d - 1 = z + 60
    rw [hnumber, ← hdoe]
    ring

/-! ### What is written is read back -/

private theorem civil_fields {t : Int} (h0 : daysFromCivil 0 1 1 * 86400 ≤ t)
    (h1 : t < daysFromCivil 10000 1 1 * 86400) :
    ∃ y m d : Nat, civilFromDays (t / 86400 + 719468) = ((y : Int), (m : Int), (d : Int)) ∧ y < 10000 ∧
      (1 ≤ m ∧ m ≤ 12 ∧ 1 ≤ d ∧ d ≤ 31) ∧ daysFromCivil y m d = t / 86400 := by
  obtain ⟨a, hfields, hnumber⟩ := civilFromDays_eq (t / 86400 + 719468)
  have hstart : daysFromCivil 0 1 1 = yearStart 0 - 719528 := by decide
  have hend : daysFromCivil 10000 1 1 = yearStart 10000 - 719528 := by decide
  rw [hstart] at h0
  rw [hend] at h1
  obtain ⟨hy0, hy1⟩ : 0 ≤ a.year ∧ a.year < 10000 := a.year_mem (by omega) (by omega)
  have hyear : ((a.year.toNat : Nat) : Int) = a.year := Int.toNat_of_nonneg hy0
  refine ⟨a.year.toNat, a.month, a.day, ?_, by omega, ⟨a.month_mem.1, a.month_mem.2, a.day_pos, a.day_le_31⟩, ?_⟩
  · rw [hfields, hyear]
  · rw [hyear, daysFromCivil_date]
    omega

private theorem rfc3339_text {t : Int} {y m d : Nat}
    (h : civilFromDays (t / 86400 + 719468) = ((y : Int), (m : Int), (d : Int))) :
    rfc3339 t = String.ofList (Stamp.text ⟨y, m, d, 0, 0, 0⟩) := by
  have hclock : "T00:00:00Z".toList = 'T' :: (joined ':' (padded 2 0) (padded 2 0) (padded 2 0) ++ ['Z']) := by decide
  unfold rfc3339 Stamp.text joined
  rw [h, hclock]
  simp [paddedInt_natCast, joined]

private theorem rfc3339Full_text {t : Int} {y m d : Nat} (hy : y < 10000) (hm : m < 100) (hd : d < 100)
    (h : civilFromDays (t / 86400 + 719468) = ((y : Int), (m : Int), (d : Int))) :
    rfc3339Full t = String.ofList (Stamp.text ⟨y, m, d, (t % 86400 / 3600).toNat, (t % 86400 % 3600 / 60).toNat,
      (t % 86400 % 60).toNat⟩) := by
  have hdate : (joined '-' (padded 4 y) (padded 2 m) (padded 2 d)).length = 10 := by
    simp [joined, length_padded, hy, hm, hd]
  have htake : (rfc3339 t).toList.take 10 = joined '-' (padded 4 y) (padded 2 m) (padded 2 d) := by
    rw [rfc3339_text h, String.toList_ofList, Stamp.text, List.take_append_of_le_length hdate.ge,
      List.take_of_length_le hdate.le]
  have hcast : ∀ n : Int, 0 ≤ n → paddedInt 2 n = padded 2 n.toNat := by
    intro n hn
    rw [← paddedInt_natCast, Int.toNat_of_nonneg hn]
  unfold rfc3339Full
  dsimp only
  rw [htake, hcast _ (by omega), hcast _ (by omega), hcast _ (by omega), Stamp.text, joined]
  simp [joined]

/-- Whatever is written from the year 0 to the year 9999 is read back: the time to the second, and by the day the
midnight that starts it. -/
theorem rfc3339_read_back {t : Int} (h0 : daysFromCivil 0 1 1 * 86400 ≤ t) (h1 : t < daysFromCivil 10000 1 1 * 86400) :
    rfc3339ToUnix (rfc3339Full t) = .ok t ∧ rfc3339ToUnix (rfc3339 t) = .ok (t - t % 86400) := by
  obtain ⟨y, m, d, hfields, hy, ⟨hm1, hm, hd1, hd⟩, hdays⟩ := civil_fields h0 h1
  constructor
  · rw [rfc3339Full_text hy (by omega) (by omega) hfields, rfc3339ToUnix_ok]
    refine ⟨_, Stamp.stampOf_text hy ?_ ?_ ?_ ?_ ?_, ?_, ?_⟩
    · show m < 100
      omega
    · show d < 100
      omega
    · show (t % 86400 / 3600).toNat < 100
      omega
    · show (t % 86400 % 3600 / 60).toNat < 100
      omega
    · show (t % 86400 % 60).toNat < 100
      omega
    · unfold Stamp.InRange
      dsimp only
      omega
    · unfold Stamp.unix
      rw [hdays]
      dsimp only
      omega
  · rw [rfc3339_text hfields, rfc3339ToUnix_ok]
    refine ⟨_, Stamp.stampOf_text hy ?_ ?_ (Nat.zero_lt_succ _) (Nat.zero_lt_succ _) (Nat.zero_lt_succ _), ?_, ?_⟩
    · show m < 100
      omega
    · show d < 100
      omega
    · exact ⟨hm1, hm, hd1, hd, Nat.zero_le _, Nat.zero_le _, Nat.zero_le _⟩
    · unfold Stamp.unix
      rw [hdays]
      dsimp only
      omega

theorem rfc3339_read_back_leap_day :
    rfc3339ToUnix (rfc3339Full 951868799) = .ok 951868799 ∧
      rfc3339ToUnix (rfc3339 951868799) = .ok (951868799 - 951868799 % 86400) :=
  rfc3339_read_back (by decide) (by decide)

end HidraNet.Issuer
