import HidraNet.Lib.Text

/-!
# Dates

The one shape of date a list or a node's settings use, `2026-10-13T00:00:00Z`, as seconds since the epoch.
-/

namespace HidraNet.Core

open Text

/-- The fields of a text between separators: digits all, as many as the field is wide. -/
def dateFields (text : List Char) (sep : Char) (w₁ w₂ w₃ : Nat) : Option (Nat × Nat × Nat) :=
  match text.splitOn sep with
  | [p₁, p₂, p₃] =>
    if (p₁.length = w₁ ∧ p₁.all Char.isDigit) ∧ (p₂.length = w₂ ∧ p₂.all Char.isDigit) ∧
        (p₃.length = w₃ ∧ p₃.all Char.isDigit) then
      some (Nat.ofDigitChars 10 p₁ 0, Nat.ofDigitChars 10 p₂ 0, Nat.ofDigitChars 10 p₃ 0)
    else none
  | _ => none

/-- Days since 1970-01-01; the source's division is towards zero. -/
def daysFromCivil (y : Int) (m d : Nat) : Int :=
  let y := if m ≤ 2 then y - 1 else y
  let era := (if y ≥ 0 then y else y - 399).tdiv 400
  let yoe := y - era * 400
  let mp : Int := ((m : Int) + 9).tmod 12
  let doy := (153 * mp + 2).tdiv 5 + d - 1
  let doe := yoe * 365 + yoe.tdiv 4 - yoe.tdiv 100 + doy
  era * 146097 + doe - 719468

/-- `YYYY-MM-DDTHH:MM:SS[.fff]Z`, or with `+00:00`, as seconds since the epoch. -/
def rfc3339ToUnix (s : String) : Except String Int :=
  let bad : Except String Int := .error ("\"" ++ trim s ++ "\" is not a date like 2026-10-13T00:00:00Z")
  match splitOnce 'T' (trim s).toList with
  | none => bad
  | some (date, rest) =>
    match (stripSuffix ['Z'] rest).or (stripSuffix ['+', '0', '0', ':', '0', '0'] rest) with
    | none => bad
    | some time =>
      let (time, frac) := (splitOnce '.' time).getD (time, ['0'])
      if frac.isEmpty || !frac.all Char.isDigit then bad
      else
        match dateFields date '-' 4 2 2, dateFields time ':' 2 2 2 with
        | some (y, m, day), some (h, mi, sec) =>
          if !(1 ≤ m && m ≤ 12) || !(1 ≤ day && day ≤ 31) || h > 23 || mi > 59 || sec > 60 then bad
          else .ok (daysFromCivil y m day * 86400 + h * 3600 + mi * 60 + sec)
        | _, _ => bad

example : rfc3339ToUnix "2026-10-13T12:34:56.250Z" = .ok 1791894896 := by decide

end HidraNet.Core
