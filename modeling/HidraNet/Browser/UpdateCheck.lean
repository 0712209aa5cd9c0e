import HidraNet.Core.Timefmt
import HidraNet.Lib.Runs
import HidraNet.Lib.Utf8

/-!
# The update notice

The signed table of the packages has a record: the latest version, the oldest that is safe, and the last day the record
is to be believed.  A browser keeps the most it has verified, over its restarts, and says on the new tab page what the
last answer of the session and what it has kept come to.
-/

namespace HidraNet.Browser.Update

open HidraNet.Core Text

abbrev Text := List Char

def DAY : Nat := 24 * 60 * 60 * 1000

/-! ### Versions -/

/-- `X.Y.Z`, of one to four digits each. -/
def parseVersion (v : Text) : Option (Nat × Nat × Nat) :=
  match v.splitOn '.' with
  | [x, y, z] =>
    if [x, y, z].all fun part => 1 ≤ part.length && part.length ≤ 4 && part.all Char.isDigit then
      some (Nat.ofDigitChars 10 x 0, Nat.ofDigitChars 10 y 0, Nat.ofDigitChars 10 z 0)
    else none
  | _ => none

/-- A version as it is written, with its numbers. -/
structure Version where
  text : Text
  numbers : Nat × Nat × Nat
  parses : parseVersion text = some numbers
deriving DecidableEq

def readVersion (v : Text) : Option Version :=
  match parses : parseVersion v with
  | some numbers => some ⟨v, numbers, parses⟩
  | none => none

/-- Negative when the first is lower, positive when it is higher. -/
def compareVersions (a b : Version) : Int :=
  let (x, y, z) := a.numbers
  let (x', y', z') := b.numbers
  if x ≠ x' then (x : Int) - x'
  else if y ≠ y' then (y : Int) - y'
  else if z ≠ z' then (z : Int) - z'
  else 0

def Version.key (v : Version) : ℕ ×ₗ ℕ ×ₗ ℕ := toLex (v.numbers.1, toLex v.numbers.2)

theorem compareVersions_neg {a b : Version} : compareVersions a b < 0 ↔ a.key < b.key := by
  obtain ⟨_, ⟨x, y, z⟩, _⟩ := a
  obtain ⟨_, ⟨x', y', z'⟩, _⟩ := b
  simp only [compareVersions, Version.key, Prod.Lex.toLex_lt_toLex]
  split_ifs <;> omega

theorem compareVersions_pos {a b : Version} : 0 < compareVersions a b ↔ b.key < a.key := by
  obtain ⟨_, ⟨x, y, z⟩, _⟩ := a
  obtain ⟨_, ⟨x', y', z'⟩, _⟩ := b
  simp only [compareVersions, Version.key, Prod.Lex.toLex_lt_toLex]
  split_ifs <;> omega

theorem compareVersions_nonpos {a b : Version} : compareVersions a b ≤ 0 ↔ a.key ≤ b.key := by
  rw [← not_lt, compareVersions_pos, not_lt]

def higher (a b : Version) : Version := if compareVersions a b ≥ 0 then a else b

theorem higher_key (a b : Version) : (higher a b).key = max a.key b.key := by
  unfold higher
  split_ifs with h
  · rw [max_eq_left]
    rw [← not_lt, ← compareVersions_neg]
    omega
  · rw [max_eq_right]
    exact (compareVersions_neg.1 (by omega)).le

/-! ### Records -/

def daysInMonth (y m : Nat) : Nat :=
  if m = 2 then if y % 4 = 0 ∧ (y % 100 ≠ 0 ∨ y % 400 = 0) then 29 else 28
  else if m = 4 ∨ m = 6 ∨ m = 9 ∨ m = 11 then 30 else 31

def endOfDay (validUntil : Text) : Option Int :=
  match dateFields validUntil '-' 4 2 2 with
  | some (y, m, d) =>
    if 100 ≤ y ∧ 1 ≤ m ∧ m ≤ 12 ∧ 1 ≤ d ∧ d ≤ daysInMonth y m then some (daysFromCivil y m d * DAY + DAY) else none
  | none => none

structure Record where
  latest : Version
  minimum : Version
  validUntil : Text
  expires : Int
  ordered : compareVersions minimum latest ≤ 0
  ends : endOfDay validUntil = some expires
deriving DecidableEq

/-- Where a line ends for `^` and `$`. -/
def lines (text : Text) : List Text := text.splitOnP (· ∈ ['\n', '\r', Char.ofNat 0x2028, Char.ofNat 0x2029])

def isBlank (c : Char) : Bool := c = ' ' || c = '\t'

/-- What a line `  name:   value` has for a value. -/
def fieldValue (name : String) (line : Text) : Option Text :=
  match line.dropPrefix? ("  " ++ name ++ ":").toList with
  | some rest =>
    let value := ((rest.dropWhile isBlank).reverse.dropWhile isBlank).reverse
    if rest.head?.any isBlank ∧ value ≠ [] ∧ value.all (!jsWhitespace ·) then some value else none
  | none => none

def field (text : Text) (name : String) : Except String Text :=
  match (lines text).filterMap (fieldValue name) with
  | [value] => .ok value
  | [] => .error ("no " ++ name)
  | _ => .error (name ++ " appears more than once")

def unix : Text → Text
  | '\r' :: '\n' :: rest => '\n' :: unix rest
  | c :: rest => c :: unix rest
  | [] => []

def isLowerHex (c : Char) : Bool := c.isDigit || ('a' ≤ c && c ≤ 'f')

def isPackage (latest line : Text) : Bool :=
  let hash := line.take 64
  hash.length = 64 && hash.all isLowerHex &&
    ((line.drop 64).dropPrefix? ("  HidraNet-Browser-".toList ++ latest ++ ['-'])).any fun rest =>
      (stripSuffix ".zip".toList rest).any fun name => name ≠ [] && name.all fun c => c.isAlphanum || c = '-'

/-- The record in a table. -/
def parseRecord (text : Text) : Except String Record := do
  let text := unix text
  let latest ← field text "latest-version"
  let minimum ← field text "minimum-safe-version"
  let validUntil ← field text "valid-until"
  let some latest := readVersion latest | throw "latest-version is not X.Y.Z"
  let some minimum := readVersion minimum | throw "minimum-safe-version is not X.Y.Z"
  if ordered : compareVersions minimum latest ≤ 0 then
    match ends : endOfDay validUntil with
    | none => throw "valid-until is not a date (YYYY-MM-DD)"
    | some expires =>
      if (lines text).any (isPackage latest.text) then return ⟨latest, minimum, validUntil, expires, ordered, ends⟩
      else throw ("the table lists no package of " ++ String.ofList latest.text)
  else throw "minimum-safe-version is above latest-version"

/-! ### What a table comes to -/

inductive Decision where
  | update (current latest minimum : Version) (unsafeNow : Bool)
  | current (latest minimum : Version)
deriving DecidableEq

def decide (record : Record) (currentVersion : Version) : Decision :=
  let unsafeNow : Bool := compareVersions currentVersion record.minimum < 0
  if unsafeNow || compareVersions record.latest currentVersion > 0 then
    .update currentVersion record.latest record.minimum unsafeNow
  else .current record.latest record.minimum

inductive Result where
  | noSignature
  | unreachable (reason : String)
  | invalid (reason : String)
  | stale (latest minimum : Version)
  | expired (validUntil : Text)
  | decided (decision : Decision) (record : Record)
deriving DecidableEq

def Result.record : Result → Option Record
  | decided _ record => some record
  | _ => none

def Result.isSilent : Result → Bool
  | noSignature | unreachable _ => true
  | _ => false

abbrev Verifier := List UInt8 → Text → Text → Bool

variable (verifyBrowserSums : Verifier)

def evaluate (table : List UInt8) (signature : Text) (currentVersion : Text) (now : Int) (publicKey : Text)
    (saved : Option Record) : Result :=
  if publicKey = [] then .invalid "this build carries no release key"
  else if ¬ verifyBrowserSums table signature publicKey then
    .invalid "the signature does not match the table or was not made with the release key"
  else match parseRecord (Utf8.lossy table) with
    | .error e => .invalid ("the signed table has no usable record: " ++ e)
    | .ok record =>
      if saved.any fun s => compareVersions record.latest s.latest < 0 || compareVersions record.minimum s.minimum < 0 then
        .stale record.latest record.minimum
      else if now ≥ record.expires then .expired record.validUntil
      else match readVersion currentVersion with
        | none => .invalid "this build has no version to compare"
        | some current => .decided (decide record current) record

/-! ### What is kept -/

/-- What the file has. -/
structure SavedFile where
  latest : Text
  minimum : Text
  validUntil : Text
deriving DecidableEq

def readSaved (file : SavedFile) : Option Record := do
  let latest ← readVersion file.latest
  let minimum ← readVersion file.minimum
  if ordered : compareVersions minimum latest ≤ 0 then
    match ends : endOfDay file.validUntil with
    | none => none
    | some expires => some ⟨latest, minimum, file.validUntil, expires, ordered, ends⟩
  else none

def Record.written (s : Record) : SavedFile := ⟨s.latest.text, s.minimum.text, s.validUntil⟩

/-- What is kept, raised by a record. -/
def mergeSaved (s record : Record) : Record :=
  let later := if record.expires > s.expires then record else s
  { latest := higher record.latest s.latest
    minimum := higher record.minimum s.minimum
    validUntil := later.validUntil
    expires := later.expires
    ordered := by
      have hrecord := compareVersions_nonpos.1 record.ordered
      have hs := compareVersions_nonpos.1 s.ordered
      rw [compareVersions_nonpos, higher_key, higher_key]
      exact max_le_max hrecord hs
    ends := later.ends }

def merge (saved : Option Record) (record : Record) : Record := saved.elim record (mergeSaved · record)

/-! ### A session of the browser -/

/-- What a build carries. -/
structure Build where
  currentVersion : Text
  publicKey : Text
  signedBuild : Bool

/-- A fetch that failed, with the status of the answer if there was one. -/
structure Failure where
  status : Option Nat
  reason : String

abbrev Answer := Except Failure (List UInt8)

structure UpdateCheck where
  build : Build
  saved : Option Record
  result : Option Result
  running : Bool

namespace UpdateCheck

variable (u : UpdateCheck)

def new (build : Build) (file : Option SavedFile) : UpdateCheck := ⟨build, file.bind readSaved, none, false⟩

/-- `run`: an answer is kept for the session, but not that there was none. -/
def run : UpdateCheck :=
  match u.result with
  | none | some (.unreachable _) => { u with running := true }
  | some _ => u

def runOnce (now : Int) (signature table : Answer) : Result :=
  match signature with
  | .error e => if e.status = some 404 then .noSignature else .unreachable e.reason
  | .ok signature =>
    match table with
    | .error e => .unreachable e.reason
    | .ok table =>
      evaluate verifyBrowserSums table (Utf8.lossy signature) u.build.currentVersion now u.build.publicKey u.saved

def keep (r : Result) : Option Record :=
  match r.record with
  | none => u.saved
  | some record => some (merge u.saved record)

inductive Notice where
  | update (current latest minimum : Version) (unsafeNow : Bool)
  | unconfirmed
deriving DecidableEq

def update : Decision → Option Notice
  | .update current latest minimum unsafeNow => some (.update current latest minimum unsafeNow)
  | .current _ _ => none

def unanswered : Option Notice :=
  match u.result with
  | none => none
  | some r =>
    if r.isSilent ∧ ¬ u.build.signedBuild ∧ u.saved = none then none else some .unconfirmed

def notice (now : Int) : Option Notice :=
  match u.result with
  | some (.decided decision _) => update decision
  | _ =>
    match u.saved, readVersion u.build.currentVersion with
    | some saved, some current => if now < saved.expires then update (decide saved current) else u.unanswered
    | _, _ => u.unanswered

end UpdateCheck

end HidraNet.Browser.Update
