import HidraNet.Browser.UpdateCheck
import HidraNet.Hidrarelay.Facts

/-!
# HidraVPN's release manifest

A release is a manifest of its files for each platform, under the maintainers' signature.  Genuine is not current: every
release ever made stays signed, so a manifest has a sequence number, and may have a day on which it expires.
-/

namespace HidraNet.Browser.Installer

open HidraNet.Core Text Hidrarelay

def MAX_FILES : Nat := 8

def FILE_MAX_BYTES : Nat := 64 * 1024 * 1024

def MIN_VERSION : String := "0.1.0"

structure Url where
  protocol : String
  href : String

/-- What the browser's code takes from the language, and the server's key. -/
structure Host where
  fromText : String → Option Json
  /-- `String` of what is no text. -/
  string : Json → String
  /-- A number that is not an `i64`, if it is finite. -/
  ofText : String → Option ℚ
  /-- `Number`, where it is finite. -/
  Number : Option Json → Option ℚ
  parseDate : String → Option Int
  url : String → Option Url
  sha256 : List UInt8 → String
  /-- Under the release key that is built into this browser. -/
  verifyBytes : List UInt8 → String → Bool
  platformKey : String

/-! ### Versions -/

def isVersion (s : String) : Bool := (Update.parseVersion s.toList).isSome

/-- The integer that a text starts with. -/
def parseInt (text : List Char) : Option Int :=
  let text := text.dropWhile jsWhitespace
  let (sign, text) : Int × List Char := match text with
    | '-' :: rest => (-1, rest)
    | '+' :: rest => (1, rest)
    | _ => (1, text)
  let digits := text.takeWhile Char.isDigit
  if digits = [] then none else some (sign * Nat.ofDigitChars 10 digits 0)

def part (version : String) (i : Nat) : Int := ((version.toList.splitOn '.')[i]?.bind parseInt).getD (-1)

def compareParts (a b : String) : List Nat → Int
  | [] => 0
  | i :: rest =>
    if part a i ≠ part b i then if part a i < part b i then -1 else 1
    else compareParts a b rest

def compareVersions (a b : String) : Int := compareParts a b [0, 1, 2]

/-! ### Fields -/

section

variable (h : Host)

/-- `String` of a value. -/
def stringOf : Json → String
  | .str s => s
  | v => h.string v

def truthy : Json → Bool
  | .null => false
  | .bool v => v
  | .int n => n ≠ 0
  | .number text => h.ofText text ≠ some 0
  | .str s => s ≠ ""
  | .arr _ | .obj _ => true

def textOf : Option Json → String
  | none => ""
  | some v => if truthy h v then stringOf h v else ""

/-- A whole number that is read exactly. -/
def safeInteger : Json → Option Int
  | .int n => if -Json.maxSafeInteger ≤ n ∧ n ≤ Json.maxSafeInteger then some n else none
  | .number text =>
    match h.ofText text with
    | some q => if q.den = 1 ∧ -Json.maxSafeInteger ≤ q ∧ q ≤ Json.maxSafeInteger then some q.num else none
    | none => none
  | _ => none

end

def isNameChar (c : Char) : Bool := c.isAlphanum || c ∈ ['.', '_', '-']

def isFileName (s : String) : Bool :=
  s.toList.head?.any Char.isAlphanum && s.toList.length ≤ 64 && s.toList.all isNameChar

def isSha256 (s : String) : Bool := s.toList.length = 64 && s.toList.all Update.isLowerHex

/-- `win32-x64`. -/
def isPlatformKey (s : String) : Bool :=
  match s.toList.splitOn '-' with
  | [system, machine] =>
    system ≠ [] && system.all isLowerAlnum && machine ≠ [] && machine.all fun c => isLowerAlnum c || c = '_'
  | _ => false

/-- The one date shape that an expiry takes. -/
def isDate (s : String) : Bool :=
  let text := s.toList
  let zone := match text.drop 19 with
    | '.' :: rest => if (rest.takeWhile Char.isDigit) = [] then '.' :: rest else rest.dropWhile Char.isDigit
    | rest => rest
  (dateFields (text.take 10) '-' 4 2 2).isSome && text[10]? = some 'T' &&
    (dateFields ((text.drop 11).take 8) ':' 2 2 2).isSome && (zone = ['Z'] || zone = "+00:00".toList)

/-! ### The manifest -/

structure File where
  name : Json
  url : String
  sha256 : Json
  size : Nat

structure Platform where
  files : List File
  service : String
  client : Option String

structure Manifest where
  version : Json
  generated : String
  sequence : Nat
  expires : Option String
  expiresAt : Option Int
  platforms : List (String × Platform)

section

variable (h : Host)

def parseFile (key : String) (f : Json) : Except String File := do
  let name := textOf h (f.get "name")
  if !isFileName name then throw (key ++ ": a file has no plain name")
  let some url := h.url (textOf h (f.get "url")) | throw (key ++ "/" ++ name ++ ": the URL is not a URL")
  if url.protocol ≠ "https:" then throw (key ++ "/" ++ name ++ ": only https downloads are accepted")
  if !isSha256 (textOf h (f.get "sha256")) then throw (key ++ "/" ++ name ++ ": the SHA-256 is not 64 hex digits")
  let some size := (h.Number (f.get "size")).filter fun q : ℚ => q.den = 1 ∧ 0 < q ∧ q ≤ (FILE_MAX_BYTES : ℚ)
    | throw (key ++ "/" ++ name ++ ": the size is not sensible")
  return ⟨(f.get "name").getD .null, url.href, (f.get "sha256").getD .null, size.num.toNat⟩

def File.names (files : List File) : List String := files.filterMap fun f => f.name.asStr

def parsePlatform (key : String) (p : Json) : Except String (String × Platform) := do
  if !isPlatformKey key then throw ("the manifest names a platform oddly: " ++ key)
  let some files := ((p.get "files").bind Json.asArray).filter fun l => l ≠ [] ∧ l.length ≤ MAX_FILES
    | throw (key ++ ": a platform lists between 1 and 8 files")
  let files ← files.mapM (parseFile h key)
  if ¬ (File.names files).Nodup then throw (key ++ ": a file is listed twice")
  let some service := (p.s "service").filter (· ∈ File.names files)
    | throw (key ++ ": the service named is not among the files")
  match p.get "client" with
  | none => return (key, ⟨files, service, none⟩)
  | some client =>
    let some client := client.asStr.filter (· ∈ File.names files)
      | throw (key ++ ": the client named is not among the files")
    return (key, ⟨files, service, some client⟩)

/-- A manifest without a sequence is the first. -/
def parseSequence (m : Json) : Except String Nat :=
  match m.get "sequence" with
  | none => .ok 0
  | some v =>
    match (safeInteger h v).filter (0 ≤ ·) with
    | some n => .ok n.toNat
    | none => .error "the manifest's sequence is not a whole number"

def parseExpires (m : Json) : Except String (Option (String × Int)) :=
  match m.get "expires" with
  | none => .ok none
  | some v =>
    match h.parseDate (stringOf h v) with
    | some t =>
      if isDate (stringOf h v) then .ok (some (stringOf h v, t))
      else .error "the manifest's expiry is not a date like 2027-01-01T00:00:00Z"
    | none => .error "the manifest's expiry is not a date like 2027-01-01T00:00:00Z"

def entriesOf : Json → List (String × Json)
  | .obj l => l
  | .arr l => l.mapIdx fun i v => (toString i, v)
  | _ => []

def isObjectLike : Json → Bool
  | .obj _ | .arr _ => true
  | _ => false

/-- The manifest, checked field by field. -/
def parseManifest (text : String) : Except String Manifest := do
  let some m := h.fromText text | throw "the release manifest is not valid JSON"
  if !isObjectLike m then throw "the release manifest is empty"
  if m.s "product" ≠ some "hidravpn" then throw "the manifest is not for HidraVPN"
  if !isVersion (textOf h (m.get "version")) then throw "the manifest has no version of the form X.Y.Z"
  let sequence ← parseSequence h m
  let expires ← parseExpires h m
  let some platforms := (m.get "platforms").filter isObjectLike | throw "the manifest lists no platforms"
  let platforms ← (entriesOf platforms).mapM fun e => parsePlatform h e.1 e.2
  return ⟨(m.get "version").getD .null, textOf h (m.get "generated"), sequence, expires.map Prod.fst, expires.map Prod.snd,
    platforms⟩

/-- A manifest with what it was read from: it is signed, and had not expired then. -/
def genuine (text sig : String) (now : Int) : Except String Manifest := do
  if !h.verifyBytes text.toUTF8.toList sig then
    throw "the release manifest is not signed by the HidraVPN release key; nothing was downloaded"
  let m ← parseManifest h text
  if m.expiresAt.any (· < now) then
    throw ("the release manifest expired on " ++ m.expires.getD "" ++
      ", so it may not be the newest release; nothing was downloaded")
  return m

end

end HidraNet.Browser.Installer
