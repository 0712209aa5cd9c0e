import HidraNet.Hidrarelay.Facts
import HidraNet.Lib.Base64
import HidraNet.Lib.Json
import HidraNet.Lib.Utf8
import HidraNet.Lib.Wire

/-!
# The mail page's format

An identity is two keys, one to encrypt to and one to sign with, and its address is made of both.  A mail is encrypted
to the recipient's key, with the ephemeral key and the recipient's as context, and signed over all that the reader is
shown and the recipient.
-/

namespace HidraNet.MailPage

open Hidrarelay (Json)
open Base64 (atob)

abbrev Text := List Char

/-- What the browser gives: its cryptography, over private keys `κ`, and how it reads JSON. -/
structure Platform (κ : Type*) where
  sha256 : List UInt8 → List UInt8
  /-- The bits that a private key has in common with a public one, if that is a point. -/
  deriveBits : κ → List UInt8 → Option (List UInt8)
  hkdf : List UInt8 → List UInt8 → List UInt8
  /-- AES-GCM: key, nonce, what is authenticated with it, and the text. -/
  encrypt : List UInt8 → List UInt8 → List UInt8 → List UInt8 → List UInt8
  decrypt : List UInt8 → List UInt8 → List UInt8 → List UInt8 → Option (List UInt8)
  verify : List UInt8 → List UInt8 → List UInt8 → Option Bool
  parse : String → Option Json
  number : Json → Option ℚ
  /-- A value as `String` writes it. -/
  string : Json → String
  lower : Text → Text

def MAIL_VERSION : Nat := 2

def te (s : String) : List UInt8 := Utf8.encode s.toList

def td (bytes : List UInt8) : String :=
  match Utf8.lossy bytes with
  | '\uFEFF' :: rest => String.ofList rest
  | text => String.ofList text

/-! ### Writing bytes -/

def base32Digit (n : Nat) : Char := if n < 26 then Char.ofNat (97 + n) else Char.ofNat (24 + n)

/-- The digits of what is left of so many bits, and of the bytes after it. -/
def b32From (bits v : Nat) : List UInt8 → Text
  | [] => if 0 < bits then [base32Digit (v * 2 ^ (5 - bits) % 32)] else []
  | byte :: rest =>
    let bits := bits + 8
    let v := v * 256 + byte.toNat
    (List.range (bits / 5)).map (fun k => base32Digit (v / 2 ^ (bits - 5 * (k + 1)) % 32)) ++ b32From (bits % 5) v rest

def b32 (bytes : List UInt8) : Text := b32From 0 0 bytes

example : b32 [0xff, 0x00, 0x10] = "74aba".toList := by decide

def b64e (bytes : List UInt8) : String := String.ofList (Base64.encode bytes)

def b64d (s : String) : Option (List UInt8) := atob s.toList

def hex (bytes : List UInt8) : Text :=
  bytes.flatMap fun byte => [HidraNet.Json.hexDigit (byte.toNat / 16), HidraNet.Json.hexDigit (byte.toNat % 16)]

def joinParts (parts : List (List UInt8)) : List UInt8 := parts.flatMap fun part => Wire.beBytes 4 part.length ++ part

/-! ### Identities -/

variable {κ : Type*} (b : Platform κ)

/-- An identity.  One from before signing has no key to sign with. -/
structure Identity (κ : Type*) where
  addr : String
  pubRaw : String
  sigPubRaw : Option String
  privJwk : κ

def addrFrom (encPub sigPub : List UInt8) : String :=
  String.ofList (b32 ((b.sha256 (joinParts [te "hidramail-addr-v2", encPub, sigPub])).take 10)) ++ "@hidra"

def genId (encPub sigPub : List UInt8) (priv : κ) : Identity κ where
  addr := addrFrom b encPub sigPub
  pubRaw := b64e encPub
  sigPubRaw := some (b64e sigPub)
  privJwk := priv

def inboxTopic (addr : String) : String :=
  "hmail/" ++ String.ofList (hex ((b.sha256 (te ("hmail:" ++ addr))).take 16))

def dirTopic (addr : String) : String :=
  "hmaildir/" ++ String.ofList (hex ((b.sha256 (te ("hmaildir:" ++ addr))).take 16))

def dirEntry (id : Identity κ) : Option String :=
  id.sigPubRaw.map fun sigPubRaw => String.ofList (HidraNet.Json.object [("v", HidraNet.Json.number MAIL_VERSION),
    ("e", HidraNet.Json.quoted id.pubRaw.toList), ("s", HidraNet.Json.quoted sigPubRaw.toList)])

/-! ### Mails -/

def deriveAES (priv : κ) (pub ephPub recipPub : List UInt8) : Option (List UInt8) :=
  (b.deriveBits priv pub).map fun bits => b.hkdf bits (joinParts [te "hidramail-aead-v2", ephPub, recipPub])

/-- A mail for one of the page's identities. -/
def decryptFor (id : Identity κ) (b64 : String) : Option String := do
  let a ← b64d b64
  guard (65 + 12 + 16 ≤ a.length)
  let ephPub := a.take 65
  let recipPub ← b64d id.pubRaw
  let aes ← deriveAES b id.privJwk ephPub ephPub recipPub
  let text ← b.decrypt aes ((a.drop 65).take 12) ephPub (a.drop 77)
  return td text

def truthy : Json → Bool
  | .null => false
  | .bool v => v
  | .int n => n ≠ 0
  | .number text => b.number (.number text) ≠ some 0
  | .str s => s ≠ ""
  | .arr _ | .obj _ => true

/-- A field as `String` writes it. -/
def fieldText (v : Option Json) : String := (v.map b.string).getD "undefined"

def optionalText (v : Option Json) : String := ((v.filter (truthy b)).map b.string).getD ""

def signedBytes (m : Json) : List UInt8 :=
  joinParts [te "hidramail-sig-v2", te (fieldText b (m.get "mid")), te (fieldText b (m.get "from")),
    te (fieldText b (m.get "to")), te (fieldText b (m.get "date")), te (optionalText b (m.get "subject")),
    te (optionalText b (m.get "body"))]

/-- The sender, if it is proven. -/
def verifyMail (m : Json) : Option String := do
  guard ((m.get "v").bind b.number = some (MAIL_VERSION : ℚ))
  let sp ← (m.get "sp").filter (truthy b)
  let ss ← (m.get "ss").filter (truthy b)
  let sig ← (m.get "sig").filter (truthy b)
  let encPub ← b64d (b.string sp)
  let sigPub ← b64d (b.string ss)
  let sender := addrFrom b encPub sigPub
  guard ((m.get "from").bind Json.asStr = some sender)
  let bytes ← b64d (b.string sig)
  guard (b.verify sigPub bytes (signedBytes b m) = some true)
  return sender

end HidraNet.MailPage
