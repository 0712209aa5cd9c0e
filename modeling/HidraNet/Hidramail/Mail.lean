import HidraNet.Lib.FileTrees
import HidraNet.Lib.Json
import HidraNet.Lib.Utf8
import HidraNet.Lib.Wire

/-!
# Mails

What is sent, stored and shown of a mail, and how its body is sealed and its envelope signed.  The ciphers, the
signatures and the reading of JSON are other packages' (`Packages`); JSON is written as `serde_json` writes it.
-/

namespace HidraNet.Hidramail

open FileTrees Json Utf8 Wire

abbrev Text := List Char

abbrev Key := { bytes : List UInt8 // bytes.length = 32 }

abbrev Nonce := { bytes : List UInt8 // bytes.length = 12 }

structure MailEnvelope where
  id : Text
  fromAddr : Text
  toAddr : Text
  timestamp : Nat
  ephemeralPubkey : List UInt8
  sealedBody : List UInt8
  senderVerifyingKey : List UInt8
  signature : List UInt8
deriving DecidableEq

structure MailContent where
  subject : Text
  body : Text
deriving DecidableEq

structure MailSummary where
  id : Text
  fromAddr : Text
  toAddr : Text
  timestamp : Nat
  subject : Text
  read : Bool
deriving DecidableEq

structure SendRequest where
  mailTo : Text
  subject : Text
  body : Text
  directAddr : Option Text
deriving DecidableEq

namespace MailEnvelope

def signingData (e : MailEnvelope) : List UInt8 :=
  encode e.id ++ encode e.fromAddr ++ encode e.toAddr ++ leBytes 8 e.timestamp ++ e.sealedBody

def json (e : MailEnvelope) : Text :=
  object [("id", quoted e.id), ("from_addr", quoted e.fromAddr), ("to_addr", quoted e.toAddr),
    ("timestamp", number e.timestamp), ("ephemeral_pubkey", bytes e.ephemeralPubkey),
    ("sealed_body", bytes e.sealedBody), ("sender_verifying_key", bytes e.senderVerifyingKey),
    ("signature", bytes e.signature)]

end MailEnvelope

def MailContent.json (c : MailContent) : Text := object [("subject", quoted c.subject), ("body", quoted c.body)]

def MailSummary.json (s : MailSummary) : Text :=
  object [("id", quoted s.id), ("from_addr", quoted s.fromAddr), ("to_addr", quoted s.toAddr),
    ("timestamp", number s.timestamp), ("subject", quoted s.subject), ("read", bool s.read)]

/-- What other packages do: `x25519`, `blake3` and the AEAD together, the signatures, and `serde_json`'s reading. -/
structure Packages where
  publicKey : Key → Key
  /-- With the recipient's public half, an ephemeral secret and a nonce. -/
  encrypt : Key → Key → List UInt8 → List UInt8 → List UInt8
  /-- With a secret, the sender's ephemeral public half and a nonce. -/
  decrypt : Key → Key → List UInt8 → List UInt8 → Option (List UInt8)
  verifyingKey : Key → Key
  sign : Key → List UInt8 → List UInt8
  verify : List UInt8 → List UInt8 → List UInt8 → Bool
  readEnvelope : Text → Except Text MailEnvelope
  readContent : List UInt8 → Except Text MailContent
  readSendRequest : Text → Except Text SendRequest
  readPubkey : Text → Except Text Text

inductive HidraError where
  | io (e : Refusal)
  | crypto (text : Text)
  | protocol (text : Text)
deriving DecidableEq

def HidraError.text : HidraError → Text
  | io e => "I/O error: ".toList ++ e.text.toList
  | crypto text => "cryptographic error: ".toList ++ text
  | protocol text => "protocol error: ".toList ++ text

variable (pk : Packages)

def sealMessage (recipient ephemeral : Key) (nonce : Nonce) (plaintext : List UInt8) : List UInt8 × List UInt8 :=
  ((pk.publicKey ephemeral).1, nonce.1 ++ pk.encrypt recipient ephemeral nonce.1 plaintext)

def openMessage (secret : Key) (ephPubkey sealedData : List UInt8) : Except HidraError (List UInt8) :=
  if h : ephPubkey.length = 32 then
    if sealedData.length < 13 then .error (.crypto "sealed data too short".toList)
    else
      match pk.decrypt secret ⟨ephPubkey, h⟩ (sealedData.take 12) (sealedData.drop 12) with
      | none => .error (.crypto "open: aead::Error".toList)
      | some plaintext => .ok plaintext
  else .error (.crypto "invalid ephemeral pubkey".toList)

def verifySig (vk data sig : List UInt8) : Bool :=
  if vk.length ≠ 32 || sig.length ≠ 64 then false else pk.verify vk data sig

theorem MailEnvelope.plain_json (e : MailEnvelope) : Plain e.json := by
  apply plain_object
  intro f hf
  simp only [List.mem_cons, List.not_mem_nil, or_false] at hf
  obtain rfl | rfl | rfl | rfl | rfl | rfl | rfl | rfl := hf
  · exact plain_quoted _
  · exact plain_quoted _
  · exact plain_quoted _
  · exact plain_number _
  · exact plain_bytes _
  · exact plain_bytes _
  · exact plain_bytes _
  · exact plain_bytes _

end HidraNet.Hidramail
