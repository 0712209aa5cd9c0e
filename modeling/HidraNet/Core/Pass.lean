import HidraNet.Core.Timefmt

/-!
# Passes, on the node's side

What a node checks of a pass before it asks whether it was spent: an issuer key it trusts and that is current, made for
this node, a signature that holds.  The hash, base64 and RSA are the libraries' (`Crypto`).

A pass that is taken is under a key of the node's settings that is current (`verify_ok`).
-/

namespace HidraNet.Core

open Text

abbrev Bytes := List UInt8

/-- The libraries' part. -/
structure Crypto (Pk : Type) where
  base64 : String → Option Bytes
  sha256 : Bytes → Bytes
  fromSpki : Bytes → Except String Pk
  modulus : Pk → Bytes
  verify : Pk → Bytes → Bytes → Bytes → Bool

/-- `str::as_bytes`. -/
def asBytes (s : String) : Bytes := s.toList.flatMap String.utf8EncodeChar

def DOMAIN : Bytes := asBytes "HidraVPN pass v1\x00"
def KEY_ID_DOMAIN : Bytes := asBytes "HidraVPN pass key id v1\x00"
def SPENT_DOMAIN : Bytes := asBytes "HidraVPN spent pass v1\x00"
def KEY_BITS : Nat := 2048

/-- `str::to_ascii_lowercase`. -/
def toAsciiLowercase (s : String) : String := String.ofList (s.toList.map Char.toLower)

def eqIgnoreAsciiCase (a b : String) : Bool := toAsciiLowercase a == toAsciiLowercase b

def hexDigit (n : Nat) : Char := if n < 10 then Char.ofNat (48 + n) else Char.ofNat (87 + n)

def hexEncode (bytes : Bytes) : String :=
  String.ofList (bytes.flatMap fun b => [hexDigit (b.toNat / 16), hexDigit (b.toNat % 16)])

/-- `hex::decode`. -/
def hexDecode : List Char → Option Bytes
  | [] => some []
  | [_] => none
  | a :: b :: rest =>
    match hexVal a, hexVal b, hexDecode rest with
    | some x, some y, some bytes => some (UInt8.ofNat (16 * x + y) :: bytes)
    | _, _, _ => none

/-- An issuer key as a node's settings name it. -/
structure PassKeyRecord where
  id : String
  key : String
  notAfter : String
deriving DecidableEq

structure IssuerKey (Pk : Type) where
  pk : Pk
  spki : Bytes
  id : Bytes

/-- What `POST /redeem` carries. -/
structure Redemption where
  keyId : String
  nodePublicKey : String
  clientPublicKey : String
  nonce : String
  randomizer : String
  signature : String
deriving DecidableEq

variable {Pk : Type}

section

variable (c : Crypto Pk)

def keyId (spki : Bytes) : Bytes := (c.sha256 (KEY_ID_DOMAIN ++ spki)).take 8

def IssuerKey.fromSpkiBase64 (s : String) : Except String (IssuerKey Pk) :=
  match c.base64 (trim s) with
  | none => .error "the issuer key is not base64"
  | some spki =>
    match c.fromSpki spki with
    | .error e => .error ("not an RSA public key: " ++ e)
    | .ok pk =>
      let bytes := ((c.modulus pk).dropWhile (· == 0)).length
      if bytes ≠ KEY_BITS / 8 then
        .error ("an issuer key is 2048 bits; this one is " ++ toString (bytes * 8) ++ " bits at most")
      else .ok ⟨pk, spki, keyId c spki⟩

def PassKeyRecord.issuerKey (r : PassKeyRecord) : Except String (IssuerKey Pk) :=
  match IssuerKey.fromSpkiBase64 c r.key with
  | .error e => .error e
  | .ok k =>
    if hexEncode k.id ≠ trim r.id then .error ("the pass key's id " ++ r.id ++ " is not the id of its key") else .ok k

def publicKeyFromBase64 (s : String) : Except String Bytes :=
  match c.base64 (trim s) with
  | some b => if b.length = 32 then .ok b else .error "not a valid WireGuard public key"
  | none => .error "not a valid WireGuard public key"

def decodeFixed (n : Nat) (what s : String) : Except String Bytes :=
  match c.base64 (trim s) with
  | none => .error ("the pass's " ++ what ++ " is not base64")
  | some b => if b.length = n then .ok b else .error ("the pass's " ++ what ++ " is not " ++ toString n ++ " bytes")

def decodeId (s : String) : Except String Bytes :=
  match hexDecode (trim s).toList with
  | none => .error "the pass's key id is not hex"
  | some b => if b.length = 8 then .ok b else .error "the pass's key id is not 8 bytes"

end

def PassKeyRecord.isCurrent (r : PassKeyRecord) (now : Int) : Bool :=
  match rfc3339ToUnix r.notAfter with
  | .ok t => now ≤ t
  | .error _ => false

def message (keyId node client nonce : Bytes) : Bytes := DOMAIN ++ keyId ++ node ++ client ++ nonce

def findKey (keys : List PassKeyRecord) (keyId : String) : Option PassKeyRecord :=
  keys.find? fun k => eqIgnoreAsciiCase (trim k.id) (trim keyId)

namespace Redemption

def ensure (p : Prop) [Decidable p] (why : String) : Except String Unit := if p then .ok () else .error why

/-- Checks the pass for this node; whether it was spent is not asked here. -/
def verify (c : Crypto Pk) (r : Redemption) (trusted : List PassKeyRecord) (thisNode : String) (now : Int) :
    Except String Unit := do
  let id ← decodeId r.keyId
  let record ← (findKey trusted r.keyId).elim
    (.error "this node does not accept passes under that issuer key") .ok
  ensure (record.isCurrent now = true) "the issuer key of this pass expired; get passes under the current one"
  let issuer ← record.issuerKey c
  ensure (trim r.nodePublicKey = trim thisNode) "this pass was made for another node"
  let node ← publicKeyFromBase64 c r.nodePublicKey
  let client ← publicKeyFromBase64 c r.clientPublicKey
  let nonce ← decodeFixed c 32 "nonce" r.nonce
  let randomizer ← decodeFixed c 32 "randomizer" r.randomizer
  let sig ← (c.base64 (trim r.signature)).elim (.error "the pass's signature is not base64") .ok
  ensure (sig.length = KEY_BITS / 8) "the pass's signature has the wrong length"
  ensure (c.verify issuer.pk sig randomizer (message id node client nonce) = true) "the pass's signature does not verify"

def spentTag (c : Crypto Pk) (r : Redemption) : String :=
  hexEncode (c.sha256 (SPENT_DOMAIN ++ asBytes (toAsciiLowercase (trim r.keyId)) ++ asBytes (trim r.nonce)))

end Redemption

/-! ### A pass that is taken -/

variable {c : Crypto Pk} {r : Redemption} {keys : List PassKeyRecord} {thisNode : String} {now : Int}

theorem ok_of_bind {ε α β : Type} {x : Except ε α} {f : α → Except ε β} {b : β} (h : (x >>= f) = .ok b) :
    ∃ a, x = .ok a ∧ f a = .ok b := by
  cases x with
  | ok a => exact ⟨a, rfl, h⟩
  | error e => cases h

theorem of_ensure {p : Prop} [Decidable p] {why : String} {u : Unit} (h : Redemption.ensure p why = .ok u) : p := by
  unfold Redemption.ensure at h
  by_cases hp : p
  · exact hp
  · rw [if_neg hp] at h
    cases h

/-- A pass that is taken is under a current key of the settings, and made for this node. -/
theorem Redemption.verify_ok (h : r.verify c keys thisNode now = .ok ()) :
    ∃ record, findKey keys r.keyId = some record ∧ record.isCurrent now = true ∧
      trim r.nodePublicKey = trim thisNode := by
  unfold Redemption.verify at h
  obtain ⟨id, -, h⟩ := ok_of_bind h
  obtain ⟨record, hrecord, h⟩ := ok_of_bind h
  obtain ⟨_, hcurrent, h⟩ := ok_of_bind h
  obtain ⟨issuer, -, h⟩ := ok_of_bind h
  obtain ⟨_, hnode, -⟩ := ok_of_bind h
  refine ⟨record, ?_, of_ensure hcurrent, of_ensure hnode⟩
  cases hfind : findKey keys r.keyId with
  | none =>
    rw [hfind] at hrecord
    cases hrecord
  | some record' =>
    rw [hfind] at hrecord
    cases hrecord
    rfl

end HidraNet.Core
