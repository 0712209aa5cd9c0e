import HidraNet.Lib.Text
import HidraNet.Lib.Utf8

/-!
# The keys directory

A node's two secrets and its service's secret, each in a file of its own, in the clear or sealed under the passphrase of
the environment.  A run loads what is there or makes it, and seals what it finds in the clear when there is a passphrase.

A run reads first and writes last, so it is the writes it makes, in order, with what comes of them (`Script`).  A write
opens a file, which empties it, and fills it; a crash cuts a run between two writes or within one (`perform`).
-/

namespace HidraNet.Keystore

open Text Utf8

abbrev Text := List Char
abbrev Bytes := List UInt8

abbrev Sized (n : Nat) := { b : Bytes // b.length = n }

inductive File where
  | identitySecret
  | noiseStaticSecret
  | identityPublic
  | noiseStaticPublic
  | serviceSecret
  | servicePublic
  | serviceAddress
deriving DecidableEq

abbrev Disk := File → Option Bytes

inductive KeyError where
  | io (e : Text)
  | keyManagement (e : Text)
deriving DecidableEq

/-- The libraries' part. -/
structure Lib where
  derive : Text → Bytes → Bytes
  /-- XChaCha20-Poly1305, of a key, a nonce and a message, with the magic word as the associated data. -/
  encrypt : Bytes → Bytes → Bytes → Option Bytes
  decrypt : Bytes → Bytes → Bytes → Option Bytes
  base64 : Bytes → Text
  fromBase64 : Text → Option Bytes
  /-- What base64 says of a text that it does not decode. -/
  encodingError : Text → Text
  verifyingKey : Bytes → Bytes
  x25519Public : Bytes → Bytes
  blake3 : Bytes → Bytes
  display : File → Text

variable (lib : Lib)

/-! ### Sealing -/

def magic : Text := "hidrakey1:".toList

def trimStart (text : Text) : Text := text.dropWhile isWhitespace

def trimmed (text : Text) : Text := (trim (String.ofList text)).toList

def isSealed (contents : Text) : Bool := magic.isPrefixOf (trimStart contents)

/-- What a seal draws. -/
structure SealDraws where
  salt : Sized 16
  nonce : Sized 24
deriving DecidableEq

def sealUnder (passphrase : Text) (d : SealDraws) (plaintext : Bytes) : Except KeyError Text :=
  match lib.encrypt (lib.derive passphrase d.salt) d.nonce plaintext with
  | none => .error (.keyManagement "sealing the key failed".toList)
  | some ciphertext => .ok (magic ++ lib.base64 (d.salt.1 ++ d.nonce.1 ++ ciphertext))

def unsealUnder (passphrase contents : Text) : Except KeyError Bytes :=
  match magic.isPrefixOf (trimmed contents), (trimmed contents).drop magic.length with
  | false, _ => .error (.keyManagement "not a sealed key file".toList)
  | true, body =>
    match lib.fromBase64 (trimmed body) with
    | none => .error (.keyManagement ("sealed key is not base64: ".toList ++ lib.encodingError (trimmed body)))
    | some blob =>
      if blob.length < 16 + 24 + 16 then .error (.keyManagement "sealed key is truncated".toList)
      else
        match lib.decrypt (lib.derive passphrase (blob.take 16)) ((blob.drop 16).take 24) (blob.drop 40) with
        | none => .error (.keyManagement
            "could not unseal the key: wrong HIDRA_KEY_PASSPHRASE, or the file has been altered".toList)
        | some plaintext => .ok plaintext

def passphrase (var : Option Text) : Option Text := var.filter (· ≠ [])

/-- What `write_secret` writes. -/
def secretContents (p : Option Text) (d : SealDraws) (plaintext : Bytes) : Except KeyError Bytes :=
  match p with
  | some p => (sealUnder lib p d plaintext).map encode
  | none => .ok plaintext

structure SecretRead where
  plaintext : Bytes
  needsSealing : Bool

def readSecret (disk : Disk) (p : Option Text) (f : File) : Except KeyError SecretRead :=
  match disk f with
  | none => .error (.io "No such file or directory (os error 2)".toList)
  | some bytes =>
    match fromUtf8 bytes with
    | none => .error (.io "stream did not contain valid UTF-8".toList)
    | some contents =>
      match isSealed contents, p with
      | true, some p => (unsealUnder lib p contents).map (⟨·, false⟩)
      | true, none => .error (.keyManagement (lib.display f ++ (" is sealed but HIDRA_KEY_PASSPHRASE is not set. Set " ++
          "it to the passphrase this node was started with; deleting the file would give this node a new identity " ++
          "and, for a hidden service, a new address.").toList))
      | false, p => .ok ⟨encode (trimmed contents), p.isSome⟩

/-! ### Keys -/

structure NodeKeys where
  identitySigning : Bytes
  identityVerifying : Bytes
  noiseStaticSecret : Bytes
  noiseStaticPublic : Bytes
  nodeId : Bytes
deriving DecidableEq

structure ServiceKeys where
  signingKey : Bytes
  verifyingKey : Bytes
  addressHash : Bytes
deriving DecidableEq

/-- The keys that come with the secrets. -/
def NodeKeys.of (identity noise : Bytes) : NodeKeys where
  identitySigning := identity
  identityVerifying := lib.verifyingKey identity
  noiseStaticSecret := noise
  noiseStaticPublic := lib.x25519Public noise
  nodeId := (lib.blake3 (lib.verifyingKey identity)).take 16

def ServiceKeys.of (signing : Bytes) : ServiceKeys where
  signingKey := signing
  verifyingKey := lib.verifyingKey signing
  addressHash := (lib.blake3 (lib.verifyingKey signing)).take 20

def hexDigit (n : Nat) : Char := if n < 10 then Char.ofNat (48 + n) else Char.ofNat (87 + n)

def address (hash : Bytes) : Text :=
  hash.flatMap (fun b => [hexDigit (b.toNat / 16), hexDigit (b.toNat % 16)]) ++ ".hidra".toList

inductive Program where
  | node
  | service
deriving DecidableEq

inductive Keys where
  | node (keys : NodeKeys)
  | service (keys : ServiceKeys)
deriving DecidableEq

def Keys.program : Keys → Program
  | .node _ => .node
  | .service _ => .service

/-- What a run draws. -/
structure Draws where
  identity : Sized 32
  noise : Sized 32
  service : Sized 32
  first : SealDraws
  second : SealDraws

/-! ### Scripts -/

def writes : List (File × Except KeyError Bytes) → List (File × Bytes) × Except KeyError Unit
  | [] => ([], .ok ())
  | (_, .error e) :: _ => ([], .error e)
  | (f, .ok contents) :: rest => ((f, contents) :: (writes rest).1, (writes rest).2)

abbrev Script (α : Type) := List (File × Bytes) × Except KeyError α

def returning {α : Type} (l : List (File × Except KeyError Bytes)) (a : α) : Script α :=
  ((writes l).1, (writes l).2.map fun _ => a)

/-- The 32 bytes of a secret that was read. -/
def secretBytes (kind : String) (plaintext : Bytes) : Except KeyError Bytes :=
  match lib.fromBase64 (trimmed (lossy plaintext)) with
  | none => .error (.keyManagement (("invalid " ++ kind ++ " key encoding: ").toList ++
      lib.encodingError (trimmed (lossy plaintext))))
  | some bytes =>
    if bytes.length ≠ 32 then
      .error (.keyManagement ((if kind = "noise" then "noise static" else kind) ++ " key must be exactly 32 bytes").toList)
    else .ok bytes

section Node

variable (disk : Disk) (p : Option Text) (d : Draws)

def NodeKeys.save : Script Keys :=
  returning
    [(.identitySecret, secretContents lib p d.first (encode (lib.base64 d.identity.1))),
      (.noiseStaticSecret, secretContents lib p d.second (encode (lib.base64 d.noise.1))),
      (.identityPublic, .ok (encode (lib.base64 (lib.verifyingKey d.identity.1)))),
      (.noiseStaticPublic, .ok (encode (lib.base64 (lib.x25519Public d.noise.1))))]
    (.node (NodeKeys.of lib d.identity.1 d.noise.1))

def resealed (read : SecretRead) (f : File) (s : SealDraws) : List (File × Except KeyError Bytes) :=
  if read.needsSealing then [(f, secretContents lib p s (encode (trimmed (lossy read.plaintext))))] else []

def NodeKeys.load : Script Keys :=
  match readSecret lib disk p .identitySecret with
  | .error e => ([], .error e)
  | .ok identityRead =>
    match secretBytes lib "identity" identityRead.plaintext with
    | .error e => ([], .error e)
    | .ok identity =>
      match readSecret lib disk p .noiseStaticSecret with
      | .error e => ([], .error e)
      | .ok noiseRead =>
        match secretBytes lib "noise" noiseRead.plaintext with
        | .error e => ([], .error e)
        | .ok noise =>
          returning
            (resealed lib p identityRead .identitySecret d.first ++ resealed lib p noiseRead .noiseStaticSecret d.second)
            (.node (NodeKeys.of lib identity noise))

def ServiceKeys.save : Script Keys :=
  returning
    [(.serviceSecret, secretContents lib p d.first (encode (lib.base64 d.service.1))),
      (.servicePublic, .ok (encode (lib.base64 (lib.verifyingKey d.service.1)))),
      (.serviceAddress, .ok (encode (address (ServiceKeys.of lib d.service.1).addressHash)))]
    (.service (ServiceKeys.of lib d.service.1))

def ServiceKeys.load : Script Keys :=
  match readSecret lib disk p .serviceSecret with
  | .error e => ([], .error e)
  | .ok read =>
    match secretBytes lib "service" read.plaintext with
    | .error e => ([], .error e)
    | .ok signing => returning (resealed lib p read .serviceSecret d.first) (.service (ServiceKeys.of lib signing))

def loadOrGenerate : Program → Script Keys
  | .node => if (disk .identitySecret).isSome then NodeKeys.load lib disk p d else NodeKeys.save lib p d
  | .service => if (disk .serviceSecret).isSome then ServiceKeys.load lib disk p d else ServiceKeys.save lib p d

end Node

/-! ### Runs -/

/-- Where a run is cut: after so many writes, and, if it is cut within the next, after so many of its bytes. -/
structure Crash where
  after : Nat
  left : Option Nat
deriving DecidableEq

def put (disk : Disk) (w : File × Bytes) : Disk := Function.update disk w.1 (some w.2)

/-- What the writes leave. -/
def perform (disk : Disk) (ws : List (File × Bytes)) : Option Crash → Disk
  | none => ws.foldl put disk
  | some c =>
    match c.left, ws[c.after]? with
    | some n, some (f, contents) => put ((ws.take c.after).foldl put disk) (f, contents.take n)
    | _, _ => (ws.take c.after).foldl put disk

structure Start where
  program : Program
  var : Option Text
  draws : Draws
  crash : Option Crash

structure Machine where
  disk : Disk
  used : Option Text
  returned : List Keys

namespace Machine

def new : Machine := ⟨fun _ => none, none, []⟩

def step (m : Machine) (s : Start) : Machine :=
  let script := loadOrGenerate lib m.disk (passphrase s.var) s.draws s.program
  { disk := perform m.disk script.1 s.crash
    used := passphrase s.var
    returned := match s.crash, script.2 with
      | none, .ok keys => m.returned ++ [keys]
      | _, _ => m.returned }

end Machine

end HidraNet.Keystore
