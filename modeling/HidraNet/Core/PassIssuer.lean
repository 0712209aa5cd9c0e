import HidraNet.Core.NodeRecord

/-!
# The pass issuer a list names

Where passes come from: the issuer's address, its keys, and the wallet and token passes are paid with.  An address is
`https://`, or plain HTTP where it stays on a private network; a wallet is 32 bytes in base58.
-/

namespace HidraNet.Core

open Net Text
open Redemption (ensure)

/-! ### The address -/

structure Url where
  https : Bool
  host : String
  port : Nat
  path : String
deriving DecidableEq

def staysPrivate (host : String) : Bool :=
  match parseIp host.toList with
  | some (.v4 ip) => (IpAddr.v4 ip).isLoopback || isPrivate ip || (ip / 2 ^ 24 = 100 && ip / 2 ^ 16 % 256 / 64 = 1)
  | some (.v6 segments) => (IpAddr.v6 segments).isLoopback
  | none => host = "localhost"

/-- `str::strip_prefix`. -/
def stripFront (front l : List Char) : Option (List Char) :=
  if front.isPrefixOf l then some (l.drop front.length) else none

/-- `str::rsplit_once`. -/
def rsplitOnce (c : Char) (l : List Char) : Option (List Char × List Char) :=
  (splitOnce c l.reverse).map fun sides => (sides.2.reverse, sides.1.reverse)

def portOr (fallback : Nat) : Option (List Char) → Except String Nat
  | none => .ok fallback
  | some p => (parseU16 p).elim (.error "the port is not a number") .ok

/-- The host and the port of `host:port` or `[host]:port`. -/
def hostAndPort (s : String) (authority : List Char) (defaultPort : Nat) : Except String (List Char × Nat) :=
  match stripFront ['['] authority with
  | some r =>
    match splitOnce ']' r with
    | none => .error (debug s ++ ": an IPv6 host needs its closing ]")
    | some (h, after) => (portOr defaultPort (stripFront [':'] after)).map fun port => (h, port)
  | none =>
    match rsplitOnce ':' authority with
    | some (h, p) => (portOr defaultPort (some p)).map fun port => (h, port)
    | none => .ok (authority, defaultPort)

def Url.parse (s : String) : Except String Url := do
  let s := trim s
  let (https, rest) ← (((stripFront "https://".toList s.toList).map fun r => (true, r)).or
    ((stripFront "http://".toList s.toList).map fun r => (false, r))).elim
      (.error (debug s ++ " is not an http:// or https:// address")) .ok
  let authority := rest.takeWhile (· ≠ '/')
  let path := if '/' ∈ rest then rest.dropWhile (· ≠ '/') else ['/']
  ensure (authority ≠ [] ∧ '@' ∉ authority) (debug s ++ " has no usable host")
  let (host, port) ← hostAndPort s authority (if https then 443 else 80)
  ensure (host ≠ [] ∧ host.all fun c => c.isAlphanum || c = '.' || c = '-' || c = ':')
    (debug s ++ " has no usable host")
  let host := String.ofList host
  ensure (https = true ∨ staysPrivate host = true) (debug s ++
    " is plain HTTP to an address on the open internet; an account token only travels over https://")
  .ok ⟨https, host, port, String.ofList path⟩

/-! ### The wallet -/

def ALPHABET : Bytes := asBytes "123456789ABCDEFGHJKLMNPQRSTUVWXYZabcdefghijkmnopqrstuvwxyz"

/-- The bytes times 58 plus the carry, the least byte first, and what is carried out. -/
def timesBase : Bytes → Nat → Bytes × Nat
  | [], carry => ([], carry)
  | b :: bs, carry =>
    let carry := carry + b.toNat * 58
    let (bs, out) := timesBase bs (carry / 256)
    (UInt8.ofNat carry :: bs, out)

/-- The bytes of a carry, which has `n` at most. -/
def carryBytes : Nat → Nat → Bytes
  | 0, _ => []
  | n + 1, carry => if carry = 0 then [] else UInt8.ofNat carry :: carryBytes n (carry / 256)

def base58Digits : Bytes → Bytes → Except String Bytes
  | out, [] => .ok out
  | out, ch :: rest =>
    match ALPHABET.findIdx? (· = ch) with
    | none => .error ("not base58: the character " ++ debugChar (Char.ofNat ch.toNat))
    | some digit =>
      let (out, carry) := timesBase out digit
      base58Digits (out ++ carryBytes 4 carry) rest

def base58Decode (s : String) : Except String Bytes := do
  let s := trim s
  ensure (¬ (s = "" ∨ (asBytes s).length > 128)) "not base58: empty or too long"
  let out ← base58Digits [] (asBytes s)
  -- each leading '1' is a leading zero byte
  let zeros := ((asBytes s).takeWhile (· = 49)).length
  .ok (out ++ List.replicate zeros 0).reverse

example : base58Decode "1112L" = .ok [0, 0, 0, 77] := by decide

def checkAddress (s : String) : Except String String := do
  let s := trim s
  let bytes ← (base58Decode s).mapError fun e => debug s ++ " is not a Solana address: " ++ e
  ensure (bytes.length = 32) (debug s ++ " is not a Solana address (not 32 bytes)")
  .ok s

/-! ### The issuer -/

structure PassIssuer where
  url : String
  keys : List PassKeyRecord
  /-- The wallet passes bought from this issuer are paid to. -/
  wallet : Option String
  mint : Option String
deriving DecidableEq

variable {Pk : Type} (c : Crypto Pk)

def PassKeyRecord.validate (k : PassKeyRecord) : Except String Unit := do
  let _ ← k.issuerKey c
  let _ ← context (rfc3339ToUnix k.notAfter) "the pass key's not_after"
  .ok ()

def PassIssuer.validate (p : PassIssuer) : Except String Unit := do
  let _ ← context (Url.parse p.url) "the pass issuer's address"
  ensure (p.keys ≠ []) "the pass issuer names no key"
  p.keys.forM fun k => k.validate c
  let _ ← p.wallet.elim (.ok "") fun w => context (checkAddress w) "the pass issuer's wallet"
  let _ ← p.mint.elim (.ok "") fun m => context (checkAddress m) "the pass issuer's mint"
  .ok ()

end HidraNet.Core
