import HidraNet.Core.Pass
import HidraNet.Lib.Net
import HidraNet.Lib.Utf8
import HidraNet.Lib.Wire

/-!
# The proxy's side of SOCKS5

What a browser sends to the proxy before it is connected: the authentication methods it knows, and the request, which
names an address or a host.  A host's text is taken as it comes, up to 255 bytes of it (`requests_request`).
-/

namespace HidraNet.Proxy

open HidraNet.Core (Bytes hexEncode)
open Net Wire

inductive HidraError where
  | io (why : String)
  | crypto (why : String)
  | handshake (why : String)
  | protocol (why : String)
  | circuit (why : String)
deriving DecidableEq

/-! ### The browser's connection -/

/-- What the browser has sent, and what it was sent. -/
structure Stream where
  unread : Bytes
  written : Bytes
deriving DecidableEq

abbrev Browser := ExceptT HidraError (StateM Stream)

def readU8 : Browser UInt8 := fun s =>
  match s.unread with
  | [] => (.error (.io "unexpected end of file"), s)
  | b :: rest => (.ok b, { s with unread := rest })

def readExact (n : Nat) : Browser Bytes := fun s =>
  if s.unread.length < n then (.error (.io "early eof"), { s with unread := [] })
  else (.ok (s.unread.take n), { s with unread := s.unread.drop n })

def readU16 : Browser Nat := do
  let high ← readU8
  let low ← readU8
  return high.toNat * 256 + low.toNat

def writeAll (bytes : Bytes) : Browser Unit := fun s => (.ok (), { s with written := s.written ++ bytes })

/-! ### The exchange -/

def SOCKS5_VERSION : UInt8 := 0x05
def AUTH_NONE : UInt8 := 0x00
def CMD_CONNECT : UInt8 := 0x01
def ATYP_IPV4 : UInt8 := 0x01
def ATYP_DOMAIN : UInt8 := 0x03
def ATYP_IPV6 : UInt8 := 0x04

def REPLY_GENERAL_FAILURE : UInt8 := 0x01
def REPLY_CMD_NOT_SUPPORTED : UInt8 := 0x07

inductive TargetAddr where
  | ip (addr : SocketAddr)
  | domain (host : List Char) (port : Nat)
deriving DecidableEq

def sendReply (replyCode : UInt8) : Browser Unit :=
  writeAll [SOCKS5_VERSION, replyCode, 0x00, ATYP_IPV4, 0, 0, 0, 0, 0, 0]

def handshake : Browser Unit := do
  let version ← readU8
  if version ≠ SOCKS5_VERSION then throw (.protocol ("unsupported SOCKS version: 0x" ++ hexEncode [version]))
  let nMethods ← readU8
  let methods ← readExact nMethods.toNat
  if AUTH_NONE ∉ methods then
    writeAll [SOCKS5_VERSION, 0xFF]
    throw (.protocol "client does not support no-auth method")
  writeAll [SOCKS5_VERSION, AUTH_NONE]

def groupsOf : Bytes → List Nat
  | high :: low :: rest => (high.toNat * 256 + low.toNat) :: groupsOf rest
  | _ => []

def readRequest : Browser TargetAddr := do
  let version ← readU8
  if version ≠ SOCKS5_VERSION then throw (.protocol ("bad SOCKS5 request version: 0x" ++ hexEncode [version]))
  let cmd ← readU8
  let _rsv ← readU8
  if cmd ≠ CMD_CONNECT then
    sendReply REPLY_CMD_NOT_SUPPORTED
    throw (.protocol ("unsupported SOCKS5 command: 0x" ++ hexEncode [cmd]))
  let atyp ← readU8
  if atyp = ATYP_IPV4 then
    let ip ← readExact 4
    let port ← readU16
    return .ip (.v4 (ofBe ip) port)
  else if atyp = ATYP_DOMAIN then
    let len ← readU8
    let domainBuf ← readExact len.toNat
    let port ← readU16
    match Utf8.fromUtf8 domainBuf with
    | some domain => return .domain domain port
    | none => throw (.protocol "invalid UTF-8 in domain name")
  else if atyp = ATYP_IPV6 then
    let ip ← readExact 16
    let port ← readU16
    return .ip (.v6 (groupsOf ip) 0 port)
  else
    sendReply REPLY_GENERAL_FAILURE
    throw (.protocol ("unsupported address type: 0x" ++ hexEncode [atyp]))

def readTarget : Browser TargetAddr := do
  handshake
  readRequest

def Requests (input : Bytes) (host : List Char) (port : Nat) : Prop :=
  (readTarget.run ⟨input, []⟩).1 = .ok (.domain host port)

instance (input : Bytes) (host : List Char) (port : Nat) : Decidable (Requests input host port) :=
  match hrun : (readTarget.run ⟨input, []⟩).1 with
  | .ok target => decidable_of_iff (target = .domain host port) (by unfold Requests; rw [hrun, Except.ok.injEq])
  | .error _ => .isFalse fun h => by unfold Requests at h; rw [hrun] at h; cases h

/-! ### A browser's request -/

def request (methods : Bytes) (host : List Char) (port : Nat) : Bytes :=
  [SOCKS5_VERSION, UInt8.ofNat methods.length] ++ methods ++
    [SOCKS5_VERSION, CMD_CONNECT, 0, ATYP_DOMAIN, UInt8.ofNat (Utf8.encode host).length] ++ Utf8.encode host ++
    [UInt8.ofNat (port / 256), UInt8.ofNat port]

section

variable {α : Type} {b : UInt8} {bytes rest written : Bytes} {n : Nat}

theorem run_bind_ok {β : Type} {x : Browser β} {f : β → Browser α} {s s' : Stream} {a : β}
    (h : x.run s = (.ok a, s')) : (x >>= f).run s = (f a).run s' := by
  show (ExceptT.bindCont f (x.run s).1) (x.run s).2 = _
  rw [h]
  rfl

theorem run_readU8 (f : UInt8 → Browser α) :
    (readU8 >>= f).run ⟨b :: rest, written⟩ = (f b).run ⟨rest, written⟩ := rfl

theorem run_readExact (f : Bytes → Browser α) (h : bytes.length = n) :
    (readExact n >>= f).run ⟨bytes ++ rest, written⟩ = (f bytes).run ⟨rest, written⟩ := by
  apply run_bind_ok
  subst h
  unfold readExact
  simp [ExceptT.run]

theorem run_readU16 (f : Nat → Browser α) {port : Nat} (h : port < 65536) :
    (readU16 >>= f).run ⟨UInt8.ofNat (port / 256) :: UInt8.ofNat port :: rest, written⟩ =
      (f port).run ⟨rest, written⟩ := by
  show (f ((UInt8.ofNat (port / 256)).toNat * 256 + (UInt8.ofNat port).toNat)).run ⟨rest, written⟩ = _
  have hport : (UInt8.ofNat (port / 256)).toNat * 256 + (UInt8.ofNat port).toNat = port := by
    rw [UInt8.toNat_ofNat', UInt8.toNat_ofNat']
    omega
  rw [hport]

theorem run_handshake {methods : Bytes} (hmethods : methods.length < 256) (hnone : AUTH_NONE ∈ methods) :
    handshake.run ⟨SOCKS5_VERSION :: UInt8.ofNat methods.length :: (methods ++ rest), written⟩ =
      (.ok (), ⟨rest, written ++ [SOCKS5_VERSION, AUTH_NONE]⟩) := by
  have hcount : methods.length = (UInt8.ofNat methods.length).toNat := by
    rw [UInt8.toNat_ofNat']
    omega
  unfold handshake
  rw [run_readU8, if_neg (not_not_intro rfl)]
  dsimp only
  rw [run_readU8, run_readExact _ hcount, if_neg (not_not_intro hnone)]
  rfl

theorem run_readRequest {host : List Char} {port : Nat} (hhost : (Utf8.encode host).length < 256)
    (hport : port < 65536) :
    (readRequest.run ⟨SOCKS5_VERSION :: CMD_CONNECT :: 0 :: ATYP_DOMAIN ::
      UInt8.ofNat (Utf8.encode host).length :: (Utf8.encode host ++ [UInt8.ofNat (port / 256), UInt8.ofNat port]),
      written⟩).1 = .ok (.domain host port) := by
  have hlen : (Utf8.encode host).length = (UInt8.ofNat (Utf8.encode host).length).toNat := by
    rw [UInt8.toNat_ofNat']
    omega
  unfold readRequest
  rw [run_readU8, if_neg (not_not_intro rfl)]
  dsimp only
  rw [run_readU8, run_readU8, if_neg (not_not_intro rfl), run_readU8, if_neg (by decide), if_pos rfl, run_readU8,
    run_readExact _ hlen, run_readU16 _ hport, Utf8.fromUtf8_encode]
  rfl

end

/-- What is read of a browser's request is the host as it stands there. -/
theorem requests_request {methods : Bytes} {host : List Char} {port : Nat} (hmethods : methods.length < 256)
    (hnone : AUTH_NONE ∈ methods) (hhost : (Utf8.encode host).length < 256) (hport : port < 65536) :
    Requests (request methods host port) host port := by
  unfold Requests request readTarget
  rw [List.append_assoc, List.append_assoc, List.append_assoc]
  show (ExceptT.run (handshake >>= fun _ => readRequest)
    ⟨SOCKS5_VERSION :: UInt8.ofNat methods.length :: (methods ++ _), []⟩).1 = _
  rw [run_bind_ok (run_handshake hmethods hnone)]
  exact run_readRequest hhost hport

end HidraNet.Proxy
