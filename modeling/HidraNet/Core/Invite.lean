import HidraNet.Core.NodeRecord

/-!
# Invites

What a client needs to know to reach a node: the node's key and endpoint, the client's address inside the tunnel and
the resolver there.  An invite won with a pass remembers the key of the pass and how it was redeemed.

Whether an invite is well formed is said of its fields one by one (`Invite.validateShape_ok_iff`).  What a node's
record brings leaves a valid invite valid (`Invite.validate_of_record`).
-/

namespace HidraNet.Core

open Net Text
open Redemption (ensure)

/-- What an invite won with a pass remembers. -/
structure PassBinding where
  clientSecret : String
  admissionPort : Option Nat
  redeemedAt : Nat
  usedAt : Nat
  /-- Whether the pass was redeemed through an entry; unknown in an old pocket. -/
  behind : Option Bool
deriving DecidableEq

def UNUSED_LEASE_SECS : Nat := 600
def DEFAULT_ADMISSION_PORT : Nat := 51821

namespace PassBinding

def direct (p : PassBinding) : Bool := p.behind = some false

def fresh (p : PassBinding) (now : Nat) : Bool := p.usedAt = 0 && now - p.redeemedAt < UNUSED_LEASE_SECS

end PassBinding

structure Invite where
  nodeName : String
  nodePublicKey : String
  /-- `ip:port`. -/
  endpoint : String
  /-- `a.b.c.d/prefix`. -/
  clientAddress : String
  clientAddress6 : Option String
  dns : Nat
  allowedIps : List String
  mtu : Nat
  keepalive : Nat
  operator : Option String
  role : Option String
  country : Option String
  admission : Option String
  admissionPort : Option Nat
  behind : Bool
  features : List String
  pass : Option PassBinding
deriving DecidableEq

/-- `Ipv4Addr::is_private`, or of the shared address space. -/
def isTunnelPrivate (ip : Nat) : Bool := isPrivate ip || (ip / 2 ^ 24 = 100 && ip / 2 ^ 16 % 256 / 64 = 1)

namespace Invite

variable (i : Invite)

def key : String := trim i.nodePublicKey

def endpointAddr : Except String SocketAddr :=
  (parseSocketAddr i.endpoint.toList).elim (.error ("the endpoint \"" ++ i.endpoint ++ "\" is not ip:port")) .ok

/-- The client's tunnel address and prefix length. -/
def clientIp : Except String (Nat × Nat) :=
  match splitOnce '/' i.clientAddress.toList with
  | none => .error "the client address must be a.b.c.d/prefix"
  | some (ip, p) =>
    match parseIpv4 ip, parseU8 p with
    | none, _ => .error "the client address is not IPv4"
    | some _, none => .error "the client prefix is not a number"
    | some ip, some prefixLen =>
      if prefixLen > 32 then .error "the client prefix is larger than 32" else .ok (ip, prefixLen)

def clientIp6 : Except String (Option (List Nat × Nat)) :=
  match i.clientAddress6 with
  | none => .ok none
  | some a =>
    match splitOnce '/' a.toList with
    | none => .error "the client IPv6 address must be address/prefix"
    | some (ip, p) =>
      match parseIpv6 ip, parseU8 p with
      | none, _ => .error "the client IPv6 address is not IPv6"
      | some _, none => .error "the client IPv6 prefix is not a number"
      | some segments, some prefixLen =>
        if !(48 ≤ prefixLen && prefixLen ≤ 127) then
          .error ("the client IPv6 prefix /" ++ toString prefixLen ++
            " is not a tunnel subnet (between /48 and /127)")
        -- a unique local address
        else if segments.head?.any fun s => s / 2 ^ 9 ≠ 0xfc00 / 2 ^ 9 then
          .error ("the client IPv6 address " ++ String.ofList ip ++
            " is not a unique local address (fc00::/7)")
        else .ok (some (segments, prefixLen))

def validateShape {Pk : Type} (c : Crypto Pk) : Except String Unit := do
  let _ ← publicKeyFromBase64 c i.nodePublicKey
  let endpoint ← i.endpointAddr
  ensure endpoint.isIpv4 ("the endpoint \"" ++ i.endpoint ++
    "\" is an IPv6 address; a node is reached over IPv4 in this phase")
  let _ ← i.clientIp
  let _ ← i.clientIp6
  let _ ← i.country.elim (.ok "") normaliseCountry
  ensure (¬ (i.mtu < 1280 ∨ i.mtu > 1500)) "the MTU must be between 1280 and 1500"

/-- The resolver is the node itself, inside the tunnel. -/
def checkDns : Except String Unit := do
  let (ip, prefixLen) ← i.clientIp
  ensure (8 ≤ prefixLen ∧ prefixLen ≤ 30) ("the client prefix /" ++ toString prefixLen ++
    " is not a tunnel subnet (between /8 and /30)")
  ensure (isTunnelPrivate ip = true) ("the client address " ++ ipv4Text ip ++ " is not a private tunnel address")
  let sameSubnet := i.dns / 2 ^ (32 - prefixLen) = ip / 2 ^ (32 - prefixLen)
  ensure (sameSubnet ∧ i.dns ≠ ip ∧ isTunnelPrivate i.dns = true) ("the invite's DNS server " ++ ipv4Text i.dns ++
    " is not the node inside the tunnel (" ++ i.clientAddress ++
    "): refusing an invite that would send this machine's lookups elsewhere")

def validate {Pk : Type} (c : Crypto Pk) : Except String Unit := do
  i.validateShape c
  i.checkDns

def admitsOpenly : Bool := i.admission.any fun a => eqIgnoreAsciiCase (trim a) "open"

def has (feature : String) : Bool := i.features.contains feature

def takesPasses : Bool := i.pass.isSome || i.admission.any fun a => eqIgnoreAsciiCase (trim a) "pass"

def directPass : Option PassBinding := i.pass.filter PassBinding.direct

def admitsSessions : Bool := i.admitsOpenly && i.has SESSIONS

end Invite

/-! ### Valid field by field -/

variable {Pk : Type} {c : Crypto Pk}

private theorem bind_ok_iff {ε α : Type} {x : Except ε α} {y : Except ε Unit} :
    (x >>= fun _ => y) = .ok () ↔ (∃ a, x = .ok a) ∧ y = .ok () := by
  cases x with
  | ok a =>
    constructor
    · intro h
      exact ⟨⟨a, rfl⟩, h⟩
    · intro h
      exact h.2
  | error e =>
    constructor
    · intro h
      cases h
    · rintro ⟨⟨a, ha⟩, -⟩
      cases ha

private theorem ensure_ok_iff {p : Prop} [Decidable p] {why : String} {u : Unit} : ensure p why = .ok u ↔ p := by
  constructor
  · exact of_ensure
  · intro h
    unfold ensure
    rw [if_pos h]

private theorem normalised_iff {country : Option String} :
    (∃ t, country.elim (.ok "") normaliseCountry = .ok t) ↔
      country.all (fun c => (normaliseCountry c).isOk) = true := by
  cases country with
  | none => simp
  | some c =>
    cases h : normaliseCountry c with
    | ok t => simp [h, Except.isOk, Except.toBool]
    | error e => simp [h, Except.isOk, Except.toBool]

private theorem endpoint_ok_iff {i : Invite} {why : String} {y : Except String Unit} :
    (do
      let endpoint ← i.endpointAddr
      ensure endpoint.isIpv4 why
      y) = .ok () ↔ (∃ a, parseSocketAddr i.endpoint.toList = some a ∧ a.isIpv4 = true) ∧ y = .ok () := by
  unfold Invite.endpointAddr
  cases parseSocketAddr i.endpoint.toList with
  | none =>
    constructor
    · intro h
      cases h
    · rintro ⟨⟨a, ha, -⟩, -⟩
      cases ha
  | some a =>
    change ((ensure (a.isIpv4 = true) why) >>= fun _ => y) = .ok () ↔ _
    rw [bind_ok_iff]
    simp [ensure_ok_iff]

theorem Invite.validateShape_ok_iff {i : Invite} :
    i.validateShape c = .ok () ↔ (∃ k, publicKeyFromBase64 c i.nodePublicKey = .ok k) ∧
      (∃ a, parseSocketAddr i.endpoint.toList = some a ∧ a.isIpv4 = true) ∧ (∃ a, i.clientIp = .ok a) ∧
      (∃ a, i.clientIp6 = .ok a) ∧ i.country.all (fun c => (normaliseCountry c).isOk) = true ∧
      ¬ (i.mtu < 1280 ∨ i.mtu > 1500) := by
  unfold Invite.validateShape
  rw [bind_ok_iff, endpoint_ok_iff, bind_ok_iff, bind_ok_iff, bind_ok_iff, ensure_ok_iff, normalised_iff]

theorem Invite.validate_ok_iff {i : Invite} :
    i.validate c = .ok () ↔ i.validateShape c = .ok () ∧ i.checkDns = .ok () := by
  unfold Invite.validate
  change ((i.validateShape c) >>= fun _ => i.checkDns) = .ok () ↔ _
  rw [bind_ok_iff]
  constructor
  · rintro ⟨⟨⟨⟩, hshape⟩, hdns⟩
    exact ⟨hshape, hdns⟩
  · rintro ⟨hshape, hdns⟩
    exact ⟨⟨(), hshape⟩, hdns⟩

/-- The fields a node's record brings do not spoil an invite, when the record is a valid one. -/
theorem Invite.validate_of_record {i j : Invite} {r : NodeRecord} (hi : i.validate c = .ok ())
    (hr : r.validate c = .ok ()) (hkey : j.nodePublicKey = i.nodePublicKey)
    (hendpoint : j.endpoint = i.endpoint ∨ j.endpoint = r.endpoint) (hcountry : j.country = r.country)
    (haddress : j.clientAddress = i.clientAddress) (haddress6 : j.clientAddress6 = i.clientAddress6)
    (hmtu : j.mtu = i.mtu) (hdns : j.dns = i.dns) : j.validate c = .ok () := by
  rw [Invite.validate_ok_iff, Invite.validateShape_ok_iff] at hi ⊢
  obtain ⟨⟨h₁, h₂, h₃, h₄, -, h₆⟩, h₇⟩ := hi
  obtain ⟨-, hr₂, hr₃⟩ := NodeRecord.validate_ok hr
  have hip : j.clientIp = i.clientIp := by
    unfold Invite.clientIp
    rw [haddress]
  refine ⟨⟨hkey ▸ h₁, ?_, hip ▸ h₃, ?_, hcountry ▸ hr₃, hmtu ▸ h₆⟩, ?_⟩
  · rcases hendpoint with h | h
    · rw [h]
      exact h₂
    · rw [h]
      exact hr₂
  · unfold Invite.clientIp6
    rw [haddress6]
    exact h₄
  · unfold Invite.checkDns
    rw [hip, hdns, haddress]
    exact h₇

end HidraNet.Core
