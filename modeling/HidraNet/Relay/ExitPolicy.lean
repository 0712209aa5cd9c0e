import HidraNet.Lib.Net
import HidraNet.Lib.Prefixes

/-!
# Where a relay connects

A relay connects to the next hop of a circuit and, at an exit, to its target; both are chosen by whoever built the
circuit.  By default it connects to public addresses only: a name is resolved once, all that it resolves to is checked,
and what was checked is what is dialled.

What the IANA registries of special-purpose addresses set aside is not public, except for a few IPv6 ranges
(`leftOut`); an IPv4 address inside an IPv6 one is judged as itself (`never_inside`).
-/

namespace HidraNet.Relay.ExitPolicy

open Net
open Packets (Prefix net4 net6 inAny inAny_iff inAny_of_within inAny_filter Within)

/-! ### IPv4 -/

/-- `Ipv4Addr::octets`. -/
def octet (i ip : Nat) : Nat := ip / 2 ^ (8 * (3 - i)) % 256

/-- `Ipv4Addr::new`. -/
def ipv4 (a b c d : Nat) : Nat := ((a * 256 + b) * 256 + c) * 256 + d

def isLinkLocalV4 (ip : Nat) : Bool := octet 0 ip = 169 && octet 1 ip = 254

def isMulticastV4 (ip : Nat) : Bool := 224 ≤ octet 0 ip && octet 0 ip ≤ 239

def isDocumentationV4 (ip : Nat) : Bool :=
  (octet 0 ip = 192 && octet 1 ip = 0 && octet 2 ip = 2) || (octet 0 ip = 198 && octet 1 ip = 51 && octet 2 ip = 100) ||
    (octet 0 ip = 203 && octet 1 ip = 0 && octet 2 ip = 113)

def isPublicV4 (ip : Nat) : Bool :=
  let o0 := octet 0 ip
  let o1 := octet 1 ip
  let o2 := octet 2 ip
  !(ip = 0 || (IpAddr.v4 ip).isLoopback || isPrivate ip || isLinkLocalV4 ip || ip = 2 ^ 32 - 1 || isMulticastV4 ip ||
    isDocumentationV4 ip ||
    o0 = 0 ||                                   -- this network
    (o0 = 100 && o1 &&& 0xc0 = 64) ||           -- shared
    (o0 = 192 && o1 = 0 && o2 = 0) ||           -- protocol assignments
    (o0 = 192 && o1 = 88 && o2 = 99) ||         -- 6to4 relay
    (o0 = 198 && o1 &&& 0xfe = 18) ||           -- benchmarking
    o0 ≥ 240)

/-! ### IPv6 -/

def lastFour (s : List Nat) : Nat :=
  ipv4 (s.getD 6 0 / 2 ^ 8 % 256) (s.getD 6 0 % 256) (s.getD 7 0 / 2 ^ 8 % 256) (s.getD 7 0 % 256)

/-- `Ipv6Addr::to_ipv4_mapped`. -/
def toIpv4Mapped (s : List Nat) : Option Nat :=
  if s.take 6 = [0, 0, 0, 0, 0, 0xffff] then some (lastFour s) else none

def isUnspecifiedV6 (s : List Nat) : Bool := s = [0, 0, 0, 0, 0, 0, 0, 0]

def isMulticastV6 (s : List Nat) : Bool := s.getD 0 0 &&& 0xff00 = 0xff00

def isPublicV6 (s : List Nat) : Bool :=
  let s0 := s.getD 0 0
  let s1 := s.getD 1 0
  match toIpv4Mapped s with
  | some v4 => isPublicV4 v4
  | none =>
    -- IPv4-compatible and NAT64
    if (s.take 6 = [0, 0, 0, 0, 0, 0] && !(isUnspecifiedV6 s || (IpAddr.v6 s).isLoopback)) ||
        (s0 = 0x64 && s1 = 0xff9b && (s.take 6).drop 2 = [0, 0, 0, 0]) then isPublicV4 (lastFour s)
    else
      !(isUnspecifiedV6 s || (IpAddr.v6 s).isLoopback || isMulticastV6 s ||
        s0 &&& 0xfe00 = 0xfc00 ||                          -- unique local
        s0 &&& 0xffc0 = 0xfe80 ||                          -- link-local
        s0 &&& 0xffc0 = 0xfec0 ||                          -- site-local
        (s0 = 0x2001 && s1 = 0x0db8) ||                    -- documentation
        (s0 = 0x2001 && s1 < 0x0200) ||                    -- protocol assignments
        s0 = 0x2002 ||                                     -- 6to4
        (s0 = 0x0100 && (s.take 4).drop 1 = [0, 0, 0]))    -- discard

def isPublic : IpAddr → Bool
  | .v4 ip => isPublicV4 ip
  | .v6 s => isPublicV6 s

/-! ### The policy -/

structure Policy where
  privateHops : Bool
  privateTargets : Bool
deriving DecidableEq, Inhabited

namespace Policy

def STRICT : Policy := ⟨false, false⟩

def permitsHop (p : Policy) (addr : SocketAddr) : Bool := p.privateHops || isPublic addr.ip

def permitsTarget (p : Policy) (ip : IpAddr) : Bool := p.privateTargets || isPublic ip

def choose (p : Policy) (addrs : List SocketAddr) : Except String (List SocketAddr) :=
  if addrs.isEmpty then .error "destination did not resolve"
  else if addrs.any fun a => !p.permitsTarget a.ip then .error "destination refused by this relay's exit policy"
  else .ok addrs

/-- `resolve_target`, where `lookup` is the resolver. -/
def resolveTarget (p : Policy) (lookup : String → Nat → Except String (List SocketAddr)) (host : String) (port : Nat) :
    Except String (List SocketAddr) :=
  if port = 0 then .error "destination port 0 refused"
  else
    match lookup host port with
    | .error e => .error ("could not resolve destination: " ++ e)
    | .ok addrs => p.choose addrs

def filterAnswer (p : Policy) (ips : List IpAddr) : List IpAddr := ips.filter p.permitsTarget

end Policy

/-! ### Connecting -/

/-- One address after the other until one answers: those dialled, and the one that did. -/
def tryEach (connect : SocketAddr → Except String Unit) (last : String) :
    List SocketAddr → List SocketAddr × Except String SocketAddr
  | [] => ([], .error last)
  | addr :: addrs =>
    match connect addr with
    | .ok () => ([addr], .ok addr)
    | .error e =>
      let (dialled, answered) := tryEach connect e addrs
      (addr :: dialled, answered)

def exitConnect (connect : SocketAddr → Except String Unit) (resolved : Except String (List SocketAddr)) :
    List SocketAddr × Except String SocketAddr :=
  match resolved with
  | .error why => ([], .error why)
  | .ok addrs => tryEach connect "destination did not resolve" addrs

/-- `connect_to_next`, up to the link's handshake. -/
def connectToNext (connect : SocketAddr → Except String Unit) (addr : SocketAddr) (policy : Policy) :
    List SocketAddr × Except String SocketAddr :=
  if !policy.permitsHop addr then ([], .error "next hop refused by relay policy")
  else
    ([addr], match connect addr with
      | .ok () => .ok addr
      | .error _ => .error "could not connect to the next hop")

/-! ### What the registries set aside -/

def registryV4 : List Prefix :=
  [net4 0 0 0 0 8, net4 0 0 0 0 32, net4 10 0 0 0 8, net4 100 64 0 0 10, net4 127 0 0 0 8, net4 169 254 0 0 16,
    net4 172 16 0 0 12, net4 192 0 0 0 24, net4 192 0 0 0 29, net4 192 0 0 8 32, net4 192 0 0 170 32,
    net4 192 0 0 171 32, net4 192 0 2 0 24, net4 192 88 99 0 24, net4 192 88 99 2 32, net4 192 168 0 0 16,
    net4 198 18 0 0 15, net4 198 51 100 0 24, net4 203 0 113 0 24, net4 240 0 0 0 4, net4 255 255 255 255 32]

def registryV6 : List Prefix :=
  [net6 [0, 0, 0, 0, 0, 0, 0, 1] 128, net6 [] 128, net6 [0, 0, 0, 0, 0, 0xffff] 96, net6 [0x64, 0xff9b, 1] 48,
    net6 [0x100] 64, net6 [0x100, 0, 0, 1] 64, net6 [0x2001] 23, net6 [0x2001] 32, net6 [0x2001, 2] 48,
    net6 [0x2001, 0x10] 28, net6 [0x2001, 0xdb8] 32, net6 [0x2002] 16, net6 [0x3fff] 20, net6 [0x5f00] 16,
    net6 [0xfc00] 7, net6 [0xfe80] 10]

def leftOut : List Prefix :=
  [net6 [0, 0, 0, 0, 0, 0xffff] 96, net6 [0x64, 0xff9b, 1] 48, net6 [0x100, 0, 0, 1] 64, net6 [0x3fff] 20,
    net6 [0x5f00] 16]

def refusedV4 : List Prefix :=
  [net4 0 0 0 0 8, net4 10 0 0 0 8, net4 100 64 0 0 10, net4 127 0 0 0 8, net4 169 254 0 0 16, net4 172 16 0 0 12,
    net4 192 0 0 0 24, net4 192 0 2 0 24, net4 192 88 99 0 24, net4 192 168 0 0 16, net4 198 18 0 0 15,
    net4 198 51 100 0 24, net4 203 0 113 0 24, net4 224 0 0 0 4, net4 240 0 0 0 4]

def refusedV6 : List Prefix :=
  [net6 [] 128, net6 [0, 0, 0, 0, 0, 0, 0, 1] 128, net6 [0xff00] 8, net6 [0xfc00] 7, net6 [0xfe80] 10,
    net6 [0xfec0] 10, net6 [0x2001, 0xdb8] 32, net6 [0x2001] 23, net6 [0x2002] 16, net6 [0x100] 64]

private theorem and_mask (x k j : Nat) : x &&& ((2 ^ j - 1) * 2 ^ k) = x / 2 ^ k % 2 ^ j * 2 ^ k := by
  have hshift : ∀ y, y * 2 ^ k = y <<< k := fun y => (Nat.shiftLeft_eq y k).symm
  rw [← Nat.shiftRight_eq_div_pow, ← Nat.and_two_pow_sub_one_eq_mod, hshift, hshift, Nat.shiftLeft_and_distrib]
  apply Nat.eq_of_testBit_eq
  intro i
  simp only [Nat.testBit_and, Nat.testBit_shiftLeft, Nat.testBit_shiftRight]
  by_cases h : k ≤ i
  · simp [h]
  · simp [h]

theorem and_mask_of_div {x k j v : Nat} (h : x / 2 ^ k % 2 ^ j = v) : x &&& ((2 ^ j - 1) * 2 ^ k) = v * 2 ^ k := by
  rw [and_mask, h]

private theorem octets_of_16 {ip n : Nat} (hip : ip < 2 ^ 32) (h : ip / 2 ^ 16 = n) :
    octet 0 ip = n / 256 ∧ octet 1 ip = n % 256 := by
  unfold octet
  omega

private theorem octets_of_24 {ip n : Nat} (hip : ip < 2 ^ 32) (h : ip / 2 ^ 8 = n) :
    octet 0 ip = n / 65536 ∧ octet 1 ip = n / 256 % 256 ∧ octet 2 ip = n % 256 := by
  unfold octet
  omega

private theorem octet_of_8 {ip n : Nat} (hip : ip < 2 ^ 32) (h : ip / 2 ^ 24 = n) : octet 0 ip = n := by
  unfold octet
  omega

private theorem isPublicV4_private {ip : Nat}
    (h : ip / 2 ^ 24 = 10 ∨ ip / 2 ^ 20 = 172 * 16 + 1 ∨ ip / 2 ^ 16 = 192 * 256 + 168) : isPublicV4 ip = false := by
  have hprivate : isPrivate ip = true := by
    simp only [isPrivate, Bool.or_eq_true, decide_eq_true_eq]
    omega
  simp [isPublicV4, hprivate]

private theorem isPublicV4_refused {ip : Nat} (hip : ip < 2 ^ 32) (h : inAny 32 refusedV4 ip = true) :
    isPublicV4 ip = false := by
  simp only [inAny, refusedV4, net4, List.any_cons, List.any_nil, Bool.or_false, Bool.or_eq_true,
    decide_eq_true_eq] at h
  rcases h with h | h | h | h | h | h | h | h | h | h | h | h | h | h | h
  · have h0 := octet_of_8 hip h
    simp [isPublicV4, h0]
  · exact isPublicV4_private (Or.inl h)
  · have h0 : octet 0 ip = 100 := by
      unfold octet
      omega
    have hupper : octet 1 ip / 2 ^ 6 % 2 ^ 2 = 1 := by
      unfold octet
      omega
    have h1 : octet 1 ip &&& 0xc0 = 64 := and_mask_of_div hupper
    simp [isPublicV4, h0, h1]
  · have hfirst : ip / 2 ^ 24 = 127 := h
    have hloopback : (IpAddr.v4 ip).isLoopback = true := by
      simp only [IpAddr.isLoopback, decide_eq_true_eq]
      omega
    simp [isPublicV4, hloopback]
  · obtain ⟨h0, h1⟩ := octets_of_16 hip h
    simp [isPublicV4, isLinkLocalV4, h0, h1]
  · exact isPublicV4_private (Or.inr (Or.inl h))
  · obtain ⟨h0, h1, h2⟩ := octets_of_24 hip h
    simp [isPublicV4, h0, h1, h2]
  · obtain ⟨h0, h1, h2⟩ := octets_of_24 hip h
    simp [isPublicV4, isDocumentationV4, h0, h1, h2]
  · obtain ⟨h0, h1, h2⟩ := octets_of_24 hip h
    simp [isPublicV4, h0, h1, h2]
  · exact isPublicV4_private (Or.inr (Or.inr h))
  · have h0 : octet 0 ip = 198 := by
      unfold octet
      omega
    have hupper : octet 1 ip / 2 ^ 1 % 2 ^ 7 = 9 := by
      unfold octet
      omega
    have h1 : octet 1 ip &&& 0xfe = 18 := and_mask_of_div hupper
    simp [isPublicV4, h0, h1]
  · obtain ⟨h0, h1, h2⟩ := octets_of_24 hip h
    simp [isPublicV4, isDocumentationV4, h0, h1, h2]
  · obtain ⟨h0, h1, h2⟩ := octets_of_24 hip h
    simp [isPublicV4, isDocumentationV4, h0, h1, h2]
  · have hmulticast : isMulticastV4 ip = true := by
      unfold isMulticastV4 octet
      simp only [Bool.and_eq_true, decide_eq_true_eq]
      omega
    simp [isPublicV4, hmulticast]
  · have h0 : 240 ≤ octet 0 ip := by
      unfold octet
      omega
    simp [isPublicV4, h0]

def FitsV6 (s : List Nat) : Prop := s.length = 8 ∧ ∀ g ∈ s, g < 2 ^ 16

def number (s : List Nat) : Nat := s.foldl (fun n g => n * 65536 + g) 0

theorem FitsV6.groups {s : List Nat} (h : FitsV6 s) : ∃ a b c d e f g i, s = [a, b, c, d, e, f, g, i] ∧
    a < 65536 ∧ b < 65536 ∧ c < 65536 ∧ d < 65536 ∧ e < 65536 ∧ f < 65536 ∧ g < 65536 ∧ i < 65536 := by
  obtain ⟨hlen, hall⟩ := h
  match s, hlen, hall with
  | [a, b, c, d, e, f, g, i], _, hall =>
    refine ⟨a, b, c, d, e, f, g, i, rfl, ?_⟩
    simpa using hall

private theorem isPublicV6_other {a b c d e f g i : Nat} (hzero : a ≠ 0) (hnat : a ≠ 0x64) :
    isPublicV6 [a, b, c, d, e, f, g, i] =
      !(isMulticastV6 [a, b, c, d, e, f, g, i] || a &&& 0xfe00 = 0xfc00 || a &&& 0xffc0 = 0xfe80 ||
        a &&& 0xffc0 = 0xfec0 || (a = 0x2001 && b = 0x0db8) || (a = 0x2001 && b < 0x0200) || a = 0x2002 ||
        (a = 0x0100 && [b, c, d] = [0, 0, 0])) := by
  simp [isPublicV6, toIpv4Mapped, isUnspecifiedV6, IpAddr.isLoopback, hzero, hnat]

private theorem isPublicV6_refused {s : List Nat} (hs : FitsV6 s) (h : inAny 128 refusedV6 (number s) = true) :
    isPublicV6 s = false := by
  obtain ⟨a, b, c, d, e, f, g, i, rfl, ha, hb, hc, hd, he, hf, hg, hi⟩ := hs.groups
  obtain ⟨n, hn⟩ : ∃ n, number [a, b, c, d, e, f, g, i] = n := ⟨_, rfl⟩
  rw [hn] at h
  simp only [number, List.foldl_cons, List.foldl_nil] at hn
  simp only [inAny, refusedV6, List.any_cons, List.any_nil, Bool.or_false, Bool.or_eq_true, decide_eq_true_eq] at h
  rcases h with h | h | h | h | h | h | h | h | h | h
  · have hzero : n / 2 ^ 0 = 0 := h
    obtain ⟨rfl, rfl, rfl, rfl, rfl, rfl, rfl, rfl⟩ :
        a = 0 ∧ b = 0 ∧ c = 0 ∧ d = 0 ∧ e = 0 ∧ f = 0 ∧ g = 0 ∧ i = 0 := by omega
    decide
  · have hone : n / 2 ^ 0 = 1 := h
    obtain ⟨rfl, rfl, rfl, rfl, rfl, rfl, rfl, rfl⟩ :
        a = 0 ∧ b = 0 ∧ c = 0 ∧ d = 0 ∧ e = 0 ∧ f = 0 ∧ g = 0 ∧ i = 1 := by omega
    decide
  · have hbegins : n / 2 ^ 120 = 0xff := h
    have hupper : a / 2 ^ 8 % 2 ^ 8 = 0xff := by omega
    have hmask : a &&& 0xff00 = 0xff00 := and_mask_of_div hupper
    have htest : isMulticastV6 [a, b, c, d, e, f, g, i] = true := decide_eq_true hmask
    rw [isPublicV6_other (by omega) (by omega), htest]
    rfl
  · have hbegins : n / 2 ^ 121 = 126 := h
    have hupper : a / 2 ^ 9 % 2 ^ 7 = 126 := by omega
    have htest : a &&& 0xfe00 = 0xfc00 := and_mask_of_div hupper
    rw [isPublicV6_other (by omega) (by omega)]
    simp [htest]
  · have hbegins : n / 2 ^ 118 = 1018 := h
    have hupper : a / 2 ^ 6 % 2 ^ 10 = 1018 := by omega
    have htest : a &&& 0xffc0 = 0xfe80 := and_mask_of_div hupper
    rw [isPublicV6_other (by omega) (by omega)]
    simp [htest]
  · have hbegins : n / 2 ^ 118 = 1019 := h
    have hupper : a / 2 ^ 6 % 2 ^ 10 = 1019 := by omega
    have htest : a &&& 0xffc0 = 0xfec0 := and_mask_of_div hupper
    rw [isPublicV6_other (by omega) (by omega)]
    simp [htest]
  · have hbegins : n / 2 ^ 96 = 0x20010db8 := h
    obtain ⟨rfl, rfl⟩ : a = 0x2001 ∧ b = 0xdb8 := by omega
    rw [isPublicV6_other (by omega) (by omega)]
    simp
  · have hbegins : n / 2 ^ 105 = 0x2001 * 128 := h
    obtain ⟨rfl, hsecond⟩ : a = 0x2001 ∧ b < 0x200 := by omega
    rw [isPublicV6_other (by omega) (by omega)]
    simp [hsecond]
  · have hbegins : n / 2 ^ 112 = 0x2002 := h
    obtain rfl : a = 0x2002 := by omega
    rw [isPublicV6_other (by omega) (by omega)]
    simp
  · have hbegins : n / 2 ^ 64 = 0x0100000000000000 := h
    obtain ⟨rfl, rfl, rfl, rfl⟩ : a = 0x100 ∧ b = 0 ∧ c = 0 ∧ d = 0 := by omega
    rw [isPublicV6_other (by omega) (by omega)]
    simp

/-! ### IPv4 inside IPv6 -/

def carrying (front : List Nat) (v4 : Nat) : List Nat := front ++ [v4 / 2 ^ 16, v4 % 2 ^ 16]

def mapped : List Nat := [0, 0, 0, 0, 0, 0xffff]

def compatible : List Nat := [0, 0, 0, 0, 0, 0]

def nat64 : List Nat := [0x64, 0xff9b, 0, 0, 0, 0]

private theorem lastFour_carrying {front : List Nat} (hlen : front.length = 6) {v4 : Nat} (h : v4 < 2 ^ 32) :
    lastFour (carrying front v4) = v4 := by
  have hsix : (carrying front v4).getD 6 0 = v4 / 2 ^ 16 := by
    unfold carrying
    rw [List.getD_append_right _ _ _ _ (by omega), hlen]
    rfl
  have hseven : (carrying front v4).getD 7 0 = v4 % 2 ^ 16 := by
    unfold carrying
    rw [List.getD_append_right _ _ _ _ (by omega), hlen]
    rfl
  unfold lastFour ipv4
  rw [hsix, hseven]
  omega

private theorem isPublicV6_mapped {v4 : Nat} (h : v4 < 2 ^ 32) : isPublicV6 (carrying mapped v4) = isPublicV4 v4 := by
  have hsome : toIpv4Mapped (carrying mapped v4) = some (lastFour (carrying mapped v4)) := rfl
  have hlast : lastFour (carrying mapped v4) = v4 := lastFour_carrying rfl h
  unfold isPublicV6
  simp only [hsome, hlast]

private theorem isPublicV6_nat64 {v4 : Nat} (h : v4 < 2 ^ 32) : isPublicV6 (carrying nat64 v4) = isPublicV4 v4 := by
  have hnone : toIpv4Mapped (carrying nat64 v4) = none := rfl
  have hzero : (carrying nat64 v4).getD 0 0 = 0x64 := rfl
  have hone : (carrying nat64 v4).getD 1 0 = 0xff9b := rfl
  have hrest : ((carrying nat64 v4).take 6).drop 2 = [0, 0, 0, 0] := rfl
  have hlast : lastFour (carrying nat64 v4) = v4 := lastFour_carrying rfl h
  unfold isPublicV6
  simp only [hnone, hzero, hone, hrest, hlast, decide_true, Bool.and_true, Bool.or_true, if_true]

theorem isPublicV6_compatible {v4 : Nat} (h : v4 < 2 ^ 32) : isPublicV6 (carrying compatible v4) = isPublicV4 v4 := by
  by_cases hzero : v4 = 0
  · subst hzero
    decide
  by_cases hone : v4 = 1
  · subst hone
    decide
  have hunspecified : isUnspecifiedV6 (carrying compatible v4) = false := by
    simp [isUnspecifiedV6, carrying, compatible]
    omega
  have hloopback : (IpAddr.v6 (carrying compatible v4)).isLoopback = false := by
    simp [IpAddr.isLoopback, carrying, compatible]
    omega
  have hnone : toIpv4Mapped (carrying compatible v4) = none := rfl
  have hfront : (carrying compatible v4).take 6 = [0, 0, 0, 0, 0, 0] := rfl
  have hlast : lastFour (carrying compatible v4) = v4 := lastFour_carrying rfl h
  unfold isPublicV6
  simp only [hnone, hfront, hunspecified, hloopback, hlast]
  rfl

/-! ### Only outside -/

namespace Policy

private theorem permitsTarget_strict (ip : IpAddr) : STRICT.permitsTarget ip = isPublic ip := rfl

private theorem choose_strict {addrs chosen : List SocketAddr} (h : STRICT.choose addrs = .ok chosen) :
    chosen = addrs ∧ ∀ a ∈ chosen, isPublic a.ip = true := by
  unfold choose at h
  split at h
  · cases h
  split at h
  · cases h
  · rename_i hany
    cases h
    refine ⟨rfl, fun a ha => ?_⟩
    by_contra hinside
    apply hany
    rw [List.any_eq_true]
    refine ⟨a, ha, ?_⟩
    rw [permitsTarget_strict]
    simpa using hinside

theorem resolveTarget_strict {lookup : String → Nat → Except String (List SocketAddr)} {host : String} {port : Nat}
    {addrs : List SocketAddr} (h : STRICT.resolveTarget lookup host port = .ok addrs) :
    lookup host port = .ok addrs ∧ ∀ a ∈ addrs, isPublic a.ip = true := by
  unfold resolveTarget at h
  split at h
  · cases h
  · cases hlookup : lookup host port with
    | error e =>
      rw [hlookup] at h
      cases h
    | ok resolved =>
      rw [hlookup] at h
      obtain ⟨rfl, hpublic⟩ := choose_strict h
      exact ⟨rfl, hpublic⟩

end Policy

private theorem mem_of_tryEach {connect : SocketAddr → Except String Unit} {last : String} {addrs : List SocketAddr}
    {a : SocketAddr} (h : a ∈ (tryEach connect last addrs).1) : a ∈ addrs := by
  induction addrs generalizing last with
  | nil => cases h
  | cons addr addrs ih =>
    unfold tryEach at h
    cases hconnect : connect addr with
    | ok =>
      rw [hconnect] at h
      rw [List.mem_singleton.1 h]
      exact List.mem_cons_self
    | error e =>
      rw [hconnect] at h
      rcases List.mem_cons.1 h with rfl | h
      · exact List.mem_cons_self
      · exact List.mem_cons_of_mem _ (ih h)

open Policy

private theorem exitConnect_strict {connect : SocketAddr → Except String Unit}
    {lookup : String → Nat → Except String (List SocketAddr)} {host : String} {port : Nat} {a : SocketAddr}
    (h : a ∈ (exitConnect connect (STRICT.resolveTarget lookup host port)).1) : isPublic a.ip = true := by
  cases hresolved : STRICT.resolveTarget lookup host port with
  | error why =>
    rw [hresolved] at h
    cases h
  | ok addrs =>
    rw [hresolved] at h
    exact (resolveTarget_strict hresolved).2 a (mem_of_tryEach h)

private theorem connectToNext_strict {connect : SocketAddr → Except String Unit} {addr a : SocketAddr}
    (h : a ∈ (connectToNext connect addr STRICT).1) : isPublic a.ip = true := by
  unfold connectToNext at h
  split at h
  · cases h
  · rename_i hpermits
    rw [List.mem_singleton.1 h]
    simpa [permitsHop, STRICT] using hpermits

private theorem registryV4_refused {ip : Nat} (hip : ip < 2 ^ 32) (h : inAny 32 registryV4 ip = true) :
    isPublicV4 ip = false := by
  have hwithin : ∀ p ∈ registryV4, ∃ q ∈ refusedV4, Within 32 p q := by decide
  exact isPublicV4_refused hip (inAny_of_within hwithin h)

private theorem registryV6_refused {s : List Nat} (hs : FitsV6 s) (h : inAny 128 registryV6 (number s) = true)
    (hout : inAny 128 leftOut (number s) = false) : isPublicV6 s = false := by
  have hwithin : ∀ p ∈ registryV6.filter (· ∉ leftOut), ∃ q ∈ refusedV6, Within 128 p q := by decide
  exact isPublicV6_refused hs (inAny_of_within hwithin (inAny_filter leftOut h hout))

/-- What the registries set aside is not public, but for what is left out, an IPv4 address inside an IPv6 one is judged
as itself, and by default nothing else than public addresses is dialled or told. -/
theorem never_inside :
    (∀ ip < 2 ^ 32, inAny 32 registryV4 ip = true → isPublic (.v4 ip) = false) ∧
    (∀ s, FitsV6 s → inAny 128 registryV6 (number s) = true → inAny 128 leftOut (number s) = false →
      isPublic (.v6 s) = false) ∧
    (∀ v4 < 2 ^ 32, ∀ front ∈ [mapped, compatible, nat64], isPublic (.v6 (carrying front v4)) = isPublicV4 v4) ∧
    (default : Policy) = STRICT ∧
    (∀ lookup host port addrs, STRICT.resolveTarget lookup host port = .ok addrs →
      lookup host port = .ok addrs ∧ ∀ a ∈ addrs, isPublic a.ip = true) ∧
    (∀ lookup host port addrs, lookup host port = .ok addrs → (∃ a ∈ addrs, isPublic a.ip = false) →
      ∃ why, STRICT.resolveTarget lookup host port = .error why) ∧
    (∀ connect lookup host port, ∀ a ∈ (exitConnect connect (STRICT.resolveTarget lookup host port)).1,
      isPublic a.ip = true) ∧
    (∀ ips, ∀ ip ∈ STRICT.filterAnswer ips, isPublic ip = true) ∧
    ∀ connect addr, ∀ a ∈ (connectToNext connect addr STRICT).1, isPublic a.ip = true := by
  refine ⟨fun ip hip h => registryV4_refused hip h, fun s hs h hout => registryV6_refused hs h hout,
    fun v4 hv4 front hfront => ?_, rfl, fun lookup host port addrs h => resolveTarget_strict h,
    fun lookup host port addrs hlookup hinside => ?_, fun connect lookup host port a ha => exitConnect_strict ha,
    fun ips ip hip => (List.mem_filter.1 hip).2, fun connect addr a ha => connectToNext_strict ha⟩
  · simp only [List.mem_cons, List.not_mem_nil, or_false] at hfront
    rcases hfront with rfl | rfl | rfl
    · exact isPublicV6_mapped hv4
    · exact isPublicV6_compatible hv4
    · exact isPublicV6_nat64 hv4
  · obtain ⟨a, ha, hpublic⟩ := hinside
    cases hresolved : STRICT.resolveTarget lookup host port with
    | error why => exact ⟨why, rfl⟩
    | ok chosen =>
      obtain ⟨hsame, hall⟩ := resolveTarget_strict hresolved
      rw [hlookup, Except.ok.injEq] at hsame
      have hout := hall a (hsame ▸ ha)
      rw [hpublic] at hout
      cases hout

/-- A mapped public address is in a range that is not globally reachable; and of the ranges that are not looked at, each
has an address that passes, two of them with `127.0.0.1` inside. -/
theorem not_all_set_aside :
    inAny 128 registryV6 (number [0, 0, 0, 0, 0, 0xffff, 0x808, 0x808]) = true ∧
    isPublic (.v6 [0, 0, 0, 0, 0, 0xffff, 0x808, 0x808]) = true ∧
    inAny 128 registryV6 (number [0x64, 0xff9b, 1, 0, 0, 0, 0x7f00, 1]) = true ∧
    isPublic (.v6 [0x64, 0xff9b, 1, 0, 0, 0, 0x7f00, 1]) = true ∧
    isPublic (.v6 [0, 0, 0, 0, 0xffff, 0, 0x7f00, 1]) = true ∧
    isPublic (.v4 (ipv4 127 0 0 1)) = false ∧
    ∀ s ∈ [[0x100, 0, 0, 1, 0, 0, 0, 1], [0x3fff, 0, 0, 0, 0, 0, 0, 1], [0x5f00, 0, 0, 0, 0, 0, 0, 1]],
      inAny 128 registryV6 (number s) = true ∧ isPublic (.v6 s) = true := by
  decide

end HidraNet.Relay.ExitPolicy
