import HidraNet.Core.Pass
import HidraNet.Lib.Packets

/-!
# What a node forwards

The forward chain of the node's own table.  Clients do not see each other; what leaves the tunnel leaves by the outside
interface, to a public address, as the node's role allows; a client gets answers only.  A role that relays holds each
client to a few admission requests (`relayLimits`), by the client's IPv4 address: a client's IPv6 packets are counted
nowhere (`unlimited6`).
-/

namespace HidraNet.Node

open Packets

/-- What the relay limits count: the pace of a client's admission requests, and the open ones. -/
inductive RelayLimit where
  | rate
  | count
deriving DecidableEq

/-- What a node's firewall lets clients reach. -/
structure Policy where
  role : String
  forwardPrivate : Bool
deriving DecidableEq

def defaultWireguardPort : Nat := 51820

def defaultAdmissionPort : Nat := 51821

def private4 : List Prefix :=
  [net4 0 0 0 0 8, net4 10 0 0 0 8, net4 100 64 0 0 10, net4 127 0 0 0 8, net4 169 254 0 0 16, net4 172 16 0 0 12,
    net4 192 0 0 0 24, net4 192 0 2 0 24, net4 192 88 99 0 24, net4 192 168 0 0 16, net4 198 18 0 0 15,
    net4 198 51 100 0 24, net4 203 0 113 0 24, net4 224 0 0 0 4, net4 240 0 0 0 4]

def private6 : List Prefix :=
  [net6 [] 127, net6 [0, 0, 0, 0, 0, 0xffff] 96, net6 [0x64, 0xff9b] 96, net6 [0x64, 0xff9b, 1] 48, net6 [0x100] 64,
    net6 [0x2001, 2] 48, net6 [0x2001, 0xdb8] 32, net6 [0x3fff] 20, net6 [0x5f00] 16, net6 [0xfc00] 7,
    net6 [0xfe80] 10, net6 [0xfec0] 10, net6 [0xff00] 8]

def refusedTcp : List (Nat × Nat) := [(25, 25), (135, 139), (445, 445), (1433, 1433), (3389, 3389)]

def refusedUdp : List (Nat × Nat) := [(135, 139), (445, 445)]

def isEntry (role : String) : Bool := Core.eqIgnoreAsciiCase role "entry"

def relays (role : String) : Bool := !Core.eqIgnoreAsciiCase role "exit"

section Rules

variable (tunIf outIf : String)

def outward (tests : List (Match RelayLimit)) (verdict : Verdict) : Rule RelayLimit :=
  ⟨[.iifname [tunIf], .oifname [outIf]] ++ tests, verdict⟩

def relayLimits : List (Rule RelayLimit) :=
  [.rate, .count].map fun l =>
    outward tunIf outIf [.dport .tcp [(defaultAdmissionPort, defaultAdmissionPort)], .ct [.new], .past l] .reject

def noPrivate : List (Rule RelayLimit) :=
  [outward tunIf outIf [.ipDaddr private4] .drop, outward tunIf outIf [.ip6Daddr private6] .drop]

def exits (role : String) : List (Rule RelayLimit) :=
  if isEntry role then
    [outward tunIf outIf [.dport .udp [(defaultWireguardPort, defaultWireguardPort)]] .accept,
      outward tunIf outIf [.dport .tcp [(defaultAdmissionPort, defaultAdmissionPort)]] .accept,
      outward tunIf outIf [] .drop]
  else
    [outward tunIf outIf [.dport .tcp refusedTcp] .drop, outward tunIf outIf [.dport .udp refusedUdp] .drop,
      outward tunIf outIf [] .accept]

def ruleset (policy : Policy) (limitRelayed : Bool) : List (Rule RelayLimit) :=
  [⟨[.iifname [tunIf], .oifname [tunIf]], .drop⟩] ++ (if policy.forwardPrivate then [] else noPrivate tunIf outIf) ++
    (if relays policy.role && limitRelayed then relayLimits tunIf outIf else []) ++ exits tunIf outIf policy.role ++
    [⟨[.iifname [tunIf]], .drop⟩, ⟨[.iifname [outIf], .oifname [tunIf], .ct [.established, .related]], .accept⟩,
      ⟨[.oifname [tunIf]], .drop⟩]

end Rules

/-! ### What may pass -/

def ToPrivate (p : Packet) : Prop :=
  match p.dst with
  | .v4 a => inAny 32 private4 a
  | .v6 a => inAny 128 private6 a

def Refused (p : Packet) : Prop :=
  (p.proto = .tcp ∧ inRanges refusedTcp p.dport) ∨ (p.proto = .udp ∧ inRanges refusedUdp p.dport)

def OpensAdmission (tunIf : String) (p : Packet) : Prop :=
  p.iif = tunIf ∧ p.proto = .tcp ∧ p.dport = defaultAdmissionPort ∧ p.ct = .new

def ToAdmission (p : Packet) : Prop := p.proto = .tcp ∧ p.dport = defaultAdmissionPort

def ToWireguard (p : Packet) : Prop := p.proto = .udp ∧ p.dport = defaultWireguardPort

section Laws

variable (past : RelayLimit → Ip → Bool) (tunIf outIf : String) (policy : Policy) (limitRelayed : Bool) (p : Packet)

def Forwards : Prop := decides past p .accept (ruleset tunIf outIf policy limitRelayed) = .accept

def LeavesLawfully : Prop :=
  p.iif = tunIf → p.oif = outIf ∧ p.oif ≠ tunIf ∧ (policy.forwardPrivate = false → ¬ ToPrivate p) ∧
    if isEntry policy.role then ToWireguard p ∨ ToAdmission p else ¬ Refused p

def ReachesLawfully : Prop := p.oif = tunIf → p.iif = outIf ∧ p.iif ≠ tunIf ∧ (p.ct = .established ∨ p.ct = .related)

def WithinLimits : Prop :=
  limitRelayed = true → relays policy.role → OpensAdmission tunIf p → ∀ l : RelayLimit,
    (l, p.src) ∈ passed past p (ruleset tunIf outIf policy limitRelayed)

def Uncounted : Prop :=
  limitRelayed = true ∧ relays policy.role ∧ OpensAdmission tunIf p ∧ p.oif = outIf ∧ outIf ≠ tunIf ∧
    (policy.forwardPrivate = false → ¬ ToPrivate p) ∧ ∃ a, p.src = .v6 a

def PastLimit : Prop :=
  match p.src with
  | .v4 a => past .rate (.v4 a) ∨ past .count (.v4 a)
  | .v6 _ => False

end Laws

/-! ### What each group of rules decides -/

section Groups

variable (past : RelayLimit → Ip → Bool) (tunIf outIf : String) (p : Packet)

instance : Decidable (ToPrivate p) := by
  unfold ToPrivate
  split <;> infer_instance

instance : Decidable (Refused p) := inferInstanceAs (Decidable (_ ∨ _))

instance : Decidable (ToAdmission p) := inferInstanceAs (Decidable (_ ∧ _))

instance : Decidable (ToWireguard p) := inferInstanceAs (Decidable (_ ∧ _))

theorem first_noPrivate :
    first past p (noPrivate tunIf outIf) =
      if p.iif = tunIf ∧ p.oif = outIf ∧ ToPrivate p then some .drop else none := by
  cases h : p.addrs <;>
    simp [noPrivate, outward, first_cons, Rule.takes, Match.holds, h, ToPrivate, Packet.dst]

instance : Decidable (OpensAdmission tunIf p) := inferInstanceAs (Decidable (_ ∧ _))

instance : Decidable (PastLimit past p) := by
  unfold PastLimit
  split <;> infer_instance

theorem first_relayLimits :
    first past p (relayLimits tunIf outIf) =
      if p.oif = outIf ∧ OpensAdmission tunIf p ∧ PastLimit past p then some .reject else none := by
  cases h : p.addrs with
  | v4 src dst =>
    simp [relayLimits, outward, first_cons, Rule.takes, Match.holds, h, OpensAdmission, PastLimit, Packet.src,
      inRanges_single]
    grind
  | v6 src dst =>
    simp [relayLimits, outward, first_cons, Rule.takes, Match.holds, h, PastLimit, Packet.src]

theorem first_exits (role : String) :
    first past p (exits tunIf outIf role) =
      if p.iif = tunIf ∧ p.oif = outIf then
        if isEntry role then if ToWireguard p ∨ ToAdmission p then some .accept else some .drop
        else if Refused p then some .drop else some .accept
      else none := by
  unfold exits
  split
  · simp [outward, first_cons, Rule.takes, Match.holds, ToWireguard, ToAdmission, inRanges_single]
    grind
  · simp [outward, first_cons, Rule.takes, Match.holds, Refused]
    grind

theorem first_ruleset (policy : Policy) (limitRelayed : Bool) :
    first past p (ruleset tunIf outIf policy limitRelayed) =
      if p.iif = tunIf ∧ p.oif = tunIf then some .drop
      else if policy.forwardPrivate = false ∧ p.iif = tunIf ∧ p.oif = outIf ∧ ToPrivate p then some .drop
      else if (relays policy.role ∧ limitRelayed) ∧ p.oif = outIf ∧ OpensAdmission tunIf p ∧ PastLimit past p then
        some .reject
      else if p.iif = tunIf ∧ p.oif = outIf then
        if isEntry policy.role then if ToWireguard p ∨ ToAdmission p then some .accept else some .drop
        else if Refused p then some .drop else some .accept
      else if p.iif = tunIf then some .drop
      else if p.iif = outIf ∧ p.oif = tunIf ∧ (p.ct = .established ∨ p.ct = .related) then some .accept
      else if p.oif = tunIf then some .drop else none := by
  have hends : first past p [⟨[.iifname [tunIf]], .drop⟩,
      ⟨[.iifname [outIf], .oifname [tunIf], .ct [.established, .related]], .accept⟩, ⟨[.oifname [tunIf]], .drop⟩] =
      if p.iif = tunIf then some .drop
      else if p.iif = outIf ∧ p.oif = tunIf ∧ (p.ct = .established ∨ p.ct = .related) then some .accept
      else if p.oif = tunIf then some .drop else none := by
    simp [first_cons, Rule.takes, Match.holds]
  have hself : first past p [⟨[.iifname [tunIf], .oifname [tunIf]], .drop⟩] =
      if p.iif = tunIf ∧ p.oif = tunIf then some .drop else none := by
    simp [first_cons, Rule.takes, Match.holds]
  have hprivate : first past p (if policy.forwardPrivate then [] else noPrivate tunIf outIf) =
      if policy.forwardPrivate = false ∧ p.iif = tunIf ∧ p.oif = outIf ∧ ToPrivate p then some .drop else none := by
    cases policy.forwardPrivate <;> simp [first_noPrivate]
  have hlimits : first past p (if relays policy.role && limitRelayed then relayLimits tunIf outIf else []) =
      if (relays policy.role ∧ limitRelayed) ∧ p.oif = outIf ∧ OpensAdmission tunIf p ∧ PastLimit past p then
        some .reject
      else none := by
    cases relays policy.role <;> cases limitRelayed <;> simp [first_relayLimits]
  rw [ruleset, first_append, first_append, first_append, first_append, hself, hprivate, hlimits, first_exits, hends]
  split_ifs <;> rfl

theorem forwards_iff (policy : Policy) (limitRelayed : Bool) :
    Forwards past tunIf outIf policy limitRelayed p ↔
      (p.iif = tunIf → p.oif = outIf ∧ p.oif ≠ tunIf ∧ (policy.forwardPrivate = false → ¬ ToPrivate p) ∧
        ¬ ((relays policy.role ∧ limitRelayed) ∧ OpensAdmission tunIf p ∧ PastLimit past p) ∧
        if isEntry policy.role then ToWireguard p ∨ ToAdmission p else ¬ Refused p) ∧
      (p.iif ≠ tunIf → p.oif = tunIf → p.iif = outIf ∧ (p.ct = .established ∨ p.ct = .related)) := by
  unfold Forwards decides
  rw [first_ruleset]
  by_cases hi : p.iif = tunIf
  · by_cases ho : p.oif = outIf ∧ p.oif ≠ tunIf
    · simp only [hi, ho.1, true_and, ne_eq, not_true_eq_false, forall_const, false_implies, and_true, if_true]
      split_ifs <;> simp_all
    · simp only [hi, true_and, true_implies, ne_eq, not_true_eq_false, false_implies, and_true]
      by_cases hself : p.oif = tunIf
      · simp [hself]
      · have hout : p.oif ≠ outIf := fun h => ho ⟨h, hself⟩
        simp [hself, hout]
  · have hopen : ¬ OpensAdmission tunIf p := fun h => hi h.1
    simp only [hi, hopen, false_and, and_false, if_false, false_implies, true_and, ne_eq, not_false_eq_true,
      forall_const]
    split_ifs <;> simp_all

theorem mem_passed_relayLimits {a : Nat} {l : RelayLimit} {rest : List (Rule RelayLimit)} (ho : OpensAdmission tunIf p)
    (hout : p.oif = outIf) (hsrc : p.src = .v4 a) (hpast : ∀ l, past l (.v4 a) = false) :
    (l, p.src) ∈ passed past p (relayLimits tunIf outIf ++ rest) := by
  obtain ⟨hi, htcp, hport, hnew⟩ := ho
  cases haddr : p.addrs with
  | v4 src dst =>
    obtain rfl : src = a := by simpa [Packet.src, haddr] using hsrc
    have hrate := hpast .rate
    have hcount := hpast .count
    cases l <;>
      simp [relayLimits, outward, passed, Match.inOrder, Match.holds, Rule.takes, hi, hout, htcp, hport, hnew, haddr,
        inRanges_single, hrate, hcount, Packet.src]
  | v6 src dst => simp [Packet.src, haddr] at hsrc

theorem mem_passed_of_forwards {policy : Policy} {limitRelayed : Bool} {a : Nat} {l : RelayLimit}
    (h : Forwards past tunIf outIf policy limitRelayed p) (hlim : limitRelayed = true) (hr : relays policy.role)
    (ho : OpensAdmission tunIf p) (hsrc : p.src = .v4 a) :
    (l, p.src) ∈ passed past p (ruleset tunIf outIf policy limitRelayed) := by
  obtain ⟨hout, hself, hprivate, hpast, -⟩ := ((forwards_iff past tunIf outIf p policy limitRelayed).1 h).1 ho.1
  have hbefore : first past p ([⟨[.iifname [tunIf], .oifname [tunIf]], .drop⟩] ++
      (if policy.forwardPrivate then [] else noPrivate tunIf outIf)) = none := by
    rw [first_append]
    have h₁ : first past p [⟨[.iifname [tunIf], .oifname [tunIf]], .drop⟩] = none := by
      simp [first_cons, Rule.takes, Match.holds, hself]
    rw [h₁]
    cases hf : policy.forwardPrivate with
    | true => simp
    | false => simp [first_noPrivate, hprivate hf]
  have hpast' : ∀ l, past l (.v4 a) = false := by
    have hnot : ¬ PastLimit past p := fun hp => hpast ⟨⟨hr, hlim⟩, ho, hp⟩
    simp only [PastLimit, hsrc, not_or, Bool.not_eq_true] at hnot
    intro l
    cases l with
    | rate => exact hnot.1
    | count => exact hnot.2
  have hlimits : (if relays policy.role && limitRelayed then relayLimits tunIf outIf else []) =
      relayLimits tunIf outIf := by simp [hr, hlim]
  rw [ruleset, hlimits, List.append_assoc, List.append_assoc, passed_append _ _ _ _ hbefore]
  exact List.mem_append_right _ (mem_passed_relayLimits past tunIf outIf p ho hout hsrc hpast')

/-- A packet is forwarded lawfully, unless it is an admission request that nothing counts. -/
theorem forwards_lawfully (past : RelayLimit → Ip → Bool) (tunIf outIf : String) (policy : Policy)
    (limitRelayed : Bool) (p : Packet) :
    (Forwards past tunIf outIf policy limitRelayed p →
      LeavesLawfully tunIf outIf policy p ∧ ReachesLawfully tunIf outIf p ∧
        WithinLimits past tunIf outIf policy limitRelayed p) ↔
    ¬ Uncounted tunIf outIf policy limitRelayed p := by
  constructor
  · rintro h ⟨hlim, hr, ho, hout, hne, hprivate, a, hsrc⟩
    have hforwards : Forwards past tunIf outIf policy limitRelayed p := by
      rw [forwards_iff]
      refine ⟨fun _ => ⟨hout, by rw [hout]; exact hne, hprivate, ?_, ?_⟩, fun hi => absurd ho.1 hi⟩
      · rintro ⟨-, -, hpast⟩
        simp [PastLimit, hsrc] at hpast
      · split
        · exact Or.inr ⟨ho.2.1, ho.2.2.1⟩
        · rw [Refused, ho.2.1, ho.2.2.1]
          decide
    -- the counts name IPv4 clients only
    obtain ⟨b, hb⟩ := v4_of_mem_passed past p ((h hforwards).2.2 hlim hr ho .rate)
    rw [hsrc] at hb
    cases hb
  · intro hun h
    obtain ⟨hleave, hreach⟩ := (forwards_iff past tunIf outIf p policy limitRelayed).1 h
    refine ⟨fun hi => ?_, fun ho => ?_, fun hlim hr ho l => ?_⟩
    · obtain ⟨h₁, h₂, h₃, -, h₄⟩ := hleave hi
      exact ⟨h₁, h₂, h₃, h₄⟩
    · have hi : p.iif ≠ tunIf := fun hi => (hleave hi).2.1 ho
      exact ⟨(hreach hi ho).1, hi, (hreach hi ho).2⟩
    · obtain ⟨hout, hself, hprivate, -⟩ := hleave ho.1
      cases hsrc : p.src with
      | v4 a =>
        rw [← hsrc]
        exact mem_passed_of_forwards past tunIf outIf p h hlim hr ho hsrc
      | v6 a => exact absurd ⟨hlim, hr, ho, hout, hout ▸ hself, hprivate, a, hsrc⟩ hun

/-- A client of an entry opens admission requests over IPv6 as fast as it likes. -/
theorem unlimited6 :
    let p : Packet := ⟨"hvpn0", "eth0", .v6 5 (0x20010470 * 2 ^ 96), .tcp, 40000, 51821, .new⟩
    Forwards (fun _ _ => true) "hvpn0" "eth0" ⟨"entry", false⟩ true p ∧
      ¬ WithinLimits (fun _ _ => true) "hvpn0" "eth0" ⟨"entry", false⟩ true p := by
  intro p
  refine ⟨by unfold Forwards; decide, fun h => ?_⟩
  have := h rfl (by decide) ⟨rfl, rfl, rfl, rfl⟩ .rate
  revert this
  decide

end Groups

end HidraNet.Node
