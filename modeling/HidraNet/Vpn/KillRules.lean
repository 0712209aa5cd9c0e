import HidraNet.Lib.Packets

/-!
# What the kill switch lets out

The output chains of the kill switch: with a circuit up (`ruleset`), while it is replaced (`holdRuleset`) and while a
node is asked for admission (`admittingRuleset`).  A packet is decided by the first rule that takes it.

The rule that keeps a foreign source out of a tunnel (`ownSourceOnly`) is about IPv4 only, and the rules for the node's
endpoint and for DHCP name no interface: they let such a packet into a tunnel over IPv6, and the first of them lets the
outer tunnel carry packets for the entry itself (`Leaks`).  Nothing else leaves that should not
(`lets_out_only_the_tunnel`).
-/

namespace HidraNet.Vpn

open Packets

/-- What the kill switch must let through while it is on. -/
structure KillConfig where
  interface : String
  interfaceIpv4 : Nat
  nodeEndpoint : Endpoint
  dns : Nat
  allowLan : Bool
  /-- The inner tunnel of two hops, with its own address. -/
  extraInterface : Option (String × Nat)
  /-- The exit's endpoint, for the outer tunnel of two hops: an IPv4 address and a port. -/
  outerPeer : Option (Nat × Nat)
  tunnelIpv6 : Option Nat
deriving DecidableEq

/-- A destination reached through a tunnel while a hold is in force. -/
structure Bridge where
  interface : String
  source : Nat
  peer : Nat × Nat
deriving DecidableEq

abbrev KillRule := Rule Empty

def accept (tests : List (Match Empty)) : KillRule := ⟨tests, .accept⟩

def drop (tests : List (Match Empty)) : KillRule := ⟨tests, .drop⟩

def daddr : Ip → Match Empty
  | .v4 a => .ipDaddr [⟨a, 32⟩]
  | .v6 a => .ip6Daddr [⟨a, 128⟩]

def nodeRules (endpoints : List Endpoint) : List KillRule :=
  endpoints.map fun e => accept [daddr e.ip, .dport .udp [(e.port, e.port)]]

def table (output : List KillRule) : List KillRule :=
  accept [.oifname ["lo"]] :: output ++
    [accept [.sport .udp [(68, 68)], .dport .udp [(67, 67)]], accept [.l4proto .icmp, .ct [.related]], drop []]

def ownSourceOnly (iface : String) (own : Nat) : KillRule := drop [.oifname [iface], .ipSaddrNot own]

def carryingRules (iface : String) (own : Nat) (tunnel6 : Option Nat) : List KillRule :=
  accept [.oifname [iface], .ipSaddr own] ::
    (tunnel6.map fun a => accept [.oifname [iface], .ip6Saddr a]).toList

def peerRules (iface : String) (proto : Proto) (source : Nat) (peer : Nat × Nat) : List KillRule :=
  [accept [.oifname [iface], .ipSaddr source, .ipDaddr [⟨peer.1, 32⟩], .dport proto [(peer.2, peer.2)]]]

def lanNets : List Prefix := [net4 10 0 0 0 8, net4 172 16 0 0 12, net4 192 168 0 0 16, net4 169 254 0 0 16]

namespace KillConfig

variable (cfg : KillConfig)

def tunnels : List String := cfg.interface :: (cfg.extraInterface.map Prod.fst).toList

def carrying : String := (cfg.extraInterface.map Prod.fst).getD cfg.interface

def carryingIpv4 : Nat := (cfg.extraInterface.map Prod.snd).getD cfg.interfaceIpv4

def lanOut : List KillRule := if cfg.allowLan then [accept [.oifnameNot cfg.tunnels, .ipDaddr lanNets]] else []

def extraOut : List KillRule :=
  match cfg.extraInterface with
  | some (x, own) => carryingRules x own cfg.tunnelIpv6
  | none => []

def tunnelOut : List KillRule :=
  match cfg.outerPeer with
  | some peer => peerRules cfg.interface .udp cfg.interfaceIpv4 peer ++ [drop [.oifname [cfg.interface]]]
  | none => carryingRules cfg.interface cfg.interfaceIpv4 cfg.tunnelIpv6

def dnsRules : List KillRule :=
  [.udp, .tcp].map (fun proto => accept [.oifname [cfg.carrying], .ipDaddr [⟨cfg.dns, 32⟩], .dport proto [(53, 53)]]) ++
    [.udp, .tcp].map fun proto => drop [.dport proto [(53, 53)]]

end KillConfig

def ruleset (cfg : KillConfig) : List KillRule :=
  table ([ownSourceOnly cfg.interface cfg.interfaceIpv4] ++
    (cfg.extraInterface.map fun x => ownSourceOnly x.1 x.2).toList ++ nodeRules [cfg.nodeEndpoint] ++ cfg.dnsRules ++
    cfg.tunnelOut ++ cfg.extraOut ++ cfg.lanOut)

def holdRuleset (endpoints : List Endpoint) : List KillRule := table (nodeRules endpoints)

def admittingRuleset (endpoints direct : List Endpoint) (bridge : Option Bridge) : List KillRule :=
  let out := match bridge with
    | some b => [ownSourceOnly b.interface b.source] ++ nodeRules endpoints ++ peerRules b.interface .tcp b.source b.peer
    | none => nodeRules endpoints
  table (out ++ direct.map fun d => accept [daddr d.ip, .dport .tcp [(d.port, d.port)]])

def LetsOut (rules : List KillRule) (p : Packet) : Prop := decides (fun l => l.elim) p .drop rules = .accept

instance (rules : List KillRule) (p : Packet) : Decidable (LetsOut rules p) := inferInstanceAs (Decidable (_ = _))

/-! ### What each group of rules decides -/

def decision (rules : List KillRule) (p : Packet) : Option Verdict := first (fun l => l.elim) p rules

def UdpTo (p : Packet) (e : Endpoint) : Prop := p.proto = .udp ∧ p.dst = e.ip ∧ p.dport = e.port

def Dhcp (p : Packet) : Prop := p.proto = .udp ∧ p.sport = 68 ∧ p.dport = 67

def Dns (p : Packet) : Prop := (p.proto = .udp ∨ p.proto = .tcp) ∧ p.dport = 53

def IcmpError (p : Packet) : Prop := p.proto = .icmp ∧ p.ct = .related

/-- An IPv4 packet from another address than `own`. -/
def ForeignSource (p : Packet) (own : Nat) : Prop :=
  match p.src with
  | .v4 a => a ≠ own
  | .v6 _ => False

def OwnSource (p : Packet) (own : Nat) (own6 : Option Nat) : Prop := p.src = .v4 own ∨ ∃ a ∈ own6, p.src = .v6 a

def ToLan (p : Packet) : Prop :=
  match p.dst with
  | .v4 a => inAny 32 lanNets a
  | .v6 _ => False

instance (p : Packet) (e : Endpoint) : Decidable (UdpTo p e) := inferInstanceAs (Decidable (_ ∧ _))

instance (p : Packet) : Decidable (Dhcp p) := inferInstanceAs (Decidable (_ ∧ _))

instance (p : Packet) : Decidable (Dns p) := inferInstanceAs (Decidable (_ ∧ _))

instance (p : Packet) : Decidable (IcmpError p) := inferInstanceAs (Decidable (_ ∧ _))

instance (p : Packet) (own : Nat) : Decidable (ForeignSource p own) :=
  show Decidable (match p.src with | .v4 a => a ≠ own | .v6 _ => False) from
    match p.src with
    | .v4 a => inferInstanceAs (Decidable (a ≠ own))
    | .v6 _ => .isFalse id

instance (p : Packet) (own : Nat) (own6 : Option Nat) : Decidable (OwnSource p own own6) :=
  inferInstanceAs (Decidable (_ ∨ _))

instance (p : Packet) : Decidable (ToLan p) :=
  show Decidable (match p.dst with | .v4 a => inAny 32 lanNets a | .v6 _ => False) from
    match p.dst with
    | .v4 a => inferInstanceAs (Decidable (inAny 32 lanNets a))
    | .v6 _ => .isFalse id

section Groups

variable {p : Packet} {e : Endpoint} {iface : String} {own : Nat}

theorem letsOut_iff (rules : List KillRule) (p : Packet) : LetsOut rules p ↔ decision rules p = some .accept := by
  unfold LetsOut decides decision
  cases first (fun l : Empty => l.elim) p rules <;> simp

theorem decision_append (rs rs' : List KillRule) (p : Packet) :
    decision (rs ++ rs') p = (decision rs p).or (decision rs' p) :=
  first_append _ _ _ _

theorem decision_cons (r : KillRule) (rs : List KillRule) (p : Packet) :
    decision (r :: rs) p = if r.takes (fun l => l.elim) p then some r.verdict else decision rs p := rfl

@[simp] theorem decision_nil (p : Packet) : decision [] p = none := rfl

theorem holds_daddr (p : Packet) (ip : Ip) : (daddr ip).holds (fun l => l.elim) p = decide (p.dst = ip) := by
  cases ip <;> cases h : p.addrs <;> simp [daddr, Match.holds, h, inAny_single, Packet.dst]

theorem takes_to (p : Packet) (ip : Ip) (proto : Proto) (port : Nat) :
    (accept [daddr ip, .dport proto [(port, port)]]).takes (fun l => l.elim) p =
      decide (p.proto = proto ∧ p.dst = ip ∧ p.dport = port) := by
  have hd := holds_daddr p ip
  simp only [Rule.takes, accept, List.all_cons, List.all_nil, hd, Bool.and_true]
  simp only [Match.holds, inRanges_single, Bool.decide_and]
  ac_rfl

theorem decision_to (p : Packet) (proto : Proto) (es : List Endpoint) :
    decision (es.map fun e => accept [daddr e.ip, .dport proto [(e.port, e.port)]]) p =
      if ∃ e ∈ es, p.proto = proto ∧ p.dst = e.ip ∧ p.dport = e.port then some .accept else none := by
  induction es with
  | nil => rfl
  | cons e es ih =>
    rw [List.map_cons, decision_cons, takes_to]
    by_cases h : p.proto = proto ∧ p.dst = e.ip ∧ p.dport = e.port
    · simp [h, accept]
    · simp only [h, decide_false, Bool.false_eq_true, if_false, List.exists_mem_cons_iff, false_or]
      exact ih

theorem decision_nodeRules (p : Packet) (es : List Endpoint) :
    decision (nodeRules es) p = if ∃ e ∈ es, UdpTo p e then some .accept else none :=
  decision_to p .udp es

theorem decision_ownSourceOnly (p : Packet) (iface : String) (own : Nat) (rs : List KillRule) :
    decision (ownSourceOnly iface own :: rs) p =
      if p.oif = iface ∧ ForeignSource p own then some .drop else decision rs p := by
  rw [decision_cons]
  cases h : p.addrs <;> simp [ownSourceOnly, drop, Rule.takes, Match.holds, h, ForeignSource, Packet.src]

theorem decision_carryingRules (p : Packet) (iface : String) (own : Nat) (own6 : Option Nat) :
    decision (carryingRules iface own own6) p =
      if p.oif = iface ∧ OwnSource p own own6 then some .accept else none := by
  cases own6 <;> cases h : p.addrs <;>
    simp [carryingRules, decision_cons, accept, Rule.takes, Match.holds, h, OwnSource, Packet.src]

theorem decision_lanOut (cfg : KillConfig) (p : Packet) :
    decision cfg.lanOut p = if cfg.allowLan ∧ p.oif ∉ cfg.tunnels ∧ ToLan p then some .accept else none := by
  cases hl : cfg.allowLan <;> cases h : p.addrs <;>
    simp [KillConfig.lanOut, decision_cons, accept, Rule.takes, Match.holds, hl, h, ToLan, Packet.dst]

theorem decision_dnsRules (cfg : KillConfig) (p : Packet) :
    decision cfg.dnsRules p =
      if Dns p then if p.oif = cfg.carrying ∧ p.dst = .v4 cfg.dns then some .accept else some .drop else none := by
  cases h : p.addrs <;> cases hp : p.proto <;>
    simp [KillConfig.dnsRules, decision_cons, accept, drop, Rule.takes, Match.holds, h, hp, Dns, Packet.dst, inAny_single,
      inRanges_single]
  all_goals by_cases h53 : p.dport = 53 <;> simp [h53]

theorem decision_peer (p : Packet) (iface : String) (proto : Proto) (own : Nat) (peer : Nat × Nat) :
    decision (peerRules iface proto own peer) p =
      if p.oif = iface ∧ p.src = .v4 own ∧ p.dst = .v4 peer.1 ∧ p.proto = proto ∧ p.dport = peer.2 then some .accept
      else none := by
  cases h : p.addrs <;>
    simp [peerRules, decision_cons, accept, Rule.takes, Match.holds, h, Packet.dst, Packet.src, inAny_single,
      inRanges_single]

theorem decision_table (rs : List KillRule) (p : Packet) :
    decision (table rs) p =
      if p.oif = "lo" then some .accept
      else (decision rs p).or (if Dhcp p ∨ IcmpError p then some .accept else some .drop) := by
  have hend : decision [accept [.sport .udp [(68, 68)], .dport .udp [(67, 67)]],
      accept [.l4proto .icmp, .ct [.related]], drop []] p =
        if Dhcp p ∨ IcmpError p then some .accept else some .drop := by
    cases hp : p.proto <;>
      simp [decision_cons, accept, drop, Rule.takes, Match.holds, hp, Dhcp, IcmpError, inRanges_single]
  rw [table, List.cons_append, decision_cons, decision_append, hend]
  simp [accept, Rule.takes, Match.holds]

end Groups

/-! ### With a circuit up -/

namespace KillConfig

variable (cfg : KillConfig)

def WellFormed : Prop :=
  match cfg.extraInterface, cfg.outerPeer with
  | none, none => True
  | some x, some _ => x.1 ≠ cfg.interface
  | _, _ => False

/-- What may leave: on loopback; to the node, off the tunnels; into the carrying tunnel from its own address; two hops'
inner packets through the outer tunnel; DHCP and the local network, off the tunnels. -/
def Allowed (p : Packet) : Prop :=
  p.oif = "lo" ∨
  (UdpTo p cfg.nodeEndpoint ∧ p.oif ∉ cfg.tunnels) ∨
  (p.oif = cfg.carrying ∧ OwnSource p cfg.carryingIpv4 cfg.tunnelIpv6) ∨
  (∃ peer ∈ cfg.outerPeer, p.oif = cfg.interface ∧ p.src = .v4 cfg.interfaceIpv4 ∧ UdpTo p ⟨.v4 peer.1, peer.2⟩) ∨
  (Dhcp p ∧ p.oif ∉ cfg.tunnels) ∨
  (cfg.allowLan ∧ ToLan p ∧ p.oif ∉ cfg.tunnels)

def AllowedDns (p : Packet) : Prop :=
  Dns p → p.oif = "lo" ∨ (p.oif = cfg.carrying ∧ p.dst = .v4 cfg.dns) ∨ UdpTo p cfg.nodeEndpoint

def Leaks (p : Packet) : Prop :=
  p.oif ≠ "lo" ∧
    ((p.oif = cfg.carrying ∧ (∃ a, p.src = .v6 a ∧ some a ≠ cfg.tunnelIpv6) ∧ (UdpTo p cfg.nodeEndpoint ∨ Dhcp p)) ∨
    (∃ peer ∈ cfg.outerPeer, p.oif = cfg.interface ∧ ¬ ForeignSource p cfg.interfaceIpv4 ∧ UdpTo p cfg.nodeEndpoint ∧
      ¬ (p.src = .v4 cfg.interfaceIpv4 ∧ UdpTo p ⟨.v4 peer.1, peer.2⟩)))

instance (p : Packet) : Decidable (cfg.Allowed p) := inferInstanceAs (Decidable (_ ∨ _))

end KillConfig

theorem letsOut_one {cfg : KillConfig} (hx : cfg.extraInterface = none) (hp : cfg.outerPeer = none) (p : Packet) :
    LetsOut (ruleset cfg) p ↔ p.oif = "lo" ∨ ¬ (p.oif = cfg.interface ∧ ForeignSource p cfg.interfaceIpv4) ∧
      (UdpTo p cfg.nodeEndpoint ∨ (Dns p ∧ p.oif = cfg.interface ∧ p.dst = .v4 cfg.dns) ∨
        ¬ Dns p ∧ ((p.oif = cfg.interface ∧ OwnSource p cfg.interfaceIpv4 cfg.tunnelIpv6) ∨
          (cfg.allowLan ∧ p.oif ≠ cfg.interface ∧ ToLan p) ∨ Dhcp p ∨ IcmpError p)) := by
  rw [letsOut_iff, ruleset, decision_table]
  simp only [hx, Option.map_none, Option.toList_none, List.append_nil, List.cons_append, List.nil_append,
    decision_ownSourceOnly, decision_append, decision_nodeRules, decision_dnsRules, decision_lanOut,
    KillConfig.tunnelOut, KillConfig.extraOut, KillConfig.carrying, KillConfig.tunnels, hp, decision_carryingRules,
    Option.getD_none, List.mem_singleton, exists_eq_left]
  split_ifs <;> simp_all

theorem letsOut_two {cfg : KillConfig} {x : String} {own : Nat} {peer : Nat × Nat}
    (hx : cfg.extraInterface = some (x, own)) (hp : cfg.outerPeer = some peer) (p : Packet) :
    LetsOut (ruleset cfg) p ↔ p.oif = "lo" ∨ ¬ (p.oif = cfg.interface ∧ ForeignSource p cfg.interfaceIpv4) ∧
      ¬ (p.oif = x ∧ ForeignSource p own) ∧
      (UdpTo p cfg.nodeEndpoint ∨ (Dns p ∧ p.oif = x ∧ p.dst = .v4 cfg.dns) ∨
        ¬ Dns p ∧ ((p.oif = cfg.interface ∧ p.src = .v4 cfg.interfaceIpv4 ∧ UdpTo p ⟨.v4 peer.1, peer.2⟩) ∨
          p.oif ≠ cfg.interface ∧ ((p.oif = x ∧ OwnSource p own cfg.tunnelIpv6) ∨
            (cfg.allowLan ∧ p.oif ≠ x ∧ ToLan p) ∨ Dhcp p ∨ IcmpError p))) := by
  have hdrop : decision [drop [.oifname [cfg.interface]]] p = if p.oif = cfg.interface then some .drop else none := by
    simp [decision_cons, drop, Rule.takes, Match.holds]
  have hto : (p.oif = cfg.interface ∧ p.src = .v4 cfg.interfaceIpv4 ∧ UdpTo p ⟨.v4 peer.1, peer.2⟩) ↔
      (p.oif = cfg.interface ∧ p.src = .v4 cfg.interfaceIpv4 ∧ p.dst = .v4 peer.1 ∧ p.proto = .udp ∧
        p.dport = peer.2) := by
    unfold UdpTo
    tauto
  rw [letsOut_iff, ruleset, decision_table, hto]
  simp only [hx, Option.map_some, Option.toList_some, List.cons_append, List.nil_append, decision_ownSourceOnly,
    decision_append, decision_nodeRules, decision_dnsRules, decision_lanOut, KillConfig.tunnelOut, KillConfig.extraOut,
    KillConfig.carrying, KillConfig.tunnels, hp, decision_carryingRules, decision_peer, hdrop, Option.getD_some,
    List.mem_cons, List.not_mem_nil, or_false, exists_eq_left]
  split_ifs <;> simp_all

/-! ### What leaves that should not -/

theorem not_dns_of_dhcp {p : Packet} (h : Dhcp p) : ¬ Dns p := by
  rintro ⟨-, h'⟩
  have := h.2.2
  omega

theorem foreign6 (p : Packet) (own : Nat) (own6 : Option Nat) (h : ¬ ForeignSource p own)
    (ho : ¬ OwnSource p own own6) : ∃ a, p.src = .v6 a ∧ some a ≠ own6 := by
  unfold ForeignSource at h
  cases hs : p.src with
  | v4 a =>
    rw [hs] at h
    exact absurd (Or.inl (by rw [hs, not_not.1 h])) ho
  | v6 a =>
    refine ⟨a, rfl, fun ha => ho (Or.inr ⟨a, ?_, hs⟩)⟩
    rw [← ha]
    rfl

theorem not_ownSource (p : Packet) (own : Nat) (own6 : Option Nat) (h : ∃ a, p.src = .v6 a ∧ some a ≠ own6) :
    ¬ ForeignSource p own ∧ ¬ OwnSource p own own6 := by
  obtain ⟨a, hs, ha⟩ := h
  refine ⟨by simp [ForeignSource, hs], ?_⟩
  rintro (h | ⟨b, hb, h⟩)
  · simp [hs] at h
  · rw [hs] at h
    cases h
    exact ha hb.symm

theorem not_v6_of_dst (p : Packet) (a : Nat) (own6 : Option Nat) (h : p.dst = .v4 a) :
    ¬ ∃ b, p.src = .v6 b ∧ some b ≠ own6 := by
  rintro ⟨b, hb, -⟩
  cases ha : p.addrs <;> simp [Packet.dst, Packet.src, ha] at h hb

theorem one_hop {cfg : KillConfig} (hx : cfg.extraInterface = none) (hp : cfg.outerPeer = none) {p : Packet}
    (hicmp : ¬ IcmpError p) :
    (LetsOut (ruleset cfg) p → cfg.Allowed p ∧ cfg.AllowedDns p) ↔ ¬ cfg.Leaks p := by
  rw [letsOut_one hx hp]
  simp only [KillConfig.Allowed, KillConfig.AllowedDns, KillConfig.Leaks, KillConfig.tunnels, KillConfig.carrying,
    KillConfig.carryingIpv4, hx, hp, Option.map_none, Option.getD_none, Option.toList_none, List.mem_singleton,
    Option.mem_def, reduceCtorEq, false_and, exists_false, or_false, false_or]
  have hdhcp := not_dns_of_dhcp (p := p)
  have hsrc := foreign6 p cfg.interfaceIpv4 cfg.tunnelIpv6
  have hsrc' := not_ownSource p cfg.interfaceIpv4 cfg.tunnelIpv6
  have hdst := not_v6_of_dst p cfg.dns cfg.tunnelIpv6
  constructor
  · rintro h ⟨hlo, hi, hs, hto⟩
    grind
  · rintro hl (hlo | ⟨hf, hto | ⟨hd, hi, hdns⟩ | ⟨hd, hrest⟩⟩)
    · grind
    · grind
    · grind
    · grind

theorem two_hops {cfg : KillConfig} {x : String} {own : Nat} {peer : Nat × Nat}
    (hx : cfg.extraInterface = some (x, own)) (hp : cfg.outerPeer = some peer) (hne : x ≠ cfg.interface) {p : Packet}
    (hicmp : ¬ IcmpError p) :
    (LetsOut (ruleset cfg) p → cfg.Allowed p ∧ cfg.AllowedDns p) ↔ ¬ cfg.Leaks p := by
  rw [letsOut_two hx hp]
  simp only [KillConfig.Allowed, KillConfig.AllowedDns, KillConfig.Leaks, KillConfig.tunnels, KillConfig.carrying,
    KillConfig.carryingIpv4, hx, hp, Option.map_some, Option.getD_some, Option.toList_some, List.mem_cons,
    List.not_mem_nil, or_false, Option.mem_some_iff, exists_eq_left']
  have hdhcp := not_dns_of_dhcp (p := p)
  have hsrc := foreign6 p own cfg.tunnelIpv6
  have hsrc' := not_ownSource p own cfg.tunnelIpv6
  have hdst := not_v6_of_dst p cfg.dns cfg.tunnelIpv6
  constructor
  · rintro h ⟨hlo, ⟨hi, hs, hto⟩ | ⟨hi, hf, hto, hpeer⟩⟩
    · grind
    · grind
  · rintro hl (hlo | ⟨hf, hf', hto | ⟨hd, hi, hdns⟩ | ⟨hd, ⟨hi, ho⟩ | ⟨hi, hrest⟩⟩⟩)
    · grind
    · grind
    · grind
    · grind
    · grind

/-! ### While a circuit is replaced -/

def TcpTo (p : Packet) (e : Endpoint) : Prop := p.proto = .tcp ∧ p.dst = e.ip ∧ p.dport = e.port

instance (p : Packet) (e : Endpoint) : Decidable (TcpTo p e) := inferInstanceAs (Decidable (_ ∧ _))

theorem decision_direct (p : Packet) (ds : List Endpoint) :
    decision (ds.map fun d => accept [daddr d.ip, .dport .tcp [(d.port, d.port)]]) p =
      if ∃ d ∈ ds, TcpTo p d then some .accept else none :=
  decision_to p .tcp ds

theorem letsOut_hold {endpoints : List Endpoint} {p : Packet} (hicmp : ¬ IcmpError p)
    (h : LetsOut (holdRuleset endpoints) p) : p.oif = "lo" ∨ (∃ e ∈ endpoints, UdpTo p e) ∨ Dhcp p := by
  rw [letsOut_iff, holdRuleset, decision_table, decision_nodeRules] at h
  split_ifs at h <;> simp_all

theorem letsOut_admitting {endpoints direct : List Endpoint} {bridge : Option Bridge} {p : Packet}
    (hicmp : ¬ IcmpError p) (h : LetsOut (admittingRuleset endpoints direct bridge) p) :
    p.oif = "lo" ∨ (∃ e ∈ endpoints, UdpTo p e) ∨ (∃ d ∈ direct, TcpTo p d) ∨
      (∃ b ∈ bridge, p.oif = b.interface ∧ p.src = .v4 b.source ∧ TcpTo p ⟨.v4 b.peer.1, b.peer.2⟩) ∨ Dhcp p := by
  rw [letsOut_iff] at h
  cases bridge with
  | none =>
    simp only [admittingRuleset, decision_table, decision_append, decision_nodeRules, decision_direct] at h
    split_ifs at h <;> simp_all
  | some b =>
    have hb : (p.oif = b.interface ∧ p.src = .v4 b.source ∧ TcpTo p ⟨.v4 b.peer.1, b.peer.2⟩) ↔
        (p.oif = b.interface ∧ p.src = .v4 b.source ∧ p.dst = .v4 b.peer.1 ∧ p.proto = .tcp ∧ p.dport = b.peer.2) := by
      unfold TcpTo
      tauto
    simp only [admittingRuleset, decision_table, List.cons_append, List.nil_append, decision_ownSourceOnly,
      decision_append, decision_nodeRules, decision_direct, decision_peer, ← hb] at h
    split_ifs at h <;> simp_all

/-- A circuit's rules let a packet out only as they should, unless it leaks; a hold lets out what goes to its nodes, and
DHCP; and what asks for admission goes to where it is asked for. -/
theorem lets_out_only_the_tunnel (p : Packet) (hicmp : ¬ IcmpError p) :
    (∀ cfg : KillConfig, cfg.WellFormed →
      ((LetsOut (ruleset cfg) p → cfg.Allowed p ∧ cfg.AllowedDns p) ↔ ¬ cfg.Leaks p)) ∧
    (∀ endpoints : List Endpoint, LetsOut (holdRuleset endpoints) p →
      p.oif = "lo" ∨ (∃ e ∈ endpoints, UdpTo p e) ∨ Dhcp p) ∧
    ∀ (endpoints direct : List Endpoint) (bridge : Option Bridge),
      LetsOut (admittingRuleset endpoints direct bridge) p →
      p.oif = "lo" ∨ (∃ e ∈ endpoints, UdpTo p e) ∨ (∃ d ∈ direct, TcpTo p d) ∨
        (∃ b ∈ bridge, p.oif = b.interface ∧ p.src = .v4 b.source ∧ TcpTo p ⟨.v4 b.peer.1, b.peer.2⟩) ∨ Dhcp p := by
  refine ⟨fun cfg hwf => ?_, fun _ => letsOut_hold hicmp, fun _ _ _ => letsOut_admitting hicmp⟩
  unfold KillConfig.WellFormed at hwf
  split at hwf
  · rename_i hx hp
    exact one_hop hx hp hicmp
  · rename_i x peer hx hp
    exact two_hops hx hp hwf hicmp
  · exact hwf.elim

def oneHopConfig : KillConfig :=
  ⟨"hvpn0", 172818434, ⟨.v4 3405803786, 51820⟩, 172818433, false, none, none, some 42⟩

theorem tunnel_lets_out_own :
    oneHopConfig.Allowed ⟨"", "hvpn0", .v6 42 7, .tcp, 40000, 443, .new⟩ ∧
      oneHopConfig.AllowedDns ⟨"", "hvpn0", .v6 42 7, .tcp, 40000, 443, .new⟩ :=
  ((lets_out_only_the_tunnel _ (by decide)).1 oneHopConfig trivial).2 (by
    rintro ⟨-, ⟨-, ⟨a, ha, hne⟩, -⟩ | ⟨peer, hpeer, -⟩⟩
    · cases ha
      exact hne rfl
    · cases hpeer) (by decide)

/-- DHCP over IPv6 from the machine's own address goes into the tunnel, and the node reads the address. -/
theorem leaks_dhcp :
    oneHopConfig.WellFormed ∧ LetsOut (ruleset oneHopConfig) ⟨"", "hvpn0", .v6 9 7, .udp, 68, 67, .new⟩ ∧
      ¬ oneHopConfig.Allowed ⟨"", "hvpn0", .v6 9 7, .udp, 68, 67, .new⟩ := by
  exact ⟨trivial, by decide, by decide⟩

end HidraNet.Vpn
