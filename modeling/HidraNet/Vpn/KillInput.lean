import HidraNet.Vpn.KillRules

/-!
# What the kill switch lets in

The input chain of the kill switch with a circuit up.  The rules for the node's endpoint, for DHCP and for the local
network match by addresses that the far end of a tunnel chooses; they stand behind every tunnel's own rules, each of
which ends in a drop (`decision_carryingIn`, `decision_peerIn`), so that nothing that arrives on a tunnel reaches them.
-/

namespace HidraNet.Vpn

open Packets

def saddr : Ip → Match Empty
  | .v4 a => .ipSaddr a
  | .v6 a => .ip6Saddr a

def nodeRulesIn (endpoints : List Endpoint) : List KillRule :=
  endpoints.map fun e => accept [saddr e.ip, .sport .udp [(e.port, e.port)], .ct [.established]]

def tableIn (input : List KillRule) : List KillRule :=
  accept [.iifname ["lo"]] :: input ++
    [accept [.sport .udp [(67, 67)], .dport .udp [(68, 68)]], accept [.l4proto .icmp, .ct [.related]], drop []]

def carryingRulesIn (iface : String) : List KillRule :=
  [accept [.iifname [iface], .ct [.established, .related]], drop [.iifname [iface]]]

def peerRulesIn (iface : String) (proto : Proto) (peer : Nat × Nat) : List KillRule :=
  [accept [.iifname [iface], .ipSaddr peer.1, .sport proto [(peer.2, peer.2)], .ct [.established]],
    accept [.iifname [iface], .l4proto .icmp, .ct [.related]], drop [.iifname [iface]]]

namespace KillConfig

variable (cfg : KillConfig)

def lanIn : List KillRule := if cfg.allowLan then [accept [.iifnameNot cfg.tunnels, .ipSaddrIn lanNets]] else []

def extraIn : List KillRule :=
  match cfg.extraInterface with
  | some (x, _) => carryingRulesIn x
  | none => []

def tunnelIn : List KillRule :=
  match cfg.outerPeer with
  | some peer => peerRulesIn cfg.interface .udp peer
  | none => carryingRulesIn cfg.interface

end KillConfig

def rulesetIn (cfg : KillConfig) : List KillRule :=
  tableIn (cfg.tunnelIn ++ cfg.extraIn ++ nodeRulesIn [cfg.nodeEndpoint] ++ cfg.lanIn)

def LetsIn (rules : List KillRule) (p : Packet) : Prop := decides (fun l => l.elim) p .drop rules = .accept

instance (rules : List KillRule) (p : Packet) : Decidable (LetsIn rules p) := inferInstanceAs (Decidable (_ = _))

/-! ### What each group of rules decides -/

def UdpFrom (p : Packet) (e : Endpoint) : Prop := p.proto = .udp ∧ p.src = e.ip ∧ p.sport = e.port

def AnswerOf (p : Packet) (e : Endpoint) : Prop := UdpFrom p e ∧ p.ct = .established

def DhcpOffer (p : Packet) : Prop := p.proto = .udp ∧ p.sport = 67 ∧ p.dport = 68

def FromLan (p : Packet) : Prop :=
  match p.src with
  | .v4 a => inAny 32 lanNets a
  | .v6 _ => False

def Asked (p : Packet) : Prop := p.ct = .established ∨ p.ct = .related

instance (p : Packet) (e : Endpoint) : Decidable (UdpFrom p e) := inferInstanceAs (Decidable (_ ∧ _))

instance (p : Packet) (e : Endpoint) : Decidable (AnswerOf p e) := inferInstanceAs (Decidable (_ ∧ _))

instance (p : Packet) : Decidable (DhcpOffer p) := inferInstanceAs (Decidable (_ ∧ _))

instance (p : Packet) : Decidable (FromLan p) :=
  show Decidable (match p.src with | .v4 a => inAny 32 lanNets a | .v6 _ => False) from
    match p.src with
    | .v4 a => inferInstanceAs (Decidable (inAny 32 lanNets a))
    | .v6 _ => .isFalse not_false

instance (p : Packet) : Decidable (Asked p) := inferInstanceAs (Decidable (_ ∨ _))

section Groups

variable (p : Packet)

theorem decision_nodeRulesIn (e : Endpoint) :
    decision (nodeRulesIn [e]) p = if AnswerOf p e then some .accept else none := by
  obtain ⟨ip, port⟩ := e
  cases ip <;> cases h : p.addrs <;>
    simp [nodeRulesIn, saddr, decision_cons, accept, Rule.takes, Match.holds, h, AnswerOf, UdpFrom, Packet.src,
      inRanges_single, and_assoc, and_comm, and_left_comm]

/-- Every packet that arrives on the tunnel is decided here. -/
theorem decision_carryingIn (iface : String) :
    decision (carryingRulesIn iface) p =
      if p.iif = iface then if Asked p then some .accept else some .drop else none := by
  have hasked : (decide (p.ct ∈ [Ct.established, Ct.related]) = true) ↔ Asked p := by
    simp [Asked]
  unfold carryingRulesIn
  rw [decision_cons, decision_cons]
  by_cases hi : p.iif = iface
  · simp only [accept, drop, Rule.takes, Match.holds, hi, List.all_cons, List.all_nil, List.mem_singleton,
      decide_true, Bool.true_and, Bool.and_true, hasked, if_true]
  · simp [accept, drop, Rule.takes, Match.holds, hi]

/-- Every packet that arrives on the outer tunnel is decided here. -/
theorem decision_peerIn (iface : String) (peer : Nat × Nat) :
    decision (peerRulesIn iface .udp peer) p =
      if p.iif = iface then
        if AnswerOf p ⟨.v4 peer.1, peer.2⟩ ∨ IcmpError p then some .accept else some .drop
      else none := by
  by_cases hi : p.iif = iface
  · by_cases hanswer : AnswerOf p ⟨.v4 peer.1, peer.2⟩
    · obtain ⟨⟨hproto, hsrc, hport⟩, hct⟩ := hanswer
      cases h : p.addrs <;>
        simp_all [peerRulesIn, decision_cons, accept, drop, Rule.takes, Match.holds, AnswerOf, UdpFrom, Packet.src,
          inRanges_single]
    · have hnot : (accept [.iifname [iface], .ipSaddr peer.1, .sport .udp [(peer.2, peer.2)],
          .ct [.established]] : KillRule).takes (fun l => l.elim) p = false := by
        rw [← Bool.not_eq_true]
        intro htakes
        apply hanswer
        cases h : p.addrs <;>
          simp_all [accept, Rule.takes, Match.holds, AnswerOf, UdpFrom, Packet.src, inRanges_single]
      unfold peerRulesIn
      rw [decision_cons, hnot]
      simp [decision_cons, accept, drop, Rule.takes, Match.holds, hi, hanswer, IcmpError]
  · simp [peerRulesIn, decision_cons, accept, drop, Rule.takes, Match.holds, hi]

theorem decision_lanIn (cfg : KillConfig) :
    decision cfg.lanIn p = if cfg.allowLan ∧ p.iif ∉ cfg.tunnels ∧ FromLan p then some .accept else none := by
  cases hl : cfg.allowLan <;> cases h : p.addrs <;>
    simp [KillConfig.lanIn, decision_cons, accept, Rule.takes, Match.holds, hl, h, FromLan, Packet.src]

theorem decision_tableIn (rs : List KillRule) :
    decision (tableIn rs) p =
      if p.iif = "lo" then some .accept
      else (decision rs p).or (if DhcpOffer p ∨ IcmpError p then some .accept else some .drop) := by
  have hend : decision [accept [.sport .udp [(67, 67)], .dport .udp [(68, 68)]],
      accept [.l4proto .icmp, .ct [.related]], drop []] p =
        if DhcpOffer p ∨ IcmpError p then some .accept else some .drop := by
    cases hp : p.proto <;>
      simp [decision_cons, accept, drop, Rule.takes, Match.holds, hp, DhcpOffer, IcmpError, inRanges_single]
  rw [tableIn, List.cons_append, decision_cons, decision_append, hend]
  simp [accept, Rule.takes, Match.holds]

end Groups

/-! ### With a circuit up -/

namespace KillConfig

variable (cfg : KillConfig)

def AllowedIn (p : Packet) : Prop :=
  (p.iif ∈ cfg.tunnels → Asked p) ∧
  (∀ peer ∈ cfg.outerPeer, p.iif = cfg.interface → AnswerOf p ⟨.v4 peer.1, peer.2⟩ ∨ IcmpError p) ∧
  (p.iif ∉ cfg.tunnels →
    AnswerOf p cfg.nodeEndpoint ∨ DhcpOffer p ∨ IcmpError p ∨ (cfg.allowLan = true ∧ FromLan p))

end KillConfig

variable {cfg : KillConfig} {p : Packet}

theorem decision_tunnelIn (h : p.iif = cfg.interface) :
    decision cfg.tunnelIn p = some .accept →
      Asked p ∧ ∀ peer ∈ cfg.outerPeer, AnswerOf p ⟨.v4 peer.1, peer.2⟩ ∨ IcmpError p := by
  unfold KillConfig.tunnelIn
  cases hpeer : cfg.outerPeer with
  | none =>
    dsimp only
    rw [decision_carryingIn, if_pos h]
    by_cases hasked : Asked p
    · exact fun _ => ⟨hasked, fun peer hmem => by cases hmem⟩
    · rw [if_neg hasked]
      intro hdrop
      cases hdrop
  | some peer =>
    dsimp only
    rw [decision_peerIn, if_pos h]
    by_cases hanswer : AnswerOf p ⟨.v4 peer.1, peer.2⟩ ∨ IcmpError p
    · intro _
      refine ⟨?_, ?_⟩
      · rcases hanswer with hanswer | herror
        · exact .inl hanswer.2
        · exact .inr herror.2
      · intro peer' hmem
        rw [← Option.some.inj hmem]
        exact hanswer
    · rw [if_neg hanswer]
      intro hdrop
      cases hdrop

theorem decision_tunnelIn_ne_none (h : p.iif = cfg.interface) : decision cfg.tunnelIn p ≠ none := by
  unfold KillConfig.tunnelIn
  cases hpeer : cfg.outerPeer with
  | none =>
    dsimp only
    rw [decision_carryingIn, if_pos h]
    split <;> exact Option.some_ne_none _
  | some peer =>
    dsimp only
    rw [decision_peerIn, if_pos h]
    split <;> exact Option.some_ne_none _

theorem decision_tunnelIn_off (h : p.iif ≠ cfg.interface) : decision cfg.tunnelIn p = none := by
  unfold KillConfig.tunnelIn
  cases hpeer : cfg.outerPeer with
  | none => rw [decision_carryingIn, if_neg h]
  | some peer => rw [decision_peerIn, if_neg h]

theorem decision_extraIn : decision cfg.extraIn p =
    if p.iif ∈ cfg.extraInterface.map Prod.fst then if Asked p then some .accept else some .drop else none := by
  unfold KillConfig.extraIn
  cases hx : cfg.extraInterface with
  | none => simp
  | some x =>
    dsimp only
    rw [decision_carryingIn]
    simp [eq_comm]

theorem mem_tunnels {name : String} :
    name ∈ cfg.tunnels ↔ name = cfg.interface ∨ name ∈ cfg.extraInterface.map Prod.fst := by
  unfold KillConfig.tunnels
  rw [List.mem_cons, Option.mem_toList]
  rfl

/-- Off loopback, nothing comes in unasked through a tunnel, and off the tunnels only what answers or serves the
link. -/
theorem lets_in_only_what_is_asked_for (h : LetsIn (rulesetIn cfg) p) : p.iif = "lo" ∨ cfg.AllowedIn p := by
  by_cases hlo : p.iif = "lo"
  · exact .inl hlo
  right
  change LetsOut (rulesetIn cfg) p at h
  rw [letsOut_iff, rulesetIn, decision_tableIn, if_neg hlo, decision_append, decision_append, decision_append,
    decision_extraIn, decision_nodeRulesIn, decision_lanIn] at h
  by_cases houter : p.iif = cfg.interface
  · have htunnel : decision cfg.tunnelIn p = some .accept := by
      cases hd : decision cfg.tunnelIn p with
      | none => exact absurd hd (decision_tunnelIn_ne_none houter)
      | some v =>
        rw [hd] at h
        exact h
    obtain ⟨hasked, hpeer⟩ := decision_tunnelIn houter htunnel
    exact ⟨fun _ => hasked, fun peer hmem _ => hpeer peer hmem, fun hoff => absurd (mem_tunnels.2 (.inl houter)) hoff⟩
  · rw [decision_tunnelIn_off houter] at h
    by_cases hinner : p.iif ∈ cfg.extraInterface.map Prod.fst
    · rw [if_pos hinner] at h
      by_cases hasked : Asked p
      · exact ⟨fun _ => hasked, fun _ _ hon => absurd hon houter,
          fun hoff => absurd (mem_tunnels.2 (.inr hinner)) hoff⟩
      · rw [if_neg hasked] at h
        cases h
    · rw [if_neg hinner] at h
      have hoff : p.iif ∉ cfg.tunnels := by
        rw [mem_tunnels]
        rintro (hon | hon)
        · exact houter hon
        · exact hinner hon
      refine ⟨fun hon => absurd hon hoff, fun _ _ hon => absurd hon houter, fun _ => ?_⟩
      by_cases hanswer : AnswerOf p cfg.nodeEndpoint
      · exact .inl hanswer
      by_cases hlan : cfg.allowLan = true ∧ p.iif ∉ cfg.tunnels ∧ FromLan p
      · exact .inr (.inr (.inr ⟨hlan.1, hlan.2.2⟩))
      rw [if_neg hanswer, if_neg hlan] at h
      by_cases hlink : DhcpOffer p ∨ IcmpError p
      · rcases hlink with hdhcp | herror
        · exact .inr (.inl hdhcp)
        · exact .inr (.inr (.inl herror))
      · rw [if_neg hlink] at h
        cases h

/-- An answer that comes in through the tunnel. -/
theorem lets_in_answer : (⟨"hvpn0", "", .v4 134744072 172818434, .tcp, 443, 40000, .established⟩ : Packet).iif = "lo" ∨
    oneHopConfig.AllowedIn ⟨"hvpn0", "", .v4 134744072 172818434, .tcp, 443, 40000, .established⟩ :=
  lets_in_only_what_is_asked_for (by decide)

/-- What the machine sends itself comes in whatever it is. -/
theorem lets_in_loopback : ¬ ∀ (cfg : KillConfig) (p : Packet), LetsIn (rulesetIn cfg) p → cfg.AllowedIn p := by
  intro h
  obtain ⟨-, -, hoff⟩ := h oneHopConfig ⟨"lo", "lo", .v4 2130706433 2130706433, .tcp, 40000, 8080, .new⟩ (by decide)
  rcases hoff (by decide) with hanswer | hdhcp | herror | ⟨hlan, -⟩
  · exact absurd hanswer (by decide)
  · exact absurd hdhcp (by decide)
  · exact absurd herror (by decide)
  · cases hlan

end HidraNet.Vpn
