import HidraNet.Lib.Net
import HidraNet.Lib.Runs
import HidraNet.Core.Timefmt
import HidraNet.Node.Leases

/-!
# The lease table

The tunnel subnet of a node's settings, and the table of leases under everything that changes it: admissions,
revocations, the signs of life written down and the expiry of idle leases.

No key and no address is ever in the table twice, every address is one of the subnet's and none of the reserved ones,
and a lease keeps its address (`leaseTable_run`).
-/

namespace HidraNet.Node

open HidraNet.Core HidraNet.Lists Net Runs Text

/-! ### The subnet -/

/-- `NodeConfig::tunnel_network`. -/
def tunnelNetwork (tunnelCidr : String) : Except String TunnelNet :=
  match splitOnce '/' tunnelCidr.toList with
  | none => .error "tunnel_cidr must be a.b.c.d/prefix"
  | some (net, p) =>
    match parseIpv4 net with
    | none => .error "tunnel_cidr is not IPv4"
    | some network =>
      match parseU8 p with
      | none => .error "tunnel_cidr prefix is not a number"
      | some prefixLen =>
        if !(8 ≤ prefixLen && prefixLen ≤ 30) then .error "the tunnel prefix must be between /8 and /30"
        else
          let base := network / 2 ^ (32 - prefixLen) * 2 ^ (32 - prefixLen)
          if base ≠ network then .error ("tunnel_cidr " ++ tunnelCidr ++ " is not a network address")
          else .ok ⟨base, prefixLen⟩

namespace TunnelNet

def hosts (net : TunnelNet) : Nat := 2 ^ (32 - net.prefixLen)

def nodeIp (net : TunnelNet) : Nat := net.network + 1

def broadcast (net : TunnelNet) : Nat := net.network + (net.hosts - 1)

def Usable (net : TunnelNet) (ip : Nat) : Prop :=
  net.network < ip ∧ ip < net.broadcast ∧ ip ≠ net.nodeIp

instance (net : TunnelNet) (ip : Nat) : Decidable (net.Usable ip) := inferInstanceAs (Decidable (_ ∧ _ ∧ _))

theorem usable_iff_lt {net : TunnelNet} {ip : Nat} :
    net.Usable ip ↔ net.network + 2 ≤ ip ∧ ip < net.network + (net.hosts - 1) := by
  unfold Usable broadcast nodeIp
  omega

end TunnelNet

theorem tunnelNetwork_ok {tunnelCidr : String} {net : TunnelNet} (h : tunnelNetwork tunnelCidr = .ok net) :
    8 ≤ net.prefixLen ∧ net.prefixLen ≤ 30 ∧ net.hosts ∣ net.network ∧ net.broadcast < 2 ^ 32 := by
  unfold tunnelNetwork at h
  split at h
  · cases h
  · split at h
    · cases h
    · rename_i network hnetwork
      split at h
      · cases h
      · rename_i prefixLen _
        split at h
        · cases h
        · rename_i hrange
          dsimp only at h
          split at h
          · cases h
          · rename_i hbase
            cases h
            have hrange' : 8 ≤ prefixLen ∧ prefixLen ≤ 30 := by simpa using hrange
            refine ⟨hrange'.1, hrange'.2, Nat.dvd_mul_left _ _, ?_⟩
            -- the subnet is a whole one of its size
            have hlt := parseIpv4_lt hnetwork
            have hsize : 2 ^ (32 - prefixLen) * 2 ^ prefixLen = 2 ^ 32 := by
              rw [← pow_add]
              congr 1
              omega
            have hpos : 0 < 2 ^ (32 - prefixLen) := Nat.two_pow_pos _
            have hquot : network / 2 ^ (32 - prefixLen) < 2 ^ prefixLen := by
              rw [Nat.div_lt_iff_lt_mul hpos, mul_comm, hsize]
              exact hlt
            have hnext : (network / 2 ^ (32 - prefixLen) + 1) * 2 ^ (32 - prefixLen) ≤ 2 ^ 32 := by
              rw [← hsize, mul_comm]
              exact Nat.mul_le_mul_left _ hquot
            unfold TunnelNet.broadcast TunnelNet.hosts
            dsimp only
            rw [Nat.add_one_mul] at hnext
            omega

/-! ### Signs of life, and expiry -/

def NEVER_CAME_SECS : Nat := 900
def SESSION_NEVER_CAME_SECS : Nat := 120

/-- How long each kind of lease outlives its last sign of life; 0 keeps it. -/
structure IdleWindows where
  openly : Nat
  session : Nat
  pass : Nat
deriving DecidableEq

namespace Leases

/-- Writes down when each key shook hands last; `ages` is how long ago, for the keys the tunnel knows. -/
def noteHandshakes (ls : Leases) (now : Nat) (ages : List (String × Option Nat)) : Leases × Bool :=
  let seen (l : Lease) : Option Nat := match ages.lookup l.publicKey with
    | some (some age) => if now - age > l.lastSeen then some (now - age) else none
    | _ => none
  (⟨ls.leases.map fun l => { l with lastSeen := (seen l).getD l.lastSeen }⟩, ls.leases.any fun l => (seen l).isSome)

/-- Writes down `now` for the keys that received bytes since the last look. -/
def noteTraffic (ls : Leases) (now : Nat) (active : List String) : Leases × Bool :=
  let seen (l : Lease) : Bool := active.contains l.publicKey && now > l.lastSeen
  (⟨ls.leases.map fun l => if seen l then { l with lastSeen := now } else l⟩, ls.leases.any seen)

def lapsed (now : Nat) (l : Lease) (window neverCame : Nat) : Bool :=
  window > 0 &&
    (now - max l.admittedAt l.lastSeen ≥ window || l.lastSeen == 0 && now - l.admittedAt ≥ min window neverCame)

/-- Drops the leases that have been idle past their window; returns them second. -/
def expireIdle (ls : Leases) (now : Nat) (w : IdleWindows) : Leases × List Lease :=
  let gone (l : Lease) : Bool :=
    if l.source = "open" then lapsed now l w.openly NEVER_CAME_SECS
    else if l.source = "session" then lapsed now l (max w.session 1) SESSION_NEVER_CAME_SECS
    else if l.source = "pass" then lapsed now l w.pass NEVER_CAME_SECS
    else false
  (⟨ls.leases.filter fun l => !gone l⟩, ls.leases.filter gone)

end Leases

/-! ### The table under everything that changes it -/

inductive LeaseStep where
  | admitKey (name publicKey : String) (now : Nat)
  | admitOpen (name publicKey : String) (now : Nat) (session : Bool)
  | admitPass (name publicKey : String) (now : Nat)
  | revoke (publicKey : String)
  | noteHandshakes (now : Nat) (ages : List (String × Option Nat))
  | noteTraffic (now : Nat) (active : List String)
  | expireIdle (now : Nat) (w : IdleWindows)
deriving DecidableEq

namespace Leases

def empty : Leases := ⟨[]⟩

variable (isKey : String → Bool) (net : TunnelNet)

def step (ls : Leases) : LeaseStep → Leases
  | .admitKey name key now => (ls.admitKey isKey name key net now).1
  | .admitOpen name key now session => (ls.admitOpen isKey name key net now session).1
  | .admitPass name key now => (ls.admitPass isKey name key net now).1
  | .revoke key => (ls.revoke key).1
  | .noteHandshakes now ages => (ls.noteHandshakes now ages).1
  | .noteTraffic now active => (ls.noteTraffic now active).1
  | .expireIdle now w => (ls.expireIdle now w).1

end Leases

/-- No key and no address twice, and usable addresses only. -/
structure LeaseTable (net : TunnelNet) (ls : Leases) : Prop where
  keys : (ls.leases.map Lease.publicKey).Nodup
  addresses : (ls.leases.map Lease.ip).Nodup
  usable : ∀ l ∈ ls.leases, net.Usable l.ip

variable {isKey : String → Bool} {net : TunnelNet} {ls ls' : Leases} {name publicKey source : String} {now : Nat}

namespace Leases

theorem map_noteHandshakes {β : Type} {g : Lease → β} (hg : ∀ (l : Lease) t, g { l with lastSeen := t } = g l)
    {ages : List (String × Option Nat)} : (ls.noteHandshakes now ages).1.leases.map g = ls.leases.map g := by
  unfold noteHandshakes
  rw [List.map_map]
  exact List.map_congr_left fun l _ => hg l _

theorem map_noteTraffic {β : Type} {g : Lease → β} (hg : ∀ (l : Lease) t, g { l with lastSeen := t } = g l)
    {active : List String} : (ls.noteTraffic now active).1.leases.map g = ls.leases.map g := by
  unfold noteTraffic
  rw [List.map_map]
  apply List.map_congr_left
  intro l _
  dsimp only [Function.comp_apply]
  split
  · exact hg l now
  · rfl

theorem nextFree_ok {ip : Nat} (h : ls.nextFree net = .ok ip) :
    net.Usable ip ∧ ∀ l ∈ ls.leases, l.ip ≠ ip := by
  unfold nextFree at h
  split at h
  · rename_i off hfind
    cases h
    have hmem := List.mem_of_find?_eq_some hfind
    have hfree := List.find?_some hfind
    rw [List.mem_range'_1] at hmem
    constructor
    · rw [TunnelNet.usable_iff_lt]
      unfold TunnelNet.hosts
      omega
    · simpa using hfree
  · cases h

theorem nextFree_error {e : String} (h : ls.nextFree net = .error e) {ip : Nat} (hip : net.Usable ip) :
    ∃ l ∈ ls.leases, l.ip = ip := by
  unfold nextFree at h
  split at h
  · cases h
  · rename_i hfind
    rw [TunnelNet.usable_iff_lt] at hip
    unfold TunnelNet.hosts at hip
    have hheld := List.find?_eq_none.1 hfind (ip - net.network) (List.mem_range'_1.2 (by omega))
    have hsum : net.network + (ip - net.network) = ip := by omega
    simpa [hsum] using hheld

/-- An admission is refused, gives the lease the key has, or a new one at the next free address. -/
theorem admitKey_cases (isKey : String → Bool) (ls : Leases) (name publicKey : String) (net : TunnelNet) (now : Nat) :
    (∃ e, ls.admitKey isKey name publicKey net now = (ls, .error e)) ∨
      (∃ l, ls.find publicKey = some l ∧ ls.admitKey isKey name publicKey net now = (ls, .ok l)) ∨
      ∃ ip, ls.find publicKey = none ∧ ls.nextFree net = .ok ip ∧ ls.admitKey isKey name publicKey net now =
        (⟨ls.leases ++ [⟨trim name, trim publicKey, ip, now, manual, 0⟩]⟩,
          .ok ⟨trim name, trim publicKey, ip, now, manual, 0⟩) := by
  unfold admitKey
  dsimp only
  split
  · exact Or.inl ⟨_, rfl⟩
  · rw [find_trim]
    cases hfind : ls.find publicKey with
    | some l => exact Or.inr (Or.inl ⟨l, rfl, rfl⟩)
    | none =>
      dsimp only
      split
      · exact Or.inl ⟨_, rfl⟩
      · cases hfree : ls.nextFree net with
        | error e => exact Or.inl ⟨e, rfl⟩
        | ok ip => exact Or.inr (Or.inr ⟨ip, rfl, rfl, rfl⟩)

theorem admitKey_full (hkey : isKey (trim publicKey) = true) (hnew : ls.find publicKey = none)
    (hname : nameOk (trim name) = true) {e : String} (h : (ls.admitKey isKey name publicKey net now).2 = .error e)
    {ip : Nat} (hip : net.Usable ip) : ∃ l ∈ ls.leases, l.ip = ip := by
  unfold admitKey at h
  simp only [hkey, find_trim, hnew, hname, Bool.not_true, Bool.false_eq_true, if_false] at h
  cases hfree : ls.nextFree net with
  | error e => exact nextFree_error hfree hip
  | ok ip =>
    rw [hfree] at h
    cases h

theorem map_admitAs (isKey : String → Bool) (ls : Leases) (name publicKey : String) (net : TunnelNet) (now : Nat)
    (source : String) : (ls.admitAs isKey name publicKey net now source).1.leases.map (fun l => (l.publicKey, l.ip)) =
      (ls.admitKey isKey name publicKey net now).1.leases.map fun l => (l.publicKey, l.ip) := by
  unfold admitAs
  dsimp only
  cases ls.admitKey isKey name publicKey net now with
  | mk ls' r =>
    cases r with
    | error e => rfl
    | ok l =>
      dsimp only
      split
      · rfl
      · exact map_modifyFirst _ fun _ _ _ => rfl

theorem map_admitKey_cases (isKey : String → Bool) (ls : Leases) (name publicKey : String) (net : TunnelNet)
    (now : Nat) :
    (ls.admitKey isKey name publicKey net now).1 = ls ∨
      ∃ key ip, (∀ l ∈ ls.leases, l.publicKey ≠ key) ∧ (∀ l ∈ ls.leases, l.ip ≠ ip) ∧ net.Usable ip ∧
        (ls.admitKey isKey name publicKey net now).1.leases.map (fun l => (l.publicKey, l.ip)) =
          ls.leases.map (fun l => (l.publicKey, l.ip)) ++ [(key, ip)] := by
  rcases ls.admitKey_cases isKey name publicKey net now with ⟨e, h⟩ | ⟨l, -, h⟩ | ⟨ip, hnew, hfree, h⟩ <;> rw [h]
  · exact Or.inl rfl
  · exact Or.inl rfl
  · obtain ⟨hip, hheld⟩ := nextFree_ok hfree
    exact Or.inr ⟨trim publicKey, ip, find_eq_none.1 hnew, hheld, hip, by simp⟩

end Leases

private theorem leaseTable_iff : LeaseTable net ls ↔
    ((ls.leases.map fun l => (l.publicKey, l.ip)).map Prod.fst).Nodup ∧
      ((ls.leases.map fun l => (l.publicKey, l.ip)).map Prod.snd).Nodup ∧
      ∀ k ∈ ls.leases.map (fun l => (l.publicKey, l.ip)), net.Usable k.2 := by
  constructor
  · rintro ⟨hkeys, haddresses, husable⟩
    refine ⟨by simpa [Function.comp_def] using hkeys, by simpa [Function.comp_def] using haddresses, ?_⟩
    simpa using fun l hl => husable l hl
  · rintro ⟨hkeys, haddresses, husable⟩
    refine ⟨by simpa [Function.comp_def] using hkeys, by simpa [Function.comp_def] using haddresses, ?_⟩
    intro l hl
    exact husable _ (List.mem_map_of_mem hl)

private theorem leaseTable_of_sublist (h : LeaseTable net ls)
    (hsub : (ls'.leases.map fun l => (l.publicKey, l.ip)).Sublist (ls.leases.map fun l => (l.publicKey, l.ip))) :
    LeaseTable net ls' := by
  rw [leaseTable_iff] at h ⊢
  exact ⟨h.1.sublist (hsub.map _), h.2.1.sublist (hsub.map _), fun k hk => h.2.2 k (hsub.subset hk)⟩

private theorem leaseTable_new (h : LeaseTable net ls) {key : String} {ip : Nat}
    (hkey : ∀ l ∈ ls.leases, l.publicKey ≠ key) (hheld : ∀ l ∈ ls.leases, l.ip ≠ ip) (hip : net.Usable ip)
    (hmap : ls'.leases.map (fun l => (l.publicKey, l.ip)) = ls.leases.map (fun l => (l.publicKey, l.ip)) ++ [(key, ip)]) :
    LeaseTable net ls' := by
  rw [leaseTable_iff] at h ⊢
  rw [hmap]
  refine ⟨?_, ?_, ?_⟩
  · rw [List.map_append, List.map_singleton, List.nodup_append]
    refine ⟨h.1, List.nodup_singleton _, ?_⟩
    simpa using hkey
  · rw [List.map_append, List.map_singleton, List.nodup_append]
    refine ⟨h.2.1, List.nodup_singleton _, ?_⟩
    simpa using hheld
  · intro k hk
    rcases List.mem_append.1 hk with hk | hk
    · exact h.2.2 k hk
    · rw [List.mem_singleton.1 hk]
      exact hip

/-- A step takes leases out, or adds one of a new key and a new address. -/
theorem Leases.step_cases (isKey : String → Bool) (net : TunnelNet) (ls : Leases) (e : LeaseStep) :
    ((ls.step isKey net e).leases.map fun l => (l.publicKey, l.ip)).Sublist
        (ls.leases.map fun l => (l.publicKey, l.ip)) ∨
      ∃ key ip, (∀ l ∈ ls.leases, l.publicKey ≠ key) ∧ (∀ l ∈ ls.leases, l.ip ≠ ip) ∧ net.Usable ip ∧
        (ls.step isKey net e).leases.map (fun l => (l.publicKey, l.ip)) =
          ls.leases.map (fun l => (l.publicKey, l.ip)) ++ [(key, ip)] := by
  have hadmit : ∀ (name publicKey : String) (now : Nat) (ls' : Leases),
      ls'.leases.map (fun l => (l.publicKey, l.ip)) =
        (ls.admitKey isKey name publicKey net now).1.leases.map (fun l => (l.publicKey, l.ip)) →
      (ls'.leases.map fun l => (l.publicKey, l.ip)).Sublist (ls.leases.map fun l => (l.publicKey, l.ip)) ∨
        ∃ key ip, (∀ l ∈ ls.leases, l.publicKey ≠ key) ∧ (∀ l ∈ ls.leases, l.ip ≠ ip) ∧ net.Usable ip ∧
          ls'.leases.map (fun l => (l.publicKey, l.ip)) =
            ls.leases.map (fun l => (l.publicKey, l.ip)) ++ [(key, ip)] := by
    intro name publicKey now ls' hmap
    rw [hmap]
    rcases ls.map_admitKey_cases isKey name publicKey net now with h | h
    · rw [h]
      exact Or.inl (List.Sublist.refl _)
    · exact Or.inr h
  cases e with
  | admitKey name key now => exact hadmit name key now _ rfl
  | admitOpen name key now session => exact hadmit name key now _ (map_admitAs isKey ls name key net now _)
  | admitPass name key now => exact hadmit name key now _ (map_admitAs isKey ls name key net now _)
  | revoke key => exact Or.inl (List.Sublist.map _ List.filter_sublist)
  | noteHandshakes now ages =>
    have hmap : (ls.step isKey net (.noteHandshakes now ages)).leases.map (fun l => (l.publicKey, l.ip)) =
        ls.leases.map fun l => (l.publicKey, l.ip) := map_noteHandshakes fun _ _ => rfl
    exact Or.inl (hmap ▸ List.Sublist.refl _)
  | noteTraffic now active =>
    have hmap : (ls.step isKey net (.noteTraffic now active)).leases.map (fun l => (l.publicKey, l.ip)) =
        ls.leases.map fun l => (l.publicKey, l.ip) := map_noteTraffic fun _ _ => rfl
    exact Or.inl (hmap ▸ List.Sublist.refl _)
  | expireIdle now w => exact Or.inl (List.Sublist.map _ List.filter_sublist)

private theorem leaseTable_step (h : LeaseTable net ls) (e : LeaseStep) : LeaseTable net (ls.step isKey net e) := by
  rcases ls.step_cases isKey net e with hsub | ⟨key, ip, hkey, hheld, hip, hmap⟩
  · exact leaseTable_of_sublist h hsub
  · exact leaseTable_new h hkey hheld hip hmap

private theorem address_kept (h : LeaseTable net ls) (e : LeaseStep) {l l' : Lease} (hl : l ∈ ls.leases)
    (hl' : l' ∈ (ls.step isKey net e).leases) (hkey : l'.publicKey = l.publicKey) : l'.ip = l.ip := by
  have hunique : (l'.publicKey, l'.ip) ∈ ls.leases.map (fun l => (l.publicKey, l.ip)) → l'.ip = l.ip := by
    intro hmem
    obtain ⟨m, hm, heq⟩ := List.mem_map.1 hmem
    rw [Prod.mk.injEq] at heq
    rw [List.inj_on_of_nodup_map h.keys hm hl (heq.1.trans hkey)] at heq
    exact heq.2.symm
  have hmem' : (l'.publicKey, l'.ip) ∈ (ls.step isKey net e).leases.map fun l => (l.publicKey, l.ip) :=
    List.mem_map_of_mem hl'
  rcases ls.step_cases isKey net e with hsub | ⟨key, ip, hnew, -, -, hmap⟩
  · exact hunique (hsub.subset hmem')
  · rw [hmap] at hmem'
    rcases List.mem_append.1 hmem' with hmem | hmem
    · exact hunique hmem
    · rw [List.mem_singleton, Prod.mk.injEq] at hmem
      exact absurd (hkey.symm.trans hmem.1) (hnew l hl)

/-- The table of leases after any run: keys and addresses are in it once, addresses are usable ones; whatever comes
next, a lease that stands keeps its address, and a new key that is one, with a name that is one, is refused only when
every usable address is held. -/
theorem leaseTable_run (tunnelCidr : String) {net : TunnelNet} (hnet : tunnelNetwork tunnelCidr = .ok net)
    (isKey : String → Bool) (es : List LeaseStep) :
    let ls := run (Leases.step isKey net) Leases.empty es
    LeaseTable net ls ∧ (∀ l ∈ ls.leases, l.ip < 2 ^ 32) ∧
      (∀ e, ∀ l ∈ ls.leases, ∀ l' ∈ (ls.step isKey net e).leases, l'.publicKey = l.publicKey → l'.ip = l.ip) ∧
      ∀ name publicKey now e, isKey (trim publicKey) = true → ls.find publicKey = none → nameOk (trim name) = true →
        (ls.admitKey isKey name publicKey net now).2 = .error e → ∀ ip, net.Usable ip → ∃ l ∈ ls.leases, l.ip = ip := by
  intro ls
  have hrun : LeaseTable net ls := by
    refine run_always (P := LeaseTable net) (fun ls e h => leaseTable_step h e) ?_ es
    exact ⟨List.nodup_nil, List.nodup_nil, fun l hl => (by cases hl)⟩
  refine ⟨hrun, fun l hl => ?_, fun e l hl l' hl' => address_kept hrun e hl hl',
    fun name publicKey now e hkey hnew hname h ip hip => Leases.admitKey_full hkey hnew hname h hip⟩
  have husable := (hrun.usable l hl).2.1
  have hlast := (tunnelNetwork_ok hnet).2.2.2
  omega

/-- The smallest subnet has one usable address. -/
theorem leaseTable_smallest :
    (run (Leases.step (fun _ => true) ⟨0x0a000000, 30⟩) Leases.empty
      [.admitOpen "laptop" " k1" 5 false, .admitPass "pass-0" "k2" 6, .admitOpen "other" "k1\n" 7 true]).leases =
        [⟨"laptop", "k1", 0x0a000002, 5, "open", 0⟩] ∧
      LeaseTable ⟨0x0a000000, 30⟩ (run (Leases.step (fun _ => true) ⟨0x0a000000, 30⟩) Leases.empty
        [.admitOpen "laptop" " k1" 5 false, .admitPass "pass-0" "k2" 6, .admitOpen "other" "k1\n" 7 true]) :=
  ⟨by decide, (leaseTable_run "10.0.0.0/30" (by decide) (fun _ => true) _).1⟩

end HidraNet.Node
