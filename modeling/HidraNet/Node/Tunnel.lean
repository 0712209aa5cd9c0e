import HidraNet.Lib.Pending
import HidraNet.Node.Reaper

/-!
# The tunnel and the leases

The node's main loop (admissions, admissions undone, the reaper) and the operator's `admit` and `revoke`, which are
processes of their own.  Each changes the leases under their lock, and the tunnel device after it: an update, and then
its device calls one by one, with steps of all the others in between.

When no operation is under way the device has the keys that hold a lease, each with its lease's address
(`tunnelCarries_run`), if calls that do not commute are made in the order of the updates they belong to, and an
admission is undone without another failure and without the operator admitting its key meanwhile (`InTurn`).  Nothing
in the code makes it so: the operator's `revoke` can take a peer away just before the main loop adds it
(`tunnel_carries_revoked`).
-/

namespace HidraNet.Node

open Maps Pending Runs Text

/-! ### The device -/

/-- One change of the device, by the key that a text is. -/
inductive DeviceUpdate where
  | addPeer (key : String) (ip : Nat)
  | removePeer (key : String)
deriving DecidableEq

/-- The peers of the tunnel device, each with the address it is allowed, if it has one. -/
structure Device where
  peer : String → Option (Option Nat)

namespace Device

def empty : Device := ⟨fun _ => none⟩

def apply (d : Device) : DeviceUpdate → Device
  | .addPeer key ip => ⟨fun k => if k = key then some (some ip)
      else (d.peer k).map fun allowed => if allowed = some ip then none else allowed⟩
  | .removePeer key => ⟨fun k => if k = key then none else d.peer k⟩

end Device

/-- `WgDevice::add_peer`. -/
def addPeer (publicKey : String) (ip : Nat) : DeviceUpdate := .addPeer (trim publicKey) ip

/-- `WgDevice::remove_peer`. -/
def removePeer (publicKey : String) : DeviceUpdate := .removePeer (trim publicKey)

/-! ### The operations -/

inductive Who where
  | main
  | command (pid : Nat)
deriving DecidableEq

/-- Where the main loop is. -/
inductive Main where
  | waiting
  | adding (req : Admit) (lease : Lease) (f : ServeFaults)
  /-- The peer of an admission undone is to be taken away. -/
  | undoing (key why : String) (pass : Option SpentPass) (f : ServeFaults)
  | revoking (key why : String) (pass : Option SpentPass) (f : ServeFaults)
deriving DecidableEq

structure Tunnel where
  leases : Leases
  spent : SpentPasses
  rxSeen : Map String Nat
  device : Device
  /-- The device calls under way, in the order of the updates they belong to. -/
  underway : List (Who × DeviceUpdate)
  main : Main

inductive TunnelStep where
  /-- The main loop takes a request for admission, up to its update of the leases. -/
  | serve (req : Admit) (now : Nat) (f : ServeFaults)
  | reap (now : Nat) (stats : Option (Map String PeerStats)) (w : IdleWindows) (spentSave read save : Option String)
  /-- The main loop goes on with what it is at, but for the device calls under way. -/
  | goOn
  | cmdAdmit (pid : Nat) (name publicKey : String) (now : Nat) (read save : Option String)
  | cmdRevoke (pid : Nat) (publicKey : String) (read save : Option String)
  | call (who : Who)
deriving DecidableEq

namespace Tunnel

def busy (s : Tunnel) (who : Who) : Bool := s.underway.any (·.1 = who)

def Quiet (s : Tunnel) : Prop := s.main = .waiting ∧ s.underway = []

variable {Invite : Type} (cfg : NodeConfig Invite)

def serve (s : Tunnel) (req : Admit) (now : Nat) (f : ServeFaults) : Tunnel :=
  if f.closed || req.pass.any fun p => s.spent.contains p.tag then s
  else
    match NodeState.leaseFor cfg ⟨s.leases, s.spent, []⟩ req now f with
    | (n, .ok (.ok lease)) =>
      { s with
        leases := n.leases, spent := n.spent, main := .adding req lease f
        underway := s.underway ++ [(.main, addPeer lease.publicKey lease.ip)] }
    | (n, .ok (.error _)) => { s with leases := n.leases, spent := n.spent }
    | (n, .error e) =>
      { s with
        leases := n.leases
        spent := (n.forgetPass req.pass ("could not write the leases: " ++ e) f).1.spent }

def reap (s : Tunnel) (now : Nat) (stats : Option (Map String PeerStats)) (w : IdleWindows)
    (spentSave read save : Option String) : Tunnel :=
  let spent := s.spent.reaped now spentSave
  match stats with
  | none => { s with spent }
  | some stats =>
    let (leases, rxSeen, gone) := s.leases.reapUpdate s.rxSeen now stats w read save
    match gone with
    | .ok gone =>
      { s with
        leases, rxSeen, spent
        underway := s.underway ++ gone.map fun l => (.main, removePeer l.publicKey) }
    | .error _ => { s with leases, rxSeen, spent }

/-- What an admission whose peer is added, and an undoing, come to next. -/
def goOn (s : Tunnel) : Tunnel :=
  match s.main with
  | .waiting => s
  | .adding req lease f =>
    match cfg.inviteFor lease with
    | .ok _ =>
      if f.gone && req.pass.isSome then
        { s with main := .undoing req.publicKey "no one was waiting" req.pass f }
      else { s with main := .waiting }
    | .error why => { s with main := .undoing lease.publicKey why req.pass f }
  | .undoing key why pass f => { s with device := s.device.apply (removePeer key), main := .revoking key why pass f }
  | .revoking key why pass f =>
    { s with
      leases := (s.leases.update f.revoke none () fun ls _ => ((ls.revoke key).1, (), (), (ls.revoke key).2)).1
      spent := (NodeState.forgetPass ⟨s.leases, s.spent, []⟩ pass why f).1.spent
      main := .waiting }

def cmdAdmit (s : Tunnel) (pid : Nat) (name publicKey : String) (now : Nat) (read save : Option String) : Tunnel :=
  match s.leases.update read save () fun ls _ =>
    let (ls, r) := ls.admitKey cfg.isKey name publicKey cfg.net now
    (ls, (), r, r.isOk) with
  | (leases, _, .ok (.ok lease)) =>
    { s with leases, underway := s.underway ++ [(.command pid, addPeer lease.publicKey lease.ip)] }
  | (leases, _, _) => { s with leases }

def cmdRevoke (s : Tunnel) (pid : Nat) (publicKey : String) (read save : Option String) : Tunnel :=
  match s.leases.update read save () fun ls _ =>
    let (ls, gone) := ls.revoke publicKey
    (ls, (), gone, gone) with
  | (leases, _, .ok true) => { s with leases, underway := s.underway ++ [(.command pid, removePeer publicKey)] }
  | (leases, _, _) => { s with leases }

def call (s : Tunnel) (who : Who) : Tunnel :=
  match takeFirst (·.1 = who) s.underway with
  | none => s
  | some (before, c, after) => { s with device := s.device.apply c.2, underway := before ++ after }

/-- One step; a step of someone who is at something else leaves all as it is. -/
def step (s : Tunnel) : TunnelStep → Tunnel
  | .serve req now f => if s.main = .waiting ∧ s.busy .main = false then s.serve cfg req now f else s
  | .reap now stats w spentSave read save =>
    if s.main = .waiting ∧ s.busy .main = false then s.reap now stats w spentSave read save else s
  | .goOn => if s.busy .main = false then s.goOn cfg else s
  | .cmdAdmit pid name publicKey now read save =>
    if s.busy (.command pid) = false then s.cmdAdmit cfg pid name publicKey now read save else s
  | .cmdRevoke pid publicKey read save =>
    if s.busy (.command pid) = false then s.cmdRevoke pid publicKey read save else s
  | .call who => s.call who

/-! ### Calls in turn -/

def conflicts : DeviceUpdate → DeviceUpdate → Bool
  | .addPeer k ip, .addPeer k' ip' => (k == k') != (ip == ip')
  | .addPeer k _, .removePeer k' => k == k'
  | .removePeer k, .addPeer k' _ => k == k'
  | .removePeer _, .removePeer _ => false

/-- A call is made after those of earlier updates that it conflicts with; an undone admission's lease is revoked, and
its key is not admitted by a command between that and the taking away of its peer. -/
def InTurn (s : Tunnel) : TunnelStep → Prop
  | .call who => ∀ t ∈ takeFirst (·.1 = who) s.underway, ∀ c ∈ t.1, conflicts t.2.1.2 c.2 = false
  | .goOn =>
    match s.main with
    | .undoing key _ _ _ => ∀ c ∈ s.underway, conflicts (removePeer key) c.2 = false
    | .revoking _ _ _ f => f.revoke = none
    | _ => True
  | .cmdAdmit _ _ publicKey _ _ _ =>
    match s.main with
    | .revoking key _ _ _ => trim publicKey ≠ trim key
    | _ => True
  | _ => True

instance (s : Tunnel) (e : TunnelStep) : Decidable (InTurn s e) := by
  unfold InTurn
  split
  · infer_instance
  · split <;> infer_instance
  · split <;> infer_instance
  · infer_instance

/-- The device has the keys that hold a lease, each with its lease's address. -/
structure Carries (s : Tunnel) : Prop where
  peers : ∀ key, (s.device.peer key).isSome ↔ ∃ l ∈ s.leases.leases, l.publicKey = key
  allowed : ∀ l ∈ s.leases.leases, s.device.peer l.publicKey = some (some l.ip)

end Tunnel

namespace Device

variable {d : Device} {c c' : DeviceUpdate} {k : String}

theorem ext_peer {d' : Device} (h : ∀ k, d.peer k = d'.peer k) : d = d' := by
  cases d
  cases d'
  rw [mk.injEq]
  exact funext h

theorem peer_add (d : Device) (key : String) (ip : Nat) (k : String) : (d.apply (.addPeer key ip)).peer k =
    if k = key then some (some ip) else (d.peer k).map fun allowed => if allowed = some ip then none else allowed := rfl

theorem peer_remove (d : Device) (key k : String) :
    (d.apply (.removePeer key)).peer k = if k = key then none else d.peer k := rfl

theorem apply_comm (h : Tunnel.conflicts c c' = false) (d : Device) :
    (d.apply c).apply c' = (d.apply c').apply c := by
  apply ext_peer
  intro k
  cases c with
  | addPeer key ip =>
    cases c' with
    | addPeer key' ip' =>
      have hsame : key = key' ↔ ip = ip' := by
        simp only [Tunnel.conflicts, bne_eq_false_iff_eq] at h
        rw [← beq_iff_eq, h, beq_iff_eq]
      simp only [peer_add]
      -- a third peer loses either address; the order does not matter
      cases d.peer k with
      | none => grind
      | some allowed => grind
    | removePeer key' =>
      have hne : key ≠ key' := by simpa [Tunnel.conflicts] using h
      simp only [peer_add, peer_remove]
      split_ifs <;> simp_all
  | removePeer key =>
    cases c' with
    | addPeer key' ip' =>
      have hne : key ≠ key' := by simpa [Tunnel.conflicts] using h
      simp only [peer_add, peer_remove]
      split_ifs <;> simp_all
    | removePeer key' =>
      simp only [peer_remove]
      split_ifs <;> rfl

/-! ### The device of a table -/

def of (es : List (String × Nat)) : Device := ⟨fun k => (es.find? (·.1 = k)).map fun e => some e.2⟩

variable {es : List (String × Nat)} {ip : Nat}

theorem peer_of_cases (es : List (String × Nat)) (k : String) :
    ((of es).peer k = none ∧ ∀ e ∈ es, e.1 ≠ k) ∨ ∃ ip, (of es).peer k = some (some ip) ∧ (k, ip) ∈ es := by
  unfold of
  dsimp only
  cases hfind : es.find? (·.1 = k) with
  | none => exact Or.inl ⟨rfl, by simpa using hfind⟩
  | some e =>
    have hk : e.1 = k := by simpa using List.find?_some hfind
    exact Or.inr ⟨e.2, rfl, hk ▸ List.mem_of_find?_eq_some hfind⟩

theorem peer_of_mem (hkeys : (es.map Prod.fst).Nodup) (h : (k, ip) ∈ es) : (of es).peer k = some (some ip) := by
  rcases peer_of_cases es k with ⟨-, hnone⟩ | ⟨ip', hpeer, hmem⟩
  · exact absurd rfl (hnone _ h)
  · have heq := List.inj_on_of_nodup_map hkeys h hmem rfl
    rw [hpeer, (Prod.mk.inj heq).2]

theorem of_remove (es : List (String × Nat)) (k : String) :
    (of es).apply (.removePeer k) = of (es.filter (·.1 ≠ k)) := by
  apply ext_peer
  intro k'
  simp only [peer_remove, of, List.find?_filter]
  split
  · rename_i h
    subst h
    rw [List.find?_eq_none.2 (by simp)]
    rfl
  · rename_i h
    have hsame : (fun e : String × Nat => decide (decide (e.1 ≠ k) = true ∧ decide (e.1 = k') = true)) =
        fun e => decide (e.1 = k') := by
      funext e
      by_cases he : e.1 = k'
      · simp [he, h]
      · simp [he]
    rw [hsame]

theorem of_removeAll (ks : List String) (es : List (String × Nat)) :
    run apply (of es) (ks.map .removePeer) = of (es.filter (·.1 ∉ ks)) := by
  induction ks generalizing es with
  | nil => simp
  | cons k ks ih =>
    rw [List.map_cons, run_cons, of_remove, ih, List.filter_filter]
    congr 1
    apply List.filter_congr
    intro e _
    simp [Bool.and_comm]

end Device

/-- Trimmed keys and addresses, none twice. -/
structure Kept (es : List (String × Nat)) : Prop where
  keys : (es.map Prod.fst).Nodup
  addresses : (es.map Prod.snd).Nodup
  trimmed : ∀ e ∈ es, trim e.1 = e.1

namespace Kept

variable {es : List (String × Nat)} {k : String} {ip : Nat}

theorem sublist {es' : List (String × Nat)} (h : Kept es) (hsub : es'.Sublist es) : Kept es' :=
  ⟨h.keys.sublist (hsub.map _), h.addresses.sublist (hsub.map _), fun e he => h.trimmed e (hsub.subset he)⟩

theorem new (h : Kept es) (hkey : ∀ e ∈ es, e.1 ≠ k) (hip : ∀ e ∈ es, e.2 ≠ ip) (htrim : trim k = k) :
    Kept (es ++ [(k, ip)]) := by
  refine ⟨?_, ?_, ?_⟩
  · rw [List.map_append, List.nodup_append]
    exact ⟨h.keys, List.nodup_singleton _, by simpa using fun k' ip' he => hkey (k', ip') he⟩
  · rw [List.map_append, List.nodup_append]
    exact ⟨h.addresses, List.nodup_singleton _, by simpa using fun ip' k' he => hip (k', ip') he⟩
  · intro e he
    rcases List.mem_append.1 he with he | he
    · exact h.trimmed e he
    · rw [List.mem_singleton.1 he]
      exact htrim

theorem add_held (h : Kept es) (hmem : (k, ip) ∈ es) : (Device.of es).apply (.addPeer k ip) = Device.of es := by
  apply Device.ext_peer
  intro k'
  rw [Device.peer_add]
  by_cases hk : k' = k
  · rw [hk, Device.peer_of_mem h.keys hmem]
    simp
  · rcases Device.peer_of_cases es k' with ⟨hnone, -⟩ | ⟨ip', hpeer, hmem'⟩
    · simp [hk, hnone]
    · have hip : ip' ≠ ip := by
        intro hip
        have heq := List.inj_on_of_nodup_map h.addresses hmem' hmem hip
        exact hk (Prod.mk.inj heq).1
      simp [hk, hpeer, hip]

theorem add_new (hkey : ∀ e ∈ es, e.1 ≠ k) (hip : ∀ e ∈ es, e.2 ≠ ip) :
    (Device.of es).apply (.addPeer k ip) = Device.of (es ++ [(k, ip)]) := by
  apply Device.ext_peer
  intro k'
  have hfind : (Device.of (es ++ [(k, ip)])).peer k' =
      if k' = k then some (some ip) else (Device.of es).peer k' := by
    simp only [Device.of, List.find?_append]
    split
    · rename_i h
      rw [h, List.find?_eq_none.2 (by simpa using fun k' ip' he => hkey (k', ip') he)]
      simp
    · rename_i h
      simp [Ne.symm h]
  rw [hfind, Device.peer_add]
  split
  · simp
  · rcases Device.peer_of_cases es k' with ⟨hnone, -⟩ | ⟨ip', hpeer, hmem⟩
    · simp [hnone]
    · simp [hpeer, hip _ hmem]

end Kept

/-! ### What the updates leave of the table -/

namespace Leases

def entries (ls : Leases) : List (String × Nat) := ls.leases.map fun l => (l.publicKey, l.ip)

def Gives (ls ls' : Leases) (lease : Lease) : Prop :=
  (ls'.entries = ls.entries ∧ (lease.publicKey, lease.ip) ∈ ls.entries) ∨
    ls'.entries = ls.entries ++ [(lease.publicKey, lease.ip)] ∧ (∀ e ∈ ls.entries, e.1 ≠ lease.publicKey) ∧
      (∀ e ∈ ls.entries, e.2 ≠ lease.ip) ∧ trim lease.publicKey = lease.publicKey

variable {ls ls' : Leases} {lease : Lease} {isKey : String → Bool} {name publicKey source : String} {net : TunnelNet}
  {now : Nat}

theorem mem_entries {l : Lease} (h : l ∈ ls.leases) : (l.publicKey, l.ip) ∈ ls.entries := by
  unfold entries
  exact List.mem_map_of_mem h

theorem gives_held (h : ls.find publicKey = some lease) : ls.Gives ls lease :=
  Or.inl ⟨rfl, mem_entries (publicKey_of_find h).1⟩

theorem gives_new {ip : Nat} (hkey : ls.find publicKey = none) (hip : ls.nextFree net = .ok ip) (l : Lease)
    (hl : l.publicKey = trim publicKey) (hip' : l.ip = ip) : ls.Gives ⟨ls.leases ++ [l]⟩ l := by
  refine Or.inr ⟨by simp [entries], ?_, ?_, by rw [hl, trim_trim]⟩
  · simpa [entries, hl] using find_eq_none.1 hkey
  · simpa [entries, hip'] using (nextFree_ok hip).2

theorem gives_admitKey (h : ls.admitKey isKey name publicKey net now = (ls', .ok lease)) : ls.Gives ls' lease := by
  rcases ls.admitKey_cases isKey name publicKey net now with ⟨e, h'⟩ | ⟨l, hfind, h'⟩ | ⟨ip, hnew, hfree, h'⟩ <;>
    rw [h'] at h <;> cases h
  · exact gives_held hfind
  · exact gives_new hnew hfree _ rfl rfl

theorem Gives.congr {ls'' : Leases} {lease' : Lease} (h : ls.Gives ls' lease) (hentries : ls''.entries = ls'.entries)
    (hkey : lease'.publicKey = lease.publicKey) (hip : lease'.ip = lease.ip) : ls.Gives ls'' lease' := by
  unfold Gives at h ⊢
  rw [hentries, hkey, hip]
  exact h

theorem gives_admitAs (h : ls.admitAs isKey name publicKey net now source = (ls', .ok lease)) :
    ls.Gives ls' lease := by
  have hmap := map_admitAs isKey ls name publicKey net now source
  rw [h] at hmap
  cases hgiven : ls.admitKey isKey name publicKey net now with
  | mk ls₁ r =>
    rw [hgiven] at hmap
    unfold admitAs at h
    rw [hgiven] at h
    cases r with
    | error e => cases h
    | ok l =>
      have hgives := gives_admitKey hgiven
      dsimp only at h
      split at h
      · cases h
        exact hgives
      · cases h
        exact hgives.congr hmap rfl rfl

theorem Gives.kept (h : ls.Gives ls' lease) (hls : Kept ls.entries) : Kept ls'.entries := by
  rcases h with ⟨heq, -⟩ | ⟨heq, hkey, hip, htrim⟩ <;> rw [heq]
  · exact hls
  · exact hls.new hkey hip htrim

theorem Gives.apply (h : ls.Gives ls' lease) (hls : Kept ls.entries) :
    (Device.of ls.entries).apply (addPeer lease.publicKey lease.ip) = Device.of ls'.entries := by
  rcases h with ⟨heq, hmem⟩ | ⟨heq, hkey, hip, htrim⟩ <;> unfold addPeer <;> rw [heq]
  · rw [hls.trimmed _ hmem]
    exact hls.add_held hmem
  · rw [htrim]
    exact Kept.add_new hkey hip

theorem entries_revoke (ls : Leases) (publicKey : String) :
    (ls.revoke publicKey).1.entries = ls.entries.filter (·.1 ≠ trim publicKey) := by
  unfold entries revoke
  rw [List.filter_map]
  rfl

theorem revoke_false (h : (ls.revoke publicKey).2 = false) : (ls.revoke publicKey).1 = ls := by
  unfold revoke at h ⊢
  have hlen := of_decide_eq_false h
  rw [not_not] at hlen
  have hkept : ls.leases.filter (·.publicKey ≠ trim publicKey) = ls.leases :=
    List.filter_sublist.eq_of_length hlen
  dsimp only
  rw [hkept]

theorem entries_drop (hkeys : (ls.entries.map Prod.fst).Nodup) (p : Lease → Bool) :
    (⟨ls.leases.filter fun l => !p l⟩ : Leases).entries =
      ls.entries.filter (·.1 ∉ (ls.leases.filter p).map Lease.publicKey) := by
  unfold entries at hkeys ⊢
  rw [List.map_map] at hkeys
  rw [List.filter_map]
  congr 1
  apply List.filter_congr
  intro l hl
  have hgone : l.publicKey ∈ (ls.leases.filter p).map Lease.publicKey ↔ p l = true := by
    rw [List.mem_map]
    constructor
    · rintro ⟨l', hl', hkey⟩
      rw [List.mem_filter] at hl'
      rw [← List.inj_on_of_nodup_map hkeys hl'.1 hl hkey]
      exact hl'.2
    · intro hp
      exact ⟨l, List.mem_filter.2 ⟨hl, hp⟩, rfl⟩
  rw [Function.comp_apply, Bool.eq_iff_iff, decide_eq_true_iff, hgone, Bool.not_eq_true', Bool.not_eq_true]

theorem expireIdle_eq (ls : Leases) (now : Nat) (w : IdleWindows) :
    ∃ p : Lease → Bool, ls.expireIdle now w = (⟨ls.leases.filter fun l => !p l⟩, ls.leases.filter p) := ⟨_, rfl⟩

theorem entries_reaped {stats : Map String PeerStats} {active : List String} {w : IdleWindows} {gone : List Lease}
    {save : Bool} (hls : Kept ls.entries) (h : ls.reaped now stats active w = (ls', gone, save)) :
    ls'.entries = ls.entries.filter (·.1 ∉ gone.map Lease.publicKey) ∧
      (∀ l ∈ gone, trim l.publicKey = l.publicKey) ∧ (save = false → gone = []) := by
  unfold reaped at h
  dsimp only at h
  generalize hages : stats.entries.map (fun e => (e.1, e.2.lastHandshake)) = ages at h
  generalize hnoted : ((ls.noteHandshakes now ages).1.noteTraffic now active).1 = noted at h
  have hentries : noted.entries = ls.entries := by
    rw [← hnoted]
    exact (map_noteTraffic fun _ _ => rfl).trans (map_noteHandshakes fun _ _ => rfl)
  obtain ⟨p, hp⟩ := noted.expireIdle_eq now w
  rw [hp] at h
  simp only [Prod.mk.injEq] at h
  obtain ⟨rfl, rfl, rfl⟩ := h
  rw [← hentries] at hls ⊢
  refine ⟨entries_drop hls.keys p, fun l hl => ?_, fun h => ?_⟩
  · exact hls.trimmed (l.publicKey, l.ip) (mem_entries (List.mem_filter.1 hl).1)
  · rw [Bool.or_eq_false_iff, Bool.not_eq_false'] at h
    exact List.isEmpty_iff.1 h.2

end Leases

/-! ### What the steps can do -/

variable {Invite : Type} {cfg : NodeConfig Invite} {s : Tunnel} {lease : Lease} {name publicKey : String} {now : Nat}
  {read save : Option String}

theorem leaseFor_gives (cfg : NodeConfig Invite) (n : NodeState) (req : Admit) (now : Nat) (f : ServeFaults) :
    ((n.leaseFor cfg req now f).1.leases = n.leases ∧ ∀ lease, (n.leaseFor cfg req now f).2 ≠ .ok (.ok lease)) ∨
      ∃ lease, (n.leaseFor cfg req now f).2 = .ok (.ok lease) ∧
        n.leases.Gives (n.leaseFor cfg req now f).1.leases lease := by
  rcases leaseFor_admits cfg n req now f with h | ⟨leases, lease, source, rfl, hlease, hgiven⟩
  · exact Or.inl h
  · exact Or.inr ⟨lease, hlease, Leases.gives_admitAs hgiven⟩

theorem publicKey_admitKey {isKey : String → Bool} {ls ls' : Leases} {net : TunnelNet}
    (h : ls.admitKey isKey name publicKey net now = (ls', .ok lease)) : lease.publicKey = trim publicKey := by
  rcases ls.admitKey_cases isKey name publicKey net now with ⟨e, h'⟩ | ⟨l, hfind, h'⟩ | ⟨ip, hnew, hfree, h'⟩ <;>
    rw [h'] at h <;> cases h
  · exact (Leases.publicKey_of_find hfind).2
  · rfl

namespace Tunnel

theorem cmdAdmit_cases (cfg : NodeConfig Invite) (s : Tunnel) (pid : Nat) (name publicKey : String) (now : Nat)
    (read save : Option String) :
    s.cmdAdmit cfg pid name publicKey now read save = s ∨
      ∃ lease leases, lease.publicKey = trim publicKey ∧ s.leases.Gives leases lease ∧
        s.cmdAdmit cfg pid name publicKey now read save =
          { s with leases, underway := s.underway ++ [(.command pid, addPeer lease.publicKey lease.ip)] } := by
  unfold cmdAdmit
  generalize hf : (fun (ls : Leases) (_ : Unit) => _) = f
  have hr : f s.leases () = ((s.leases.admitKey cfg.isKey name publicKey cfg.net now).1, (),
      (s.leases.admitKey cfg.isKey name publicKey cfg.net now).2,
      (s.leases.admitKey cfg.isKey name publicKey cfg.net now).2.isOk) := by
    rw [← hf]
  rcases s.leases.update_cases read save f with ⟨e, h⟩ | h <;> rw [h]
  · exact Or.inl rfl
  · rw [hr]
    dsimp only
    cases hgiven : s.leases.admitKey cfg.isKey name publicKey cfg.net now with
    | mk ls r =>
      cases r with
      | error e => exact Or.inl rfl
      | ok lease =>
        exact Or.inr ⟨lease, ls, publicKey_admitKey hgiven, Leases.gives_admitKey hgiven, rfl⟩

theorem cmdRevoke_cases (s : Tunnel) (pid : Nat) (publicKey : String) (read save : Option String) :
    s.cmdRevoke pid publicKey read save = s ∨
      s.cmdRevoke pid publicKey read save =
        { s with
          leases := (s.leases.revoke publicKey).1
          underway := s.underway ++ [(.command pid, removePeer publicKey)] } := by
  unfold cmdRevoke
  generalize hf : (fun (ls : Leases) (_ : Unit) => _) = f
  have hr : f s.leases () = ((s.leases.revoke publicKey).1, (), (s.leases.revoke publicKey).2,
      (s.leases.revoke publicKey).2) := by
    rw [← hf]
  rcases s.leases.update_cases read save f with ⟨e, h⟩ | h <;> rw [h]
  · exact Or.inl rfl
  · rw [hr]
    dsimp only
    cases (s.leases.revoke publicKey).2 with
    | false => exact Or.inl rfl
    | true => exact Or.inr rfl

theorem serve_cases (cfg : NodeConfig Invite) (s : Tunnel) (req : Admit) (now : Nat) (f : ServeFaults) :
    (∃ spent, s.serve cfg req now f = { s with spent }) ∨
      ∃ lease leases spent, s.leases.Gives leases lease ∧ s.serve cfg req now f =
        { s with
          leases, spent, main := .adding req lease f
          underway := s.underway ++ [(.main, addPeer lease.publicKey lease.ip)] } := by
  unfold serve
  split
  · exact Or.inl ⟨s.spent, rfl⟩
  · rcases leaseFor_gives cfg ⟨s.leases, s.spent, []⟩ req now f with ⟨hleases, hnot⟩ | ⟨lease, hlease, hgives⟩
    · rcases hr : NodeState.leaseFor cfg ⟨s.leases, s.spent, []⟩ req now f with ⟨n, e | refused | lease⟩ <;>
        rw [hr] at hleases hnot <;> dsimp only at hleases ⊢
      · rw [hleases]
        exact Or.inl ⟨_, rfl⟩
      · rw [hleases]
        exact Or.inl ⟨_, rfl⟩
      · exact absurd rfl (hnot lease)
    · rcases hr : NodeState.leaseFor cfg ⟨s.leases, s.spent, []⟩ req now f with ⟨n, r⟩
      rw [hr] at hlease hgives
      dsimp only at hlease hgives
      subst hlease
      exact Or.inr ⟨lease, n.leases, n.spent, hgives, rfl⟩

theorem reap_cases (hkept : Kept s.leases.entries) (now : Nat) (stats : Option (Map String PeerStats))
    (w : IdleWindows) (spentSave read save : Option String) :
    ∃ (leases : Leases) (gone : List String) (rxSeen : Map String Nat) (spent : SpentPasses),
      leases.entries = s.leases.entries.filter (·.1 ∉ gone) ∧
        s.reap now stats w spentSave read save =
          { s with leases, rxSeen, spent, underway := s.underway ++ gone.map fun k => (.main, .removePeer k) } := by
  unfold reap
  cases stats with
  | none => exact ⟨s.leases, [], s.rxSeen, s.spent.reaped now spentSave, by simp, by simp⟩
  | some stats =>
    dsimp only
    rcases hr : s.leases.reaped now stats (activeKeys stats s.rxSeen).1 w with ⟨leases, gone, saved⟩
    obtain ⟨hentries, htrim, hsaved⟩ := Leases.entries_reaped hkept hr
    rcases s.leases.reapUpdate_cases s.rxSeen now stats w read save hr with ⟨e, h⟩ | h <;> rw [h]
    · exact ⟨s.leases, [], (activeKeys stats s.rxSeen).2, s.spent.reaped now spentSave, by simp, by simp⟩
    · dsimp only
      have hcalls : gone.map (fun l => (Who.main, removePeer l.publicKey)) =
          (gone.map Lease.publicKey).map fun k => (Who.main, .removePeer k) := by
        rw [List.map_map]
        apply List.map_congr_left
        intro l hl
        rw [Function.comp_apply, removePeer, htrim l hl]
      refine ⟨if saved then leases else s.leases, gone.map Lease.publicKey, (activeKeys stats s.rxSeen).2,
        s.spent.reaped now spentSave, ?_, ?_⟩
      · cases saved with
        | true => exact hentries
        | false => rw [hsaved rfl]; simp
      · rw [hcalls]

def Main.ahead : Main → List DeviceUpdate
  | .revoking key _ _ _ => [removePeer key]
  | _ => []

/-- The calls under way will make the device the table's, but for a peer taken away ahead of its lease. -/
structure Synced (s : Tunnel) : Prop where
  kept : Kept s.leases.entries
  device : run Device.apply s.device (s.underway.map Prod.snd) =
    run Device.apply (Device.of s.leases.entries) (Main.ahead s.main)

theorem Synced.update (h : Synced s) {leases : Leases} {calls : List (Who × DeviceUpdate)} {main : Main}
    (hkept : Kept leases.entries)
    (hcalls : run Device.apply (Device.of s.leases.entries) (calls.map Prod.snd) = Device.of leases.entries)
    (hahead : ∀ c ∈ Main.ahead s.main, ∀ c' ∈ calls.map Prod.snd, conflicts c c' = false)
    (hmain : Main.ahead main = Main.ahead s.main) {rxSeen : Map String Nat} {spent : SpentPasses} :
    Synced { s with leases, main, rxSeen, spent, underway := s.underway ++ calls } := by
  refine ⟨hkept, ?_⟩
  rw [List.map_append, run_append, h.device, hmain, ← hcalls]
  exact run_comm (fun c hc c' hc' d => Device.apply_comm (hahead c hc c' hc') d) _

theorem Synced.given (h : Synced s) {leases : Leases} {lease : Lease} (hgives : s.leases.Gives leases lease)
    (hahead : ∀ c ∈ Main.ahead s.main, conflicts c (addPeer lease.publicKey lease.ip) = false) (who : Who) {main : Main}
    (hmain : Main.ahead main = Main.ahead s.main) {spent : SpentPasses} :
    Synced { s with leases, main, spent, underway := s.underway ++ [(who, addPeer lease.publicKey lease.ip)] } :=
  h.update (hgives.kept h.kept) (by simpa using hgives.apply h.kept) (by simpa using hahead) hmain

theorem conflicts_ahead {main : Main} {c : DeviceUpdate} (hc : c ∈ Main.ahead main) (k : String) :
    conflicts c (.removePeer k) = false := by
  unfold Main.ahead at hc
  split at hc
  · rw [List.mem_singleton] at hc
    rw [hc]
    rfl
  · cases hc

theorem Synced.reaped (h : Synced s) {leases : Leases} {gone : List String} {rxSeen : Map String Nat}
    {spent : SpentPasses} (hentries : leases.entries = s.leases.entries.filter (·.1 ∉ gone)) (who : Who) :
    Synced { s with leases, rxSeen, spent, underway := s.underway ++ gone.map fun k => (who, .removePeer k) } := by
  refine h.update ?_ ?_ ?_ rfl
  · rw [hentries]
    exact h.kept.sublist List.filter_sublist
  · rw [List.map_map, hentries]
    exact Device.of_removeAll gone s.leases.entries
  · intro c hc c' hc'
    simp only [List.map_map, List.mem_map, Function.comp_apply] at hc'
    obtain ⟨k, -, rfl⟩ := hc'
    exact conflicts_ahead hc k

theorem Synced.revoked (h : Synced s) (publicKey : String) (who : Who) :
    Synced { s with
      leases := (s.leases.revoke publicKey).1, underway := s.underway ++ [(who, removePeer publicKey)] } := by
  have hentries : (s.leases.revoke publicKey).1.entries = s.leases.entries.filter (·.1 ∉ [trim publicKey]) := by
    rw [Leases.entries_revoke]
    simp
  exact h.reaped hentries who

theorem Synced.called (h : Synced s) {before after : List (Who × DeviceUpdate)} {c : Who × DeviceUpdate}
    (hunderway : s.underway = before ++ c :: after) (hturn : ∀ c' ∈ before, conflicts c.2 c'.2 = false) :
    Synced { s with device := s.device.apply c.2, underway := before ++ after } := by
  refine ⟨h.kept, ?_⟩
  have hpull : run Device.apply (s.device.apply c.2) (before.map Prod.snd) =
      (run Device.apply s.device (before.map Prod.snd)).apply c.2 := by
    apply run_pull
    intro c' hc' d
    obtain ⟨e, he, rfl⟩ := List.mem_map.1 hc'
    exact Device.apply_comm (hturn e he) d
  rw [← h.device, hunderway, List.map_append, run_append, hpull, List.map_append, run_append, List.map_cons, run_cons]

theorem Synced.undone (h : Synced s) (hahead : Main.ahead s.main = []) (publicKey why : String)
    (pass : Option SpentPass) (f : ServeFaults)
    (hturn : ∀ c ∈ s.underway, conflicts (removePeer publicKey) c.2 = false) :
    Synced { s with device := s.device.apply (removePeer publicKey), main := .revoking publicKey why pass f } := by
  refine ⟨h.kept, ?_⟩
  have hpull : run Device.apply (s.device.apply (removePeer publicKey)) (s.underway.map Prod.snd) =
      (run Device.apply s.device (s.underway.map Prod.snd)).apply (removePeer publicKey) := by
    apply run_pull
    intro c' hc' d
    obtain ⟨e, he, rfl⟩ := List.mem_map.1 hc'
    exact Device.apply_comm (hturn e he) d
  rw [hpull, h.device, hahead]
  rfl

theorem Synced.settled (h : Synced s) {publicKey : String} (hahead : Main.ahead s.main = [removePeer publicKey])
    {leases : Leases} (hleases : leases.entries = (s.leases.revoke publicKey).1.entries) {spent : SpentPasses} :
    Synced { s with leases, spent, main := .waiting } := by
  rw [Leases.entries_revoke] at hleases
  refine ⟨?_, ?_⟩
  · rw [hleases]
    exact h.kept.sublist List.filter_sublist
  · rw [h.device, hahead, hleases]
    exact Device.of_remove s.leases.entries (trim publicKey)

theorem Synced.onwards (h : Synced s) {main : Main} (hbefore : Main.ahead s.main = []) (hafter : Main.ahead main = []) :
    Synced { s with main } := by
  refine ⟨h.kept, ?_⟩
  rw [h.device, hbefore, hafter]

theorem Synced.goOn (h : Synced s) (hturn : InTurn s .goOn) : Synced (s.goOn cfg) := by
  unfold InTurn at hturn
  unfold Tunnel.goOn
  cases hmain : s.main with
  | waiting => exact h
  | adding req lease f =>
    have hahead : Main.ahead s.main = [] := by rw [hmain]; rfl
    dsimp only
    split
    · split
      · exact h.onwards hahead rfl
      · exact h.onwards hahead rfl
    · exact h.onwards hahead rfl
  | undoing key why pass f =>
    rw [hmain] at hturn
    exact h.undone (by rw [hmain]; rfl) key why pass f hturn
  | revoking key why pass f =>
    rw [hmain] at hturn
    have hrevoke : f.revoke = none := hturn
    refine h.settled (by rw [hmain]; rfl) ?_
    -- the update saves the table when the key had a lease, and changes nothing when it had none
    unfold Leases.update
    rw [hrevoke]
    dsimp only
    cases hgone : (s.leases.revoke key).2 with
    | false => rw [Leases.revoke_false hgone]
    | true => rfl

theorem Synced.cmdAdmit (h : Synced s) {pid : Nat} (hturn : InTurn s (.cmdAdmit pid name publicKey now read save)) :
    Synced (s.cmdAdmit cfg pid name publicKey now read save) := by
  rcases s.cmdAdmit_cases cfg pid name publicKey now read save with heq | ⟨lease, leases, hkey, hgives, heq⟩ <;>
    rw [heq]
  · exact h
  · refine h.given hgives ?_ _ rfl
    intro c hc
    unfold InTurn at hturn
    cases hmain : s.main with
    | revoking key why pass f =>
      rw [hmain] at hturn hc
      have hne : trim publicKey ≠ trim key := hturn
      rw [List.mem_singleton.1 hc]
      simp [conflicts, removePeer, addPeer, hkey, trim_trim, Ne.symm hne]
    | _ =>
      rw [hmain] at hc
      cases hc

theorem Synced.step (h : Synced s) (e : TunnelStep) (hturn : InTurn s e) : Synced (step cfg s e) := by
  cases e with
  | serve req now f =>
    show Synced (if s.main = .waiting ∧ s.busy .main = false then s.serve cfg req now f else s)
    split
    · rename_i hfree
      have hahead : Main.ahead s.main = [] := by rw [hfree.1]; rfl
      rcases s.serve_cases cfg req now f with ⟨spent, heq⟩ | ⟨lease, leases, spent, hgives, heq⟩ <;> rw [heq]
      · exact ⟨h.kept, h.device⟩
      · exact h.given hgives (by simp [hahead]) _ (by rw [hahead]; rfl)
    · exact h
  | reap now stats w spentSave read save =>
    show Synced (if s.main = .waiting ∧ s.busy .main = false then s.reap now stats w spentSave read save else s)
    split
    · obtain ⟨leases, gone, rxSeen, spent, hentries, heq⟩ := reap_cases h.kept now stats w spentSave read save
      rw [heq]
      exact h.reaped hentries _
    · exact h
  | goOn =>
    show Synced (if s.busy .main = false then s.goOn cfg else s)
    split
    · exact h.goOn hturn
    · exact h
  | cmdAdmit pid name publicKey now read save =>
    show Synced (if s.busy (.command pid) = false then s.cmdAdmit cfg pid name publicKey now read save else s)
    split
    · exact h.cmdAdmit hturn
    · exact h
  | cmdRevoke pid publicKey read save =>
    show Synced (if s.busy (.command pid) = false then s.cmdRevoke pid publicKey read save else s)
    split
    · rcases s.cmdRevoke_cases pid publicKey read save with heq | heq <;> rw [heq]
      · exact h
      · exact h.revoked publicKey _
    · exact h
  | call who =>
    show Synced (s.call who)
    unfold Tunnel.call
    cases htake : takeFirst (·.1 = who) s.underway with
    | none => exact h
    | some t =>
      obtain ⟨before, c, after⟩ := t
      exact h.called (eq_of_takeFirst htake).1 (hturn _ htake)

theorem Synced.carries (h : Synced s) (hquiet : s.Quiet) : s.Carries := by
  have hdevice := h.device
  rw [hquiet.1, hquiet.2] at hdevice
  have heq : s.device = Device.of s.leases.entries := hdevice
  refine ⟨fun key => ?_, fun l hl => ?_⟩
  · rw [heq]
    rcases Device.peer_of_cases s.leases.entries key with ⟨hnone, hno⟩ | ⟨ip, hpeer, hmem⟩
    · rw [hnone]
      simp only [Option.isSome_none, Bool.false_eq_true, false_iff, not_exists, not_and]
      exact fun l hl => hno _ (Leases.mem_entries hl)
    · rw [hpeer]
      obtain ⟨l, hl, heq⟩ := List.mem_map.1 hmem
      exact ⟨fun _ => ⟨l, hl, (Prod.mk.inj heq).1⟩, fun _ => rfl⟩
  · rw [heq]
    exact Device.peer_of_mem h.kept.keys (Leases.mem_entries hl)

theorem Carries.synced (h : s.Carries) (hquiet : s.Quiet) (hkept : Kept s.leases.entries) : Synced s := by
  refine ⟨hkept, ?_⟩
  rw [hquiet.1, hquiet.2]
  apply Device.ext_peer
  intro k
  show s.device.peer k = (Device.of s.leases.entries).peer k
  rcases Device.peer_of_cases s.leases.entries k with ⟨hnone, hno⟩ | ⟨ip, hpeer, hmem⟩
  · rw [hnone, ← Option.not_isSome_iff_eq_none, h.peers]
    rintro ⟨l, hl, hkey⟩
    exact hno _ (Leases.mem_entries hl) hkey
  · obtain ⟨l, hl, heq⟩ := List.mem_map.1 hmem
    rw [hpeer, ← (Prod.mk.inj heq).1, ← (Prod.mk.inj heq).2]
    exact h.allowed l hl

end Tunnel

open Tunnel

/-- From a node at rest that carries its leases, in every run in which conflicting calls are made in turn: whenever no
operation is under way, the device has the keys that hold a lease, each allowed its lease's address. -/
theorem tunnelCarries_run (cfg : NodeConfig Invite) {s : Tunnel} (hquiet : s.Quiet) (hcarries : s.Carries)
    (htable : LeaseTable cfg.net s.leases) (htrim : ∀ l ∈ s.leases.leases, trim l.publicKey = l.publicKey)
    {es : List TunnelStep} (h : Along (step cfg) InTurn s es) (k : Nat) :
    (run (step cfg) s (es.take k)).Quiet → (run (step cfg) s (es.take k)).Carries := by
  have hkept : Kept s.leases.entries := by
    refine ⟨?_, ?_, fun e he => ?_⟩
    · simpa [Leases.entries, Function.comp_def] using htable.keys
    · simpa [Leases.entries, Function.comp_def] using htable.addresses
    · obtain ⟨l, hl, rfl⟩ := List.mem_map.1 he
      exact htrim l hl
  have hrun : Synced (run (step cfg) s (es.take k)) :=
    run_invariant (fun s e hs hturn => hs.step e hturn) (h.take k) (hcarries.synced hquiet hkept)
  exact hrun.carries

private def fresh : Tunnel := ⟨⟨[]⟩, ⟨[], 0, false⟩, .empty, .empty, [], .waiting⟩

private def tiny : NodeConfig Unit := ⟨⟨10, 29⟩, 4, false, fun k => k.length = 1, fun _ => .ok ()⟩

private def inTurn : List TunnelStep :=
  [.cmdAdmit 1 "laptop" "k" 0 none none, .serve ⟨"s", "phone", true, none⟩ 0 .none, .call .main, .call (.command 1),
    .goOn, .reap 200 (some .empty) ⟨0, 600, 0⟩ none none none, .call .main]

/-- The loop, the command and the reaper have each had their turn, and the device carries the lease. -/
theorem tunnelCarries_inTurn : (run (step tiny) fresh inTurn).leases.leases.map Lease.publicKey = ["k"] ∧
    ((run (step tiny) fresh inTurn).Quiet → (run (step tiny) fresh inTurn).Carries) :=
  ⟨by decide, tunnelCarries_run tiny ⟨rfl, rfl⟩ ⟨by simp [fresh, Device.empty], by simp [fresh]⟩
    ⟨by decide, by decide, by simp [fresh]⟩ (by simp [fresh]) (by decide : Along (step tiny) InTurn fresh inTurn)
    7⟩

/-- A key that holds a lease asks for admission again, and is revoked before the main loop adds its peer: the key is
left in the tunnel, with an address that is free for others. -/
theorem tunnel_carries_revoked : ∃ (cfg : NodeConfig Unit) (es : List TunnelStep),
    (run (step cfg) fresh es).Quiet ∧ (run (step cfg) fresh es).leases.leases = [] ∧
      (run (step cfg) fresh es).device.peer "k" = some (some 12) ∧ ¬ (run (step cfg) fresh es).Carries := by
  refine ⟨tiny, [.cmdAdmit 1 "laptop" "k" 0 none none, .call (.command 1), .serve ⟨"k", "laptop", false, none⟩ 5 .none,
    .cmdRevoke 2 "k" none none, .call (.command 2), .call .main, .goOn], ?_, ?_, ?_, ?_⟩
  · exact ⟨by decide, by decide⟩
  · decide
  · decide
  · intro h
    have hpeer := (h.peers "k").1 (by decide)
    revert hpeer
    decide

end HidraNet.Node
