import HidraNet.Core.Pass
import HidraNet.Lib.Ints
import HidraNet.Lib.Maps
import HidraNet.Lib.Net
import HidraNet.Lib.Runs

/-!
# The userspace device

The peers of a node without a WireGuard of its own, and the `set` requests that change them: a request is read whole,
and only then applied, section by section.  A peer is found by its key, or by the index its session gave to the other
side, whose upper 24 bits are the peer's.

As long as the indexes given fit those 24 bits, the two tables hold the same peers, an index is one key's for ever, and
a packet comes to the peer whose session it names or to none (`peers_run`).  Nothing bounds the indexes: after 2 ^ 24
peers, a peer's packets are handed to another (`misrouted`).
-/

namespace HidraNet.Node.Userspace

open HidraNet.Core Ints Maps Net Runs Text

abbrev Key := { bytes : List UInt8 // bytes.length = 32 }

structure Peer where
  index : Nat
  publicKey : Key
  preshared : Option Key
  endpoint : Option SocketAddr
  allowed : List (Nat × Nat)
  keepalive : Option Nat
deriving DecidableEq

structure Peers where
  byIndex : Map Nat Peer
  byKey : Map Key Nat
  nextIndex : Nat
deriving DecidableEq

/-- What of the device a request may name, and not change. -/
structure Inner where
  secret : Key
  listenPort : Nat
deriving DecidableEq

/-! ### Requests -/

/-- One peer section of a request, collected until the next one. -/
structure PeerSet where
  publicKey : Key
  remove : Bool
  replaceAllowed : Bool
  allowed : List (Nat × Nat)
  endpoint : Option SocketAddr
  keepalive : Option Nat
  preshared : Option Key
deriving DecidableEq

def PeerSet.new (publicKey : Key) : PeerSet := ⟨publicKey, false, false, [], none, none, none⟩

def hex32 (v : List Char) : Except String Key :=
  match hexDecode v with
  | none => .error "not hex"
  | some b => if h : b.length = 32 then .ok ⟨b, h⟩ else .error "a key is 32 bytes"

/-- A field of a section. -/
def setField (cur : PeerSet) (k v : List Char) : Except String PeerSet :=
  if k = "remove".toList then .ok { cur with remove := v = "true".toList }
  else if k = "replace_allowed_ips".toList then .ok { cur with replaceAllowed := v = "true".toList }
  else if k = "allowed_ip".toList then
    match splitOnce '/' v with
    | none => .error "allowed_ip needs a prefix"
    | some (ip, p) =>
      match parseIpv4 ip with
      -- IPv6 allowed IPs are accepted and ignored
      | none => .ok cur
      | some ip =>
        match parseU8 p with
        | none => .error "bad prefix"
        | some p => if p > 32 then .error "bad prefix" else .ok { cur with allowed := cur.allowed ++ [(ip, p)] }
  else if k = "endpoint".toList then
    match parseSocketAddr v with
    | none => .error "bad endpoint"
    | some a => .ok { cur with endpoint := some a }
  else if k = "persistent_keepalive_interval".toList then
    match parseU16 v with
    | none => .error "bad keepalive"
    | some n => .ok { cur with keepalive := some n }
  else if k = "preshared_key".toList then
    match hex32 v with
    | .error e => .error e
    | .ok key => .ok { cur with preshared := some key }
  else .error ("unknown field " ++ String.ofList k)

abbrev Request := Bool × List PeerSet

def readLine (inner : Inner) (r : Request) (line : String) : Except String Request :=
  match splitOnce '=' line.toList with
  | none => .error "bad line"
  | some (k, v) =>
    if k = "private_key".toList then
      match hex32 v with
      | .error e => .error e
      | .ok key => if key ≠ inner.secret then .error "the key cannot be changed while running" else .ok r
    else if k = "listen_port".toList then
      if parseU16 v ≠ some inner.listenPort then .error "the port cannot be changed while running" else .ok r
    else if k = "fwmark".toList then .ok r
    else if k = "replace_peers".toList then .ok (v = "true".toList, r.2)
    else if k = "public_key".toList then
      match hex32 v with
      | .error e => .error e
      | .ok key => .ok (r.1, r.2 ++ [PeerSet.new key])
    else
      match r.2.getLast? with
      | none => .error (String.ofList k ++ " before any public_key")
      | some cur =>
        match setField cur k v with
        | .error e => .error e
        | .ok cur => .ok (r.1, r.2.dropLast ++ [cur])

def readSet (inner : Inner) (body : List String) : Except String Request := body.foldlM (readLine inner) (false, [])

namespace Peers

/-- A section applied. -/
def set (s : Peers) (sec : PeerSet) : Peers :=
  if sec.remove then
    match s.byKey.get? sec.publicKey with
    | some idx => { s with byKey := s.byKey.remove sec.publicKey, byIndex := s.byIndex.remove idx }
    | none => { s with byKey := s.byKey.remove sec.publicKey }
  else
    let existing := (s.byKey.get? sec.publicKey).bind s.byIndex.get?
    let (index, allowed, endpoint, nextIndex) := match existing with
      | some p => (p.index, if sec.replaceAllowed then [] else p.allowed, p.endpoint, s.nextIndex)
      | none => (s.nextIndex, [], none, wrap32 (s.nextIndex + 1))
    let peer : Peer :=
      ⟨index, sec.publicKey, sec.preshared, sec.endpoint.or endpoint, allowed ++ sec.allowed, sec.keepalive⟩
    ⟨s.byIndex.set index peer, s.byKey.set sec.publicKey index, nextIndex⟩

def cleared (s : Peers) (replacePeers : Bool) : Peers := if replacePeers then ⟨.empty, .empty, s.nextIndex⟩ else s

end Peers

/-- The peers, and, what no program keeps, each key that a session was made for with the session's index. -/
structure Device where
  peers : Peers
  made : List (Key × Nat)
deriving DecidableEq

namespace Device

def start : Device := ⟨⟨.empty, .empty, 1⟩, []⟩

def set (d : Device) (sec : PeerSet) : Device :=
  let peers := d.peers.set sec
  ⟨peers, d.made ++ ((peers.byKey.get? sec.publicKey).map fun i => (sec.publicKey, i)).toList⟩

/-- `apply_set`. -/
def applySet (inner : Inner) (d : Device) (body : List String) : Device × Except String Unit :=
  match readSet inner body with
  | .error e => (d, .error e)
  | .ok (replacePeers, sections) => (sections.foldl set { d with peers := d.peers.cleared replacePeers }, .ok ())

def step (inner : Inner) (d : Device) (body : List String) : Device := (d.applySet inner body).1

end Device

/-! ### Packets -/

inductive Packet where
  | handshakeInit (key : Option Key)
  | handshakeResponse (receiverIdx : Nat)
  | cookieReply (receiverIdx : Nat)
  | data (receiverIdx : Nat)
deriving DecidableEq

def findPeer (s : Peers) : Packet → Option Peer
  | .handshakeInit key => (key.bind s.byKey.get?).bind s.byIndex.get?
  | .handshakeResponse r => s.byIndex.get? (r / 2 ^ 8)
  | .cookieReply r => s.byIndex.get? (r / 2 ^ 8)
  | .data r => s.byIndex.get? (r / 2 ^ 8)

def sessionIndex (index : Nat) (n : Fin 256) : Nat := wrap32 (index * 2 ^ 8) + n

def newcomers (keys : Key → Bool) : List PeerSet → Nat
  | [] => 0
  | sec :: secs =>
    if sec.remove then newcomers (fun k => keys k && k ≠ sec.publicKey) secs
    else (if keys sec.publicKey then 0 else 1) + newcomers (fun k => keys k || k = sec.publicKey) secs

def Fits (inner : Inner) (d : Device) (body : List String) : Prop :=
  match readSet inner body with
  | .error _ => True
  | .ok (replacePeers, sections) =>
    d.peers.nextIndex + newcomers (d.peers.cleared replacePeers).byKey.contains sections ≤ 2 ^ 24

instance (inner : Inner) (d : Device) (body : List String) : Decidable (Fits inner d body) := by
  unfold Fits
  split <;> infer_instance

/-! ### The two tables -/

/-- Both tables hold the same peers, each under its own key and its own index. -/
structure Peers.Agree (s : Peers) : Prop where
  own : ∀ {i p}, s.byIndex.get? i = some p → p.index = i ∧ s.byKey.get? p.publicKey = some i
  keyed : ∀ {k i}, s.byKey.get? k = some i → ∃ p, s.byIndex.get? i = some p ∧ p.publicKey = k

namespace Peers

variable {s : Peers} {sec : PeerSet} {k k' : Key} {i : Nat}

theorem Agree.key_unique (h : s.Agree) (hk : s.byKey.get? k = some i) (hk' : s.byKey.get? k' = some i) : k = k' := by
  obtain ⟨p, hp, rfl⟩ := h.keyed hk
  obtain ⟨p', hp', rfl⟩ := h.keyed hk'
  rw [hp] at hp'
  cases hp'
  rfl

theorem agree_cleared (h : s.Agree) (replacePeers : Bool) : (s.cleared replacePeers).Agree := by
  cases replacePeers with
  | false => exact h
  | true => exact ⟨fun hi => (nomatch hi), fun hk => (nomatch hk)⟩

theorem byKey_cleared (replacePeers : Bool) (hk : (s.cleared replacePeers).byKey.get? k = some i) :
    s.byKey.get? k = some i := by
  cases replacePeers with
  | false => exact hk
  | true => cases hk

@[simp] theorem nextIndex_cleared (replacePeers : Bool) : (s.cleared replacePeers).nextIndex = s.nextIndex := by
  cases replacePeers <;> rfl

theorem set_remove (h : s.Agree) (hrm : sec.remove = true) :
    (s.set sec).Agree ∧ (s.set sec).byKey = s.byKey.remove sec.publicKey ∧ (s.set sec).nextIndex = s.nextIndex := by
  unfold set
  rw [if_pos hrm]
  cases hidx : s.byKey.get? sec.publicKey with
  | none =>
    refine ⟨⟨fun {i p} hi => ?_, fun {k i} hk => ?_⟩, rfl, rfl⟩
    · obtain ⟨hown, hkey⟩ := h.own hi
      have hne : p.publicKey ≠ sec.publicKey := by
        intro heq
        rw [heq, hidx] at hkey
        cases hkey
      exact ⟨hown, Map.get?_remove_some.2 ⟨hne, hkey⟩⟩
    · exact h.keyed (Map.get?_remove_some.1 hk).2
  | some idx =>
    refine ⟨⟨fun {i p} hi => ?_, fun {k i} hk => ?_⟩, rfl, rfl⟩
    · obtain ⟨hne, hi⟩ := Map.get?_remove_some.1 hi
      obtain ⟨hown, hkey⟩ := h.own hi
      have hkne : p.publicKey ≠ sec.publicKey := by
        intro heq
        rw [heq, hidx] at hkey
        cases hkey
        exact hne rfl
      exact ⟨hown, Map.get?_remove_some.2 ⟨hkne, hkey⟩⟩
    · obtain ⟨hne, hkept⟩ := Map.get?_remove_some.1 hk
      obtain ⟨p, hp, hpk⟩ := h.keyed hkept
      have hine : i ≠ idx := by
        rintro rfl
        exact hne (h.key_unique hkept hidx)
      exact ⟨p, Map.get?_remove_some.2 ⟨hine, hp⟩, hpk⟩

/-- A peer keeps its index, or gets the next one. -/
theorem set_cases (h : s.Agree) (hrm : sec.remove = false) :
    ∃ index peer, (s.set sec).byIndex = s.byIndex.set index peer ∧
      (s.set sec).byKey = s.byKey.set sec.publicKey index ∧ peer.index = index ∧ peer.publicKey = sec.publicKey ∧
      (s.byKey.get? sec.publicKey = some index ∧ (s.set sec).nextIndex = s.nextIndex ∨
        s.byKey.get? sec.publicKey = none ∧ index = s.nextIndex ∧
          (s.set sec).nextIndex = wrap32 (s.nextIndex + 1)) := by
  unfold set
  rw [if_neg (by rw [hrm]; decide)]
  cases hidx : s.byKey.get? sec.publicKey with
  | none => exact ⟨s.nextIndex, _, rfl, rfl, rfl, rfl, .inr ⟨rfl, rfl, rfl⟩⟩
  | some idx =>
    obtain ⟨p, hp, -⟩ := h.keyed hidx
    have hown := (h.own hp).1
    simp only [Option.bind_some, hp]
    exact ⟨p.index, _, rfl, rfl, rfl, rfl, .inl ⟨by rw [hown], trivial⟩⟩

theorem set_peer (h : s.Agree) (hrm : sec.remove = false) (hnew : ∀ {k i}, s.byKey.get? k = some i → i < s.nextIndex) :
    (s.set sec).Agree := by
  obtain ⟨index, peer, hbi, hbk, hpi, hpk, hcase⟩ := set_cases h hrm
  -- who holds the index is the key's own peer
  have hholder : ∀ {k}, s.byKey.get? k = some index → k = sec.publicKey := by
    intro k hk
    obtain ⟨hidx, -⟩ | ⟨-, rfl, -⟩ := hcase
    · exact h.key_unique hk hidx
    · exact absurd (hnew hk) (lt_irrefl _)
  refine ⟨fun {i p} hi => ?_, fun {k i} hk => ?_⟩
  · rw [hbi, Map.get?_set] at hi
    split at hi
    · rename_i heq
      cases hi
      refine ⟨by rw [hpi, heq], ?_⟩
      rw [hbk, hpk, heq, Map.get?_set_self]
    · rename_i hne
      obtain ⟨hown, hkey⟩ := h.own hi
      refine ⟨hown, ?_⟩
      have hkne : p.publicKey ≠ sec.publicKey := by
        intro heq
        rw [heq] at hkey
        obtain ⟨hidx, -⟩ | ⟨hidx, -⟩ := hcase
        · rw [hidx] at hkey
          cases hkey
          exact hne rfl
        · rw [hidx] at hkey
          cases hkey
      rw [hbk, Map.get?_set_other _ _ hkne]
      exact hkey
  · rw [hbk, Map.get?_set] at hk
    split at hk
    · rename_i heq
      cases hk
      exact ⟨peer, by rw [hbi, Map.get?_set_self], by rw [hpk, heq]⟩
    · rename_i hne
      obtain ⟨p, hp, hpk'⟩ := h.keyed hk
      have hine : i ≠ index := by
        rintro rfl
        exact hne (hholder hk)
      exact ⟨p, by rw [hbi, Map.get?_set_other _ _ hine]; exact hp, hpk'⟩

end Peers

/-! ### Indexes are given once -/

/-- What holds in every device whose indexes fit. -/
structure Device.Kept (d : Device) : Prop where
  agree : d.peers.Agree
  live : ∀ {k i}, d.peers.byKey.get? k = some i → (k, i) ∈ d.made
  below : ∀ {k i}, (k, i) ∈ d.made → i < d.peers.nextIndex
  once : ∀ {k k' i}, (k, i) ∈ d.made → (k', i) ∈ d.made → k = k'
  fits : d.peers.nextIndex ≤ 2 ^ 24

namespace Device

variable {d : Device} {sec : PeerSet}

theorem kept_start : start.Kept := by
  refine ⟨⟨fun h => (nomatch h), fun h => (nomatch h)⟩, fun h => (nomatch h), fun h => (nomatch h),
    fun h => (nomatch h), ?_⟩
  show 1 ≤ 2 ^ 24
  omega

theorem kept_cleared (h : d.Kept) (replacePeers : Bool) :
    Kept { d with peers := d.peers.cleared replacePeers } := by
  refine ⟨Peers.agree_cleared h.agree replacePeers, fun hk => h.live (Peers.byKey_cleared replacePeers hk),
    fun {k i} hmade => ?_, h.once, ?_⟩
  · show i < (d.peers.cleared replacePeers).nextIndex
    rw [Peers.nextIndex_cleared]
    exact h.below hmade
  · show (d.peers.cleared replacePeers).nextIndex ≤ 2 ^ 24
    rw [Peers.nextIndex_cleared]
    exact h.fits

theorem set_remove (h : d.Kept) (hrm : sec.remove = true) :
    (d.set sec).Kept ∧ (d.set sec).peers.nextIndex = d.peers.nextIndex ∧
      (d.set sec).peers.byKey = d.peers.byKey.remove sec.publicKey := by
  obtain ⟨hagree, hbk, hnext⟩ := Peers.set_remove h.agree hrm
  have hmade : (d.set sec).made = d.made := by
    show d.made ++ (((d.peers.set sec).byKey.get? sec.publicKey).map _).toList = d.made
    rw [hbk, Map.get?_remove, if_pos rfl]
    exact List.append_nil _
  refine ⟨⟨hagree, fun {k i} hk => ?_, fun {k i} hm => ?_, fun {k k' i} hm hm' => ?_, ?_⟩, hnext, hbk⟩
  · change (d.peers.set sec).byKey.get? k = some i at hk
    rw [hbk] at hk
    rw [hmade]
    exact h.live (Map.get?_remove_some.1 hk).2
  · rw [hmade] at hm
    show i < (d.peers.set sec).nextIndex
    rw [hnext]
    exact h.below hm
  · rw [hmade] at hm hm'
    exact h.once hm hm'
  · show (d.peers.set sec).nextIndex ≤ 2 ^ 24
    rw [hnext]
    exact h.fits

theorem set_peer (h : d.Kept) (hrm : sec.remove = false)
    (hroom : d.peers.byKey.get? sec.publicKey = none → d.peers.nextIndex + 1 ≤ 2 ^ 24) :
    (d.set sec).Kept ∧
      (d.set sec).peers.nextIndex = d.peers.nextIndex + (if d.peers.byKey.contains sec.publicKey then 0 else 1) ∧
      ∃ index, (d.set sec).peers.byKey = d.peers.byKey.set sec.publicKey index := by
  have hagree := Peers.set_peer h.agree hrm fun hk => h.below (h.live hk)
  obtain ⟨index, peer, -, hbk, -, -, hcase⟩ := Peers.set_cases h.agree hrm
  have hmade : (d.set sec).made = d.made ++ [(sec.publicKey, index)] := by
    show d.made ++ (((d.peers.set sec).byKey.get? sec.publicKey).map _).toList = _
    rw [hbk, Map.get?_set_self]
    rfl
  have hnext : (d.peers.set sec).nextIndex =
      d.peers.nextIndex + (if d.peers.byKey.contains sec.publicKey then 0 else 1) := by
    unfold Map.contains
    obtain ⟨hidx, hnext⟩ | ⟨hidx, -, hnext⟩ := hcase
    · rw [hnext, hidx]
      rfl
    · have hle := hroom hidx
      rw [hnext, hidx]
      exact Nat.mod_eq_of_lt (by omega)
  -- the index is the key's already, or above all that were given
  have hgiven : ∀ {k}, (k, index) ∈ d.made → k = sec.publicKey := by
    intro k hk
    obtain ⟨hidx, -⟩ | ⟨-, rfl, -⟩ := hcase
    · exact h.once hk (h.live hidx)
    · exact absurd (h.below hk) (lt_irrefl _)
  have hbelow : index < (d.peers.set sec).nextIndex := by
    obtain ⟨hidx, hnext'⟩ | ⟨hidx, rfl, -⟩ := hcase
    · rw [hnext']
      exact h.below (h.live hidx)
    · rw [hnext]
      unfold Map.contains
      rw [hidx]
      exact Nat.lt_succ_self _
  have hle : d.peers.nextIndex ≤ (d.peers.set sec).nextIndex := by
    rw [hnext]
    exact Nat.le_add_right _ _
  refine ⟨⟨hagree, fun {k i} hk => ?_, fun {k i} hm => ?_, fun {k k' i} hm hm' => ?_, ?_⟩, hnext, index, hbk⟩
  · change (d.peers.set sec).byKey.get? k = some i at hk
    rw [hmade, List.mem_append, List.mem_singleton]
    rw [hbk] at hk
    obtain ⟨rfl, rfl⟩ | ⟨-, hk⟩ := Map.get?_set_some.1 hk
    · exact .inr rfl
    · exact .inl (h.live hk)
  · show i < (d.peers.set sec).nextIndex
    rw [hmade, List.mem_append, List.mem_singleton] at hm
    obtain hm | hm := hm
    · exact lt_of_lt_of_le (h.below hm) hle
    · cases hm
      exact hbelow
  · rw [hmade, List.mem_append, List.mem_singleton] at hm hm'
    obtain hm | hm := hm
    · obtain hm' | hm' := hm'
      · exact h.once hm hm'
      · cases hm'
        exact hgiven hm
    · cases hm
      obtain hm' | hm' := hm'
      · exact (hgiven hm').symm
      · cases hm'
        rfl
  · show (d.peers.set sec).nextIndex ≤ 2 ^ 24
    have hfits := h.fits
    rw [hnext]
    unfold Map.contains
    cases hidx : d.peers.byKey.get? sec.publicKey with
    | some idx => simpa using hfits
    | none => simpa using hroom hidx

theorem kept_sections (h : d.Kept) (secs : List PeerSet)
    (hroom : d.peers.nextIndex + newcomers d.peers.byKey.contains secs ≤ 2 ^ 24) : (secs.foldl set d).Kept := by
  induction secs generalizing d with
  | nil => exact h
  | cons sec secs ih =>
    rw [List.foldl_cons]
    unfold newcomers at hroom
    cases hrm : sec.remove with
    | true =>
      rw [if_pos hrm] at hroom
      obtain ⟨hkept, hnext, hbk⟩ := set_remove h hrm
      have hkeys : (d.set sec).peers.byKey.contains = fun k => d.peers.byKey.contains k && k ≠ sec.publicKey := by
        funext k
        unfold Map.contains
        rw [hbk, Map.get?_remove]
        by_cases hk : k = sec.publicKey <;> simp [hk]
      apply ih hkept
      rw [hnext, hkeys]
      exact hroom
    | false =>
      rw [if_neg (by rw [hrm]; decide)] at hroom
      obtain ⟨hkept, hnext, index, hbk⟩ := set_peer h hrm fun hnone => by
        unfold Map.contains at hroom
        rw [hnone] at hroom
        simp only [Option.isSome_none, Bool.false_eq_true, if_false] at hroom
        omega
      have hkeys : (d.set sec).peers.byKey.contains = fun k => d.peers.byKey.contains k || k = sec.publicKey := by
        funext k
        unfold Map.contains
        rw [hbk, Map.get?_set]
        by_cases hk : k = sec.publicKey <;> simp [hk]
      apply ih hkept
      rw [hnext, hkeys]
      omega

theorem applySet_error {inner : Inner} {body : List String} {e : String}
    (h : (d.applySet inner body).2 = .error e) : (d.applySet inner body).1 = d := by
  unfold applySet at h ⊢
  cases hread : readSet inner body with
  | error e' => rfl
  | ok r =>
    rw [hread] at h
    cases h

theorem kept_step (inner : Inner) (d : Device) (body : List String) (h : d.Kept) (hfits : Fits inner d body) :
    (d.step inner body).Kept := by
  unfold Fits at hfits
  unfold step applySet
  cases hread : readSet inner body with
  | error e => exact h
  | ok r =>
    rw [hread] at hfits
    apply kept_sections (kept_cleared h r.1)
    show (d.peers.cleared r.1).nextIndex + _ ≤ 2 ^ 24
    rw [Peers.nextIndex_cleared]
    exact hfits

end Device

/-! ### Packets find their peer -/

theorem sessionIndex_upper {index : Nat} (h : index < 2 ^ 24) (n : Fin 256) : sessionIndex index n / 2 ^ 8 = index := by
  have hn := n.isLt
  unfold sessionIndex wrap32
  omega

def Packet.toSession (r : Nat) : List Packet := [.handshakeResponse r, .cookieReply r, .data r]

theorem findPeer_session {s : Peers} {r : Nat} {packet : Packet} (h : packet ∈ Packet.toSession r) :
    findPeer s packet = s.byIndex.get? (r / 2 ^ 8) := by
  simp only [Packet.toSession, List.mem_cons, List.not_mem_nil, or_false] at h
  obtain rfl | rfl | rfl := h <;> rfl

theorem Device.Kept.byIndex_made {d : Device} (h : d.Kept) {k : Key} {i : Nat} (hmade : (k, i) ∈ d.made) {p : Peer}
    (hp : d.peers.byIndex.get? i = some p) : p.publicKey = k :=
  h.once (h.live (h.agree.own hp).2) hmade

/-- While the indexes given fit 24 bits: the tables agree, an index is one key's, what a session's packets name is its
key's peer or nobody, and a request refused leaves all as it is. -/
theorem peers_run (inner : Inner) (bodies : List (List String))
    (h : Along (Device.step inner) (Fits inner) Device.start bodies) (k : Nat) :
    let d := run (Device.step inner) Device.start (bodies.take k)
    d.peers.Agree ∧ (∀ key key' i, (key, i) ∈ d.made → (key', i) ∈ d.made → key = key') ∧
      (∀ key i n, (key, i) ∈ d.made → ∀ packet ∈ Packet.toSession (sessionIndex i n),
        findPeer d.peers packet = if d.peers.byKey.get? key = some i then d.peers.byIndex.get? i else none) ∧
      ∀ body e, (d.applySet inner body).2 = .error e → (d.applySet inner body).1 = d := by
  intro d
  have hkept : d.Kept := run_invariant (Device.kept_step inner) (h.take k) Device.kept_start
  refine ⟨hkept.agree, fun _ _ _ => hkept.once, fun key i n hmade packet hpacket => ?_,
    fun _ _ => Device.applySet_error⟩
  have hlt : i < 2 ^ 24 := lt_of_lt_of_le (hkept.below hmade) hkept.fits
  rw [findPeer_session hpacket, sessionIndex_upper hlt]
  split
  · rfl
  · rename_i hgone
    cases hp : d.peers.byIndex.get? i with
    | none => rfl
    | some p =>
      have hkey := hkept.byIndex_made hmade hp
      have hown := (hkept.agree.own hp).2
      rw [hkey] at hown
      exact absurd hown hgone

private def ones : Key := ⟨List.replicate 32 0x11, by decide⟩

private def twos : Key := ⟨List.replicate 32 0x22, by decide⟩

private def someDevice : Inner := ⟨⟨List.replicate 32 0x33, by decide⟩, 51820⟩

private def addOnes : List String := ["public_key=" ++ String.ofList (List.replicate 64 '1')]

private def addTwos : List String := ["public_key=" ++ String.ofList (List.replicate 64 '2')]

private def dropTwos : List String := addTwos ++ ["remove=true"]

theorem peers_run_dropped :
    let d := run (Device.step someDevice) Device.start ([addOnes, addTwos, ["remove=true"], dropTwos].take 4)
    (twos, 2) ∈ d.made ∧ findPeer d.peers (.data (sessionIndex 2 7)) = none := by
  have h := peers_run someDevice [addOnes, addTwos, ["remove=true"], dropTwos] (by decide) 4
  have hmade : (twos, 2) ∈ (run (Device.step someDevice) Device.start
      ([addOnes, addTwos, ["remove=true"], dropTwos].take 4)).made := by decide
  refine ⟨hmade, ?_⟩
  rw [h.2.2.1 twos 2 7 hmade _ (by simp [Packet.toSession]), if_neg (by decide)]

/-- A device with one peer that stays, and another that comes and goes. -/
private structure Cycled (n : Nat) (d : Device) : Prop where
  stays : d.peers.byIndex.get? 1 = some ⟨1, ones, none, none, [], none⟩
  gone : d.peers.byKey.get? twos = none
  next : d.peers.nextIndex = n

private theorem readSet_addTwos : readSet someDevice addTwos = .ok (false, [PeerSet.new twos]) := by decide

private theorem readSet_dropTwos :
    readSet someDevice dropTwos = .ok (false, [{ PeerSet.new twos with remove := true }]) := by decide

private theorem step_addTwos {n : Nat} {d : Device} (h : Cycled n d) (hone : 1 < n) (hn : n + 1 < 2 ^ 32) :
    let d' := d.step someDevice addTwos
    d'.peers.byIndex.get? 1 = some ⟨1, ones, none, none, [], none⟩ ∧ d'.peers.byKey.get? twos = some n ∧
      d'.peers.nextIndex = n + 1 ∧ (twos, n) ∈ d'.made := by
  intro d'
  have hstep : d' = d.set (PeerSet.new twos) := by
    show (d.applySet someDevice addTwos).1 = _
    unfold Device.applySet
    rw [readSet_addTwos]
    rfl
  have hpeers : d'.peers =
      ⟨d.peers.byIndex.set n ⟨n, twos, none, none, [], none⟩, d.peers.byKey.set twos n, n + 1⟩ := by
    rw [hstep]
    show d.peers.set (PeerSet.new twos) = _
    unfold Peers.set PeerSet.new
    simp only [Bool.false_eq_true, if_false, h.gone, h.next, Option.bind_none]
    rw [show wrap32 (n + 1) = n + 1 from Nat.mod_eq_of_lt hn]
    rfl
  have hkey : d'.peers.byKey.get? twos = some n := by
    rw [hpeers]
    exact Map.get?_set_self ..
  refine ⟨?_, hkey, by rw [hpeers], ?_⟩
  · rw [hpeers]
    show (d.peers.byIndex.set n _).get? 1 = _
    rw [Map.get?_set_other _ _ (by omega)]
    exact h.stays
  · rw [hstep] at hkey ⊢
    show (twos, n) ∈ d.made ++ _
    apply List.mem_append_right
    change (d.peers.set (PeerSet.new twos)).byKey.get? twos = some n at hkey
    show (twos, n) ∈ (((d.peers.set (PeerSet.new twos)).byKey.get? twos).map _).toList
    rw [hkey]
    exact List.mem_singleton_self _

private theorem cycled_cycle {n : Nat} {d : Device} (h : Cycled n d) (hone : 1 < n) (hn : n + 1 < 2 ^ 32) :
    Cycled (n + 1) (run (Device.step someDevice) d [addTwos, dropTwos]) := by
  obtain ⟨hstays, hkey, hnext, -⟩ := step_addTwos h hone hn
  simp only [run_cons, run_nil]
  generalize d.step someDevice addTwos = d' at hstays hkey hnext
  have hpeers : (d'.step someDevice dropTwos).peers =
      ⟨d'.peers.byIndex.remove n, d'.peers.byKey.remove twos, d'.peers.nextIndex⟩ := by
    unfold Device.step Device.applySet
    rw [readSet_dropTwos]
    show d'.peers.set { PeerSet.new twos with remove := true } = _
    unfold Peers.set PeerSet.new
    simp only [if_true, hkey]
  refine ⟨?_, ?_, by rw [hpeers]; exact hnext⟩
  · rw [hpeers, Map.get?_remove, if_neg (by omega)]
    exact hstays
  · rw [hpeers, Map.get?_remove, if_pos rfl]

private theorem cycled_cycles (m : Nat) (hm : m + 3 < 2 ^ 32) :
    Cycled (m + 2) (run (Device.step someDevice) (Device.start.step someDevice addOnes)
      (List.replicate m [addTwos, dropTwos]).flatten) := by
  induction m with
  | zero => exact ⟨by decide, by decide, by decide⟩
  | succ m ih =>
    rw [List.replicate_succ', List.flatten_append, run_append, List.flatten_singleton]
    exact cycled_cycle (ih (by omega)) (by omega) (by omega)

/-- A peer added, then another 2 ^ 24 times, each time but the last dropped again: the packets of the other's session
go to the first. -/
theorem misrouted :
    let bodies := addOnes :: (List.replicate (2 ^ 24 - 1) [addTwos, dropTwos]).flatten ++ [addTwos]
    let d := run (Device.step someDevice) Device.start bodies
    (twos, 2 ^ 24 + 1) ∈ d.made ∧ d.peers.byKey.get? twos = some (2 ^ 24 + 1) ∧
      findPeer d.peers (.data (sessionIndex (2 ^ 24 + 1) 0)) = some ⟨1, ones, none, none, [], none⟩ ∧ ones ≠ twos := by
  intro bodies d
  have hd : d = (run (Device.step someDevice) (Device.start.step someDevice addOnes)
      (List.replicate (2 ^ 24 - 1) [addTwos, dropTwos]).flatten).step someDevice addTwos := by
    show run _ _ (addOnes :: _ ++ [addTwos]) = _
    rw [List.cons_append, run_cons, run_append, run_cons, run_nil]
  have hcycled := cycled_cycles (2 ^ 24 - 1) (by omega)
  rw [show 2 ^ 24 - 1 + 2 = 2 ^ 24 + 1 by omega] at hcycled
  obtain ⟨hstays, hkey, -, hmade⟩ := step_addTwos hcycled (by omega) (by omega)
  rw [hd]
  refine ⟨hmade, hkey, ?_, by decide⟩
  show (Device.step someDevice _ addTwos).peers.byIndex.get? (sessionIndex (2 ^ 24 + 1) 0 / 2 ^ 8) = _
  rw [show sessionIndex (2 ^ 24 + 1) 0 / 2 ^ 8 = 1 by decide]
  exact hstays

end HidraNet.Node.Userspace
