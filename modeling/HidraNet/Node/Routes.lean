import Mathlib.Data.List.MinMax
import HidraNet.Node.Userspace

/-!
# Where the userspace device sends

A packet goes to a peer whose ranges have its address, found by a walk through the map; WireGuard's control protocol
has one table instead, in which a range is one peer's and the longest that has the address counts.  A section of a
request makes its peer anew, session and all.

As long as no section sets a peer there is already, and none gives a range that another peer has addresses of, the
walk finds the table's peer, and a peer keeps its session, its keys and its counters (`routes_run`).  Otherwise a range
that moved is two peers' (`moved_range`).
-/

namespace HidraNet.Node.Userspace

open Ints Maps Runs

/-! ### The walk -/

def mask (len : Nat) : Nat := if len = 0 then 0 else (u32Max <<< (32 - len)) % 2 ^ 32

def covers (net : Nat × Nat) (ip : Nat) : Bool := ip &&& mask net.2 = net.1 &&& mask net.2

def Peer.allows (p : Peer) (ip : Nat) : Bool := p.allowed.any (covers · ip)

/-- What a peer has of its own that is made with it: which of the sessions so far, and what was counted. -/
structure Tunnel where
  session : Nat
  rx : Nat
  tx : Nat
deriving DecidableEq

structure Routing where
  peers : Peers
  tunnels : Map Nat Tunnel
  made : Nat
deriving DecidableEq

namespace Routing

def start : Routing := ⟨⟨.empty, .empty, 1⟩, .empty, 0⟩

def set (r : Routing) (sec : PeerSet) : Routing :=
  let peers := r.peers.set sec
  if sec.remove then { r with peers, tunnels := (r.peers.byKey.get? sec.publicKey).elim r.tunnels r.tunnels.remove }
  else ⟨peers, (peers.byKey.get? sec.publicKey).elim r.tunnels (r.tunnels.set · ⟨r.made, 0, 0⟩), r.made + 1⟩

def cleared (r : Routing) (replacePeers : Bool) : Routing :=
  { r with peers := r.peers.cleared replacePeers, tunnels := if replacePeers then .empty else r.tunnels }

/-- `tun_loop` may send to any peer that the walk may find first. -/
def MaySend (r : Routing) (ip : Nat) (p : Peer) : Prop := (∃ i, r.peers.byIndex.get? i = some p) ∧ p.allows ip = true

end Routing

/-! ### The table -/

abbrev Table := List ((Nat × Nat) × Key)

def sameRange (n n' : Nat × Nat) : Bool := n.2 = n'.2 && covers n n'.1

namespace Table

def give (key : Key) (t : Table) (net : Nat × Nat) : Table := t.filter (fun e => !sameRange net e.1) ++ [(net, key)]

def set (t : Table) (sec : PeerSet) : Table :=
  let others := t.filter fun e => e.2 ≠ sec.publicKey
  if sec.remove then others else sec.allowed.foldl (give sec.publicKey) (if sec.replaceAllowed then others else t)

def lookup (t : Table) (ip : Nat) : Option Key := ((t.filter fun e => covers e.1 ip).argmax (·.1.2)).map Prod.snd

end Table

/-! ### Requests in a row -/

inductive Event where
  | set (body : List String)
  /-- A packet of the peer with this index goes in or out, and is counted. -/
  | counted (index rx tx : Nat)
deriving DecidableEq

def Routing.step (inner : Inner) (r : Routing) : Event → Routing
  | .set body =>
    match readSet inner body with
    | .error _ => r
    | .ok (replacePeers, secs) => secs.foldl Routing.set (r.cleared replacePeers)
  | .counted index rx tx =>
    match r.tunnels.get? index with
    | none => r
    | some t => { r with tunnels := r.tunnels.set index ⟨t.session, wrap64 (t.rx + rx), wrap64 (t.tx + tx)⟩ }

def Table.step (inner : Inner) (t : Table) : Event → Table
  | .set body =>
    match readSet inner body with
    | .error _ => t
    | .ok (replacePeers, secs) => secs.foldl Table.set (if replacePeers then [] else t)
  | .counted _ _ _ => t

def step (inner : Inner) (s : Routing × Table) (e : Event) : Routing × Table := (s.1.step inner e, s.2.step inner e)

/-- A packet goes where the table says, whichever peer of the map the walk finds. -/
structure Routes (r : Routing) (t : Table) : Prop where
  sent : ∀ ip p, r.MaySend ip p → t.lookup ip = some p.publicKey
  found : ∀ ip key, t.lookup ip = some key → ∃ p, r.MaySend ip p ∧ p.publicKey = key
  one : ∀ ip p p', r.MaySend ip p → r.MaySend ip p' → p = p'

/-- A peer that the request does not take away keeps what the request does not give. -/
def Keeps (inner : Inner) (r : Routing) (e : Event) : Prop :=
  ∀ body secs, e = .set body → readSet inner body = .ok (false, secs) → ∀ i p, r.peers.byIndex.get? i = some p →
    (∀ sec ∈ secs, sec.publicKey = p.publicKey → sec.remove = false) →
    (r.step inner e).tunnels.get? i = r.tunnels.get? i ∧ ∃ p', (r.step inner e).peers.byIndex.get? i = some p' ∧
      p'.publicKey = p.publicKey ∧
      (p'.preshared = p.preshared ∨ ∃ sec ∈ secs, sec.publicKey = p.publicKey ∧ sec.preshared = p'.preshared) ∧
      (p'.keepalive = p.keepalive ∨ ∃ sec ∈ secs, sec.publicKey = p.publicKey ∧ sec.keepalive = p'.keepalive)

def Fresh (s : Peers) (sec : PeerSet) : Prop :=
  sec.remove = true ∨ s.byKey.get? sec.publicKey = none ∧ s.nextIndex + 1 < 2 ^ 32 ∧
    ∀ i p, s.byIndex.get? i = some p → ∀ ip, p.allows ip = true → sec.allowed.any (covers · ip) = false

def FreshSections (s : Peers) : List PeerSet → Prop
  | [] => True
  | sec :: secs => Fresh s sec ∧ FreshSections (s.set sec) secs

def Clean (inner : Inner) (s : Routing × Table) : Event → Prop
  | .set body => ∀ replacePeers secs, readSet inner body = .ok (replacePeers, secs) →
    FreshSections (s.1.peers.cleared replacePeers) secs
  | .counted _ _ _ => True

/-! ### What a section does -/

def Peers.Given (s : Peers) (key : Key) (ip : Nat) : Prop :=
  ∃ i p, s.byIndex.get? i = some p ∧ p.publicKey = key ∧ p.allows ip = true

def Table.Given (t : Table) (key : Key) (ip : Nat) : Prop := ∃ e ∈ t, e.2 = key ∧ covers e.1 ip = true

/-- The map and the table give the same addresses, each to one peer at most. -/
structure Matches (s : Peers) (t : Table) : Prop where
  agree : s.Agree
  below : ∀ {k i}, s.byKey.get? k = some i → i < s.nextIndex
  same : ∀ key ip, t.Given key ip ↔ s.Given key ip
  apart : ∀ {key key' ip}, s.Given key ip → s.Given key' ip → key = key'

variable {s : Peers} {t : Table} {sec : PeerSet} {r : Routing}

private theorem Peers.Agree.index_unique (h : s.Agree) {i i' : Nat} {p p' : Peer} (hp : s.byIndex.get? i = some p)
    (hp' : s.byIndex.get? i' = some p') (hkey : p.publicKey = p'.publicKey) : i = i' := by
  have hi := (h.own hp).2
  rw [hkey, (h.own hp').2] at hi
  exact (Option.some.inj hi).symm

theorem Matches.cleared (h : Matches s t) (replacePeers : Bool) :
    Matches (s.cleared replacePeers) (if replacePeers then [] else t) := by
  cases replacePeers with
  | false => exact h
  | true =>
    refine ⟨Peers.agree_cleared h.agree true, fun hk => (nomatch hk), fun key ip => ⟨?_, ?_⟩, ?_⟩
    · rintro ⟨e, he, -⟩
      exact absurd he List.not_mem_nil
    · rintro ⟨i, p, hp, -⟩
      cases hp
    · rintro key key' ip ⟨i, p, hp, -⟩ -
      cases hp

private theorem Table.given_others {key key' : Key} {ip : Nat} :
    Table.Given (t.filter fun e => e.2 ≠ key) key' ip ↔ key' ≠ key ∧ t.Given key' ip := by
  constructor
  · rintro ⟨e, he, rfl, hip⟩
    obtain ⟨he, hne⟩ := List.mem_filter.1 he
    exact ⟨of_decide_eq_true hne, e, he, rfl, hip⟩
  · rintro ⟨hne, e, he, rfl, hip⟩
    exact ⟨e, List.mem_filter.2 ⟨he, decide_eq_true hne⟩, rfl, hip⟩

private theorem Peers.get?_set_remove (h : s.Agree) (hrm : sec.remove = true) {i : Nat} {p : Peer} :
    (s.set sec).byIndex.get? i = some p ↔ s.byIndex.get? i = some p ∧ p.publicKey ≠ sec.publicKey := by
  unfold Peers.set
  rw [if_pos hrm]
  cases hidx : s.byKey.get? sec.publicKey with
  | none =>
    refine ⟨fun hp => ⟨hp, fun heq => ?_⟩, And.left⟩
    have hkey := (h.own hp).2
    rw [heq, hidx] at hkey
    cases hkey
  | some idx =>
    show (s.byIndex.remove idx).get? i = some p ↔ _
    rw [Map.get?_remove]
    obtain ⟨p', hp', hkey'⟩ := h.keyed hidx
    split
    · rename_i heq
      subst heq
      constructor
      · intro hp
        cases hp
      · rintro ⟨hp, hne⟩
        rw [hp'] at hp
        cases hp
        exact absurd hkey' hne
    · rename_i hne
      refine ⟨fun hp => ⟨hp, fun heq => hne ?_⟩, And.left⟩
      exact h.index_unique hp hp' (heq.trans hkey'.symm)

theorem Matches.set_remove (h : Matches s t) (hrm : sec.remove = true) : Matches (s.set sec) (t.set sec) := by
  obtain ⟨hagree, hbk, hnext⟩ := Peers.set_remove h.agree hrm
  have hgiven : ∀ {key ip}, (s.set sec).Given key ip ↔ key ≠ sec.publicKey ∧ s.Given key ip := by
    intro key ip
    constructor
    · rintro ⟨i, p, hp, rfl, hip⟩
      obtain ⟨hp, hne⟩ := (Peers.get?_set_remove h.agree hrm).1 hp
      exact ⟨hne, i, p, hp, rfl, hip⟩
    · rintro ⟨hne, i, p, hp, rfl, hip⟩
      exact ⟨i, p, (Peers.get?_set_remove h.agree hrm).2 ⟨hp, hne⟩, rfl, hip⟩
  refine ⟨hagree, fun {k i} hk => ?_, fun key ip => ?_, fun hk hk' => ?_⟩
  · rw [hbk] at hk
    rw [hnext]
    exact h.below (Map.get?_remove_some.1 hk).2
  · unfold Table.set
    rw [if_pos hrm, hgiven, Table.given_others, h.same]
  · exact h.apart (hgiven.1 hk).2 (hgiven.1 hk').2

theorem covers_of_sameRange {n n' : Nat × Nat} (h : sameRange n n' = true) (ip : Nat) : covers n' ip = covers n ip := by
  unfold sameRange covers at h
  simp only [Bool.and_eq_true, decide_eq_true_eq] at h
  unfold covers
  rw [← h.1, h.2]

/-- Ranges that no other peer has addresses of take nothing from another. -/
private theorem Table.given_gives {key : Key} (nets : List (Nat × Nat))
    (hfree : ∀ key' ≠ key, ∀ ip, t.Given key' ip → nets.any (covers · ip) = false) {key' : Key} {ip : Nat} :
    Table.Given (nets.foldl (Table.give key) t) key' ip ↔
      t.Given key' ip ∨ key' = key ∧ nets.any (covers · ip) = true := by
  induction nets generalizing t with
  | nil => simp
  | cons net nets ih =>
    -- one range given
    have hone : ∀ {key' ip}, (t.give key net).Given key' ip ↔ t.Given key' ip ∨ key' = key ∧ covers net ip = true := by
      intro key' ip
      constructor
      · rintro ⟨e, he, rfl, hip⟩
        obtain he | he := List.mem_append.1 he
        · exact .inl ⟨e, List.mem_of_mem_filter he, rfl, hip⟩
        · rw [List.mem_singleton.1 he] at hip ⊢
          exact .inr ⟨rfl, hip⟩
      · rintro (⟨e, he, rfl, hip⟩ | ⟨rfl, hip⟩)
        · cases hsame : sameRange net e.1 with
          | false => exact ⟨e, List.mem_append_left _ (List.mem_filter.2 ⟨he, by rw [hsame]; rfl⟩), rfl, hip⟩
          | true =>
            rw [covers_of_sameRange hsame] at hip
            by_cases hkey : e.2 = key
            · exact ⟨(net, key), List.mem_append_right _ (List.mem_singleton_self _), hkey.symm, hip⟩
            · have hnone := hfree e.2 hkey ip ⟨e, he, rfl, by rw [covers_of_sameRange hsame]; exact hip⟩
              rw [List.any_cons, hip] at hnone
              cases hnone
        · exact ⟨(net, key'), List.mem_append_right _ (List.mem_singleton_self _), rfl, hip⟩
    rw [List.foldl_cons, ih, hone, List.any_cons, Bool.or_eq_true, or_assoc, ← and_or_left]
    intro key' hne ip hgiven
    obtain hgiven | ⟨heq, -⟩ := hone.1 hgiven
    · exact (Bool.or_eq_false_iff.1 (hfree key' hne ip hgiven)).2
    · exact absurd heq hne

private theorem Peers.set_new (hrm : sec.remove = false) (hnone : s.byKey.get? sec.publicKey = none) :
    s.set sec = ⟨s.byIndex.set s.nextIndex ⟨s.nextIndex, sec.publicKey, sec.preshared, sec.endpoint, sec.allowed,
      sec.keepalive⟩, s.byKey.set sec.publicKey s.nextIndex, wrap32 (s.nextIndex + 1)⟩ := by
  unfold Peers.set
  rw [if_neg (by rw [hrm]; decide), hnone]
  simp

private theorem Matches.set_new (h : Matches s t) (hrm : sec.remove = false) (hnone : s.byKey.get? sec.publicKey = none)
    (hroom : s.nextIndex + 1 < 2 ^ 32)
    (hfree : ∀ i p, s.byIndex.get? i = some p → ∀ ip, p.allows ip = true → sec.allowed.any (covers · ip) = false) :
    Matches (s.set sec) (t.set sec) := by
  have hagree := Peers.set_peer h.agree hrm h.below
  have hempty : s.byIndex.get? s.nextIndex = none := by
    cases hp : s.byIndex.get? s.nextIndex with
    | none => rfl
    | some p => exact absurd (h.below (h.agree.own hp).2) (lt_irrefl _)
  have hno : ∀ ip, ¬ s.Given sec.publicKey ip := by
    rintro ip ⟨i, p, hp, hkey, -⟩
    have hi := (h.agree.own hp).2
    rw [hkey, hnone] at hi
    cases hi
  have hgiven : ∀ {key ip}, (s.set sec).Given key ip ↔
      s.Given key ip ∨ key = sec.publicKey ∧ sec.allowed.any (covers · ip) = true := by
    intro key ip
    rw [Peers.set_new hrm hnone]
    constructor
    · rintro ⟨i, p, hp, rfl, hip⟩
      obtain ⟨-, rfl⟩ | ⟨-, hp⟩ := Map.get?_set_some.1 hp
      · exact .inr ⟨rfl, hip⟩
      · exact .inl ⟨i, p, hp, rfl, hip⟩
    · rintro (⟨i, p, hp, rfl, hip⟩ | ⟨rfl, hip⟩)
      · have hne : i ≠ s.nextIndex := by
          rintro rfl
          rw [hempty] at hp
          cases hp
        exact ⟨i, p, by rw [Map.get?_set_other _ _ hne]; exact hp, rfl, hip⟩
      · exact ⟨s.nextIndex, _, Map.get?_set_self .., rfl, hip⟩
  have hclash : ∀ {key ip}, s.Given key ip → sec.allowed.any (covers · ip) = true → False := by
    rintro key ip ⟨i, p, hp, -, hip⟩ hany
    rw [hfree i p hp ip hip] at hany
    cases hany
  refine ⟨hagree, fun {k i} hk => ?_, fun key ip => ?_, fun {key key' ip} hk hk' => ?_⟩
  · rw [Peers.set_new hrm hnone] at hk ⊢
    show i < wrap32 (s.nextIndex + 1)
    rw [show wrap32 (s.nextIndex + 1) = s.nextIndex + 1 from Nat.mod_eq_of_lt hroom]
    obtain ⟨-, rfl⟩ | ⟨-, hk⟩ := Map.get?_set_some.1 hk
    · omega
    · have hlt := h.below hk
      omega
  · have hsame : ∀ {key ip}, Table.Given (if sec.replaceAllowed then t.filter fun e => e.2 ≠ sec.publicKey else t)
        key ip ↔ s.Given key ip := by
      intro key ip
      cases sec.replaceAllowed with
      | false => exact h.same key ip
      | true =>
        rw [if_pos rfl, Table.given_others, h.same]
        refine ⟨And.right, fun hk => ⟨?_, hk⟩⟩
        rintro rfl
        exact hno ip hk
    unfold Table.set
    rw [if_neg (by rw [hrm]; decide), Table.given_gives, hsame, hgiven]
    intro key' hne ip hk
    obtain ⟨i, p, hp, -, hip⟩ := hsame.1 hk
    exact hfree i p hp ip hip
  · obtain hk | ⟨rfl, hip⟩ := hgiven.1 hk
    · obtain hk' | ⟨rfl, hip'⟩ := hgiven.1 hk'
      · exact h.apart hk hk'
      · exact (hclash hk hip').elim
    · obtain hk' | ⟨rfl, -⟩ := hgiven.1 hk'
      · exact (hclash hk' hip).elim
      · rfl

theorem Matches.set (h : Matches s t) (hfresh : Fresh s sec) : Matches (s.set sec) (t.set sec) := by
  cases hrm : sec.remove with
  | true => exact h.set_remove hrm
  | false =>
    obtain hrm' | ⟨hnone, hroom, hfree⟩ := hfresh
    · rw [hrm] at hrm'
      cases hrm'
    · exact h.set_new hrm hnone hroom hfree

private theorem Routing.set_peers (r : Routing) (sec : PeerSet) : (r.set sec).peers = r.peers.set sec := by
  unfold Routing.set
  split <;> rfl

theorem Matches.sections (h : Matches r.peers t) (secs : List PeerSet) (hfresh : FreshSections r.peers secs) :
    Matches (secs.foldl Routing.set r).peers (secs.foldl Table.set t) := by
  induction secs generalizing r t with
  | nil => exact h
  | cons sec secs ih =>
    apply ih
    · rw [Routing.set_peers]
      exact h.set hfresh.1
    · rw [Routing.set_peers]
      exact hfresh.2

private theorem matches_step (inner : Inner) (s : Routing × Table) (e : Event) (h : Matches s.1.peers s.2)
    (hclean : Clean inner s e) : Matches (step inner s e).1.peers (step inner s e).2 := by
  cases e with
  | counted index rx tx =>
    unfold step Routing.step
    dsimp only
    split <;> exact h
  | set body =>
    unfold step Routing.step Table.step
    dsimp only
    cases hread : readSet inner body with
    | error e => exact h
    | ok req => exact (h.cleared req.1 : Matches (s.1.cleared req.1).peers _).sections _ (hclean req.1 req.2 hread)

/-! ### Where packets go -/

private theorem Table.given_of_lookup {ip : Nat} {key : Key} (h : t.lookup ip = some key) : t.Given key ip := by
  obtain ⟨e, he, rfl⟩ := Option.map_eq_some_iff.1 h
  obtain ⟨he, hip⟩ := List.mem_filter.1 (List.argmax_mem he)
  exact ⟨e, he, rfl, hip⟩

theorem Table.lookup_of_given {ip : Nat} {key : Key} (h : t.Given key ip) : ∃ key', t.lookup ip = some key' := by
  obtain ⟨e, he, -, hip⟩ := h
  have hmem : e ∈ t.filter fun e => covers e.1 ip := List.mem_filter.2 ⟨he, hip⟩
  unfold Table.lookup
  cases hmax : (t.filter fun e => covers e.1 ip).argmax (·.1.2) with
  | none =>
    rw [List.argmax_eq_none.1 hmax] at hmem
    exact absurd hmem List.not_mem_nil
  | some e' => exact ⟨e'.2, rfl⟩

theorem Matches.routes (h : Matches r.peers t) : Routes r t := by
  have hgiven : ∀ {ip p}, r.MaySend ip p → r.peers.Given p.publicKey ip := fun ⟨⟨i, hp⟩, hip⟩ => ⟨i, _, hp, rfl, hip⟩
  constructor
  · intro ip p hp
    obtain ⟨key, hkey⟩ := Table.lookup_of_given ((h.same _ _).2 (hgiven hp))
    rw [hkey, h.apart (hgiven hp) ((h.same _ _).1 (Table.given_of_lookup hkey))]
  · intro ip key hkey
    obtain ⟨i, p, hp, hpk, hip⟩ := (h.same _ _).1 (Table.given_of_lookup hkey)
    exact ⟨p, ⟨⟨i, hp⟩, hip⟩, hpk⟩
  · intro ip p p' hp hp'
    have hkey := h.apart (hgiven hp) (hgiven hp')
    obtain ⟨⟨i, hi⟩, -⟩ := hp
    obtain ⟨⟨i', hi'⟩, -⟩ := hp'
    obtain rfl := h.agree.index_unique hi hi' hkey
    rw [hi] at hi'
    exact Option.some.inj hi'

/-- A section of another key's leaves a peer and its session as they are. -/
private theorem Matches.set_other (h : Matches r.peers t) (hfresh : Fresh r.peers sec) {i : Nat} {p : Peer}
    (hp : r.peers.byIndex.get? i = some p) (hne : sec.publicKey ≠ p.publicKey) :
    (r.set sec).peers.byIndex.get? i = some p ∧ (r.set sec).tunnels.get? i = r.tunnels.get? i := by
  rw [Routing.set_peers]
  unfold Routing.set
  cases hrm : sec.remove with
  | true =>
    refine ⟨(Peers.get?_set_remove h.agree hrm).2 ⟨hp, hne.symm⟩, ?_⟩
    rw [if_pos rfl]
    cases hidx : r.peers.byKey.get? sec.publicKey with
    | none => rfl
    | some idx =>
      show (r.tunnels.remove idx).get? i = _
      rw [Map.get?_remove, if_neg]
      rintro rfl
      exact hne (h.agree.key_unique hidx (h.agree.own hp).2)
  | false =>
    obtain hrm' | ⟨hnone, -, -⟩ := hfresh
    · rw [hrm] at hrm'
      cases hrm'
    · have hlt : i ≠ r.peers.nextIndex := (h.below (h.agree.own hp).2).ne
      rw [if_neg (by decide), Peers.set_new hrm hnone]
      refine ⟨by rw [Map.get?_set_other _ _ hlt]; exact hp, ?_⟩
      show (((r.peers.byKey.set _ _).get? sec.publicKey).elim r.tunnels _).get? i = _
      rw [Map.get?_set_self]
      exact Map.get?_set_other _ _ hlt

theorem Matches.kept (h : Matches r.peers t) (secs : List PeerSet) (hfresh : FreshSections r.peers secs) {i : Nat}
    {p : Peer} (hp : r.peers.byIndex.get? i = some p)
    (hstays : ∀ sec ∈ secs, sec.publicKey = p.publicKey → sec.remove = false) :
    (secs.foldl Routing.set r).peers.byIndex.get? i = some p ∧
      (secs.foldl Routing.set r).tunnels.get? i = r.tunnels.get? i := by
  induction secs generalizing r t with
  | nil => exact ⟨hp, rfl⟩
  | cons sec secs ih =>
    have hne : sec.publicKey ≠ p.publicKey := by
      intro heq
      obtain hrm | ⟨hnone, -, -⟩ := hfresh.1
      · rw [hstays sec List.mem_cons_self heq] at hrm
        cases hrm
      · rw [heq, (h.agree.own hp).2] at hnone
        cases hnone
    obtain ⟨hp', htun⟩ := h.set_other hfresh.1 hp hne
    have hset : Matches (r.set sec).peers (t.set sec) := by
      rw [Routing.set_peers]
      exact h.set hfresh.1
    obtain ⟨hpeer, htunnel⟩ := ih hset (by rw [Routing.set_peers]; exact hfresh.2) hp'
      fun sec' hsec' => hstays sec' (List.mem_cons_of_mem _ hsec')
    exact ⟨hpeer, htunnel.trans htun⟩

theorem Matches.keeps (inner : Inner) (h : Matches r.peers t) (e : Event) (hclean : Clean inner (r, t) e) :
    Keeps inner r e := by
  rintro body secs rfl hread i p hp hstays
  have hstep : r.step inner (.set body) = secs.foldl Routing.set r := by
    unfold Routing.step
    dsimp only
    rw [hread]
    rfl
  obtain ⟨hpeer, htunnel⟩ := h.kept secs (hclean false secs hread) hp hstays
  rw [hstep]
  exact ⟨htunnel, p, hpeer, rfl, .inl rfl, .inl rfl⟩

/-- While every section makes a peer, with no address of another's, or takes one away: in every state that is reached
the walk and the table name the same peer for every address, and the next such request leaves every other peer as it
is, session and counters with it. -/
theorem routes_run (inner : Inner) (es : List Event) (h : Along (step inner) (Clean inner) (Routing.start, []) es)
    (k : Nat) :
    let s := run (step inner) (Routing.start, []) (es.take k)
    Routes s.1 s.2 ∧ ∀ e, Clean inner s e → Keeps inner s.1 e := by
  intro s
  have hstart : Matches Routing.start.peers [] :=
    ⟨⟨fun h => (nomatch h), fun h => (nomatch h)⟩, fun h => (nomatch h),
      fun _ _ => ⟨fun ⟨_, he, _⟩ => absurd he List.not_mem_nil, fun ⟨_, _, hp, _⟩ => (nomatch hp)⟩,
      fun ⟨_, _, hp, _⟩ => (nomatch hp)⟩
  have hmatches : Matches s.1.peers s.2 :=
    run_invariant (P := fun s => Matches s.1.peers s.2) (matches_step inner) (h.take k) hstart
  exact ⟨hmatches.routes, fun e hclean => hmatches.keeps inner e hclean⟩

/-- No address is in both ranges. -/
def Apart (net net' : Nat × Nat) : Prop :=
  net.1 &&& (mask net.2 &&& mask net'.2) ≠ net'.1 &&& (mask net.2 &&& mask net'.2)

instance (net net' : Nat × Nat) : Decidable (Apart net net') := inferInstanceAs (Decidable (_ ≠ _))

private theorem Apart.not_covers {net net' : Nat × Nat} (h : Apart net net') {ip : Nat} (hip : covers net ip = true) :
    covers net' ip = false := by
  rw [Bool.eq_false_iff]
  intro hip'
  have hleft : ip &&& mask net.2 = net.1 &&& mask net.2 := of_decide_eq_true hip
  have hright : ip &&& mask net'.2 = net'.1 &&& mask net'.2 := of_decide_eq_true hip'
  apply h
  rw [← Nat.land_assoc, ← hleft, Nat.land_comm (mask net.2), ← Nat.land_assoc, ← hright, Nat.land_assoc, Nat.land_assoc,
    Nat.land_comm (mask net.2)]

/-- Freshness as far as it can be looked up. -/
private theorem fresh_beside {s : Peers} {sec : PeerSet} (hnone : s.byKey.get? sec.publicKey = none)
    (hroom : s.nextIndex + 1 < 2 ^ 32)
    (h : ∀ e ∈ s.byIndex.entries, ∀ net ∈ e.2.allowed, ∀ net' ∈ sec.allowed, Apart net net') : Fresh s sec := by
  refine .inr ⟨hnone, hroom, fun i p hp ip hip => ?_⟩
  rw [List.any_eq_false]
  intro net' hnet'
  obtain ⟨net, hnet, hcovers⟩ := List.any_eq_true.1 hip
  rw [(h (i, p) (Map.mem_entries.2 hp) net hnet net' hnet').not_covers hcovers]
  exact Bool.false_ne_true

private theorem clean_set {inner : Inner} {s : Routing × Table} {body : List String} (sec : PeerSet)
    (hread : readSet inner body = .ok (false, [sec])) (hfresh : Fresh s.1.peers sec) : Clean inner s (.set body) := by
  intro replacePeers secs hread'
  rw [hread] at hread'
  cases hread'
  exact ⟨hfresh, trivial⟩

private theorem length_first : (List.replicate 32 (0x11 : UInt8)).length = 32 := by decide

private def first : Key := ⟨List.replicate 32 0x11, length_first⟩

private theorem length_second : (List.replicate 32 (0x22 : UInt8)).length = 32 := by decide

private def second : Key := ⟨List.replicate 32 0x22, length_second⟩

private theorem length_device : (List.replicate 32 (0x33 : UInt8)).length = 32 := by decide

private def device : Inner := ⟨⟨List.replicate 32 0x33, length_device⟩, 51820⟩

private theorem length_third : (List.replicate 32 (0x44 : UInt8)).length = 32 := by decide

private def third : Key := ⟨List.replicate 32 0x44, length_third⟩

private def giveTen (digit : Char) : Event :=
  .set ["public_key=" ++ String.ofList (List.replicate 64 digit), "allowed_ip=10.0.0.0/8"]

private def asked (digit : Char) (field : String) : Event :=
  .set ["public_key=" ++ String.ofList (List.replicate 64 digit), field]

/-- Two peers with ranges apart; then the first goes, and a third gets some of what it had. -/
private def moves : List Event :=
  [asked '1' "allowed_ip=10.0.0.0/8", asked '2' "allowed_ip=192.168.0.0/16", .counted 2 100 50, asked '1' "remove=true",
    asked '4' "allowed_ip=10.1.0.0/16"]

private theorem along_moves : Along (step device) (Clean device) (Routing.start, []) moves := by
  refine ⟨clean_set ⟨first, false, false, [(0x0A000000, 8)], none, none, none⟩ (by decide) ?_,
    clean_set ⟨second, false, false, [(0xC0A80000, 16)], none, none, none⟩ (by decide) ?_, trivial,
    clean_set ⟨first, true, false, [], none, none, none⟩ (by decide) (.inl rfl),
    clean_set ⟨third, false, false, [(0x0A010000, 16)], none, none, none⟩ (by decide) ?_, trivial⟩
  · exact fresh_beside (by decide) (by decide) (by decide)
  · exact fresh_beside (by decide) (by decide) (by decide)
  · exact fresh_beside (by decide) (by decide) (by decide)

/-- Each range goes to the peer allowed it, also the one that a removed peer had. -/
theorem routes_run_moves :
    let s := run (step device) (Routing.start, []) (moves.take 5)
    s.2.lookup 0x0A010001 = some third ∧ s.2.lookup 0xC0A80001 = some second ∧
      (∃ p, s.1.MaySend 0x0A010001 p ∧ p.publicKey = third) ∧ ∃ p, s.1.MaySend 0xC0A80001 p ∧ p.publicKey = second := by
  have hthird : (run (step device) (Routing.start, []) (moves.take 5)).2.lookup 0x0A010001 = some third := by
    decide
  have hsecond : (run (step device) (Routing.start, []) (moves.take 5)).2.lookup 0xC0A80001 = some second := by
    decide
  obtain ⟨hroutes, -⟩ := routes_run device moves along_moves 5
  exact ⟨hthird, hsecond, hroutes.found _ _ hthird, hroutes.found _ _ hsecond⟩

/-- A network given to one peer, then to another: the table has it at the second, and both let its addresses in and may
be sent its packets. -/
theorem moved_range :
    let s := run (step device) (Routing.start, []) [giveTen '1', giveTen '2']
    s.2.lookup 0x0A000001 = some second ∧
      s.1.MaySend 0x0A000001 ⟨1, first, none, none, [(0x0A000000, 8)], none⟩ ∧
      s.1.MaySend 0x0A000001 ⟨2, second, none, none, [(0x0A000000, 8)], none⟩ ∧ first ≠ second :=
  ⟨by decide, ⟨⟨1, by decide⟩, by decide⟩, ⟨⟨2, by decide⟩, by decide⟩,
    by decide⟩

end HidraNet.Node.Userspace
