import HidraNet.Dht.Node
import HidraNet.Lib.Runs

/-!
# The routing table

The nodes a node knows, in a bucket for each place of the first bit in which their ids differ from its own.  A bucket
has `K` seats.  Of one public network (an IPv4 /24, an IPv6 /48) a bucket seats two nodes and the table ten, whatever
ids they have, and a node stays at the address it was seated with until it is removed.

* `diversityPrefix` is what the source compares; `publicNetwork` says which network it stands for
  (`diversityPrefix_eq`);
* whatever is updated and removed, the seats keep their rules (`Kept`, `kept_step`), and `findClosest` gives the
  nearest of the seated nodes (`seats_run`).
-/

namespace HidraNet.Dht.Table

open HidraNet.Core (Bytes)
open Net
open Runs

def K : Nat := 20
def MAX_PER_PREFIX_IN_BUCKET : Nat := 2
def MAX_PER_PREFIX_IN_TABLE : Nat := 10

/-! ### Networks -/

/-- `Ipv4Addr::is_loopback`, `is_private`, `is_link_local` or `is_unspecified`. -/
def isLocalV4 (ip : Nat) : Bool :=
  ip / 2 ^ 24 = 127 || isPrivate ip || ip / 2 ^ 16 = 169 * 256 + 254 || ip = 0

/-- `Ipv6Addr::is_loopback`, `is_unspecified`, unique local or link local. -/
def isLocalV6 (seg : List Nat) : Bool :=
  seg = [0, 0, 0, 0, 0, 0, 0, 1] || seg = [0, 0, 0, 0, 0, 0, 0, 0] || seg.getD 0 0 &&& 0xfe00 = 0xfc00 ||
    seg.getD 0 0 &&& 0xffc0 = 0xfe80

/-- `Ipv6Addr::to_ipv4_mapped`. -/
def toIpv4Mapped : List Nat → Option Nat
  | [0, 0, 0, 0, 0, 0xffff, ab, cd] => some (ab * 65536 + cd)
  | _ => none

def diversityPrefixV4 (ip : Nat) : Option (List Nat) :=
  if isLocalV4 ip then none else some [4, ip / 2 ^ 24, ip / 2 ^ 16 % 256, ip / 2 ^ 8 % 256, 0, 0, 0]

/-- The seven bytes that stand for the network of an address; none for one that is not on the public internet. -/
def diversityPrefix (addr : SocketAddr) : Option (List Nat) :=
  match addr.ip with
  | .v4 ip => diversityPrefixV4 ip
  | .v6 seg =>
    match toIpv4Mapped seg with
    | some ip => diversityPrefixV4 ip
    | none =>
      if isLocalV6 seg then none
      else some [6, seg.getD 0 0 / 256, seg.getD 0 0 % 256, seg.getD 1 0 / 256, seg.getD 1 0 % 256,
        seg.getD 2 0 / 256, seg.getD 2 0 % 256]

/-- A network of the public internet. -/
inductive Network where
  | ipv4 (top : Nat)
  | ipv6 (s₀ s₁ s₂ : Nat)
deriving DecidableEq

def plainIp : IpAddr → IpAddr
  | .v4 ip => .v4 ip
  | .v6 seg => (toIpv4Mapped seg).elim (.v6 seg) .v4

def publicNetwork (addr : SocketAddr) : Option Network :=
  match plainIp addr.ip with
  | .v4 ip => if isLocalV4 ip then none else some (.ipv4 (ip / 256))
  | .v6 seg => if isLocalV6 seg then none else some (.ipv6 (seg.getD 0 0) (seg.getD 1 0) (seg.getD 2 0))

namespace Network

def bytes : Network → List Nat
  | ipv4 top => [4, top / 65536, top / 256 % 256, top % 256, 0, 0, 0]
  | ipv6 s₀ s₁ s₂ => [6, s₀ / 256, s₀ % 256, s₁ / 256, s₁ % 256, s₂ / 256, s₂ % 256]

theorem bytes_inj {m n : Network} (h : m.bytes = n.bytes) : m = n := by
  cases m <;> cases n <;> simp [bytes] at h ⊢ <;> omega

end Network

theorem diversityPrefix_eq (addr : SocketAddr) : diversityPrefix addr = (publicNetwork addr).map Network.bytes := by
  have hv4 (ip : Nat) : diversityPrefixV4 ip =
      (if isLocalV4 ip then none else some (Network.ipv4 (ip / 256))).map Network.bytes := by
    unfold diversityPrefixV4
    split
    · rfl
    · simp only [Option.map_some, Network.bytes, Option.some.injEq, List.cons.injEq, and_true, true_and]
      omega
  unfold diversityPrefix publicNetwork plainIp
  cases addr.ip with
  | v4 ip => exact hv4 ip
  | v6 seg =>
    dsimp only
    cases toIpv4Mapped seg with
    | some ip => exact hv4 ip
    | none =>
      dsimp only [Option.elim_none]
      split
      · rfl
      · rfl

theorem diversityPrefix_eq_iff {addr : SocketAddr} {n : Network} :
    diversityPrefix addr = some n.bytes ↔ publicNetwork addr = some n := by
  rw [diversityPrefix_eq, Option.map_eq_some_iff]
  constructor
  · rintro ⟨m, hm, hbytes⟩
    rwa [← Network.bytes_inj hbytes]
  · intro h
    exact ⟨n, h, rfl⟩

/-! ### The buckets -/

structure BucketEntry where
  info : NodeInfo
  lastSeen : Nat
deriving DecidableEq

namespace BucketEntry

def id (e : BucketEntry) : NodeId := e.info.id

end BucketEntry

structure KBucket where
  entries : List BucketEntry
deriving DecidableEq

inductive UpdateResult where
  | inserted
  | updated
  | bucketFull (leastRecentId : NodeId)
  | tooManyFromPrefix
  | addressKept
deriving DecidableEq

namespace KBucket

def isFull (b : KBucket) : Bool := b.entries.length ≥ K

def countPrefix (b : KBucket) (p : List Nat) (except : NodeId) : Nat :=
  b.entries.countP fun e => e.id ≠ except && diversityPrefix e.info.dhtAddr = some p

def updateOrInsert (b : KBucket) (info : NodeInfo) (now : Nat) : KBucket × UpdateResult :=
  match b.entries.findIdx? (·.id = info.id) with
  | some pos =>
    -- another claim does not move the node
    if b.entries[pos]?.map (·.info.dhtAddr) ≠ some info.dhtAddr then (b, .addressKept)
    else (⟨b.entries.eraseIdx pos ++ [⟨info, now⟩]⟩, .updated)
  | none =>
    if h : b.isFull then (b, .bucketFull (b.entries.get ⟨0, by simp [isFull, K] at h; omega⟩).id)
    else (⟨b.entries ++ [⟨info, now⟩]⟩, .inserted)

def remove (b : KBucket) (id : NodeId) : KBucket :=
  match b.entries.findIdx? (·.id = id) with
  | some pos => ⟨b.entries.eraseIdx pos⟩
  | none => b

def getNodes (b : KBucket) : List NodeInfo := b.entries.map (·.info)

end KBucket

/-! ### The table -/

structure RoutingTable where
  ourId : NodeId
  buckets : List KBucket
  length_eq : buckets.length = ID_BITS

namespace RoutingTable

def new (ourId : NodeId) : RoutingTable := ⟨ourId, List.replicate ID_BITS ⟨[]⟩, List.length_replicate⟩

def bucket (t : RoutingTable) (i : Nat) (h : i < ID_BITS) : KBucket := t.buckets.get ⟨i, t.length_eq ▸ h⟩

def setBucket (t : RoutingTable) (i : Nat) (b : KBucket) : RoutingTable :=
  ⟨t.ourId, t.buckets.set i b, by rw [List.length_set, t.length_eq]⟩

def place (t : RoutingTable) (id : NodeId) : Option (Subtype (· < ID_BITS)) :=
  match h : t.ourId.bucketIndex id with
  | some idx => some ⟨idx, NodeId.bucketIndex_lt h⟩
  | none => none

/-- The network of the address has its share of the bucket or of the table without the node. -/
def crowded (t : RoutingTable) (b : KBucket) (info : NodeInfo) : Bool :=
  match diversityPrefix info.dhtAddr with
  | some p =>
    let inBucket := b.countPrefix p info.id
    let inTable := (t.buckets.map fun b => b.countPrefix p info.id).sum
    inBucket ≥ MAX_PER_PREFIX_IN_BUCKET || inTable ≥ MAX_PER_PREFIX_IN_TABLE
  | none => false

def update (t : RoutingTable) (info : NodeInfo) (now : Nat) : RoutingTable × UpdateResult :=
  if info.id = t.ourId then (t, .updated)
  else
    match t.place info.id with
    | none => (t, .updated)
    | some ⟨idx, h⟩ =>
      if t.crowded (t.bucket idx h) info then (t, .tooManyFromPrefix)
      else
        let (b, result) := (t.bucket idx h).updateOrInsert info now
        (t.setBucket idx b, result)

def remove (t : RoutingTable) (id : NodeId) : RoutingTable :=
  match t.place id with
  | some ⟨idx, h⟩ => t.setBucket idx ((t.bucket idx h).remove id)
  | none => t

def findClosest (t : RoutingTable) (target : NodeId) (count : Nat) : List NodeInfo :=
  ((t.buckets.flatMap (·.getNodes)).mergeSort
    fun a b => decide (a.id.xorDistance target ≤ b.id.xorDistance target)).take count

def addressOf (t : RoutingTable) (id : NodeId) : Option SocketAddr :=
  match t.place id with
  | some ⟨idx, h⟩ => ((t.bucket idx h).entries.find? (·.id = id)).map (·.info.dhtAddr)
  | none => none

def seats (t : RoutingTable) : List BucketEntry := t.buckets.flatMap (·.entries)

theorem place_eq_some {t : RoutingTable} {id : NodeId} {p : Subtype (· < ID_BITS)} :
    t.place id = some p ↔ t.ourId.bucketIndex id = some p.1 := by
  unfold place
  split
  · rename_i idx h
    simp only [h, Option.some.injEq, Subtype.ext_iff]
  · rename_i h
    simp [h]

theorem place_eq_none {t : RoutingTable} {id : NodeId} : t.place id = none ↔ id = t.ourId := by
  have h := NodeId.bucketIndex_eq t.ourId id
  unfold place
  split
  · rename_i idx hidx
    rw [hidx] at h
    split at h
    · cases h
    · simp [*]
  · rename_i hnone
    rw [hnone] at h
    split at h
    · simp [*]
    · cases h

end RoutingTable

/-! ### One bucket -/

namespace KBucket

variable {b b' : KBucket} {info : NodeInfo} {now : Nat} {r : UpdateResult}

theorem eraseIdx_eq_filter {l : List BucketEntry} {id : NodeId} {pos : Nat} (hnd : (l.map (·.id)).Nodup)
    (hpos : l.findIdx? (·.id = id) = some pos) : l.eraseIdx pos = l.filter (·.id ≠ id) := by
  induction l generalizing pos with
  | nil => simp at hpos
  | cons e l ih =>
    rw [List.map_cons, List.nodup_cons] at hnd
    rw [List.findIdx?_cons] at hpos
    by_cases he : e.id = id
    · -- no other entry has the id
      have hrest : ∀ e' ∈ l, decide (e'.id ≠ id) = true := by
        intro e' he'
        rw [decide_eq_true_iff]
        rintro rfl
        exact hnd.1 (by rw [he]; exact List.mem_map_of_mem he')
      simp only [he, decide_true, ↓reduceIte, Option.some.injEq] at hpos
      subst hpos
      rw [List.eraseIdx_cons_zero, List.filter_cons, if_neg (by simp [he]), List.filter_eq_self.2 hrest]
    · simp only [he, decide_false, Bool.false_eq_true, ↓reduceIte, Option.map_eq_some_iff] at hpos
      obtain ⟨pos, hpos, rfl⟩ := hpos
      rw [List.eraseIdx_cons_succ, List.filter_cons, if_pos (by simp [he]), ih hnd.2 hpos]

theorem remove_entries (hnd : (b.entries.map (·.id)).Nodup) (id : NodeId) :
    (b.remove id).entries = b.entries.filter (·.id ≠ id) := by
  unfold remove
  split
  · rename_i pos hpos
    exact eraseIdx_eq_filter hnd hpos
  · rename_i hnone
    rw [List.findIdx?_eq_none_iff] at hnone
    exact (List.filter_eq_self.2 fun e he => by simpa using hnone e he).symm

/-- The contact goes to the end, if its address is the one known for its id and there is room. -/
theorem updateOrInsert_cases (h : b.updateOrInsert info now = (b', r)) (hnd : (b.entries.map (·.id)).Nodup)
    (hfew : b.entries.length ≤ K) :
    b' = b ∨ b'.entries = b.entries.filter (·.id ≠ info.id) ++ [⟨info, now⟩] ∧ b'.entries.length ≤ K ∧
      ∀ e ∈ b.entries, e.id = info.id → e.info.dhtAddr = info.dhtAddr := by
  unfold updateOrInsert at h
  split at h
  · rename_i pos hpos
    split at h
    · cases h
      exact Or.inl rfl
    · rename_i haddr
      cases h
      obtain ⟨hlt, hid, -⟩ := List.findIdx?_eq_some_iff_getElem.1 hpos
      have hat : b.entries[pos]?.map (·.info.dhtAddr) = some info.dhtAddr := not_not.1 haddr
      rw [List.getElem?_eq_getElem hlt, Option.map_some, Option.some.injEq] at hat
      refine Or.inr ⟨by rw [eraseIdx_eq_filter hnd hpos], ?_, fun e he heid => ?_⟩
      · rw [List.length_append, List.length_eraseIdx_of_lt hlt, List.length_singleton]
        omega
      · -- the entry is the one found
        have hsame : e = b.entries[pos] :=
          List.inj_on_of_nodup_map hnd he (List.getElem_mem hlt) (heid.trans (of_decide_eq_true hid).symm)
        rw [hsame, hat]
  · rename_i hnone
    rw [List.findIdx?_eq_none_iff] at hnone
    split at h
    · cases h
      exact Or.inl rfl
    · rename_i hfull
      cases h
      have hall : b.entries.filter (·.id ≠ info.id) = b.entries :=
        List.filter_eq_self.2 fun e he => by simpa using hnone e he
      simp only [isFull, ge_iff_le, decide_eq_true_eq, not_le] at hfull
      refine Or.inr ⟨by rw [hall], by simpa using hfull, fun e he heid => ?_⟩
      exact absurd heid (by simpa using hnone e he)

end KBucket

/-! ### The rules of the seats -/

def inNetwork (n : Network) (e : BucketEntry) : Bool := publicNetwork e.info.dhtAddr = some n

theorem countPrefix_eq (b : KBucket) (n : Network) (id : NodeId) :
    b.countPrefix n.bytes id = (b.entries.filter (·.id ≠ id)).countP (inNetwork n) := by
  rw [KBucket.countPrefix, List.countP_filter]
  refine List.countP_congr fun e _ => ?_
  simp only [Bool.and_eq_true, decide_eq_true_eq, diversityPrefix_eq_iff, inNetwork, BucketEntry.id]
  exact and_comm

namespace RoutingTable

/-- What holds of the seats, whatever is updated and removed. -/
structure Kept (t : RoutingTable) : Prop where
  placed : ∀ i b, t.buckets[i]? = some b → ∀ e ∈ b.entries, t.ourId.bucketIndex e.id = some i
  nodup : ∀ b ∈ t.buckets, (b.entries.map (·.id)).Nodup
  few : ∀ b ∈ t.buckets, b.entries.length ≤ K
  bucketShare : ∀ b ∈ t.buckets, ∀ n, b.entries.countP (inNetwork n) ≤ MAX_PER_PREFIX_IN_BUCKET
  tableShare : ∀ n, t.seats.countP (inNetwork n) ≤ MAX_PER_PREFIX_IN_TABLE

variable {t : RoutingTable} {id : NodeId} {info : NodeInfo} {i now : Nat} {h : i < ID_BITS} {b' : KBucket}
  {news : List BucketEntry}

theorem getElem?_bucket (t : RoutingTable) (h : i < ID_BITS) : t.buckets[i]? = some (t.bucket i h) :=
  List.getElem?_eq_getElem _

theorem bucket_mem (t : RoutingTable) (h : i < ID_BITS) : t.bucket i h ∈ t.buckets := List.get_mem _ _

theorem setBucket_bucket (t : RoutingTable) (h : i < ID_BITS) : t.setBucket i (t.bucket i h) = t := by
  unfold setBucket bucket
  congr 1
  exact List.set_getElem_self _

theorem kept_new (ourId : NodeId) : Kept (new ourId) := by
  have hempty : ∀ b ∈ (new ourId).buckets, b = ⟨[]⟩ := fun b hb => List.eq_of_mem_replicate hb
  have hseats : (new ourId).seats = [] := by
    rw [seats, List.flatMap_eq_nil_iff]
    intro b hb
    rw [hempty b hb]
  constructor
  · intro i b hb e he
    rw [hempty b (List.mem_of_getElem? hb)] at he
    simp at he
  · intro b hb
    simp [hempty b hb]
  · intro b hb
    simp [hempty b hb]
  · intro b hb n
    simp [hempty b hb]
  · intro n
    simp [hseats]

theorem Kept.not_own (hk : Kept t) {e : BucketEntry} (he : e ∈ t.seats) : e.id ≠ t.ourId := by
  obtain ⟨b, hb, he⟩ := List.mem_flatMap.1 he
  obtain ⟨i, hi⟩ := List.mem_iff_getElem?.1 hb
  intro hown
  have hplaced := hk.placed i b hi e he
  rw [hown, NodeId.bucketIndex_eq, if_pos rfl] at hplaced
  cases hplaced

theorem Kept.seats_setBucket (hk : Kept t) (hplace : t.ourId.bucketIndex id = some i)
    (hb' : b'.entries = (t.bucket i h).entries.filter (·.id ≠ id) ++ news) :
    (t.setBucket i b').seats.Perm (t.seats.filter (·.id ≠ id) ++ news) := by
  have hlt : i < t.buckets.length := t.length_eq ▸ h
  obtain ⟨l₁, l₂, hl, hlen, hset⟩ : ∃ l₁ l₂, t.buckets = l₁ ++ t.buckets[i] :: l₂ ∧ l₁.length = i ∧
    t.buckets.set i b' = l₁ ++ b' :: l₂ := List.exists_of_set hlt
  have hothers : ∀ l : List KBucket, (∀ b ∈ l, ∃ j, j ≠ i ∧ t.buckets[j]? = some b) →
      (l.flatMap (·.entries)).filter (·.id ≠ id) = l.flatMap (·.entries) := by
    intro l hl
    refine List.filter_eq_self.2 fun e he => ?_
    obtain ⟨b, hb, he⟩ := List.mem_flatMap.1 he
    obtain ⟨j, hj, hget⟩ := hl b hb
    have hej := hk.placed j b hget e he
    rw [decide_eq_true_iff]
    rintro rfl
    exact hj (Option.some.inj (hej.symm.trans hplace))
  have h₁ := hothers l₁ fun b hb => by
    obtain ⟨j, hj, rfl⟩ := List.mem_iff_getElem.1 hb
    refine ⟨j, by omega, ?_⟩
    rw [hl, List.getElem?_append_left hj, List.getElem?_eq_getElem hj]
  have h₂ := hothers l₂ fun b hb => by
    obtain ⟨j, hj, rfl⟩ := List.mem_iff_getElem.1 hb
    refine ⟨l₁.length + 1 + j, by omega, ?_⟩
    rw [hl, List.getElem?_append_right (by omega), show l₁.length + 1 + j - l₁.length = j + 1 by omega,
      List.getElem?_cons_succ, List.getElem?_eq_getElem hj]
  have hseats : t.seats = l₁.flatMap (·.entries) ++ ((t.bucket i h).entries ++ l₂.flatMap (·.entries)) := by
    unfold seats
    conv => lhs; rw [hl]
    rw [List.flatMap_append, List.flatMap_cons]
    rfl
  have hseats' : (t.setBucket i b').seats =
      l₁.flatMap (·.entries) ++ (b'.entries ++ l₂.flatMap (·.entries)) := by
    change (t.buckets.set i b').flatMap (·.entries) = _
    rw [hset, List.flatMap_append, List.flatMap_cons]
  rw [hseats', hseats, hb', List.filter_append, List.filter_append, h₁, h₂, List.append_assoc, List.append_assoc,
    List.append_assoc]
  exact (List.perm_append_comm.append_left _).append_left _

theorem Kept.setBucket (hk : Kept t) (h : i < ID_BITS) (hplaced : ∀ e ∈ b'.entries, t.ourId.bucketIndex e.id = some i)
    (hnd : (b'.entries.map (·.id)).Nodup) (hfew : b'.entries.length ≤ K)
    (hbucket : ∀ n, b'.entries.countP (inNetwork n) ≤ MAX_PER_PREFIX_IN_BUCKET)
    (htable : ∀ n, (t.setBucket i b').seats.countP (inNetwork n) ≤ MAX_PER_PREFIX_IN_TABLE) :
    Kept (t.setBucket i b') := by
  have hmem : ∀ b ∈ (t.setBucket i b').buckets, b = b' ∨ b ∈ t.buckets := fun b hb =>
    (List.mem_or_eq_of_mem_set hb).symm
  refine ⟨fun j b hj => ?_, fun b hb => ?_, fun b hb => ?_, fun b hb => ?_, htable⟩
  · change (t.buckets.set i b')[j]? = some b at hj
    by_cases hij : i = j
    · subst hij
      rw [List.getElem?_set_self (t.length_eq ▸ h), Option.some.injEq] at hj
      exact hj ▸ hplaced
    · rw [List.getElem?_set_ne hij] at hj
      exact hk.placed j b hj
  · rcases hmem b hb with rfl | hb
    · exact hnd
    · exact hk.nodup b hb
  · rcases hmem b hb with rfl | hb
    · exact hfew
    · exact hk.few b hb
  · rcases hmem b hb with rfl | hb
    · exact hbucket
    · exact hk.bucketShare b hb

theorem Kept.update_cases (hk : Kept t) (info : NodeInfo) (now : Nat) :
    (t.update info now).1 = t ∨ ∃ (i : Nat) (h : i < ID_BITS) (b' : KBucket),
      (t.update info now).1 = t.setBucket i b' ∧ t.ourId.bucketIndex info.id = some i ∧
      b'.entries = (t.bucket i h).entries.filter (·.id ≠ info.id) ++ [⟨info, now⟩] ∧ b'.entries.length ≤ K ∧
      (∀ e ∈ (t.bucket i h).entries, e.id = info.id → e.info.dhtAddr = info.dhtAddr) ∧
      t.crowded (t.bucket i h) info = false := by
  unfold update
  split
  · exact Or.inl rfl
  · split
    · exact Or.inl rfl
    · rename_i idx h hplace
      rw [place_eq_some] at hplace
      split
      · exact Or.inl rfl
      · rename_i hcrowded
        obtain ⟨b', r, hr⟩ : ∃ b' r, (t.bucket idx h).updateOrInsert info now = (b', r) := ⟨_, _, rfl⟩
        rw [hr]
        have hmem := t.bucket_mem h
        rcases KBucket.updateOrInsert_cases hr (hk.nodup _ hmem) (hk.few _ hmem) with rfl | ⟨hb', hlen, haddr⟩
        · exact Or.inl (setBucket_bucket t h)
        · exact Or.inr ⟨idx, h, b', rfl, hplace, hb', hlen, haddr, eq_false_of_ne_true hcrowded⟩

theorem share_of_not_crowded {b : KBucket} {n : Network} (hcrowded : t.crowded b info = false)
    (hn : publicNetwork info.dhtAddr = some n) :
    (b.entries.filter (·.id ≠ info.id)).countP (inNetwork n) < MAX_PER_PREFIX_IN_BUCKET ∧
      (t.seats.filter (·.id ≠ info.id)).countP (inNetwork n) < MAX_PER_PREFIX_IN_TABLE := by
  unfold crowded at hcrowded
  rw [diversityPrefix_eq_iff.2 hn] at hcrowded
  simp only [countPrefix_eq, ge_iff_le, Bool.or_eq_false_iff, decide_eq_false_iff_not, not_le] at hcrowded
  refine ⟨hcrowded.1, ?_⟩
  rw [seats, List.filter_flatMap, List.countP_flatMap]
  exact hcrowded.2

theorem Kept.update (hk : Kept t) (info : NodeInfo) (now : Nat) : Kept (t.update info now).1 := by
  rcases hk.update_cases info now with heq | ⟨i, h, b', heq, hplace, hb', hlen, -, hcrowded⟩
  · rwa [heq]
  · rw [heq]
    have hmem := t.bucket_mem h
    have hsub : ((t.bucket i h).entries.filter (·.id ≠ info.id)).Sublist (t.bucket i h).entries := List.filter_sublist
    -- one seat more for the network of the new node, and none for the others
    have hcount : ∀ (l : List BucketEntry) (n : Network) (m : Nat), l.countP (inNetwork n) ≤ m →
        (publicNetwork info.dhtAddr = some n → (l.filter (·.id ≠ info.id)).countP (inNetwork n) < m) →
        (l.filter (·.id ≠ info.id) ++ [(⟨info, now⟩ : BucketEntry)]).countP (inNetwork n) ≤ m := by
      intro l n m hle hlt
      have hfew : (l.filter (·.id ≠ info.id)).countP (inNetwork n) ≤ l.countP (inNetwork n) :=
        List.filter_sublist.countP_le
      rw [List.countP_append, List.countP_singleton]
      by_cases hn : publicNetwork info.dhtAddr = some n
      · have := hlt hn
        rw [if_pos (by simpa [inNetwork] using hn)]
        omega
      · rw [if_neg (by simpa [inNetwork] using hn)]
        omega
    refine hk.setBucket h ?_ ?_ hlen ?_ ?_
    · intro e he
      rw [hb', List.mem_append, List.mem_singleton] at he
      rcases he with he | rfl
      · exact hk.placed i _ (t.getElem?_bucket h) e (hsub.subset he)
      · exact hplace
    · rw [hb', List.map_append, List.map_singleton]
      refine List.Nodup.append ((hk.nodup _ hmem).sublist (hsub.map _)) (List.nodup_singleton _) ?_
      rw [List.disjoint_singleton]
      intro hin
      obtain ⟨e, he, heid⟩ := List.mem_map.1 hin
      exact of_decide_eq_true (List.mem_filter.1 he).2 heid
    · intro n
      rw [hb']
      exact hcount _ n _ (hk.bucketShare _ hmem n) fun hn => (share_of_not_crowded hcrowded hn).1
    · intro n
      rw [(hk.seats_setBucket hplace hb').countP_eq]
      exact hcount _ n _ (hk.tableShare n) fun hn => (share_of_not_crowded hcrowded hn).2

theorem Kept.remove_cases (hk : Kept t) (id : NodeId) :
    t.remove id = t ∧ id = t.ourId ∨ ∃ (i : Nat) (h : i < ID_BITS) (b' : KBucket),
      t.remove id = t.setBucket i b' ∧ t.ourId.bucketIndex id = some i ∧
      b'.entries = (t.bucket i h).entries.filter (·.id ≠ id) := by
  unfold remove
  split
  · rename_i idx h hplace
    rw [place_eq_some] at hplace
    exact Or.inr ⟨idx, h, _, rfl, hplace, KBucket.remove_entries (hk.nodup _ (t.bucket_mem h)) id⟩
  · rename_i hplace
    exact Or.inl ⟨rfl, place_eq_none.1 hplace⟩

theorem Kept.remove (hk : Kept t) (id : NodeId) : Kept (t.remove id) := by
  rcases hk.remove_cases id with ⟨heq, -⟩ | ⟨i, h, b', heq, hplace, hb'⟩
  · rwa [heq]
  · rw [heq]
    have hmem := t.bucket_mem h
    have hsub : b'.entries.Sublist (t.bucket i h).entries := hb' ▸ List.filter_sublist
    refine hk.setBucket h (fun e he => ?_) ?_ ?_ (fun n => ?_) (fun n => ?_)
    · exact hk.placed i _ (t.getElem?_bucket h) e (hsub.subset he)
    · exact (hk.nodup _ hmem).sublist (hsub.map _)
    · exact hsub.length_le.trans (hk.few _ hmem)
    · exact (hsub.countP_le).trans (hk.bucketShare _ hmem n)
    · rw [(hk.seats_setBucket hplace (hb'.trans (List.append_nil _).symm)).countP_eq, List.append_nil]
      exact (List.filter_sublist.countP_le).trans (hk.tableShare n)

theorem Kept.mem_bucket (hk : Kept t) (h : i < ID_BITS) {e : BucketEntry} (he : e ∈ t.seats)
    (hplace : t.ourId.bucketIndex e.id = some i) : e ∈ (t.bucket i h).entries := by
  obtain ⟨b, hb, he⟩ := List.mem_flatMap.1 he
  obtain ⟨j, hj⟩ := List.mem_iff_getElem?.1 hb
  have hij : i = j := Option.some.inj (hplace.symm.trans (hk.placed j b hj e he))
  subst hij
  rw [t.getElem?_bucket h, Option.some.injEq] at hj
  rwa [hj]

theorem Kept.nodup_seats (hk : Kept t) : (t.seats.map (·.id)).Nodup := by
  rw [seats, List.map_flatMap, List.nodup_flatMap]
  refine ⟨hk.nodup, ?_⟩
  rw [List.pairwise_iff_getElem]
  intro i j hi hj hij id hin hjn
  obtain ⟨e, he, rfl⟩ := List.mem_map.1 hin
  obtain ⟨e', he', hid⟩ := List.mem_map.1 hjn
  have hpi := hk.placed i _ (List.getElem?_eq_getElem hi) e he
  have hpj := hk.placed j _ (List.getElem?_eq_getElem hj) e' he'
  rw [hid, hpi, Option.some.injEq] at hpj
  omega

theorem Kept.addressOf_eq_some (hk : Kept t) {a : SocketAddr} :
    t.addressOf id = some a ↔ ∃ e ∈ t.seats, e.id = id ∧ e.info.dhtAddr = a := by
  unfold addressOf
  split
  · rename_i idx h hplace
    rw [place_eq_some] at hplace
    rw [Option.map_eq_some_iff]
    constructor
    · rintro ⟨e, he, rfl⟩
      refine ⟨e, List.mem_flatMap.2 ⟨_, t.bucket_mem h, List.mem_of_find?_eq_some he⟩, ?_, rfl⟩
      simpa using List.find?_some he
    · rintro ⟨e, he, rfl, rfl⟩
      have hin := hk.mem_bucket h he hplace
      obtain ⟨e', he'⟩ : ∃ e', (t.bucket idx h).entries.find? (·.id = e.id) = some e' :=
        Option.isSome_iff_exists.1 (List.find?_isSome.2 ⟨e, hin, by simp⟩)
      have hid : e'.id = e.id := by simpa using List.find?_some he'
      have hsame : e' = e :=
        List.inj_on_of_nodup_map (hk.nodup _ (t.bucket_mem h)) (List.mem_of_find?_eq_some he') hin hid
      exact ⟨e', he', by rw [hsame]⟩
  · rename_i hplace
    rw [place_eq_none] at hplace
    constructor
    · intro h
      cases h
    · rintro ⟨e, he, rfl, -⟩
      exact absurd hplace (hk.not_own he)

/-! ### Whole runs -/

inductive TableEvent where
  | update (info : NodeInfo) (now : Nat)
  | remove (id : NodeId)

def step (t : RoutingTable) : TableEvent → RoutingTable
  | .update info now => (t.update info now).1
  | .remove id => t.remove id

theorem kept_step {t : RoutingTable} (e : TableEvent) (hk : Kept t) : Kept (step t e) := by
  cases e with
  | update info now => exact hk.update info now
  | remove id => exact hk.remove id

theorem kept_run (ourId : NodeId) (es : List TableEvent) : Kept (run step (new ourId) es) :=
  run_always (fun _ e hk => kept_step e hk) (kept_new ourId) es

theorem ourId_step (t : RoutingTable) (e : TableEvent) : (step t e).ourId = t.ourId := by
  cases e with
  | update info now =>
    change (t.update info now).1.ourId = t.ourId
    unfold update
    split
    · rfl
    · split
      · rfl
      · split <;> rfl
  | remove id =>
    change (t.remove id).ourId = t.ourId
    unfold remove
    split <;> rfl

theorem ourId_run (ourId : NodeId) (es : List TableEvent) : (run step (new ourId) es).ourId = ourId :=
  run_always (P := fun t => t.ourId = ourId) (fun t e h => (ourId_step t e).trans h) rfl es

theorem Kept.addressOf_step (hk : Kept t) {a : SocketAddr} (ha : t.addressOf id = some a) {e : TableEvent}
    (he : e ≠ .remove id) : (step t e).addressOf id = some a := by
  obtain ⟨s, hs, rfl, rfl⟩ := hk.addressOf_eq_some.1 ha
  refine (kept_step e hk).addressOf_eq_some.2 ?_
  cases e with
  | update info now =>
    rcases hk.update_cases info now with heq | ⟨i, h, b', heq, hplace, hb', -, haddr, -⟩
    · exact ⟨s, by rwa [step, heq], rfl, rfl⟩
    · have hperm := hk.seats_setBucket hplace hb'
      rw [step, heq]
      by_cases hid : s.id = info.id
      · refine ⟨⟨info, now⟩, hperm.mem_iff.2 (by simp), hid.symm, ?_⟩
        exact (haddr s (hk.mem_bucket h hs (hid ▸ hplace)) hid).symm
      · exact ⟨s, hperm.mem_iff.2 (by simp [hs, hid]), rfl, rfl⟩
  | remove id' =>
    have hid : s.id ≠ id' := fun hid => he (by rw [hid])
    rcases hk.remove_cases id' with ⟨heq, -⟩ | ⟨i, h, b', heq, hplace, hb'⟩
    · exact ⟨s, by rwa [step, heq], rfl, rfl⟩
    · have hperm := hk.seats_setBucket hplace (hb'.trans (List.append_nil _).symm)
      rw [step, heq]
      exact ⟨s, hperm.mem_iff.2 (by simp [hs, hid]), rfl, rfl⟩

theorem Kept.addressOf_run (hk : Kept t) {a : SocketAddr} (ha : t.addressOf id = some a) {es : List TableEvent}
    (hes : ∀ e ∈ es, e ≠ .remove id) : (run step t es).addressOf id = some a := by
  induction es generalizing t with
  | nil => exact ha
  | cons e es ih =>
    rw [List.forall_mem_cons] at hes
    exact ih (kept_step e hk) (hk.addressOf_step ha hes.1) hes.2

/-! ### The nearest nodes -/

theorem getNodes_eq (t : RoutingTable) : t.buckets.flatMap (·.getNodes) = t.seats.map (·.info) := by
  rw [seats, List.map_flatMap]
  rfl

theorem length_findClosest (t : RoutingTable) (target : NodeId) (count : Nat) :
    (t.findClosest target count).length = min count t.seats.length := by
  rw [findClosest, getNodes_eq, List.length_take, List.length_mergeSort, List.length_map]

theorem Kept.sorted (hk : Kept t) (target : NodeId) :
    ((t.buckets.flatMap (·.getNodes)).mergeSort
      fun a b => decide (a.id.xorDistance target ≤ b.id.xorDistance target)).Pairwise
      fun a b => a.id.distance target < b.id.distance target := by
  have hle : ∀ a b : NodeInfo, decide (a.id.xorDistance target ≤ b.id.xorDistance target) = true ↔
      a.id.distance target ≤ b.id.distance target := by
    intro a b
    rw [decide_eq_true_iff, ← List.not_lt, ← NodeId.distance_lt_iff, not_lt]
  have hsorted : ((t.buckets.flatMap (·.getNodes)).mergeSort
      fun a b => decide (a.id.xorDistance target ≤ b.id.xorDistance target)).Pairwise
      fun a b => decide (a.id.xorDistance target ≤ b.id.xorDistance target) = true := by
    apply List.pairwise_mergeSort
    · intro a b c hab hbc
      rw [hle] at *
      exact hab.trans hbc
    · intro a b
      rw [Bool.or_eq_true, hle, hle]
      exact le_total _ _
  have hnd : ((t.buckets.flatMap (·.getNodes)).mergeSort
      fun a b => decide (a.id.xorDistance target ≤ b.id.xorDistance target)).Pairwise fun a b => a.id ≠ b.id := by
    have hids : ((t.buckets.flatMap (·.getNodes)).map (·.id)).Nodup := by
      rw [getNodes_eq, List.map_map]
      exact hk.nodup_seats
    exact List.pairwise_map.1 (((List.mergeSort_perm _ _).map _).nodup_iff.2 hids)
  refine hsorted.imp₂ ?_ hnd
  intro a b hab hne
  exact lt_of_le_of_ne ((hle a b).1 hab) fun heq => hne (NodeId.distance_inj heq)

theorem Kept.findClosest_sorted (hk : Kept t) (target : NodeId) (count : Nat) :
    (t.findClosest target count).Pairwise fun a b => a.id.distance target < b.id.distance target :=
  (hk.sorted target).sublist (List.take_sublist _ _)

theorem mem_of_findClosest {target : NodeId} {count : Nat} (h : info ∈ t.findClosest target count) :
    info ∈ t.seats.map (·.info) := by
  rw [← getNodes_eq]
  exact (List.mergeSort_perm _ _).mem_iff.1 (List.mem_of_mem_take h)

theorem Kept.findClosest_nearest (hk : Kept t) {target : NodeId} {count : Nat} {near : NodeInfo}
    (hnear : near ∈ t.findClosest target count) (hseated : info ∈ t.seats.map (·.info))
    (hout : info ∉ t.findClosest target count) : near.id.distance target < info.id.distance target := by
  have hsorted := hk.sorted target
  unfold findClosest at hnear hout
  rw [← getNodes_eq, ← (List.mergeSort_perm _ fun a b =>
    decide (a.id.xorDistance target ≤ b.id.xorDistance target)).mem_iff] at hseated
  generalize (t.buckets.flatMap (·.getNodes)).mergeSort _ = l at *
  rw [← List.take_append_drop count l, List.mem_append] at hseated
  rw [← List.take_append_drop count l, List.pairwise_append] at hsorted
  exact hsorted.2.2 near hnear info (hseated.resolve_left hout)

/-- Whatever is updated and removed from the empty table on: an id has one seat at most, in the bucket its distance
names, and the own id none; no bucket and no public network has more than its seats; a node stays at its address
until it is removed; and the nearest nodes are the nearest, in order. -/
theorem seats_run (ourId : NodeId) (es : List TableEvent) :
    let t := run step (new ourId) es
    ((t.seats.map (·.id)).Nodup ∧ ourId ∉ t.seats.map (·.id) ∧
      ∀ i b, t.buckets[i]? = some b → ∀ e ∈ b.entries,
        ourId.bucketIndex e.id = some i ∧ i = Nat.log2 (ourId.value ^^^ e.id.value)) ∧
    (∀ b ∈ t.buckets, b.entries.length ≤ K) ∧
    (∀ n, (∀ b ∈ t.buckets, b.entries.countP (inNetwork n) ≤ MAX_PER_PREFIX_IN_BUCKET) ∧
      t.seats.countP (inNetwork n) ≤ MAX_PER_PREFIX_IN_TABLE) ∧
    (∀ e ∈ t.seats, t.addressOf e.id = some e.info.dhtAddr ∧
      ∀ later, (∀ s ∈ later, s ≠ .remove e.id) → (run step t later).addressOf e.id = some e.info.dhtAddr) ∧
    ∀ target count,
      (t.findClosest target count).length = min count t.seats.length ∧
      (t.findClosest target count).Pairwise (fun a b => a.id.distance target < b.id.distance target) ∧
      (∀ near ∈ t.findClosest target count, near ∈ t.seats.map (·.info) ∧
        ∀ info ∈ t.seats.map (·.info), info ∉ t.findClosest target count →
          near.id.distance target < info.id.distance target) := by
  intro t
  have hk : Kept t := kept_run ourId es
  have hown : t.ourId = ourId := ourId_run ourId es
  have hplaced : ∀ i b, t.buckets[i]? = some b → ∀ e ∈ b.entries, ourId.bucketIndex e.id = some i :=
    hown ▸ hk.placed
  refine ⟨⟨hk.nodup_seats, ?_, fun i b hb e he => ⟨hplaced i b hb e he, ?_⟩⟩, hk.few,
    fun n => ⟨fun b hb => hk.bucketShare b hb n, hk.tableShare n⟩, fun e he => ?_, fun target count => ?_⟩
  · intro hin
    obtain ⟨e, he, heid⟩ := List.mem_map.1 hin
    exact hk.not_own he (heid.trans hown.symm)
  · have h := hplaced i b hb e he
    rw [NodeId.bucketIndex_eq] at h
    split at h
    · cases h
    · rw [← NodeId.distance_eq_xor]
      exact (Option.some.inj h).symm
  · have haddr : t.addressOf e.id = some e.info.dhtAddr := hk.addressOf_eq_some.2 ⟨e, he, rfl, rfl⟩
    exact ⟨haddr, fun later hlater => hk.addressOf_run haddr hlater⟩
  · exact ⟨length_findClosest t target count, hk.findClosest_sorted target count, fun near hnear =>
      ⟨mem_of_findClosest hnear, fun info hinfo hout => hk.findClosest_nearest hnear hinfo hout⟩⟩

end RoutingTable

end HidraNet.Dht.Table
