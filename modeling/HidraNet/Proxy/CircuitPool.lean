import HidraNet.Lib.Base64
import HidraNet.Lib.Lists
import HidraNet.Proxy.Socks

/-!
# The hops of a circuit

A circuit has three hops, drawn from the relays that are known with an identity key: the configured ones, since those
that the hidden network adds come without.  A relay is told from another by its place in the list only, so the three
hops are three relays, whatever is drawn, just when every key that may be drawn is one and no two entries share a key
or an address (`sound_iff`, `one_relay_twice`).  That there are too few relays is said only when there are.
-/

namespace HidraNet.Proxy

open HidraNet.Core (Bytes)
open Net Text

structure RelayEntry where
  name : String
  addr : SocketAddr
  /-- The relay's identity key in base64, from the list that the client trusts. -/
  noisePubkeyB64 : String
deriving DecidableEq

def RelayEntry.keyed (r : RelayEntry) : Bool := trim r.noisePubkeyB64 ≠ ""

-- what the library reads of a base64 text
variable (base64 : String → Option Bytes)

/-- The key that a relay has to prove it has. -/
def expectedKey (relay : RelayEntry) : Except HidraError Bytes :=
  let b64 := trim relay.noisePubkeyB64
  if b64 = "" then
    .error (.circuit
      "a relay on the circuit has no identity key on record; refusing to build an unauthenticated circuit")
  else
    match base64 b64 with
    | none => .error (.circuit "a relay's identity key is not valid base64")
    | some bytes =>
      if bytes.length ≠ 32 then .error (.circuit "a relay's identity key is not 32 bytes") else .ok bytes

/-- How one call shuffles. -/
structure Draw where
  shuffle : List RelayEntry → List RelayEntry
  perm : ∀ l, (shuffle l).Perm l

def selectRelays (d : Draw) (all : List RelayEntry) : Except HidraError (List RelayEntry) :=
  let selected := all.filter RelayEntry.keyed
  if selected.length < 3 then
    .error (.circuit ("need at least 3 relays with a known identity key, have " ++ toString selected.length))
  else .ok ((d.shuffle selected).take 3)

/-- The hops of a circuit whose last is `exit`, an introduction point. -/
def buildCircuitVia (d : Draw) (relays : List RelayEntry) (exit : SocketAddr) : Except HidraError (List RelayEntry) :=
  match relays.find? fun r => r.addr = exit && r.keyed with
  | none => .error (.circuit "the introduction point is not a relay with a known identity key")
  | some last =>
    let others := relays.filter fun r => r.addr ≠ exit && r.keyed
    if others.length < 2 then
      .error (.circuit ("need two relays with a known identity key besides the introduction point, have " ++
        toString others.length))
    else .ok ((d.shuffle others).take 2 ++ [last])

/-- A node that the hidden network names. -/
structure Found where
  id : String
  dhtAddr : SocketAddr
  relayAddr : Option SocketAddr
deriving DecidableEq

/-- The relays of the pool: the configured ones, and those found that are at no address yet. -/
def discoverRelays (staticRelays : List RelayEntry) (found : Except HidraError (List Found)) : List RelayEntry :=
  match found with
  | .ok nodes => nodes.foldl (fun all n =>
      let addr := n.relayAddr.getD n.dhtAddr
      if all.any fun r => r.addr = addr then all else all ++ [⟨n.id, addr, ""⟩]) staticRelays
  | .error _ => staticRelays

/-! ### What is to hold -/

def Known (r : RelayEntry) : Prop := ∃ key, expectedKey base64 r = .ok key

def Different (r r' : RelayEntry) : Prop := r.addr ≠ r'.addr ∧ expectedKey base64 r ≠ expectedKey base64 r'

structure ThreeRelays (path : List RelayEntry) : Prop where
  three : path.length = 3
  known : ∀ r ∈ path, Known base64 r
  different : path.Pairwise (Different base64)

def EndsAt (exit : SocketAddr) (path : List RelayEntry) : Prop := ∃ last, path.getLast? = some last ∧ last.addr = exit

/-- The hops are three relays of the list, the last the one asked for; and there are none where there is no path. -/
structure Sound (d : Draw) (all : List RelayEntry) (exit : SocketAddr) : Prop where
  selected : ∀ path, selectRelays d all = .ok path → ThreeRelays base64 path
  via : ∀ path, buildCircuitVia d all exit = .ok path → ThreeRelays base64 path ∧ EndsAt exit path
  refused : ∀ e, selectRelays d all = .error e → ¬ ∃ path, path ⊆ all ∧ ThreeRelays base64 path
  refusedVia : ∀ e, buildCircuitVia d all exit = .error e →
    ¬ ∃ path, path ⊆ all ∧ ThreeRelays base64 path ∧ EndsAt exit path

/-! ### When -/

def OneEach (l : List RelayEntry) : Prop := (∀ r ∈ l, Known base64 r) ∧ l.Pairwise (Different base64)

def keyedRelays (all : List RelayEntry) : List RelayEntry := all.filter RelayEntry.keyed

def others (all : List RelayEntry) (exit : SocketAddr) : List RelayEntry :=
  all.filter fun r => r.addr ≠ exit && r.keyed

def introPoint (all : List RelayEntry) (exit : SocketAddr) : Option RelayEntry :=
  all.find? fun r => r.addr = exit && r.keyed

/-- Where a path is made at all, what it is drawn from has each relay once. -/
structure Apart (all : List RelayEntry) (exit : SocketAddr) : Prop where
  keyed : 3 ≤ (keyedRelays all).length → OneEach base64 (keyedRelays all)
  via : ∀ last, introPoint all exit = some last → 2 ≤ (others all exit).length →
    OneEach base64 (others all exit ++ [last])

variable {base64}

/-! ### Drawing -/

/-- The draw that puts these in front. -/
def Draw.of (l l' : List RelayEntry) (h : l'.Perm l) : Draw where
  shuffle := fun x => if x = l then l' else x
  perm := fun x => by
    split
    · rename_i heq
      rw [heq]
      exact h
    · exact List.Perm.refl x

theorem Different.symm {r r' : RelayEntry} (h : Different base64 r r') : Different base64 r' r :=
  ⟨h.1.symm, h.2.symm⟩

theorem OneEach.perm {l l' : List RelayEntry} (h : OneEach base64 l) (hperm : l'.Perm l) : OneEach base64 l' :=
  ⟨fun r hr => h.1 r (hperm.subset hr), (hperm.pairwise_iff Different.symm).2 h.2⟩

theorem OneEach.sublist {l l' : List RelayEntry} (h : OneEach base64 l) (hsub : l'.Sublist l) : OneEach base64 l' :=
  ⟨fun r hr => h.1 r (hsub.subset hr), h.2.sublist hsub⟩

private theorem oneEach_draw {l after : List RelayEntry} {k : Nat} (hk : 2 ≤ k) (hl : k ≤ l.length) :
    (∀ d : Draw, OneEach base64 ((d.shuffle l).take k ++ after)) ↔ OneEach base64 (l ++ after) := by
  constructor
  · intro h
    -- what a permutation puts in front is drawn by one draw
    have hdraw : ∀ l' : List RelayEntry, l'.Perm l → OneEach base64 (l'.take k ++ after) := by
      intro l' hperm
      have hone := h (Draw.of l l' hperm)
      unfold Draw.of at hone
      dsimp only at hone
      rwa [if_pos rfl] at hone
    have hfront : ∀ r ∈ l, Known base64 r ∧ ∀ r' ∈ after, Different base64 r r' := by
      intro r hr
      obtain ⟨front, rest, rfl⟩ := List.append_of_mem hr
      have hone := hdraw (r :: (front ++ rest)) List.perm_middle.symm
      obtain ⟨k, rfl⟩ : ∃ k', k = k' + 1 := ⟨k - 1, by omega⟩
      rw [List.take_succ_cons] at hone
      refine ⟨hone.1 r (by simp), fun r' hr' => ?_⟩
      exact (List.pairwise_append.1 hone.2).2.2 r List.mem_cons_self r' hr'
    have hself := hdraw l (List.Perm.refl l)
    have hbehind := (List.pairwise_append.1 hself.2).2.1
    refine ⟨fun r hr => ?_, List.pairwise_append.2 ⟨Lists.pairwise_of_perm fun a b rest hperm => ?_, hbehind, ?_⟩⟩
    · rcases List.mem_append.1 hr with hr | hr
      · exact (hfront r hr).1
      · exact hself.1 r (List.mem_append_right _ hr)
    · have hone := hdraw _ hperm
      obtain ⟨k, rfl⟩ : ∃ k', k = k' + 2 := ⟨k - 2, by omega⟩
      rw [List.take_succ_cons, List.take_succ_cons] at hone
      exact (List.pairwise_cons.1 hone.2).1 b (by simp)
    · exact fun r hr => (hfront r hr).2
  · intro h d
    have hsub : ((d.shuffle l).take k ++ after).Sublist (d.shuffle l ++ after) :=
      List.Sublist.append (List.take_sublist k _) (List.Sublist.refl _)
    exact OneEach.sublist (h.perm ((d.perm l).append_right after)) hsub

/-! ### The list of relays -/

section

variable {d : Draw} {all path : List RelayEntry} {exit : SocketAddr} {r : RelayEntry}

private theorem threeRelays_iff (h : path.length = 3) : ThreeRelays base64 path ↔ OneEach base64 path :=
  ⟨fun hthree => ⟨hthree.known, hthree.different⟩, fun hone => ⟨h, hone.1, hone.2⟩⟩

private theorem keyed_of_known (h : Known base64 r) : r.keyed = true := by
  obtain ⟨key, hkey⟩ := h
  unfold RelayEntry.keyed
  by_contra hblank
  have hblank : trim r.noisePubkeyB64 = "" := by simpa using hblank
  unfold expectedKey at hkey
  rw [if_pos hblank] at hkey
  cases hkey

private theorem nodup_of_different (h : path.Pairwise (Different base64)) : path.Nodup :=
  h.imp fun hdiff heq => hdiff.1 (congrArg RelayEntry.addr heq)

private theorem three_le_keyed (hsub : path ⊆ all) (h : ThreeRelays base64 path) : 3 ≤ (keyedRelays all).length := by
  have hsubperm : path.Subperm (keyedRelays all) := by
    refine List.subperm_of_subset (nodup_of_different h.different) fun r hr => ?_
    exact List.mem_filter.2 ⟨hsub hr, keyed_of_known (h.known r hr)⟩
  rw [← h.three]
  exact hsubperm.length_le

private theorem path_via (hsub : path ⊆ all) (h : ThreeRelays base64 path) (hend : EndsAt exit path) :
    (∃ last, introPoint all exit = some last) ∧ 2 ≤ (others all exit).length := by
  obtain ⟨last, hlast, haddr⟩ := hend
  obtain ⟨front, rfl⟩ := List.getLast?_eq_some_iff.1 hlast
  have hmem : last ∈ front ++ [last] := by simp
  have hfound : (introPoint all exit).isSome := by
    refine List.find?_isSome.2 ⟨last, hsub hmem, ?_⟩
    rw [keyed_of_known (h.known last hmem), haddr]
    simp
  refine ⟨Option.isSome_iff_exists.1 hfound, ?_⟩
  have hapart := List.pairwise_append.1 h.different
  have hsubperm : front.Subperm (others all exit) := by
    refine List.subperm_of_subset (nodup_of_different hapart.1) fun r hr => ?_
    have hr' := List.mem_append_left [last] hr
    have hne : r.addr ≠ exit := haddr ▸ (hapart.2.2 r hr last (by simp)).1
    refine List.mem_filter.2 ⟨hsub hr', ?_⟩
    rw [keyed_of_known (h.known r hr')]
    simpa using hne
  have hlength := h.three
  rw [List.length_append, List.length_singleton] at hlength
  have hle := hsubperm.length_le
  omega

private theorem selectRelays_cases (d : Draw) (all : List RelayEntry) :
    ((keyedRelays all).length < 3 ∧ ∃ e, selectRelays d all = .error e) ∨
      (3 ≤ (keyedRelays all).length ∧ selectRelays d all = .ok ((d.shuffle (keyedRelays all)).take 3)) := by
  unfold selectRelays
  dsimp only
  split
  · rename_i hlt
    exact Or.inl ⟨hlt, _, rfl⟩
  · rename_i hle
    exact Or.inr ⟨not_lt.1 hle, rfl⟩

private theorem buildCircuitVia_cases (d : Draw) (all : List RelayEntry) (exit : SocketAddr) :
    ((∀ last, introPoint all exit = some last → (others all exit).length < 2) ∧
        ∃ e, buildCircuitVia d all exit = .error e) ∨
      ∃ last, introPoint all exit = some last ∧ 2 ≤ (others all exit).length ∧
        buildCircuitVia d all exit = .ok ((d.shuffle (others all exit)).take 2 ++ [last]) := by
  unfold buildCircuitVia
  split
  · rename_i hnone
    refine Or.inl ⟨fun last hlast => ?_, _, rfl⟩
    unfold introPoint at hlast
    rw [hnone] at hlast
    cases hlast
  · rename_i last hlast
    dsimp only
    split
    · rename_i hlt
      exact Or.inl ⟨fun _ _ => hlt, _, rfl⟩
    · rename_i hle
      exact Or.inr ⟨last, hlast, not_lt.1 hle, rfl⟩

private theorem length_draw {l : List RelayEntry} {k : Nat} (h : k ≤ l.length) : ((d.shuffle l).take k).length = k := by
  rw [List.length_take, (d.perm l).length_eq]
  omega

private theorem sound_iff_apart : (∀ d : Draw, Sound base64 d all exit) ↔ Apart base64 all exit := by
  constructor
  · intro h
    constructor
    · intro hthree
      rw [← List.append_nil (keyedRelays all)]
      refine (oneEach_draw (by decide) hthree).1 fun d => ?_
      rcases selectRelays_cases d all with ⟨hlt, -⟩ | ⟨-, heq⟩
      · omega
      · rw [List.append_nil]
        exact (threeRelays_iff (length_draw hthree)).1 ((h d).selected _ heq)
    · intro last hlast htwo
      refine (oneEach_draw (le_refl 2) htwo).1 fun d => ?_
      rcases buildCircuitVia_cases d all exit with ⟨hlt, -⟩ | ⟨last', hlast', -, heq⟩
      · have := hlt last hlast
        omega
      · obtain rfl : last' = last := Option.some.inj (hlast'.symm.trans hlast)
        have hthree := ((h d).via _ heq).1
        exact (threeRelays_iff hthree.three).1 hthree
  · intro h d
    constructor
    · intro path hpath
      rcases selectRelays_cases d all with ⟨-, e, heq⟩ | ⟨hthree, heq⟩
      · rw [heq] at hpath
        cases hpath
      · obtain rfl := Except.ok.inj (heq.symm.trans hpath)
        rw [threeRelays_iff (length_draw hthree)]
        have hone := h.keyed hthree
        rw [← List.append_nil (keyedRelays all)] at hone
        have hdrawn := (oneEach_draw (by decide) hthree).2 hone d
        rwa [List.append_nil] at hdrawn
    · intro path hpath
      rcases buildCircuitVia_cases d all exit with ⟨-, e, heq⟩ | ⟨last, hlast, htwo, heq⟩
      · rw [heq] at hpath
        cases hpath
      · obtain rfl := Except.ok.inj (heq.symm.trans hpath)
        have hlength : ((d.shuffle (others all exit)).take 2 ++ [last]).length = 3 := by
          rw [List.length_append, length_draw htwo]
          rfl
        have haddr : last.addr = exit := by
          have hfit := List.find?_some hlast
          simp only [Bool.and_eq_true, decide_eq_true_eq] at hfit
          exact hfit.1
        refine ⟨(threeRelays_iff hlength).2 ((oneEach_draw (le_refl 2) htwo).2 (h.via last hlast htwo) d), last, ?_,
          haddr⟩
        exact List.getLast?_concat
    · rintro e he ⟨path, hsub, hpath⟩
      have hthree := three_le_keyed hsub hpath
      rcases selectRelays_cases d all with ⟨hlt, -⟩ | ⟨-, heq⟩
      · omega
      · rw [heq] at he
        cases he
    · rintro e he ⟨path, hsub, hpath, hend⟩
      obtain ⟨⟨last, hlast⟩, htwo⟩ := path_via hsub hpath hend
      rcases buildCircuitVia_cases d all exit with ⟨hlt, -⟩ | ⟨_, -, -, heq⟩
      · have := hlt last hlast
        omega
      · rw [heq] at he
        cases he

private theorem keyed_discoverRelays (staticRelays : List RelayEntry) (found : Except HidraError (List Found)) :
    ∃ unkeyed, discoverRelays staticRelays found = staticRelays ++ unkeyed ∧ ∀ r ∈ unkeyed, r.keyed = false := by
  cases found with
  | error e => exact ⟨[], (List.append_nil _).symm, fun r hr => (List.not_mem_nil hr).elim⟩
  | ok nodes =>
    unfold discoverRelays
    dsimp only
    induction nodes using List.reverseRecOn with
    | nil => exact ⟨[], (List.append_nil _).symm, fun r hr => (List.not_mem_nil hr).elim⟩
    | append_singleton nodes n ih =>
      obtain ⟨unkeyed, heq, hunkeyed⟩ := ih
      rw [List.foldl_append, List.foldl_cons, List.foldl_nil, heq]
      split
      · exact ⟨unkeyed, rfl, hunkeyed⟩
      · refine ⟨unkeyed ++ [⟨n.id, n.relayAddr.getD n.dhtAddr, ""⟩], List.append_assoc .., fun r hr => ?_⟩
        rcases List.mem_append.1 hr with hr | hr
        · exact hunkeyed r hr
        · obtain rfl := List.mem_singleton.1 hr
          rfl

private theorem filter_discoverRelays {p : RelayEntry → Bool} (hp : ∀ r, r.keyed = false → p r = false)
    (staticRelays : List RelayEntry) (found : Except HidraError (List Found)) :
    (discoverRelays staticRelays found).filter p = staticRelays.filter p := by
  obtain ⟨unkeyed, heq, hunkeyed⟩ := keyed_discoverRelays staticRelays found
  have hnone : unkeyed.filter p = [] := by
    refine List.filter_eq_nil_iff.2 fun r hr => ?_
    rw [hp r (hunkeyed r hr)]
    exact Bool.false_ne_true
  rw [heq, List.filter_append, hnone, List.append_nil]

private theorem apart_discoverRelays (staticRelays : List RelayEntry) (found : Except HidraError (List Found)) :
    Apart base64 (discoverRelays staticRelays found) exit ↔ Apart base64 staticRelays exit := by
  have hkeyed : keyedRelays (discoverRelays staticRelays found) = keyedRelays staticRelays :=
    filter_discoverRelays (fun _ h => h) staticRelays found
  have hothers : others (discoverRelays staticRelays found) exit = others staticRelays exit :=
    filter_discoverRelays (fun r h => by rw [h, Bool.and_false]) staticRelays found
  have hintro : introPoint (discoverRelays staticRelays found) exit = introPoint staticRelays exit := by
    unfold introPoint
    rw [← List.head?_filter, ← List.head?_filter,
      filter_discoverRelays (fun r h => by rw [h, Bool.and_false]) staticRelays found]
  constructor
  · rintro ⟨hkeys, hvia⟩
    rw [hkeyed] at hkeys
    rw [hintro, hothers] at hvia
    exact ⟨hkeys, hvia⟩
  · rintro ⟨hkeys, hvia⟩
    refine ⟨?_, ?_⟩
    · rw [hkeyed]
      exact hkeys
    · rw [hintro, hothers]
      exact hvia

/-- The pool's hops are three relays, whatever is found and drawn, just when the configured entries that may be drawn
are of one relay each. -/
theorem sound_iff (base64 : String → Option Bytes) (staticRelays : List RelayEntry)
    (found : Except HidraError (List Found)) (exit : SocketAddr) :
    (∀ d : Draw, Sound base64 d (discoverRelays staticRelays found) exit) ↔ Apart base64 staticRelays exit :=
  sound_iff_apart.trans (apart_discoverRelays staticRelays found)

end

/-! ### A relay that is listed twice -/

def Draw.asListed : Draw := ⟨id, fun l => List.Perm.refl l⟩

def listed (host : Nat) (key : String) : RelayEntry := ⟨"relay", .v4 host 9001, key⟩

def listedTwice : List RelayEntry :=
  [listed 3325256705 "AAAAAAAAAAAAAAAAAAAAAAAAAAAAAAAAAAAAAAAAAAA=",
    listed 3325256706 "AAAAAAAAAAAAAAAAAAAAAAAAAAAAAAAAAAAAAAAAAAA=",
    listed 3325256707 "BAAAAAAAAAAAAAAAAAAAAAAAAAAAAAAAAAAAAAAAAAA="]

def standard (s : String) : Option Bytes := Base64.decode s.toList

/-- Two of the three hops drawn have one key. -/
theorem one_relay_twice : selectRelays .asListed (discoverRelays listedTwice (.ok [])) = .ok listedTwice ∧
    listedTwice.map (expectedKey standard) = [.ok (List.replicate 32 0), .ok (List.replicate 32 0),
      .ok (4 :: List.replicate 31 0)] ∧ ¬ ThreeRelays standard listedTwice := by
  have hkeys : listedTwice.map (expectedKey standard) = [.ok (List.replicate 32 0), .ok (List.replicate 32 0),
      .ok (4 :: List.replicate 31 0)] := by
    decide +kernel
  refine ⟨by decide +kernel, hkeys, fun h => ?_⟩
  have hfirst := (List.pairwise_cons.1 h.different).1 (listed 3325256706 "AAAAAAAAAAAAAAAAAAAAAAAAAAAAAAAAAAAAAAAAAAA=")
    (by simp)
  obtain ⟨h₁, hrest⟩ := List.cons.inj hkeys
  obtain ⟨h₂, -⟩ := List.cons.inj hrest
  exact hfirst.2 (h₁.trans h₂.symm)

end HidraNet.Proxy
