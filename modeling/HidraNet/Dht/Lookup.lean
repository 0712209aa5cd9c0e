import HidraNet.Dht.KBuckets
import HidraNet.Lib.Lists
import HidraNet.Lib.Maps

/-!
# Disjoint lookups

A lookup walks toward its target on several paths.  Each path asks the closest nodes it has seen for closer ones; the
paths share the ids that are being asked (`claimed`) and those that have answered one, so that no node steers two of
them.  A claim is given back when the node is not reached, and a path that would ask such a node waits for it.

However the paths' steps interleave and whatever the nodes answer, or do not, the paths stay disjoint, and a claim that
a path waits for is held by a path that goes on by itself (`disjoint_run`).
-/

namespace HidraNet.Dht.Table

open HidraNet.Core (Bytes)
open Net
open HidraNet.Lists
open Maps
open Runs

def ALPHA : Nat := 3

/-- An answer, out of its packet. -/
structure Reply where
  /-- The nodes of a `FindNodeResponse`; none for another message. -/
  nodes : Option (List NodeInfo)
  sender : Option NodeInfo
  fromAddr : SocketAddr
  signer : Bytes
deriving DecidableEq

/-- `request_from`, once the answer is there or the request has failed: the answer, and the node as it is seated. -/
def requestFrom (node : NodeInfo) (answer : Except String Reply) : Except String (Reply × NodeInfo) :=
  match answer with
  | .error e => .error e
  | .ok reply =>
    if reply.fromAddr ≠ node.dhtAddr then .error "DHT answer came from another address"
    else if reply.signer ≠ node.publicKey then .error "DHT answer signed by another key than the node asked"
    else
      match reply.sender with
      | none => .error "DHT answer from another node than the one asked"
      | some self =>
        if self.id ≠ node.id then .error "DHT answer from another node than the one asked"
        else .ok (reply, { self with dhtAddr := reply.fromAddr })

def foundNodes (node : NodeInfo) (answer : Except String Reply) : Option (List NodeInfo × NodeInfo) :=
  match requestFrom node answer with
  | .ok (reply, seated) => reply.nodes.map fun nodes => (nodes, seated)
  | .error _ => none

theorem id_of_foundNodes {node seated : NodeInfo} {answer : Except String Reply} {nodes : List NodeInfo}
    (h : foundNodes node answer = some (nodes, seated)) : seated.id = node.id := by
  unfold foundNodes requestFrom at h
  cases answer with
  | error e => simp at h
  | ok reply =>
    dsimp only at h
    split at h
    · rename_i hok
      split at hok
      · cases hok
      · split at hok
        · cases hok
        · split at hok
          · cases hok
          · split at hok
            · cases hok
            · rename_i self _ hid
              cases hok
              obtain ⟨nodes', -, heq⟩ := Option.map_eq_some_iff.1 h
              cases heq
              exact not_not.1 hid
    · cases h

def sortByDistance (nodes : List NodeInfo) (target : NodeId) : List NodeInfo :=
  nodes.mergeSort fun a b => decide (a.id.xorDistance target ≤ b.id.xorDistance target)

/-! ### Paths -/

inductive Phase where
  | choosing
  /-- The requests of one round, with the answers there are. -/
  | asking (batch : List (NodeInfo × Option (Except String Reply)))
  | taking (answers : List (NodeInfo × Except String Reply))
  | sleeping
  | done

structure Path where
  seen : Map NodeId NodeInfo
  tried : Finset NodeId
  dead : Finset NodeId
  responded : List NodeInfo
  phase : Phase

namespace Path

def idle : Path := ⟨.empty, ∅, ∅, [], .done⟩

def new (seeds : List NodeInfo) : Path :=
  ⟨seeds.foldl (fun seen n => seen.set n.id n) .empty, ∅, ∅, [], .choosing⟩

def window (path : Path) (target : NodeId) (width : Nat) : List NodeInfo :=
  (sortByDistance ((path.seen.entries.map Prod.snd).filter (·.id ∉ path.dead)) target).take width

def picks (path : Path) (target : NodeId) (width : Nat) (claimed answered : Finset NodeId) : List NodeInfo :=
  ((path.window target width).filter fun n => n.id ∉ path.tried ∧ n.id ∉ claimed ∧ n.id ∉ answered).take ALPHA

def elsewhere (path : Path) (target : NodeId) (width : Nat) (claimed answered : Finset NodeId) : Bool :=
  (path.window target width).any fun n => n.id ∉ path.tried ∧ n.id ∈ claimed ∧ n.id ∉ answered

def held (path : Path) : List NodeId :=
  match path.phase with
  | .asking batch => batch.map (·.1.id)
  | .taking answers => answers.map (·.1.id)
  | _ => []

def outstanding (path : Path) : List NodeId :=
  match path.phase with
  | .asking batch => (batch.filter (·.2.isNone)).map (·.1.id)
  | _ => []

def good (path : Path) : List NodeId :=
  match path.phase with
  | .asking batch => (batch.filter fun a => a.2.any fun answer => (foundNodes a.1 answer).isSome).map (·.1.id)
  | .taking answers => (answers.filter fun a => (foundNodes a.1 a.2).isSome).map (·.1.id)
  | _ => []

def left (path : Path) : Nat :=
  match path.phase with
  | .asking batch => batch.countP (·.2.isNone) + batch.length + 2
  | .taking answers => answers.length + 1
  | _ => 0

end Path

/-! ### The walk -/

/-- What happened, in order. -/
inductive Entry where
  | asked (p : Nat) (node : NodeInfo)
  | answered (p : Nat) (id : NodeId)
deriving DecidableEq

structure Walk where
  claimed : Finset NodeId
  answered : Finset NodeId
  paths : Nat → Path
  log : List Entry

inductive WalkEvent where
  /-- A path goes through the top of its loop, past the deadline or not. -/
  | chooses (p : Nat) (late : Bool)
  | wakes (p : Nat)
  /-- The `i`-th request of the round is answered, or fails. -/
  | hears (p i : Nat) (answer : Except String Reply)
  | collects (p : Nat)
  | takes (p : Nat)

namespace Walk

def deal (seeds : List NodeInfo) (paths p : Nat) : List NodeInfo :=
  (seeds.zipIdx.filter fun n => n.2 % paths = p).map Prod.fst

/-- `lookup_paths` from its seeds on; the paths from the last one on are idle. -/
def start (seeds : List NodeInfo) (paths : Nat) : Walk :=
  let paths := min (max paths 1) seeds.length
  ⟨∅, ∅, fun p => if p < paths then .new (deal seeds paths p) else .idle, []⟩

def setPath (s : Walk) (p : Nat) (path : Path) : Walk := { s with paths := Function.update s.paths p path }

variable (blake3 : Bytes → Bytes) (idBits : Nat) (ourId target : NodeId) (width : Nat)

def mayAsk (n : NodeInfo) : Bool := n.id ≠ ourId && n.idIsValid blake3 idBits

def learn (seen : Map NodeId NodeInfo) (nodes : List NodeInfo) : Map NodeId NodeInfo :=
  (nodes.take K).foldl (fun seen n =>
    if n.id = ourId ∨ seen.contains n.id then seen
    else if !n.idIsValid blake3 idBits then seen
    else seen.set n.id n) seen

def choose (s : Walk) (p : Nat) (path : Path) (late : Bool) : Walk :=
  if late then s.setPath p { path with phase := .done }
  else
    let picks := path.picks target width s.claimed s.answered
    let claimed := s.claimed ∪ (picks.map (·.id)).toFinset
    if picks = [] then
      if path.elsewhere target width claimed s.answered then s.setPath p { path with phase := .sleeping }
      else s.setPath p { path with phase := .done }
    else
      { s.setPath p { path with
          tried := path.tried ∪ (picks.map (·.id)).toFinset
          phase := .asking (picks.map fun n => (n, none)) } with
        claimed
        log := s.log ++ picks.map (.asked p) }

def hear (s : Walk) (p : Nat) (path : Path) (batch : List (NodeInfo × Option (Except String Reply))) (i : Nat)
    (answer : Except String Reply) : Walk :=
  match batch[i]? with
  | some (node, none) =>
    let s := s.setPath p { path with phase := .asking (batch.set i (node, some answer)) }
    if (foundNodes node answer).isSome then { s with log := s.log ++ [.answered p node.id] } else s
  | _ => s

/-- The path takes the next answer of its round. -/
def take (s : Walk) (p : Nat) (path : Path) : List (NodeInfo × Except String Reply) → Walk
  | [] => s.setPath p { path with phase := .choosing }
  | (node, answer) :: answers =>
    match foundNodes node answer with
    | none =>
      { s.setPath p { path with dead := insert node.id path.dead, phase := .taking answers } with
        claimed := s.claimed.erase node.id }
    | some (nodes, seated) =>
      { s.setPath p { path with
          responded := path.responded ++ [seated]
          seen := learn blake3 idBits ourId path.seen nodes
          phase := .taking answers } with
        answered := insert node.id s.answered }

def step (s : Walk) : WalkEvent → Walk
  | .chooses p late =>
    match (s.paths p).phase with
    | .choosing => s.choose target width p (s.paths p) late
    | _ => s
  | .wakes p =>
    match (s.paths p).phase with
    | .sleeping => s.setPath p { s.paths p with phase := .choosing }
    | _ => s
  | .hears p i answer =>
    match (s.paths p).phase with
    | .asking batch => s.hear p (s.paths p) batch i answer
    | _ => s
  | .collects p =>
    match (s.paths p).phase with
    | .asking batch =>
      match batch.mapM fun a => a.2.map (a.1, ·) with
      | some answers => s.setPath p { s.paths p with phase := .taking answers }
      | none => s
    | _ => s
  | .takes p =>
    match (s.paths p).phase with
    | .taking answers => s.take blake3 idBits ourId p (s.paths p) answers
    | _ => s

/-- What the path `p` returns. -/
def responders (s : Walk) (p : Nat) : List NodeInfo := sortByDistance (s.paths p).responded target

def asks (log : List Entry) : List (Nat × NodeId) :=
  log.filterMap fun
    | .asked p node => some (p, node.id)
    | .answered _ _ => none

/-! ### The invariant -/

section Invariant

variable {blake3 : Bytes → Bytes} {idBits : Nat} {ourId target : NodeId} {width : Nat} {seedsOf : Nat → List NodeInfo}
  {s : Walk} {p q : Nat} {n : NodeId} {path : Path}

theorem good_sublist_held (path : Path) : path.good.Sublist path.held := by
  unfold Path.good Path.held
  cases path.phase with
  | asking batch => exact List.filter_sublist.map _
  | taking answers => exact List.filter_sublist.map _
  | choosing => exact List.nil_sublist _
  | sleeping => exact List.nil_sublist _
  | done => exact List.nil_sublist _

theorem outstanding_sublist_held (path : Path) : path.outstanding.Sublist path.held := by
  unfold Path.outstanding Path.held
  cases path.phase with
  | asking batch => exact List.filter_sublist.map _
  | taking answers => exact List.nil_sublist _
  | choosing => exact List.nil_sublist _
  | sleeping => exact List.nil_sublist _
  | done => exact List.nil_sublist _

variable (blake3 idBits ourId seedsOf) in
structure Kept (s : Walk) : Prop where
  keyed : ∀ p k v, (s.paths p).seen.get? k = some v → v.id = k
  earned : ∀ p k v, (s.paths p).seen.get? k = some v → v ∈ seedsOf p ∨ mayAsk blake3 idBits ourId v = true
  heldTried : ∀ p, ∀ n ∈ (s.paths p).held, n ∈ (s.paths p).tried
  heldNodup : ∀ p, (s.paths p).held.Nodup
  heldOnce : ∀ p q, ∀ n ∈ (s.paths p).held, n ∈ (s.paths q).held → p = q
  heldClaimed : ∀ p, ∀ n ∈ (s.paths p).held, n ∈ s.claimed ∧ n ∉ s.answered
  claimedHeld : ∀ n ∈ s.claimed, n ∈ s.answered ∨ ∃ p, n ∈ (s.paths p).held
  answeredClaimed : ∀ n ∈ s.answered, n ∈ s.claimed
  respondedAnswered : ∀ p, ∀ r ∈ (s.paths p).responded, r.id ∈ s.answered
  respondedNodup : ∀ p, ((s.paths p).responded.map (·.id)).Nodup
  respondedOnce : ∀ p q, ∀ r ∈ (s.paths p).responded, ∀ r' ∈ (s.paths q).responded, r.id = r'.id → p = q
  askedTried : ∀ p node, .asked p node ∈ s.log → node.id ∈ (s.paths p).tried
  askedEarned : ∀ p node, .asked p node ∈ s.log → node ∈ seedsOf p ∨ mayAsk blake3 idBits ourId node = true
  asksOnce : (asks s.log).Nodup
  heard : ∀ p n, .answered p n ∈ s.log → n ∈ s.answered ∨ n ∈ (s.paths p).good
  later : s.log.Pairwise fun a b => ∀ p n q node, a = .answered p n → b = .asked q node → node.id ≠ n

@[simp] theorem setPath_paths_self (s : Walk) (p : Nat) (path : Path) : (s.setPath p path).paths p = path :=
  Function.update_self ..

@[simp] theorem setPath_paths_other (s : Walk) (path : Path) (h : q ≠ p) : (s.setPath p path).paths q = s.paths q :=
  Function.update_of_ne h ..

theorem setPath_ite {α : Type*} (f : Path → α) (q : Nat) :
    f ((s.setPath p path).paths q) = if q = p then f path else f (s.paths q) := by
  split
  · rename_i hq
    rw [hq, setPath_paths_self]
  · rename_i hq
    rw [setPath_paths_other s path hq]

theorem setPath_same {α : Type*} {f : Path → α} (h : f path = f (s.paths p)) (q : Nat) :
    f ((s.setPath p path).paths q) = f (s.paths q) := by
  refine (setPath_ite f q).trans ?_
  split
  · rename_i hq
    rw [hq, h]
  · rfl

theorem Kept.setPath (hk : Kept blake3 idBits ourId seedsOf s) (hseen : path.seen = (s.paths p).seen)
    (hheld : path.held = (s.paths p).held) (htried : path.tried = (s.paths p).tried)
    (hresponded : path.responded = (s.paths p).responded) (hgood : ∀ n ∈ (s.paths p).good, n ∈ path.good) :
    Kept blake3 idBits ourId seedsOf (s.setPath p path) := by
  have seen := setPath_same (f := Path.seen) hseen
  have held := setPath_same (f := Path.held) hheld
  have tried := setPath_same (f := Path.tried) htried
  have responded := setPath_same (f := Path.responded) hresponded
  refine ⟨fun q => ?_, fun q => ?_, fun q => ?_, fun q => ?_, fun q q' => ?_, fun q => ?_, fun n hn => ?_,
    hk.answeredClaimed, fun q => ?_, fun q => ?_, fun q q' => ?_, fun q node h => ?_, hk.askedEarned, hk.asksOnce,
    fun q n h => ?_, hk.later⟩
  · rw [seen]
    exact hk.keyed q
  · rw [seen]
    exact hk.earned q
  · rw [held, tried]
    exact hk.heldTried q
  · rw [held]
    exact hk.heldNodup q
  · rw [held, held]
    exact hk.heldOnce q q'
  · rw [held]
    exact hk.heldClaimed q
  · rcases hk.claimedHeld n hn with h | ⟨q, h⟩
    · exact Or.inl h
    · exact Or.inr ⟨q, (held q).symm ▸ h⟩
  · rw [responded]
    exact hk.respondedAnswered q
  · rw [responded]
    exact hk.respondedNodup q
  · rw [responded, responded]
    exact hk.respondedOnce q q'
  · rw [tried]
    exact hk.askedTried q node h
  · refine (hk.heard q n h).imp_right fun hn => ?_
    rw [setPath_ite Path.good]
    split
    · rename_i hq
      exact hgood n (hq ▸ hn)
    · exact hn

theorem Kept.note (hk : Kept blake3 idBits ourId seedsOf s) (hn : n ∈ (s.paths p).good) :
    Kept blake3 idBits ourId seedsOf { s with log := s.log ++ [.answered p n] } := by
  have hasked : ∀ q node, .asked q node ∈ s.log ++ [.answered p n] → .asked q node ∈ s.log := by
    intro q node h
    simpa using h
  refine { hk with askedTried := ?_, askedEarned := ?_, asksOnce := ?_, heard := ?_, later := ?_ }
  · exact fun q node h => hk.askedTried q node (hasked q node h)
  · exact fun q node h => hk.askedEarned q node (hasked q node h)
  · have hasks : asks (s.log ++ [.answered p n]) = asks s.log := by simp [asks]
    rw [hasks]
    exact hk.asksOnce
  · intro q m h
    rcases List.mem_append.1 h with h | h
    · exact hk.heard q m h
    · cases List.mem_singleton.1 h
      exact Or.inr hn
  · refine List.pairwise_append.2 ⟨hk.later, List.pairwise_singleton _ _, ?_⟩
    intro a _ b hb q m q' node _ hbasked
    rw [List.mem_singleton.1 hb] at hbasked
    cases hbasked

theorem mem_picks {claimed answered : Finset NodeId} {node : NodeInfo}
    (hkeyed : ∀ k v, path.seen.get? k = some v → v.id = k) (h : node ∈ path.picks target width claimed answered) :
    path.seen.get? node.id = some node ∧ node.id ∉ path.tried ∧ node.id ∉ claimed ∧ node.id ∉ answered := by
  unfold Path.picks at h
  obtain ⟨hwindow, hfresh⟩ := List.mem_filter.1 (List.mem_of_mem_take h)
  have hseen : node ∈ path.seen.entries.map Prod.snd :=
    (List.mem_filter.1 ((List.mergeSort_perm _ _).mem_iff.1 (List.mem_of_mem_take hwindow))).1
  obtain ⟨⟨k, v⟩, hmem, rfl⟩ := List.mem_map.1 hseen
  have hget := Map.mem_entries.1 hmem
  have hid := hkeyed k v hget
  refine ⟨by rw [hid]; exact hget, ?_⟩
  simpa using hfresh

theorem nodup_picks {claimed answered : Finset NodeId} (hkeyed : ∀ k v, path.seen.get? k = some v → v.id = k) :
    ((path.picks target width claimed answered).map (·.id)).Nodup := by
  have hkeys : (path.seen.entries.map Prod.snd).map (·.id) = path.seen.entries.map Prod.fst := by
    rw [List.map_map]
    exact List.map_congr_left fun e he => hkeyed e.1 e.2 (Map.mem_entries.1 he)
  have hsorted : ((sortByDistance ((path.seen.entries.map Prod.snd).filter (·.id ∉ path.dead)) target).map
      (·.id)).Nodup := by
    have hperm := (List.mergeSort_perm ((path.seen.entries.map Prod.snd).filter (·.id ∉ path.dead))
      fun a b => decide (a.id.xorDistance target ≤ b.id.xorDistance target)).map (·.id)
    exact hperm.nodup_iff.2 ((hkeys ▸ path.seen.nodup).sublist (List.filter_sublist.map _))
  exact hsorted.sublist (((List.take_sublist _ _).trans (List.filter_sublist.trans (List.take_sublist _ _))).map _)

theorem Kept.heardClaimed (hk : Kept blake3 idBits ourId seedsOf s) (h : .answered p n ∈ s.log) : n ∈ s.claimed := by
  rcases hk.heard p n h with h | h
  · exact hk.answeredClaimed n h
  · exact (hk.heldClaimed p n ((good_sublist_held _).subset h)).1

theorem asks_append (l₁ l₂ : List Entry) : asks (l₁ ++ l₂) = asks l₁ ++ asks l₂ := List.filterMap_append

theorem asks_asked (p : Nat) (nodes : List NodeInfo) : asks (nodes.map (.asked p)) = nodes.map fun n => (p, n.id) := by
  induction nodes with
  | nil => rfl
  | cons n nodes ih =>
    rw [List.map_cons, List.map_cons, ← ih]
    rfl

theorem mem_asks {log : List Entry} : (p, n) ∈ asks log ↔ ∃ node, .asked p node ∈ log ∧ node.id = n := by
  unfold asks
  rw [List.mem_filterMap]
  constructor
  · rintro ⟨e, he, heq⟩
    cases e with
    | asked p' node =>
      cases heq
      exact ⟨node, he, rfl⟩
    | answered p' id => cases heq
  · rintro ⟨node, he, rfl⟩
    exact ⟨_, he, rfl⟩

theorem Kept.ask (hk : Kept blake3 idBits ourId seedsOf s) (hphase : (s.paths p).phase = .choosing)
    {picks : List NodeInfo} (hpicks : picks = (s.paths p).picks target width s.claimed s.answered) :
    Kept blake3 idBits ourId seedsOf { s.setPath p { s.paths p with
      tried := (s.paths p).tried ∪ (picks.map (·.id)).toFinset
      phase := .asking (picks.map fun n => (n, none)) } with
        claimed := s.claimed ∪ (picks.map (·.id)).toFinset
        log := s.log ++ picks.map (.asked p) } := by
  have hmem : ∀ node ∈ picks, _ := fun node h => mem_picks (hk.keyed p) (hpicks ▸ h)
  have hnd : (picks.map (·.id)).Nodup := hpicks ▸ nodup_picks (hk.keyed p)
  have hnone : (s.paths p).held = [] := by simp [Path.held, hphase]
  have hnogood : (s.paths p).good = [] := by simp [Path.good, hphase]
  generalize hpath : ({ s.paths p with
    tried := (s.paths p).tried ∪ (picks.map (·.id)).toFinset
    phase := .asking (picks.map fun n => (n, none)) } : Path) = path
  have seen := setPath_same (s := s) (p := p) (f := Path.seen) (show path.seen = _ by rw [← hpath])
  have responded := setPath_same (s := s) (p := p) (f := Path.responded) (show path.responded = _ by rw [← hpath])
  have hheld : ∀ q, ((s.setPath p path).paths q).held = if q = p then picks.map (·.id) else (s.paths q).held := by
    have hown : path.held = picks.map (·.id) := by simp [← hpath, Path.held]
    exact hown ▸ setPath_ite Path.held
  have htried : ∀ q, ((s.setPath p path).paths q).tried =
      if q = p then (s.paths p).tried ∪ (picks.map (·.id)).toFinset else (s.paths q).tried := by
    subst hpath
    exact setPath_ite Path.tried
  -- a pick is held by no other path, and no path has had its answer
  have hfree : ∀ node ∈ picks, ∀ q, node.id ∉ (s.paths q).held := fun node h q hin =>
    (hmem node h).2.2.1 (hk.heldClaimed q _ hin).1
  refine ⟨fun q => ?_, fun q => ?_, fun q n hn => ?_, fun q => ?_, fun q q' n hn hn' => ?_, fun q n hn => ?_,
    fun n hn => ?_, fun n hn => ?_, fun q => ?_, fun q => ?_, fun q q' => ?_, fun q node h => ?_, fun q node h => ?_,
    ?_, fun q n h => ?_, ?_⟩
  · rw [seen]
    exact hk.keyed q
  · rw [seen]
    exact hk.earned q
  · rw [hheld] at hn
    rw [htried]
    split
    · rename_i hq
      rw [if_pos hq] at hn
      exact Finset.mem_union_right _ (List.mem_toFinset.2 hn)
    · rename_i hq
      rw [if_neg hq] at hn
      exact hk.heldTried q n hn
  · rw [hheld]
    split
    · exact hnd
    · exact hk.heldNodup q
  · rw [hheld] at hn hn'
    split at hn <;> split at hn'
    · simp [*]
    · obtain ⟨node, hnode, rfl⟩ := List.mem_map.1 hn
      exact absurd hn' (hfree node hnode q')
    · obtain ⟨node, hnode, rfl⟩ := List.mem_map.1 hn'
      exact absurd hn (hfree node hnode q)
    · exact hk.heldOnce q q' n hn hn'
  · rw [hheld] at hn
    split at hn
    · obtain ⟨node, hnode, rfl⟩ := List.mem_map.1 hn
      exact ⟨Finset.mem_union_right _ (List.mem_toFinset.2 hn), (hmem node hnode).2.2.2⟩
    · exact ⟨Finset.mem_union_left _ (hk.heldClaimed q n hn).1, (hk.heldClaimed q n hn).2⟩
  · rcases Finset.mem_union.1 hn with hn | hn
    · rcases hk.claimedHeld n hn with h | ⟨q, h⟩
      · exact Or.inl h
      · have hq : q ≠ p := by
          rintro rfl
          simp [hnone] at h
        exact Or.inr ⟨q, by rwa [hheld, if_neg hq]⟩
    · exact Or.inr ⟨p, by rw [hheld, if_pos rfl]; exact List.mem_toFinset.1 hn⟩
  · exact Finset.mem_union_left _ (hk.answeredClaimed n hn)
  · rw [responded]
    exact hk.respondedAnswered q
  · rw [responded]
    exact hk.respondedNodup q
  · rw [responded, responded]
    exact hk.respondedOnce q q'
  · rw [htried]
    rcases List.mem_append.1 h with h | h
    · have hin := hk.askedTried q node h
      split
      · rename_i hq
        exact Finset.mem_union_left _ (hq ▸ hin)
      · exact hin
    · obtain ⟨node', hnode, heq⟩ := List.mem_map.1 h
      cases heq
      rw [if_pos rfl]
      exact Finset.mem_union_right _ (List.mem_toFinset.2 (List.mem_map_of_mem hnode))
  · rcases List.mem_append.1 h with h | h
    · exact hk.askedEarned q node h
    · obtain ⟨node', hnode, heq⟩ := List.mem_map.1 h
      cases heq
      exact hk.earned p _ _ (hmem node hnode).1
  · rw [asks_append, asks_asked, List.nodup_append]
    refine ⟨hk.asksOnce, ?_, ?_⟩
    · have hpairs : picks.map (fun n => (p, n.id)) = (picks.map (·.id)).map (Prod.mk p) := by simp
      rw [hpairs]
      exact hnd.map (Prod.mk_right_injective p)
    · rintro ⟨q, n⟩ hold pair hnew heq
      obtain ⟨node, hnode, rfl⟩ := List.mem_map.1 hnew
      cases heq
      obtain ⟨node', hlog, hid⟩ := mem_asks.1 hold
      exact (hmem node hnode).2.1 (hid ▸ hk.askedTried p node' hlog)
  · have hold : .answered q n ∈ s.log := by
      rcases List.mem_append.1 h with h | h
      · exact h
      · obtain ⟨node', -, heq⟩ := List.mem_map.1 h
        cases heq
    rcases hk.heard q n hold with hanswered | hgood
    · exact Or.inl hanswered
    · have hq : q ≠ p := by
        rintro rfl
        simp [hnogood] at hgood
      exact Or.inr (by rwa [setPath_paths_other s path hq])
  · refine List.pairwise_append.2 ⟨hk.later, ?_, ?_⟩
    · refine List.pairwise_of_forall_mem_list fun a ha b _ q n q' node hanswered => ?_
      obtain ⟨node', -, heq⟩ := List.mem_map.1 ha
      rw [hanswered] at heq
      cases heq
    · rintro a ha b hb q n q' node rfl rfl
      obtain ⟨node', hnode, heq⟩ := List.mem_map.1 hb
      cases heq
      rintro rfl
      exact (hmem node hnode).2.2.1 (hk.heardClaimed ha)

theorem Kept.choose (hk : Kept blake3 idBits ourId seedsOf s) (hphase : (s.paths p).phase = .choosing) (late : Bool) :
    Kept blake3 idBits ourId seedsOf (s.choose target width p (s.paths p) late) := by
  have hquiet : ∀ phase, phase = .sleeping ∨ phase = .done →
      Kept blake3 idBits ourId seedsOf (s.setPath p { s.paths p with phase }) := by
    intro phase hq
    refine hk.setPath rfl ?_ rfl rfl ?_
    · rcases hq with rfl | rfl <;> simp [Path.held, hphase]
    · intro n hn
      simp [Path.good, hphase] at hn
  unfold Walk.choose
  split
  · exact hquiet _ (Or.inr rfl)
  · dsimp only
    split
    · split
      · exact hquiet _ (Or.inl rfl)
      · exact hquiet _ (Or.inr rfl)
    · exact hk.ask hphase rfl

theorem Kept.hear (hk : Kept blake3 idBits ourId seedsOf s) {batch : List (NodeInfo × Option (Except String Reply))}
    (hphase : (s.paths p).phase = .asking batch) (i : Nat) (answer : Except String Reply) :
    Kept blake3 idBits ourId seedsOf (s.hear p (s.paths p) batch i answer) := by
  unfold Walk.hear
  split
  · rename_i node hget
    have hlt : i < batch.length := (List.getElem?_eq_some_iff.1 hget).1
    have hset : Kept blake3 idBits ourId seedsOf
        (s.setPath p { s.paths p with phase := .asking (batch.set i (node, some answer)) }) := by
      refine hk.setPath rfl ?_ rfl rfl fun n hn => ?_
      · simp only [Path.held, hphase]
        exact map_set_of hget rfl
      · simp only [Path.good, hphase, List.mem_map, List.mem_filter] at hn ⊢
        obtain ⟨a, ⟨ha, hgood⟩, rfl⟩ := hn
        obtain ⟨j, hj, rfl⟩ := List.mem_iff_getElem.1 ha
        have hji : i ≠ j := by
          rintro rfl
          rw [List.getElem?_eq_getElem hlt, Option.some.injEq] at hget
          rw [hget] at hgood
          cases hgood
        refine ⟨batch[j], ⟨?_, hgood⟩, rfl⟩
        exact List.mem_iff_getElem.2 ⟨j, by simpa using hj, List.getElem_set_ne hji _⟩
    dsimp only
    split
    · rename_i hfound
      refine hset.note ?_
      rw [setPath_paths_self]
      simp only [Path.good, List.mem_map, List.mem_filter]
      exact ⟨(node, some answer), ⟨List.mem_set hlt _, hfound⟩, rfl⟩
    · exact hset
  · exact hk

theorem batch_of_mapM {batch : List (NodeInfo × Option (Except String Reply))}
    {answers : List (NodeInfo × Except String Reply)} (h : batch.mapM (fun a => a.2.map (a.1, ·)) = some answers) :
    batch = answers.map fun a => (a.1, some a.2) := by
  induction batch generalizing answers with
  | nil =>
    cases h
    rfl
  | cons a batch ih =>
    rw [List.mapM_cons] at h
    obtain ⟨a', ha', h⟩ := Option.bind_eq_some_iff.1 h
    obtain ⟨answers', hanswers, h⟩ := Option.bind_eq_some_iff.1 h
    obtain ⟨answer, hanswer, rfl⟩ := Option.map_eq_some_iff.1 ha'
    cases h
    rw [List.map_cons, ← ih hanswers, ← hanswer]

theorem Kept.collect (hk : Kept blake3 idBits ourId seedsOf s) {answers : List (NodeInfo × Except String Reply)}
    (hphase : (s.paths p).phase = .asking (answers.map fun a => (a.1, some a.2))) :
    Kept blake3 idBits ourId seedsOf (s.setPath p { s.paths p with phase := .taking answers }) := by
  refine hk.setPath rfl ?_ rfl rfl fun n hn => ?_
  · simp [Path.held, hphase]
  · simpa [Path.good, hphase, List.filter_map, Function.comp_def] using hn

theorem Kept.held_next (hk : Kept blake3 idBits ourId seedsOf s) {node : NodeInfo} {answer : Except String Reply}
    {answers : List (NodeInfo × Except String Reply)} (hphase : (s.paths p).phase = .taking ((node, answer) :: answers))
    (hpath : path.phase = .taking answers) (q : Nat) :
    (((s.setPath p path).paths q).held).Nodup ∧
      ∀ n, n ∈ ((s.setPath p path).paths q).held ↔ n ∈ (s.paths q).held ∧ n ≠ node.id := by
  have hheld : (s.paths p).held = node.id :: answers.map (·.1.id) := by simp [Path.held, hphase]
  have hnext : path.held = answers.map (·.1.id) := by simp [Path.held, hpath]
  have hnd := hk.heldNodup p
  rw [hheld, List.nodup_cons] at hnd
  by_cases hq : q = p
  · subst hq
    rw [setPath_paths_self, hnext, hheld]
    refine ⟨hnd.2, fun n => ⟨fun hn => ⟨List.mem_cons_of_mem _ hn, fun heq => hnd.1 (heq ▸ hn)⟩, ?_⟩⟩
    rintro ⟨hn, hne⟩
    exact (List.mem_cons.1 hn).resolve_left hne
  · rw [setPath_paths_other s path hq]
    refine ⟨hk.heldNodup q, fun n => ⟨fun hn => ⟨hn, fun heq => hq ?_⟩, And.left⟩⟩
    exact hk.heldOnce q p n hn (by simp [hheld, heq])

theorem Kept.giveBack (hk : Kept blake3 idBits ourId seedsOf s) {node : NodeInfo} {answer : Except String Reply}
    {answers : List (NodeInfo × Except String Reply)} (hphase : (s.paths p).phase = .taking ((node, answer) :: answers))
    (hfound : foundNodes node answer = none) :
    Kept blake3 idBits ourId seedsOf
      { s.setPath p { s.paths p with dead := insert node.id (s.paths p).dead, phase := .taking answers } with
        claimed := s.claimed.erase node.id } := by
  have hin : node.id ∈ (s.paths p).held := by simp [Path.held, hphase]
  generalize hpath : ({ s.paths p with
    dead := insert node.id (s.paths p).dead
    phase := .taking answers } : Path) = path
  have htaking : path.phase = .taking answers := by rw [← hpath]
  have hnext := hk.held_next hphase htaking
  have seen := setPath_same (s := s) (p := p) (f := Path.seen) (show path.seen = _ by rw [← hpath])
  have tried := setPath_same (s := s) (p := p) (f := Path.tried) (show path.tried = _ by rw [← hpath])
  have responded := setPath_same (s := s) (p := p) (f := Path.responded) (show path.responded = _ by rw [← hpath])
  refine ⟨fun q => ?_, fun q => ?_, fun q n hn => ?_, fun q => (hnext q).1, fun q q' n hn hn' => ?_, fun q n hn => ?_,
    fun n hn => ?_, fun n hn => ?_, fun q => ?_, fun q => ?_, fun q q' => ?_, fun q node' h => ?_, hk.askedEarned,
    hk.asksOnce, fun q n h => ?_, hk.later⟩
  · rw [seen]
    exact hk.keyed q
  · rw [seen]
    exact hk.earned q
  · rw [tried]
    exact hk.heldTried q n (((hnext q).2 n).1 hn).1
  · exact hk.heldOnce q q' n (((hnext q).2 n).1 hn).1 (((hnext q').2 n).1 hn').1
  · obtain ⟨hn, hne⟩ := ((hnext q).2 n).1 hn
    exact ⟨Finset.mem_erase.2 ⟨hne, (hk.heldClaimed q n hn).1⟩, (hk.heldClaimed q n hn).2⟩
  · obtain ⟨hne, hn⟩ := Finset.mem_erase.1 hn
    rcases hk.claimedHeld n hn with h | ⟨q, h⟩
    · exact Or.inl h
    · exact Or.inr ⟨q, ((hnext q).2 n).2 ⟨h, hne⟩⟩
  · refine Finset.mem_erase.2 ⟨?_, hk.answeredClaimed n hn⟩
    rintro rfl
    exact (hk.heldClaimed p _ hin).2 hn
  · rw [responded]
    exact hk.respondedAnswered q
  · rw [responded]
    exact hk.respondedNodup q
  · rw [responded, responded]
    exact hk.respondedOnce q q'
  · rw [tried]
    exact hk.askedTried q node' h
  · refine (hk.heard q n h).imp_right fun hgood => ?_
    by_cases hq : q = p
    · subst hq
      rw [setPath_paths_self, ← hpath]
      simpa [Path.good, hphase, List.filter_cons, hfound] using hgood
    · rwa [setPath_paths_other s path hq]

theorem learn_of_get? {seen : Map NodeId NodeInfo} {nodes : List NodeInfo} {v : NodeInfo}
    (h : (learn blake3 idBits ourId seen nodes).get? n = some v) :
    seen.get? n = some v ∨ v.id = n ∧ mayAsk blake3 idBits ourId v = true := by
  unfold learn at h
  generalize nodes.take K = nodes at h
  induction nodes generalizing seen with
  | nil => exact Or.inl h
  | cons node nodes ih =>
    rw [List.foldl_cons] at h
    rcases ih h with h | h
    · split at h
      · exact Or.inl h
      · rename_i hfresh
        split at h
        · exact Or.inl h
        · rename_i hvalid
          obtain ⟨rfl, rfl⟩ | ⟨-, h⟩ := Map.get?_set_some.1 h
          · refine Or.inr ⟨rfl, ?_⟩
            have hother : node.id ≠ ourId := fun heq => hfresh (Or.inl heq)
            simpa [mayAsk, hother] using hvalid
          · exact Or.inl h
    · exact Or.inr h

theorem Kept.takeAnswer (hk : Kept blake3 idBits ourId seedsOf s) {node seated : NodeInfo}
    {answer : Except String Reply} {answers : List (NodeInfo × Except String Reply)}
    (hphase : (s.paths p).phase = .taking ((node, answer) :: answers))
    {nodes : List NodeInfo} (hfound : foundNodes node answer = some (nodes, seated)) :
    Kept blake3 idBits ourId seedsOf
      { s.setPath p { s.paths p with
          responded := (s.paths p).responded ++ [seated]
          seen := learn blake3 idBits ourId (s.paths p).seen nodes
          phase := .taking answers } with
        answered := insert node.id s.answered } := by
  have hin : node.id ∈ (s.paths p).held := by simp [Path.held, hphase]
  obtain ⟨hclaimed, hnew⟩ := hk.heldClaimed p _ hin
  have hseated := id_of_foundNodes hfound
  generalize hpath : ({ s.paths p with
    responded := (s.paths p).responded ++ [seated]
    seen := learn blake3 idBits ourId (s.paths p).seen nodes
    phase := .taking answers } : Path) = path
  have htaking : path.phase = .taking answers := by rw [← hpath]
  have hnext := hk.held_next hphase htaking
  have hseen : ∀ q k v, ((s.setPath p path).paths q).seen.get? k = some v →
      (s.paths q).seen.get? k = some v ∨ v.id = k ∧ mayAsk blake3 idBits ourId v = true := by
    intro q k v h
    by_cases hq : q = p
    · subst hq
      rw [setPath_paths_self, ← hpath] at h
      exact learn_of_get? h
    · rw [setPath_paths_other s path hq] at h
      exact Or.inl h
  have tried := setPath_same (s := s) (p := p) (f := Path.tried) (show path.tried = _ by rw [← hpath])
  have hresponded : ∀ q, ((s.setPath p path).paths q).responded =
      (s.paths q).responded ++ if q = p then [seated] else [] := by
    intro q
    rw [setPath_ite Path.responded]
    by_cases hq : q = p
    · simp [← hpath, hq]
    · simp [hq]
  -- the node has not answered any path before
  have hfirst : ∀ q, ∀ r ∈ (s.paths q).responded, r.id ≠ node.id := fun q r hr heq =>
    hnew (heq ▸ hk.respondedAnswered q r hr)
  have hmem : ∀ q r, r ∈ ((s.setPath p path).paths q).responded →
      r ∈ (s.paths q).responded ∨ q = p ∧ r.id = node.id := by
    intro q r hr
    rw [hresponded] at hr
    rcases List.mem_append.1 hr with hr | hr
    · exact Or.inl hr
    · split at hr
      · rename_i hq
        rw [List.mem_singleton.1 hr]
        exact Or.inr ⟨hq, hseated⟩
      · cases hr
  refine ⟨fun q k v h => ?_, fun q k v h => ?_, fun q n hn => ?_, fun q => (hnext q).1, fun q q' n hn hn' => ?_,
    fun q n hn => ?_, fun n hn => ?_, fun n hn => ?_, fun q r hr => ?_, fun q => ?_, fun q q' r hr r' hr' heq => ?_,
    fun q node' h => ?_, hk.askedEarned, hk.asksOnce, fun q n h => ?_, hk.later⟩
  · exact (hseen q k v h).elim (hk.keyed q k v) And.left
  · exact (hseen q k v h).elim (hk.earned q k v) fun h => Or.inr h.2
  · rw [tried]
    exact hk.heldTried q n (((hnext q).2 n).1 hn).1
  · exact hk.heldOnce q q' n (((hnext q).2 n).1 hn).1 (((hnext q').2 n).1 hn').1
  · obtain ⟨hn, hne⟩ := ((hnext q).2 n).1 hn
    obtain ⟨hc, ha⟩ := hk.heldClaimed q n hn
    exact ⟨hc, fun h => (Finset.mem_insert.1 h).elim hne ha⟩
  · by_cases hn' : n = node.id
    · exact Or.inl (hn' ▸ Finset.mem_insert_self _ _)
    · rcases hk.claimedHeld n hn with h | ⟨q, h⟩
      · exact Or.inl (Finset.mem_insert_of_mem h)
      · exact Or.inr ⟨q, ((hnext q).2 n).2 ⟨h, hn'⟩⟩
  · rcases Finset.mem_insert.1 hn with rfl | hn
    · exact hclaimed
    · exact hk.answeredClaimed n hn
  · rcases hmem q r hr with hr | ⟨-, hr⟩
    · exact Finset.mem_insert_of_mem (hk.respondedAnswered q r hr)
    · exact hr ▸ Finset.mem_insert_self _ _
  · rw [hresponded]
    split
    · rw [List.map_append, List.nodup_append]
      refine ⟨hk.respondedNodup q, List.nodup_singleton _, ?_⟩
      rintro a ha b hb rfl
      obtain ⟨r, hr, rfl⟩ := List.mem_map.1 ha
      exact hfirst q r hr ((List.mem_singleton.1 hb).trans hseated)
    · rw [List.append_nil]
      exact hk.respondedNodup q
  · rcases hmem q r hr with hr | ⟨hq, hr⟩
    · rcases hmem q' r' hr' with hr' | ⟨-, hr'⟩
      · exact hk.respondedOnce q q' r hr r' hr' heq
      · exact absurd (heq.trans hr') (hfirst q r hr)
    · rcases hmem q' r' hr' with hr' | ⟨hq', -⟩
      · exact absurd (heq.symm.trans hr) (hfirst q' r' hr')
      · exact hq.trans hq'.symm
  · rw [tried]
    exact hk.askedTried q node' h
  · by_cases hn : n = node.id
    · exact Or.inl (hn ▸ Finset.mem_insert_self _ _)
    · rcases hk.heard q n h with h | hgood
      · exact Or.inl (Finset.mem_insert_of_mem h)
      · refine Or.inr ?_
        by_cases hq : q = p
        · subst hq
          rw [setPath_paths_self, ← hpath]
          simpa [Path.good, hphase, List.filter_cons, hfound, hn] using hgood
        · rwa [setPath_paths_other s path hq]

theorem Kept.take (hk : Kept blake3 idBits ourId seedsOf s) {answers : List (NodeInfo × Except String Reply)}
    (hphase : (s.paths p).phase = .taking answers) :
    Kept blake3 idBits ourId seedsOf (s.take blake3 idBits ourId p (s.paths p) answers) := by
  cases answers with
  | nil =>
    refine hk.setPath rfl ?_ rfl rfl fun n hn => ?_
    · simp [Path.held, hphase]
    · simp [Path.good, hphase] at hn
  | cons a answers =>
    obtain ⟨node, answer⟩ := a
    simp only [Walk.take]
    split
    · rename_i hfound
      exact hk.giveBack hphase hfound
    · rename_i nodes seated hfound
      exact hk.takeAnswer hphase hfound

theorem kept_step (hk : Kept blake3 idBits ourId seedsOf s) (e : WalkEvent) :
    Kept blake3 idBits ourId seedsOf (s.step blake3 idBits ourId target width e) := by
  cases e with
  | chooses p late =>
    simp only [step]
    split
    · rename_i hphase
      exact hk.choose hphase late
    · exact hk
  | wakes p =>
    simp only [step]
    split
    · rename_i hphase
      refine hk.setPath rfl ?_ rfl rfl fun n hn => ?_
      · simp [Path.held, hphase]
      · simp [Path.good, hphase] at hn
    · exact hk
  | hears p i answer =>
    simp only [step]
    split
    · rename_i batch hphase
      exact hk.hear hphase i answer
    · exact hk
  | collects p =>
    simp only [step]
    split
    · rename_i batch hphase
      split
      · rename_i answers hanswers
        rw [batch_of_mapM hanswers] at hphase
        exact hk.collect hphase
      · exact hk
    · exact hk
  | takes p =>
    simp only [step]
    split
    · rename_i answers hphase
      exact hk.take hphase
    · exact hk

theorem seen_new {nodes : List NodeInfo} {v : NodeInfo} (h : (Path.new nodes).seen.get? n = some v) :
    v ∈ nodes ∧ v.id = n := by
  have hfold : ∀ (nodes : List NodeInfo) (seen : Map NodeId NodeInfo),
      (nodes.foldl (fun seen n => seen.set n.id n) seen).get? n = some v →
        seen.get? n = some v ∨ v ∈ nodes ∧ v.id = n := by
    intro nodes
    induction nodes with
    | nil => exact fun seen h => Or.inl h
    | cons node nodes ih =>
      intro seen h
      rcases ih _ h with h | ⟨hmem, hid⟩
      · obtain ⟨rfl, rfl⟩ | ⟨-, h⟩ := Map.get?_set_some.1 h
        · exact Or.inr ⟨List.mem_cons_self, rfl⟩
        · exact Or.inl h
      · exact Or.inr ⟨List.mem_cons_of_mem _ hmem, hid⟩
  exact (hfold nodes .empty h).resolve_left (by simp)

theorem kept_start (seeds : List NodeInfo) (paths : Nat) :
    Kept blake3 idBits ourId (deal seeds (min (max paths 1) seeds.length)) (start seeds paths) := by
  have hpath : ∀ p, (((start seeds paths).paths p).held = []) ∧ (((start seeds paths).paths p).responded = []) ∧
      ∀ k v, ((start seeds paths).paths p).seen.get? k = some v →
        v ∈ deal seeds (min (max paths 1) seeds.length) p ∧ v.id = k := by
    intro p
    simp only [start]
    split
    · exact ⟨rfl, rfl, fun k v h => seen_new h⟩
    · exact ⟨rfl, rfl, fun k v h => by simp [Path.idle] at h⟩
  refine ⟨fun p k v h => ((hpath p).2.2 k v h).2, fun p k v h => Or.inl ((hpath p).2.2 k v h).1, fun p n hn => ?_,
    fun p => ?_, fun p q n hn => ?_, fun p n hn => ?_, fun n hn => ?_, fun n hn => ?_, fun p r hr => ?_, fun p => ?_,
    fun p q r hr => ?_, fun p node h => ?_, fun p node h => ?_, List.nodup_nil, fun p n h => ?_, List.Pairwise.nil⟩
  · simp [(hpath p).1] at hn
  · simp [(hpath p).1]
  · simp [(hpath p).1] at hn
  · simp [(hpath p).1] at hn
  · simp [start] at hn
  · simp [start] at hn
  · simp [(hpath p).2.1] at hr
  · simp [(hpath p).2.1]
  · simp [(hpath p).2.1] at hr
  · simp [start] at h
  · simp [start] at h
  · simp [start] at h

variable (blake3 idBits ourId target width) in
theorem kept_run (seeds : List NodeInfo) (paths : Nat) (es : List WalkEvent) :
    Kept blake3 idBits ourId (deal seeds (min (max paths 1) seeds.length))
      (run (step blake3 idBits ourId target width) (start seeds paths) es) :=
  run_always (P := Kept blake3 idBits ourId (deal seeds (min (max paths 1) seeds.length)))
    (fun _ e hk => kept_step hk e) (kept_start seeds paths) es

end Invariant

/-! ### Progress -/

section Progress

variable (blake3 : Bytes → Bytes) (idBits : Nat) (ourId target : NodeId) (width : Nat)

/-- The event brings the path `p` closer to the end of its round. -/
def advances (s : Walk) (p : Nat) : WalkEvent → Bool
  | .hears q i _ =>
    p = q && match (s.paths q).phase with
      | .asking batch => (batch[i]?).any fun a => a.2.isNone
      | _ => false
  | .collects q =>
    p = q && match (s.paths q).phase with
      | .asking batch => batch.all fun a => a.2.isSome
      | _ => false
  | .takes q =>
    p = q && match (s.paths q).phase with
      | .taking _ => true
      | _ => false
  | _ => false

def advanced (s : Walk) (p : Nat) : List WalkEvent → Nat
  | [] => 0
  | e :: es => (s.advances p e).toNat + advanced (s.step blake3 idBits ourId target width e) p es

def released (s : Walk) (n : NodeId) : Bool := n ∉ s.claimed || n ∈ s.answered

variable {blake3 idBits ourId target width} {s : Walk} {p q : Nat} {n : NodeId}

theorem left_pos (h : n ∈ (s.paths p).held) : 0 < (s.paths p).left := by
  unfold Path.held at h
  unfold Path.left
  split at h
  · omega
  · omega
  · simp at h

theorem not_sleeping (h : n ∈ (s.paths p).held) : (s.paths p).phase ≠ .sleeping := by
  intro hphase
  simp [Path.held, hphase] at h

theorem can_advance (h : n ∈ (s.paths p).held) : ∃ e, s.advances p e = true := by
  unfold Path.held at h
  split at h
  · rename_i batch hphase
    by_cases hall : batch.all fun a => a.2.isSome
    · exact ⟨.collects p, by simp [advances, hphase, hall]⟩
    · rw [Bool.not_eq_true, List.all_eq_false] at hall
      obtain ⟨a, ha, hnone⟩ := hall
      obtain ⟨i, hi, rfl⟩ := List.mem_iff_getElem.1 ha
      refine ⟨.hears p i (.error "timed out"), ?_⟩
      simp only [advances, hphase, List.getElem?_eq_getElem hi, Option.any_some]
      simpa using hnone
  · rename_i answers hphase
    exact ⟨.takes p, by simp [advances, hphase]⟩
  · simp at h

theorem paths_hear_other (h : p ≠ q) (path : Path) (batch : List (NodeInfo × Option (Except String Reply))) (i : Nat)
    (answer : Except String Reply) : (s.hear q path batch i answer).paths p = s.paths p := by
  unfold hear
  split
  · dsimp only
    split
    · exact setPath_paths_other s _ h
    · exact setPath_paths_other s _ h
  · rfl

theorem paths_choose_other (h : p ≠ q) (path : Path) (late : Bool) :
    (s.choose target width q path late).paths p = s.paths p := by
  unfold choose
  split
  · exact setPath_paths_other s _ h
  · dsimp only
    split
    · split
      · exact setPath_paths_other s _ h
      · exact setPath_paths_other s _ h
    · exact setPath_paths_other s _ h

theorem paths_take_other (h : p ≠ q) (path : Path) (answers : List (NodeInfo × Except String Reply)) :
    (s.take blake3 idBits ourId q path answers).paths p = s.paths p := by
  cases answers with
  | nil => exact setPath_paths_other s _ h
  | cons a answers =>
    simp only [take]
    split
    · exact setPath_paths_other s _ h
    · exact setPath_paths_other s _ h

theorem paths_hear_self {path : Path} {batch : List (NodeInfo × Option (Except String Reply))} {i : Nat}
    {node : NodeInfo} (hget : batch[i]? = some (node, none)) (answer : Except String Reply) :
    (s.hear p path batch i answer).paths p = { path with phase := .asking (batch.set i (node, some answer)) } := by
  simp only [hear, hget]
  split
  · exact setPath_paths_self ..
  · exact setPath_paths_self ..

theorem left_hear {batch : List (NodeInfo × Option (Except String Reply))} (hphase : (s.paths p).phase = .asking batch)
    (i : Nat) (answer : Except String Reply) :
    ((s.hear p (s.paths p) batch i answer).paths p).held = (s.paths p).held ∧
      ((s.hear p (s.paths p) batch i answer).paths p).left + (s.advances p (.hears p i answer)).toNat =
        (s.paths p).left := by
  by_cases hopen : ∃ node, batch[i]? = some (node, none)
  · obtain ⟨node, hget⟩ := hopen
    have hlt : i < batch.length := (List.getElem?_eq_some_iff.1 hget).1
    have hi : batch[i] = (node, none) := by rwa [List.getElem?_eq_getElem hlt, Option.some.injEq] at hget
    have hcount : (batch.set i (node, some answer)).countP (·.2.isNone) + 1 = batch.countP (·.2.isNone) := by
      have hpos : 0 < batch.countP (·.2.isNone) := List.countP_pos_iff.2 ⟨_, List.getElem_mem hlt, by rw [hi]; rfl⟩
      rw [List.countP_set hlt, hi]
      simp only [Option.isNone_none, if_true, Option.isNone_some, Bool.false_eq_true, if_false]
      omega
    have hadv : s.advances p (.hears p i answer) = true := by simp [advances, hphase, hget]
    rw [paths_hear_self hget]
    simp only [Path.held, Path.left, hphase, hadv, Bool.toNat_true, List.length_set]
    exact ⟨map_set_of hget rfl, by omega⟩
  · have hsame : s.hear p (s.paths p) batch i answer = s := by
      unfold hear
      split
      · rename_i node hget
        exact absurd ⟨node, hget⟩ hopen
      · rfl
    have hadv : s.advances p (.hears p i answer) = false := by
      simp only [advances, hphase]
      rcases hb : batch[i]? with - | ⟨node, - | answer'⟩
      · simp
      · exact absurd ⟨node, hb⟩ hopen
      · simp
    rw [hsame, hadv]
    exact ⟨rfl, rfl⟩

theorem not_all_of_mapM {batch : List (NodeInfo × Option (Except String Reply))}
    (h : batch.mapM (fun a => a.2.map (a.1, ·)) = none) : (batch.all fun a => a.2.isSome) = false := by
  induction batch with
  | nil => cases h
  | cons a batch ih =>
    obtain ⟨node, answer⟩ := a
    cases answer with
    | none => simp
    | some answer =>
      rw [List.mapM_cons] at h
      cases hm : batch.mapM fun a => a.2.map (a.1, ·) with
      | none => simpa using ih hm
      | some answers => simp [hm] at h

theorem held_take (h : n ∈ (s.paths p).held) {answers : List (NodeInfo × Except String Reply)}
    (hphase : (s.paths p).phase = .taking answers) :
    n ∈ ((s.take blake3 idBits ourId p (s.paths p) answers).paths p).held ∧
        ((s.take blake3 idBits ourId p (s.paths p) answers).paths p).left + (s.advances p (.takes p)).toNat ≤
          (s.paths p).left ∨
      (s.take blake3 idBits ourId p (s.paths p) answers).released n = true := by
  have hadv : s.advances p (.takes p) = true := by simp [advances, hphase]
  cases answers with
  | nil => simp [Path.held, hphase] at h
  | cons a answers =>
    obtain ⟨node, answer⟩ := a
    have hmem : n = node.id ∨ n ∈ answers.map (·.1.id) := by simpa [Path.held, hphase] using h
    have hleft : (s.paths p).left = answers.length + 2 := by simp [Path.left, hphase]
    rw [hadv, hleft]
    simp only [take]
    rcases hmem with rfl | hmem
    · refine Or.inr ?_
      split
      · simp [released]
      · simp [released]
    · refine Or.inl ?_
      split
      · rw [setPath_paths_self]
        exact ⟨hmem, by simp [Path.left]⟩
      · rw [setPath_paths_self]
        exact ⟨hmem, by simp [Path.left]⟩

theorem held_step (h : n ∈ (s.paths p).held) (e : WalkEvent) :
    n ∈ ((s.step blake3 idBits ourId target width e).paths p).held ∧
        ((s.step blake3 idBits ourId target width e).paths p).left + (s.advances p e).toNat ≤ (s.paths p).left ∨
      (s.step blake3 idBits ourId target width e).released n = true := by
  have hsame : ∀ s' : Walk, s'.paths p = s.paths p → s.advances p e = false →
      n ∈ (s'.paths p).held ∧ (s'.paths p).left + (s.advances p e).toNat ≤ (s.paths p).left ∨ s'.released n = true := by
    intro s' hpath hadv
    rw [hpath, hadv]
    exact Or.inl ⟨h, by simp⟩
  cases e with
  | chooses q late =>
    simp only [step]
    by_cases hq : p = q
    · subst hq
      split
      · rename_i hphase
        simp [Path.held, hphase] at h
      · exact hsame _ rfl rfl
    · split
      · exact hsame _ (paths_choose_other hq _ late) rfl
      · exact hsame _ rfl rfl
  | wakes q =>
    simp only [step]
    by_cases hq : p = q
    · subst hq
      split
      · rename_i hphase
        simp [Path.held, hphase] at h
      · exact hsame _ rfl rfl
    · split
      · exact hsame _ (setPath_paths_other s _ hq) rfl
      · exact hsame _ rfl rfl
  | hears q i answer =>
    simp only [step]
    by_cases hq : p = q
    · subst hq
      split
      · rename_i batch hphase
        obtain ⟨hheld, hleft⟩ := left_hear hphase i answer
        exact Or.inl ⟨hheld ▸ h, hleft.le⟩
      · rename_i hphase
        refine hsame _ rfl ?_
        cases hp : (s.paths p).phase with
        | asking batch => exact absurd hp (hphase batch)
        | choosing | taking answers | sleeping | done => simp [advances, hp]
    · have hadv : s.advances p (.hears q i answer) = false := by simp [advances, hq]
      split
      · exact hsame _ (paths_hear_other hq _ _ i answer) hadv
      · exact hsame _ rfl hadv
  | collects q =>
    simp only [step]
    by_cases hq : p = q
    · subst hq
      split
      · rename_i batch hphase
        split
        · rename_i answers hanswers
          have hbatch := batch_of_mapM hanswers
          rw [hbatch] at hphase
          refine Or.inl ⟨?_, ?_⟩
          · rw [setPath_paths_self]
            simpa [Path.held, hphase] using h
          · have hadv := Bool.toNat_le (s.advances p (.collects p))
            rw [setPath_paths_self]
            simp only [Path.left, hphase, List.length_map]
            omega
        · rename_i hnone
          refine hsame _ rfl ?_
          simp [advances, hphase, not_all_of_mapM hnone]
      · rename_i hphase
        refine hsame _ rfl ?_
        cases hp : (s.paths p).phase with
        | asking batch => exact absurd hp (hphase batch)
        | choosing | taking answers | sleeping | done => simp [advances, hp]
    · have hadv : s.advances p (.collects q) = false := by simp [advances, hq]
      split
      · split
        · exact hsame _ (setPath_paths_other s _ hq) hadv
        · exact hsame _ rfl hadv
      · exact hsame _ rfl hadv
  | takes q =>
    simp only [step]
    by_cases hq : p = q
    · subst hq
      split
      · rename_i answers hphase
        exact held_take h hphase
      · rename_i hphase
        refine hsame _ rfl ?_
        cases hp : (s.paths p).phase with
        | taking answers => exact absurd hp (hphase answers)
        | choosing | asking batch | sleeping | done => simp [advances, hp]
    · have hadv : s.advances p (.takes q) = false := by simp [advances, hq]
      split
      · exact hsame _ (paths_take_other hq _ _) hadv
      · exact hsame _ rfl hadv

theorem released_of_advanced (h : n ∈ (s.paths p).held) {es : List WalkEvent}
    (hes : (s.paths p).left ≤ s.advanced blake3 idBits ourId target width p es) :
    ∃ k ≤ es.length, (run (step blake3 idBits ourId target width) s (es.take k)).released n = true := by
  induction es generalizing s with
  | nil =>
    have hpos := left_pos h
    simp only [advanced] at hes
    omega
  | cons e es ih =>
    rw [advanced] at hes
    rcases @held_step blake3 idBits ourId target width s p n h e with ⟨hheld, hleft⟩ | hreleased
    · obtain ⟨k, hk, hreleased⟩ := ih hheld (by omega)
      exact ⟨k + 1, by simpa using hk, hreleased⟩
    · exact ⟨1, by simp, hreleased⟩

/-- The paths of the walk are disjoint, and ask what they may. -/
structure Disjoint (blake3 : Bytes → Bytes) (idBits : Nat) (ourId target : NodeId) (seedsOf : Nat → List NodeInfo)
    (s : Walk) : Prop where
  respondersNodup : ∀ p, ((s.responders target p).map (·.id)).Nodup
  respondersApart : ∀ p q, p ≠ q → ∀ r ∈ s.responders target p, ∀ r' ∈ s.responders target q, r.id ≠ r'.id
  asksNodup : (asks s.log).Nodup
  outstandingNodup : ∀ p, (s.paths p).outstanding.Nodup
  outstandingApart : ∀ p q, p ≠ q → ∀ n ∈ (s.paths p).outstanding, n ∉ (s.paths q).outstanding
  answeredLast : s.log.Pairwise fun a b => ∀ p n q node, a = .answered p n → b = .asked q node → node.id ≠ n
  /-- What a path asks and did not start from is not this node, and has earned its id. -/
  askedEarned : ∀ p node, .asked p node ∈ s.log →
    node ∈ seedsOf p ∨ node.id ≠ ourId ∧ node.idIsValid blake3 idBits = true

theorem disjoint_of_kept {seedsOf : Nat → List NodeInfo} (hk : Kept blake3 idBits ourId seedsOf s) :
    Disjoint blake3 idBits ourId target seedsOf s := by
  have hmem : ∀ p, ∀ r ∈ s.responders target p, r ∈ (s.paths p).responded := fun p r hr =>
    (List.mergeSort_perm _ _).mem_iff.1 hr
  refine ⟨fun p => ?_, fun p q hpq r hr r' hr' heq => ?_, hk.asksOnce, fun p => ?_, fun p q hpq n hn hn' => ?_,
    hk.later, fun p node h => ?_⟩
  · exact ((List.mergeSort_perm _ _).map _).nodup_iff.2 (hk.respondedNodup p)
  · exact hpq (hk.respondedOnce p q r (hmem p r hr) r' (hmem q r' hr') heq)
  · exact (hk.heldNodup p).sublist (outstanding_sublist_held _)
  · exact hpq (hk.heldOnce p q n ((outstanding_sublist_held _).subset hn) ((outstanding_sublist_held _).subset hn'))
  · have hmay := hk.askedEarned p node h
    simpa only [mayAsk, ne_eq, decide_not, Bool.and_eq_true, Bool.not_eq_true', decide_eq_false_iff_not] using hmay

/-- Whatever the seeds, the number of paths, their width and the answers, and however the paths' steps interleave, the
paths are disjoint; and a claim that has not been answered is held by a path that does not wait and can go on, and is
released when that path has taken the rest of its round. -/
theorem disjoint_run (blake3 : Bytes → Bytes) (idBits : Nat) (ourId target : NodeId) (width : Nat)
    (seeds : List NodeInfo) (paths : Nat) (es : List WalkEvent) :
    let go := run (step blake3 idBits ourId target width)
    let s := go (start seeds paths) es
    Disjoint blake3 idBits ourId target (deal seeds (min (max paths 1) seeds.length)) s ∧
      ∀ n, s.released n = false → ∃ p, n ∈ (s.paths p).held ∧ (s.paths p).phase ≠ .sleeping ∧
        (∃ e, s.advances p e = true) ∧
        ∀ es', (s.paths p).left ≤ s.advanced blake3 idBits ourId target width p es' →
          ∃ k ≤ es'.length, (go s (es'.take k)).released n = true := by
  intro go s
  have hk := kept_run blake3 idBits ourId target width seeds paths es
  refine ⟨disjoint_of_kept hk, fun n hn => ?_⟩
  have hclaim : n ∈ s.claimed ∧ n ∉ s.answered := by simpa [released] using hn
  obtain ⟨p, hp⟩ := (hk.claimedHeld n hclaim.1).resolve_left hclaim.2
  exact ⟨p, hp, not_sleeping hp, can_advance hp, fun es' hes => released_of_advanced hp hes⟩

end Progress

end Walk

end HidraNet.Dht.Table
