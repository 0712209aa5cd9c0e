import HidraNet.Core.Directory

/-!
# Importing a signed list

A signed list is verified, read, held against the clock and the list before it, and merged into the pocket.  What makes
a signature good and the JSON a list is the libraries' part.

Over any history of imports the pocket follows the last list accepted, which no earlier one was newer than
(`import_run`): what that list withdraws is gone, its issuer is the pocket's, and importing it again changes nothing.
-/

namespace HidraNet.Core

open Runs Text
open Redemption (ensure)

/-- A key that can check a signature. -/
structure ReleaseKey where
  verifies : Bytes → Bytes → Bool

/-- One call of `import_signed_at`. -/
structure ImportCall where
  list : Bytes
  signature : String
  key : Option ReleaseKey
  now : Int

section

variable {Pk : Type} (c : Crypto Pk) (json : String → Option Directory)

def ReleaseKey.verify (k : ReleaseKey) (data : Bytes) (signature : String) : Except String Unit := do
  let bytes ← (c.base64 (trim signature)).elim (.error "the signature is not base64") .ok
  ensure (bytes.length = 64) "a signature is 64 bytes"
  ensure (k.verifies data bytes = true)
    "the signature does not match: the file was changed, or was not signed with the release key"

namespace Directory

/-- Parses a list without checking a signature. -/
def fromJsonUnchecked (text : String) : Except String Directory := do
  let d ← (json text).elim (.error "the node list is not valid JSON") .ok
  ensure (d.version = DIRECTORY_VERSION) ("the node list is version " ++ toString d.version ++
    "; this client reads version " ++ toString DIRECTORY_VERSION)
  ensure (¬ (d.nodes = [] ∧ d.removed = [])) "the node list names no nodes"
  d.nodes.forM fun n => n.validate c
  let _ ← d.expires.elim (.ok 0) fun e => context (rfc3339ToUnix e) "the list's expiry"
  d.removed.forM fun k => do
    let _ ← context (publicKeyFromBase64 c k) "a removed key in the list"
    .ok ()
  d.passIssuer.elim (.ok ()) fun p => p.validate c
  .ok d

def fromSigned (list : Bytes) (signature : String) (key : ReleaseKey) : Except String Directory := do
  context (key.verify c list signature) "the node list is not accepted"
  let text ← (String.fromUTF8? ⟨list.toArray⟩).elim (.error "the node list is not UTF-8") .ok
  fromJsonUnchecked c json text

/-- Why this list must not be applied now, if it must not. -/
def checkCurrent (d : Directory) (p : Pocket) (now : Int) : Except String Unit := do
  d.expires.elim (.ok ()) fun e => do
    let until' ← rfc3339ToUnix e
    ensure (¬ now > until') ("the node list expired on " ++ e ++
      "; get a newer one, a stale list may name nodes that are gone or taken over")
  ensure (¬ d.sequence < p.listSequence) ("the node list is older (sequence " ++ toString d.sequence ++
    ") than the one already imported (sequence " ++ toString p.listSequence ++ "); refusing to go back")

end Directory

def ImportCall.directory (call : ImportCall) : Except String Directory := do
  let key ← call.key.elim (.error ("this build carries no list key, so it cannot check a node list; a key given " ++
    "explicitly (`hidravpn nodes import --pubkey ...`) must have come to you by another channel than the list")) .ok
  Directory.fromSigned c json call.list call.signature key

/-- The whole import, with the clock given. -/
def importSignedAt (p : Pocket) (call : ImportCall) : Except String Merge × Pocket :=
  match call.directory c json with
  | .error e => (.error e, p)
  | .ok d =>
    match d.checkCurrent p call.now with
    | .error e => (.error e, p)
    | .ok () =>
      let (p, m) := d.mergeInto c p
      (.ok m, p)

end

/-! ### Which nodes are held -/

namespace Pocket

variable {Pk : Type} {c : Crypto Pk} {p : Pocket}

def Holds (p : Pocket) (key : String) : Prop := (∃ i ∈ p.admitted, i.key = key) ∨ ∃ k ∈ p.known, k.key = key

instance (p : Pocket) (key : String) : Decidable (p.Holds key) := inferInstanceAs (Decidable (_ ∨ _))

theorem holds_removeByKey {key key' : String} : (p.removeByKey key).1.Holds key' ↔ p.Holds key' ∧ key' ≠ trim key := by
  unfold Holds removeByKey admitted
  simp only [← List.filter_append, List.mem_filter, decide_eq_true_eq]
  constructor
  · rintro (⟨i, ⟨hi, hne⟩, rfl⟩ | ⟨k, ⟨hk, hne⟩, rfl⟩)
    · exact ⟨Or.inl ⟨i, hi, rfl⟩, hne⟩
    · exact ⟨Or.inr ⟨k, hk, rfl⟩, hne⟩
  · rintro ⟨⟨i, hi, rfl⟩ | ⟨k, hk, rfl⟩, hne⟩
    · exact Or.inl ⟨i, ⟨hi, hne⟩, rfl⟩
    · exact Or.inr ⟨k, ⟨hk, hne⟩, rfl⟩

theorem removeByKey_of_not_holds {key : String} (h : ¬ p.Holds (trim key)) : (p.removeByKey key).1 = p := by
  unfold Holds at h
  simp only [not_or, not_exists, not_and] at h
  have hlist : ∀ l : List Invite, (∀ i ∈ l, i ∈ p.admitted) → l.filter (fun i => i.key ≠ trim key) = l := by
    intro l hl
    rw [List.filter_eq_self]
    intro i hi
    simpa using h.1 i (hl i hi)
  have hknown : p.known.filter (fun k => k.key ≠ trim key) = p.known := by
    rw [List.filter_eq_self]
    intro k hk
    simpa using h.2 k hk
  unfold removeByKey
  dsimp only
  rw [hlist p.entries fun i hi => List.mem_append_left _ hi, hlist p.exits fun i hi => List.mem_append_right _ hi,
    hknown]

theorem holds_learn {record : NodeRecord} {u : Unit} {q : Pocket} (h : p.learn c record = (.ok u, q)) (key : String) :
    q.Holds key ↔ p.Holds key ∨ key = record.key := by
  rcases learn_cases p record with ⟨e, he, -⟩ | ⟨-, -, -, hok⟩
  · rw [he] at h
    cases h
  · rw [hok] at h
    cases h
    unfold Holds
    constructor
    · rintro (hi | ⟨k, hk, rfl⟩)
      · exact Or.inl (Or.inl hi)
      · rcases List.mem_append.1 hk with hk | hk
        · exact Or.inl (Or.inr ⟨k, hk, rfl⟩)
        · rw [List.mem_singleton.1 hk]
          exact Or.inr rfl
    · rintro ((hi | ⟨k, hk, rfl⟩) | rfl)
      · exact Or.inl hi
      · exact Or.inr ⟨k, List.mem_append_left _ hk, rfl⟩
      · exact Or.inr ⟨record, by simp, rfl⟩

private theorem holds_follow {record : NodeRecord} {copy : Invite} (hcopy : copy ∈ p.admitted)
    (hkey : copy.key = record.key) (key : String) :
    (∃ i ∈ (p.follow record.key (slotsForRole record.role) copy).admitted, i.key = key) ↔
      ∃ i ∈ p.admitted, i.key = key := by
  constructor
  · rintro ⟨i, hi, rfl⟩
    obtain ⟨slot, hi⟩ := mem_admitted.1 hi
    rw [list_follow] at hi
    rcases mem_followed hi with hi | hi
    · exact ⟨i, mem_admitted.2 ⟨slot, hi⟩, rfl⟩
    · cases hi
      exact ⟨copy, hcopy, rfl⟩
  · rintro ⟨i, hi, rfl⟩
    by_cases hrecord : i.key = record.key
    · -- a slot the role allows has it, now if not before
      obtain ⟨slot, hslot⟩ : ∃ slot, (slotsForRole record.role).contains slot = true := by
        unfold slotsForRole
        split
        · exact ⟨.entry, rfl⟩
        · exact ⟨.exit, rfl⟩
        · exact ⟨.entry, rfl⟩
      have hfollowed : ∃ j ∈ followed record.key true (some copy) (p.list slot), j.key = record.key := by
        unfold followed
        dsimp only
        by_cases hhas : ((p.list slot).any fun i => i.key = record.key) = true
        · simp only [hhas, Bool.not_true, Bool.and_false, Bool.false_eq_true, if_false, Bool.false_and]
          simpa using hhas
        · simp only [hhas, Bool.not_false, Bool.and_true, if_true]
          exact ⟨copy, by simp, hkey⟩
      obtain ⟨j, hj, hjkey⟩ := hfollowed
      refine ⟨j, mem_admitted.2 ⟨slot, ?_⟩, hjkey.trans hrecord.symm⟩
      rw [list_follow, hslot]
      exact hj
    · obtain ⟨slot, hi⟩ := mem_admitted.1 hi
      refine ⟨i, mem_admitted.2 ⟨slot, ?_⟩, rfl⟩
      rw [list_follow]
      unfold followed
      dsimp only
      split
      · exact List.mem_append_left _ hi
      · split
        · exact List.mem_filter.2 ⟨hi, by simpa using hrecord⟩
        · exact hi

theorem holds_refresh {record : NodeRecord} (key : String) : (p.refresh record).1.Holds key ↔ p.Holds key := by
  have hupdated : (∃ i ∈ (p.refreshAdmitted record).1.admitted, i.key = key) ↔ ∃ i ∈ p.admitted, i.key = key := by
    constructor
    · rintro ⟨j, hj, rfl⟩
      obtain ⟨i, hi, rfl⟩ := mem_refreshAdmitted.1 hj
      exact ⟨i, hi, by simp⟩
    · rintro ⟨i, hi, rfl⟩
      exact ⟨_, mem_refreshAdmitted.2 ⟨i, hi, rfl⟩, by simp⟩
  rcases refresh_cases p record with h | h | h | ⟨copy, hcopy, hkey, h⟩
  · rw [h]
  · rw [h]
    have hkeys := Lists.map_modifyFirst (p := fun k : NodeRecord => k.key = record.key) (f := fun _ => record)
      NodeRecord.key (l := p.known) (by simp +contextual)
    have hknown : ∀ l : List NodeRecord, (∃ k ∈ l, k.key = key) ↔ key ∈ l.map NodeRecord.key := by simp
    unfold Holds
    dsimp only
    rw [hknown, hkeys, ← hknown]
    exact Iff.rfl
  · rw [h]
    exact or_congr hupdated Iff.rfl
  · rw [h]
    exact or_congr ((holds_follow hcopy hkey key).trans hupdated) Iff.rfl

def lastList (p : Pocket) : Nat × Option PassIssuer := (p.listSequence, p.passIssuer)

theorem lastList_learn (record : NodeRecord) : (p.learn c record).2.lastList = p.lastList := by
  rcases learn_cases p record with ⟨e, h, -⟩ | ⟨-, -, -, h⟩
  · rw [h]
  · rw [h]
    rfl

theorem lastList_refresh (record : NodeRecord) : (p.refresh record).1.lastList = p.lastList := by
  rcases refresh_cases p record with h | h | h | ⟨copy, -, -, h⟩
  · rw [h]
  all_goals
    rw [h]
    rfl

end Pocket

/-! ### What a merge leaves -/

namespace Directory

variable {Pk : Type} {c : Crypto Pk} {d : Directory} {p : Pocket}

/-- What the pocket holds where the list was merged last. -/
structure Merged (d : Directory) (p : Pocket) : Prop where
  removed : ∀ k ∈ d.removed, ¬ p.Holds (trim k)
  nodes : ∀ n ∈ d.nodes, d.isRemoved n = false → p.Holds n.key
  sequence : p.listSequence = d.sequence
  issuer : p.passIssuer = d.passIssuer

theorem mergeNode_lastList (newer : Bool) (s : Pocket × Merge) (n : NodeRecord) :
    (d.mergeNode c newer s n).1.lastList = s.1.lastList := by
  rcases mergeNode_cases c d newer s n with ⟨-, h⟩ | ⟨-, ⟨u, h⟩ | ⟨e, -, h⟩⟩
  · rw [h]
  · have := Pocket.lastList_learn (c := c) (p := s.1) n
    rwa [h] at this
  · rw [h]
    split
    · exact Pocket.lastList_refresh n
    · rfl

theorem holds_mergeNode {newer : Bool} {s : Pocket × Merge} {n : NodeRecord} (key : String) :
    (s.1.Holds key → (d.mergeNode c newer s n).1.Holds key) ∧
      ((d.mergeNode c newer s n).1.Holds key → s.1.Holds key ∨ (d.isRemoved n = false ∧ key = n.key)) := by
  rcases mergeNode_cases c d newer s n with ⟨-, h⟩ | ⟨hremoved, ⟨u, h⟩ | ⟨e, -, h⟩⟩
  · rw [h]
    exact ⟨id, Or.inl⟩
  · have hlearn := Pocket.holds_learn h key
    constructor
    · intro hs
      exact hlearn.2 (Or.inl hs)
    · intro hq
      rcases hlearn.1 hq with hs | hkey
      · exact Or.inl hs
      · exact Or.inr ⟨hremoved, hkey⟩
  · have hiff : (d.mergeNode c newer s n).1.Holds key ↔ s.1.Holds key := by
      rw [h]
      split
      · exact Pocket.holds_refresh key
      · exact Iff.rfl
    exact ⟨hiff.2, fun hq => Or.inl (hiff.1 hq)⟩

theorem holds_mergeNode_self {newer : Bool} {s : Pocket × Merge} {n : NodeRecord} (hn : n.validate c = .ok ())
    (hremoved : d.isRemoved n = false) : (d.mergeNode c newer s n).1.Holds n.key := by
  rcases mergeNode_cases c d newer s n with ⟨h, -⟩ | ⟨-, ⟨u, h⟩ | ⟨e, he, -⟩⟩
  · rw [hremoved] at h
    cases h
  · exact (Pocket.holds_learn h n.key).2 (Or.inr rfl)
  · -- a valid record is turned away only where its key is held
    rcases Pocket.learn_cases (c := c) s.1 n with ⟨e', -, hheld⟩ | ⟨-, -, -, hok⟩
    · exact (holds_mergeNode n.key).1 (hheld hn)
    · rw [hok] at he
      cases he

theorem holds_withdraw {removed : List String} {s : Pocket × Merge} {key : String}
    (h : (removed.foldl withdraw s).1.Holds key) : ∀ k ∈ removed, key ≠ trim k := by
  have hless : s.1.Holds key ∧ ∀ k ∈ removed, key ≠ trim k := by
    induction removed generalizing s with
    | nil => exact ⟨h, by simp⟩
    | cons k removed ih =>
      obtain ⟨h, hremoved⟩ := ih h
      obtain ⟨h, hk⟩ := Pocket.holds_removeByKey.1 h
      refine ⟨h, ?_⟩
      intro k' hk'
      rcases List.mem_cons.1 hk' with rfl | hk'
      · exact hk
      · exact hremoved k' hk'
  exact hless.2

theorem holds_mergeNodes {newer : Bool} {nodes : List NodeRecord} {s : Pocket × Merge}
    (hnodes : ∀ n ∈ nodes, n.validate c = .ok ()) :
    (∀ key, s.1.Holds key → (nodes.foldl (d.mergeNode c newer) s).1.Holds key) ∧
      ∀ n ∈ nodes, d.isRemoved n = false → (nodes.foldl (d.mergeNode c newer) s).1.Holds n.key := by
  induction nodes generalizing s with
  | nil => exact ⟨fun _ h => h, by simp⟩
  | cons n nodes ih =>
    obtain ⟨hkept, hnew⟩ := ih (s := d.mergeNode c newer s n) fun n' hn' => hnodes n' (List.mem_cons_of_mem _ hn')
    constructor
    · intro key h
      exact hkept key ((holds_mergeNode key).1 h)
    · intro n' hn' hremoved
      rcases List.mem_cons.1 hn' with rfl | hn'
      · exact hkept _ (holds_mergeNode_self (hnodes n' List.mem_cons_self) hremoved)
      · exact hnew n' hn' hremoved

theorem remember_of_le (h : p.listSequence ≤ d.sequence) :
    d.remember p = { p with listSequence := d.sequence, passIssuer := d.passIssuer } := by
  unfold remember
  dsimp only
  by_cases hlt : d.sequence > p.listSequence
  · rw [if_pos hlt]
    simp
  · have heq : p.listSequence = d.sequence := by omega
    rw [if_neg hlt, if_pos (Or.inl (by omega)), ← heq]

theorem merged_mergeInto (hnodes : ∀ n ∈ d.nodes, n.validate c = .ok ()) (hsequence : p.listSequence ≤ d.sequence) :
    d.Merged (d.mergeInto c p).1 := by
  unfold mergeInto
  dsimp only
  generalize hw : d.removed.foldl withdraw (p, ⟨[], [], [], []⟩) = w
  generalize hm : d.nodes.foldl (d.mergeNode c (decide (d.sequence > p.listSequence))) w = m
  have hlastW : w.1.lastList = p.lastList := by
    rw [← hw]
    refine List.foldlRecOn (motive := fun s : Pocket × Merge => s.1.lastList = p.lastList) _ _ rfl ?_
    intro s hs key _
    exact hs
  have hlast : m.1.lastList = p.lastList := by
    rw [← hm]
    refine List.foldlRecOn (motive := fun s : Pocket × Merge => s.1.lastList = p.lastList) _ _ hlastW ?_
    intro s hs n _
    rw [mergeNode_lastList, hs]
  have hold : m.1.listSequence = p.listSequence := congrArg Prod.fst hlast
  have hremoved : ∀ k ∈ d.removed, ¬ m.1.Holds (trim k) := by
    intro k hk
    rw [← hm]
    refine List.foldlRecOn (motive := fun s : Pocket × Merge => ¬ s.1.Holds (trim k)) _ _ ?_ ?_
    · intro h
      rw [← hw] at h
      exact holds_withdraw h k hk rfl
    · intro s hs n _ h
      rcases (holds_mergeNode _).2 h with h | ⟨hn, hkey⟩
      · exact hs h
      · unfold isRemoved at hn
        rw [List.any_eq_false] at hn
        exact hn k hk (by simpa using hkey)
  have hheld : ∀ n ∈ d.nodes, d.isRemoved n = false → m.1.Holds n.key := by
    rw [← hm]
    exact (holds_mergeNodes hnodes).2
  rw [remember_of_le (by omega)]
  exact ⟨hremoved, hheld, rfl, rfl⟩

theorem mergeInto_of_merged (h : d.Merged p) : (d.mergeInto c p).1 = p := by
  unfold mergeInto
  dsimp only
  have hnewer : decide (d.sequence > p.listSequence) = false := by simp [h.sequence]
  have hwithdrawn : (d.removed.foldl withdraw (p, ⟨[], [], [], []⟩)).1 = p := by
    refine List.foldlRecOn (motive := fun s : Pocket × Merge => s.1 = p) _ _ rfl ?_
    intro s hs key hkey
    change (s.1.removeByKey key).1 = p
    rw [hs]
    exact Pocket.removeByKey_of_not_holds (h.removed key hkey)
  have hmerged : (d.nodes.foldl (d.mergeNode c false) (d.removed.foldl withdraw (p, ⟨[], [], [], []⟩))).1 = p := by
    refine List.foldlRecOn (motive := fun s : Pocket × Merge => s.1 = p) _ _ hwithdrawn ?_
    intro s hs n hn
    rcases mergeNode_cases c d false s n with ⟨-, h'⟩ | ⟨hremoved, ⟨u, h'⟩ | ⟨e, -, h'⟩⟩
    · rw [h', hs]
    · -- the node is held, so its record is not learnt
      have hheld := h.nodes n hn hremoved
      rw [hs] at h'
      rcases Pocket.learn_cases (c := c) p n with ⟨e, he, -⟩ | ⟨-, hadmitted, hknown, -⟩
      · rw [he] at h'
        cases h'
      · rcases hheld with ⟨i, hi, hkey⟩ | ⟨k, hk, hkey⟩
        · exact absurd hkey (hadmitted i hi)
        · exact absurd hkey (hknown k hk)
    · rw [h', hs]
      rfl
  rw [hnewer, hmerged, remember_of_le (by rw [h.sequence]), ← h.sequence, ← h.issuer]

end Directory

/-! ### Histories of imports -/

/-- The pocket, and the lists accepted so far. -/
structure Imports where
  pocket : Pocket
  accepted : List Directory

namespace Imports

def start (p : Pocket) : Imports := ⟨p, []⟩

variable {Pk : Type} (c : Crypto Pk) (json : String → Option Directory)

def step (s : Imports) (call : ImportCall) : Imports :=
  match importSignedAt c json s.pocket call with
  | (.ok _, p) => ⟨p, s.accepted ++ (call.directory c json).toOption.toList⟩
  | (.error _, p) => { s with pocket := p }

variable {c json}

theorem forM_ok {α : Type} {f : α → Except String Unit} {l : List α} (h : l.forM f = .ok ()) :
    ∀ x ∈ l, f x = .ok () := by
  induction l with
  | nil => simp
  | cons a l ih =>
    obtain ⟨⟨⟩, ha, hl⟩ := ok_of_bind (x := f a) (f := fun _ => l.forM f) h
    intro x hx
    rcases List.mem_cons.1 hx with rfl | hx
    · exact ha
    · exact ih hl x hx

theorem directory_nodes {call : ImportCall} {d : Directory} (h : call.directory c json = .ok d) :
    ∀ n ∈ d.nodes, n.validate c = .ok () := by
  unfold ImportCall.directory at h
  obtain ⟨key, -, h⟩ := ok_of_bind h
  unfold Directory.fromSigned at h
  obtain ⟨_, -, h⟩ := ok_of_bind h
  obtain ⟨text, -, h⟩ := ok_of_bind h
  unfold Directory.fromJsonUnchecked at h
  obtain ⟨d', -, h⟩ := ok_of_bind h
  obtain ⟨_, -, h⟩ := ok_of_bind h
  obtain ⟨_, -, h⟩ := ok_of_bind h
  obtain ⟨⟨⟩, hnodes, h⟩ := ok_of_bind h
  obtain ⟨_, -, h⟩ := ok_of_bind h
  obtain ⟨_, -, h⟩ := ok_of_bind h
  obtain ⟨_, -, h⟩ := ok_of_bind h
  cases h
  exact forM_ok hnodes

theorem checkCurrent_ok {d : Directory} {p : Pocket} {now : Int} (h : d.checkCurrent p now = .ok ()) :
    p.listSequence ≤ d.sequence := by
  unfold Directory.checkCurrent at h
  obtain ⟨_, -, h⟩ := ok_of_bind h
  exact Nat.le_of_not_lt (of_ensure h)

/-- An import fails and changes nothing, or merges a list that is not older. -/
theorem importSignedAt_cases (c : Crypto Pk) (json : String → Option Directory) (p : Pocket) (call : ImportCall) :
    (∃ e, importSignedAt c json p call = (.error e, p)) ∨
    ∃ d m, call.directory c json = .ok d ∧ p.listSequence ≤ d.sequence ∧
      importSignedAt c json p call = (.ok m, (d.mergeInto c p).1) := by
  unfold importSignedAt
  cases hd : call.directory c json with
  | error e => exact Or.inl ⟨e, rfl⟩
  | ok d =>
    dsimp only
    cases hcurrent : d.checkCurrent p call.now with
    | error e => exact Or.inl ⟨e, rfl⟩
    | ok u =>
      cases u
      exact Or.inr ⟨d, _, rfl, checkCurrent_ok hcurrent, rfl⟩

/-- The pocket follows the last list accepted. -/
structure Followed (s : Imports) : Prop where
  last : ∀ d ∈ s.accepted.getLast?, d.Merged s.pocket
  older : ∀ d ∈ s.accepted, d.sequence ≤ s.pocket.listSequence

theorem followed_start (p : Pocket) : (start p).Followed := ⟨by simp [start], by simp [start]⟩

theorem followed_step {s : Imports} (hs : s.Followed) (call : ImportCall) : (s.step c json call).Followed := by
  unfold step
  rcases importSignedAt_cases c json s.pocket call with ⟨e, h⟩ | ⟨d, m, hd, hsequence, h⟩
  · rw [h]
    exact hs
  · rw [h, hd]
    have hmerged := Directory.merged_mergeInto (p := s.pocket) (directory_nodes hd) hsequence
    dsimp only
    constructor
    · intro d' hd'
      simp only [Except.toOption, Option.toList_some, List.getLast?_concat, Option.mem_some_iff] at hd'
      subst hd'
      exact hmerged
    · intro d' hd'
      rw [hmerged.sequence]
      rcases List.mem_append.1 hd' with hd' | hd'
      · exact (hs.older d' hd').trans hsequence
      · simp only [Except.toOption, Option.toList_some, List.mem_singleton] at hd'
        rw [hd']

/-- What holds of the last list accepted, and of one more import, after any history of them. -/
theorem import_run (c : Crypto Pk) (json : String → Option Directory) (p : Pocket) (calls : List ImportCall) :
    let s := run (step c json) (start p) calls
    (∀ d ∈ s.accepted.getLast?, (∀ k ∈ d.removed, ∀ i, (i ∈ s.pocket.entries ∨ i ∈ s.pocket.exits → i.key ≠ trim k)) ∧
        (∀ k ∈ d.removed, ∀ n ∈ s.pocket.known, n.key ≠ trim k) ∧
        s.pocket.passIssuer = d.passIssuer ∧ (∀ d' ∈ s.accepted, d'.sequence ≤ d.sequence) ∧
        ∀ call : ImportCall, call.directory c json = .ok d → (importSignedAt c json s.pocket call).2 = s.pocket) ∧
      ∀ call : ImportCall, (∀ e, (importSignedAt c json s.pocket call).1 = .error e →
          (importSignedAt c json s.pocket call).2 = s.pocket) ∧
        s.pocket.listSequence ≤ (importSignedAt c json s.pocket call).2.listSequence := by
  intro s
  have hs : s.Followed := run_always (P := Followed) (fun s call hs => followed_step hs call) (followed_start p) calls
  constructor
  · intro d hd
    have hmerged := hs.last d hd
    refine ⟨?_, ?_, hmerged.issuer, ?_, ?_⟩
    · intro k hk i hi hkey
      exact hmerged.removed k hk (Or.inl ⟨i, List.mem_append.2 hi, hkey⟩)
    · intro k hk n hn hkey
      exact hmerged.removed k hk (Or.inr ⟨n, hn, hkey⟩)
    · intro d' hd'
      rw [← hmerged.sequence]
      exact hs.older d' hd'
    · intro call hcall
      rcases importSignedAt_cases c json s.pocket call with ⟨e, h⟩ | ⟨d', m, hd', -, h⟩
      · rw [h]
      · rw [hcall] at hd'
        cases hd'
        rw [h]
        exact Directory.mergeInto_of_merged hmerged
  · intro call
    rcases importSignedAt_cases c json s.pocket call with ⟨e, h⟩ | ⟨d, m, hd, hsequence, h⟩
    · rw [h]
      exact ⟨fun _ _ => rfl, le_refl _⟩
    · rw [h]
      have hmerged := Directory.merged_mergeInto (p := s.pocket) (directory_nodes hd) hsequence
      constructor
      · intro e he
        cases he
      · change s.pocket.listSequence ≤ (d.mergeInto c s.pocket).1.listSequence
        rw [hmerged.sequence]
        exact hsequence

end Imports

end HidraNet.Core
