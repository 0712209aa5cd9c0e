import HidraNet.Hidrarelay.Retained

/-!
# The books of the retained store

Every insert and every remove keeps the books exact (`exact_run`), so that nothing is ever taken from less than it
(`Exact.covers`), and inserts that found room keep within the limits (`withinLimits_run`).  The index of post ids never
names a topic that is gone, but of several topics with one id it knows the last one inserted: `retained_books` says of
every run when it still finds the one that is left.
-/

namespace HidraNet.Hidrarelay

open Maps Books Runs

namespace Retained

variable {P : Type*} [Payload P]

/-! ### The books -/

def weight (_ : Topic) (e : Entry P) : Nat := len e.payload

def isOfClass (c : Topic) (topic : Topic) (_ : Entry P) : Bool := topicClass topic = c

def isSignedBy (pk : String) (_ : Topic) (e : Entry P) : Bool := e.signed.pk = some pk

def isNameOf (pk : String) (topic : Topic) (e : Entry P) : Bool :=
  topicClass topic = ["hforum", "u"] && e.signed.pk = some pk

/-- The books say what the kept messages say. -/
structure Exact (r : Retained P) : Prop where
  bytes : r.bytes = total (fun _ _ => true) weight r.map
  count : ∀ c, r.count c = number (isOfClass c) r.map
  authorBytes : ∀ pk, r.authorBytes pk = total (isSignedBy pk) weight r.map
  claimsOf : ∀ pk, r.claimsOf pk = number (isNameOf pk) r.map
  topicOfId : ∀ i topic, r.topicOfId i = some topic → r.map.contains topic = true ∧ postId topic = some i

def Indexed (r : Retained P) : Prop :=
  ∀ topic i, r.map.contains topic = true → postId topic = some i →
    (∀ other, r.map.contains other = true → postId other = some i → other = topic) → r.topicOfId i = some topic

/-- What `remove` and `refuse_room` take away is there. -/
def Covers (r : Retained P) : Prop :=
  ∀ topic e, r.map.get? topic = some e → len e.payload ≤ r.bytes ∧ 1 ≤ r.count (topicClass topic) ∧
    ∀ pk, e.signed.pk = some pk →
      len e.payload ≤ r.authorBytes pk ∧ (topicClass topic = ["hforum", "u"] → 1 ≤ r.claimsOf pk)

structure WithinLimits (r : Retained P) : Prop where
  messages : r.size ≤ maxRetainedMessages
  bytes : r.bytes ≤ maxRetainedBytes
  author : ∀ pk, r.authorBytes pk ≤ maxBytesPerAuthor

theorem exact_empty : Exact (empty : Retained P) :=
  ⟨rfl, fun _ => rfl, fun _ => rfl, fun _ => rfl, fun _ _ h => by cases h⟩

omit [Payload P] in
theorem contains_iff {r : Retained P} {topic : Topic} :
    r.map.contains topic = true ↔ ∃ e, r.map.get? topic = some e := Option.isSome_iff_exists

theorem Exact.covers {r : Retained P} (hr : Exact r) : Covers r := by
  intro topic e he
  have hbytes := share_le_total (p := fun _ _ => true) (f := weight) he
  have hcount := share_le_total (p := isOfClass (topicClass topic)) (f := fun _ _ => 1) he
  rw [← number_eq_total, ← hr.count] at hcount
  rw [← hr.bytes] at hbytes
  refine ⟨by simpa [share, weight] using hbytes, by simpa [share, isOfClass] using hcount, fun pk hpk => ⟨?_, ?_⟩⟩
  · have hauthor := share_le_total (p := isSignedBy pk) (f := weight) he
    rw [← hr.authorBytes] at hauthor
    simpa [share, isSignedBy, weight, hpk] using hauthor
  · intro hclass
    have hclaims := share_le_total (p := isNameOf pk) (f := fun _ _ => 1) he
    rw [← number_eq_total, ← hr.claimsOf] at hclaims
    simpa [share, isNameOf, hclass, hpk] using hclaims

/-! ### One remove -/

theorem remove_none {r : Retained P} {topic : Topic} (h : r.map.get? topic = none) : r.remove topic = (false, r) := by
  unfold remove
  rw [h]

theorem map_remove (r : Retained P) (topic : Topic) : (r.remove topic).2.map = r.map.remove topic := by
  cases h : r.map.get? topic with
  | none => rw [remove_none h, remove_of_none h]
  | some e =>
    unfold remove
    rw [h]

theorem get?_remove_self (r : Retained P) (topic : Topic) : (r.remove topic).2.map.get? topic = none := by
  rw [map_remove, Map.get?_remove, if_pos rfl]

theorem ids_remove (r : Retained P) (topic : Topic) (i : String) :
    (r.remove topic).2.topicOfId i =
      if r.map.contains topic = true ∧ postId topic = some i ∧ r.topicOfId i = some topic then none
      else r.topicOfId i := by
  unfold topicOfId
  cases h : r.map.get? topic with
  | none => rw [remove_none h, if_neg (by simp [Map.contains, h])]
  | some e =>
    have hcontains : r.map.contains topic = true := contains_iff.2 ⟨e, h⟩
    unfold remove
    rw [h]
    dsimp only
    cases hid : postId topic with
    | none => simp
    | some j =>
      dsimp only
      by_cases hj : j = i
      · subst hj
        by_cases hnamed : r.ids.get? j = some topic
        · simp [hnamed, hcontains, Map.get?_remove]
        · simp [hnamed]
      · have hi : ¬ i = j := fun hij => hj hij.symm
        split
        · simp [Map.get?_remove, hi, hj]
        · simp [hj]

omit [Payload P] in
private theorem isOfClass_iff (c topic : Topic) (e : Entry P) :
    isOfClass c topic e = true ↔ some (topicClass topic) = some c := by simp [isOfClass]

omit [Payload P] in
private theorem isSignedBy_iff (pk : String) (topic : Topic) (e : Entry P) :
    isSignedBy pk topic e = true ↔ e.signed.pk = some pk := by simp [isSignedBy]

omit [Payload P] in
private theorem isNameOf_iff (pk : String) (topic : Topic) (e : Entry P) :
    isNameOf pk topic e = true ↔ nameKey topic e = some pk := by
  unfold isNameOf nameKey
  by_cases h : topicClass topic = ["hforum", "u"] <;> simp [h]

theorem Exact.ledgers {r : Retained P} (hr : Exact r) :
    IsLedger r.counts isOfClass (fun _ _ => 1) r.map ∧ IsLedger r.byAuthor isSignedBy weight r.map ∧
      IsLedger r.claimsByPk isNameOf (fun _ _ => 1) r.map := by
  refine ⟨fun c => ?_, hr.authorBytes, fun pk => ?_⟩
  · rw [← number_eq_total]
    exact hr.count c
  · rw [← number_eq_total]
    exact hr.claimsOf pk

theorem exact_of_ledgers {r : Retained P} (hbytes : r.bytes = total (fun _ _ => true) weight r.map)
    (hcounts : IsLedger r.counts isOfClass (fun _ _ => 1) r.map) (hauthor : IsLedger r.byAuthor isSignedBy weight r.map)
    (hclaims : IsLedger r.claimsByPk isNameOf (fun _ _ => 1) r.map)
    (hids : ∀ i topic, r.topicOfId i = some topic → r.map.contains topic = true ∧ postId topic = some i) :
    Exact r := by
  refine ⟨hbytes, fun c => ?_, hauthor, fun pk => ?_, hids⟩
  · rw [number_eq_total]
    exact hcounts c
  · rw [number_eq_total]
    exact hclaims pk

theorem exact_remove {r : Retained P} (hr : Exact r) (topic : Topic) : Exact (r.remove topic).2 := by
  cases h : r.map.get? topic with
  | none =>
    rw [remove_none h]
    exact hr
  | some e =>
    obtain ⟨hcounts, hauthor, hclaims⟩ := hr.ledgers
    apply exact_of_ledgers
    · have htotal := total_remove (p := fun _ _ => true) (f := weight) h
      rw [← hr.bytes] at htotal
      rw [map_remove]
      unfold remove
      rw [h]
      simp only [share, if_true, weight] at htotal ⊢
      omega
    · have hrest := hcounts.remove isOfClass_iff h
      rw [map_remove]
      unfold remove
      rw [h]
      exact hrest
    · have hrest := hauthor.remove isSignedBy_iff h
      rw [map_remove]
      unfold remove
      rw [h]
      exact hrest
    · have hrest := hclaims.remove isNameOf_iff h
      rw [map_remove]
      unfold remove
      rw [h]
      exact hrest
    · intro i other hi
      rw [ids_remove] at hi
      split at hi
      · cases hi
      · rename_i hkeeps
        obtain ⟨hcontains, hid⟩ := hr.topicOfId i other hi
        have hne : other ≠ topic := by
          rintro rfl
          exact hkeeps ⟨hcontains, hid, hi⟩
        refine ⟨?_, hid⟩
        unfold Map.contains
        rw [map_remove, Map.get?_remove, if_neg hne]
        exact hcontains

/-! ### One insert -/

theorem map_insertAt (r : Retained P) (topic : Topic) (payload : P) (m : Meta) (since : Nat) :
    (r.insertAt topic payload m since).map = (r.remove topic).2.map.set topic ⟨payload, m, since⟩ := rfl

theorem get?_insertAt (r : Retained P) (topic : Topic) (payload : P) (m : Meta) (since : Nat) (other : Topic) :
    (r.insertAt topic payload m since).map.get? other =
      if other = topic then some ⟨payload, m, since⟩ else r.map.get? other := by
  rw [map_insertAt, Map.get?_set, map_remove, Map.get?_remove]
  by_cases h : other = topic <;> simp [h]

theorem get?_remove (r : Retained P) (topic other : Topic) :
    (r.remove topic).2.map.get? other = if other = topic then none else r.map.get? other := by
  rw [map_remove, Map.get?_remove]

theorem get_insertAt (r : Retained P) (topic : Topic) (payload : P) (m : Meta) (since : Nat) (other : Topic) :
    (r.insertAt topic payload m since).get other = if other = topic then some payload else r.get other := by
  unfold Retained.get
  rw [get?_insertAt]
  split <;> rfl

theorem get_remove (r : Retained P) (topic other : Topic) :
    (r.remove topic).2.get other = if other = topic then none else r.get other := by
  unfold Retained.get
  rw [get?_remove]
  split <;> rfl

theorem ids_insertAt (r : Retained P) (topic : Topic) (payload : P) (m : Meta) (since : Nat) (i : String) :
    (r.insertAt topic payload m since).topicOfId i =
      if postId topic = some i then some topic else r.topicOfId i := by
  have hother := ids_remove r topic i
  unfold insertAt topicOfId at *
  dsimp only
  cases hid : postId topic with
  | none => simpa [hid] using hother
  | some j =>
    dsimp only
    rw [Map.get?_set]
    by_cases hj : i = j
    · simp [hj]
    · have hj' : ¬ j = i := fun hji => hj hji.symm
      rw [if_neg hj, hother]
      simp [hid, hj']

theorem exact_insertAt {r : Retained P} (hr : Exact r) (topic : Topic) (payload : P) (m : Meta) (since : Nat) :
    Exact (r.insertAt topic payload m since) := by
  have hrest := exact_remove hr topic
  have hnone := get?_remove_self r topic
  obtain ⟨hcounts, hauthor, hclaims⟩ := hrest.ledgers
  apply exact_of_ledgers
  · rw [map_insertAt, total_set hnone, ← hrest.bytes]
    rfl
  · exact hcounts.set isOfClass_iff hnone
  · exact hauthor.set (v := ⟨payload, m, since⟩) isSignedBy_iff hnone
  · exact hclaims.set (v := ⟨payload, m, since⟩) isNameOf_iff hnone
  · intro i other hi
    unfold Map.contains
    rw [get?_insertAt]
    rw [ids_insertAt] at hi
    split at hi
    · rename_i hid
      cases hi
      simp [hid]
    · obtain ⟨hcontains, hid⟩ := hr.topicOfId i other hi
      refine ⟨?_, hid⟩
      split
      · rfl
      · exact hcontains

/-! ### Room -/

theorem bytes_remove (r : Retained P) (topic : Topic) :
    (r.remove topic).2.bytes = r.bytes - ((r.map.get? topic).map fun e => len e.payload).getD 0 := by
  unfold remove
  cases r.map.get? topic <;> rfl

theorem authorBytes_remove (r : Retained P) (topic : Topic) (pk : String) :
    (r.remove topic).2.authorBytes pk = r.authorBytes pk -
      if (r.map.get? topic).any fun e => e.signed.pk = some pk then
        ((r.map.get? topic).map fun e => len e.payload).getD 0 else 0 := by
  unfold remove authorBytes
  cases r.map.get? topic with
  | none => rfl
  | some e => simpa using count_takeAt r.byAuthor e.signed.pk (len e.payload) pk

theorem bytes_insertAt (r : Retained P) (topic : Topic) (payload : P) (m : Meta) (since : Nat) :
    (r.insertAt topic payload m since).bytes = (r.remove topic).2.bytes + len payload := rfl

theorem authorBytes_insertAt (r : Retained P) (topic : Topic) (payload : P) (m : Meta) (since : Nat) (pk : String) :
    (r.insertAt topic payload m since).authorBytes pk =
      (r.remove topic).2.authorBytes pk + if m.pk = some pk then len payload else 0 :=
  count_addAt _ m.pk (len payload) pk

theorem size_remove_le (r : Retained P) (topic : Topic) : (r.remove topic).2.size ≤ r.size := by
  unfold size
  rw [map_remove]
  exact List.length_filter_le ..

theorem refuseRoom_eq_none {r : Retained P} {topic : Topic} {n : Nat} {m : Meta} :
    r.refuseRoom topic n m = none ↔
      (r.map.get? topic = none → r.size < maxRetainedMessages) ∧
      (r.remove topic).2.bytes + n ≤ byteLimitFor topic ∧
      ∀ pk, m.pk = some pk → (r.remove topic).2.authorBytes pk + n ≤ maxBytesPerAuthor := by
  unfold refuseRoom
  rw [bytes_remove]
  by_cases hmessages : (r.map.get? topic).isNone ∧ maxRetainedMessages ≤ r.size
  · rw [if_pos hmessages]
    rw [Option.isNone_iff_eq_none] at hmessages
    simp [hmessages]
  · have hsize : r.map.get? topic = none → r.size < maxRetainedMessages := by
      intro hnone
      rw [Option.isNone_iff_eq_none] at hmessages
      by_contra hfull
      exact hmessages ⟨hnone, Nat.not_lt.1 hfull⟩
    rw [if_neg hmessages]
    dsimp only
    split
    · rename_i hfull
      simp [Nat.not_le.2 hfull]
    · rename_i hbytes
      cases m.pk with
      | none => simpa [Nat.not_lt.1 hbytes] using hsize
      | some pk => simpa [authorBytes_remove, Nat.not_lt.1 hbytes] using fun _ => hsize

theorem withinLimits_remove {r : Retained P} (hr : WithinLimits r) (topic : Topic) :
    WithinLimits (r.remove topic).2 := by
  refine ⟨(size_remove_le r topic).trans hr.messages, ?_, fun pk => ?_⟩
  · rw [bytes_remove]
    exact (Nat.sub_le ..).trans hr.bytes
  · rw [authorBytes_remove]
    exact (Nat.sub_le ..).trans (hr.author pk)

theorem withinLimits_insertAt {r : Retained P} (hr : WithinLimits r) {topic : Topic} {payload : P} {m : Meta}
    (hroom : r.refuseRoom topic (len payload) m = none) (since : Nat) :
    WithinLimits (r.insertAt topic payload m since) := by
  obtain ⟨hmessages, hbytes, hauthor⟩ := refuseRoom_eq_none.1 hroom
  have hrest := withinLimits_remove hr topic
  refine ⟨?_, ?_, fun pk => ?_⟩
  · have hsize : (r.insertAt topic payload m since).size ≤ (r.remove topic).2.size + 1 := Map.size_set_le _ _ _
    cases hold : r.map.get? topic with
    | none =>
      have hmax := hmessages hold
      have hle := size_remove_le r topic
      omega
    | some e =>
      have hlt : (r.remove topic).2.size < r.size := by
        unfold size
        rw [map_remove]
        exact Map.size_remove_lt hold
      have hmax := hr.messages
      omega
  · rw [bytes_insertAt]
    exact hbytes.trans (byteLimitFor_le topic)
  · rw [authorBytes_insertAt]
    by_cases hpk : m.pk = some pk
    · rw [if_pos hpk]
      exact hauthor pk hpk
    · rw [if_neg hpk]
      exact hrest.author pk

/-! ### The index -/

def LeavesNamed (r : Retained P) (topic : Topic) : Prop :=
  ∀ other i, r.map.contains topic = true → postId topic = some i → other ≠ topic →
    r.map.contains other = true → postId other = some i →
    (∀ another, r.map.contains another = true → postId another = some i → another = topic ∨ another = other) →
    r.topicOfId i = some other

theorem contains_remove {r : Retained P} {topic other : Topic} :
    (r.remove topic).2.map.contains other = true ↔ other ≠ topic ∧ r.map.contains other = true := by
  unfold Map.contains
  rw [get?_remove]
  by_cases h : other = topic <;> simp [h]

theorem indexed_remove {r : Retained P} (hr : Indexed r) {topic : Topic} (hnamed : LeavesNamed r topic) :
    Indexed (r.remove topic).2 := by
  intro other i hkept hid halone
  obtain ⟨hne, hother⟩ := contains_remove.1 hkept
  have hrest : ∀ another, r.map.contains another = true → postId another = some i →
      another = topic ∨ another = other := by
    intro another hanother hiden
    by_cases h : another = topic
    · exact Or.inl h
    · exact Or.inr (halone another (contains_remove.2 ⟨h, hanother⟩) hiden)
  have hindex : r.topicOfId i = some other := by
    by_cases hcarries : r.map.contains topic = true ∧ postId topic = some i
    · exact hnamed other i hcarries.1 hcarries.2 hne hother hid hrest
    · apply hr other i hother hid
      intro another hanother hiden
      rcases hrest another hanother hiden with rfl | h
      · exact absurd ⟨hanother, hiden⟩ hcarries
      · exact h
  rw [ids_remove, if_neg (fun h => hne (Option.some.inj (hindex.symm.trans h.2.2))), hindex]

theorem not_indexed_remove {r : Retained P} {topic : Topic} (hnamed : ¬ LeavesNamed r topic) :
    ¬ Indexed (r.remove topic).2 := by
  intro hindexed
  apply hnamed
  intro other i hkept hid hne hother hiden hrest
  have hfound := hindexed other i (contains_remove.2 ⟨hne, hother⟩) hiden fun another hanother hi => by
    obtain ⟨hnot, hk⟩ := contains_remove.1 hanother
    exact (hrest another hk hi).resolve_left hnot
  rw [ids_remove] at hfound
  split at hfound
  · cases hfound
  · exact hfound

theorem contains_insertAt {r : Retained P} {topic : Topic} {payload : P} {m : Meta} {since : Nat} {other : Topic} :
    (r.insertAt topic payload m since).map.contains other = true ↔ other = topic ∨ r.map.contains other = true := by
  unfold Map.contains
  rw [get?_insertAt]
  by_cases h : other = topic <;> simp [h]

theorem indexed_insertAt {r : Retained P} (hr : Indexed r) (topic : Topic) (payload : P) (m : Meta) (since : Nat) :
    Indexed (r.insertAt topic payload m since) := by
  intro other i hkept hid halone
  rw [ids_insertAt]
  by_cases h : postId topic = some i
  · rw [if_pos h, halone topic (contains_insertAt.2 (Or.inl rfl)) h]
  · rw [if_neg h]
    rcases contains_insertAt.1 hkept with rfl | hother
    · exact absurd hid h
    · exact hr other i hother hid fun another hanother hi => halone another (contains_insertAt.2 (Or.inr hanother)) hi

/-! ### Whole runs -/

/-- What is done to a store: `insert` is `insert_at` with the clock's time. -/
inductive Op (P : Type*) where
  | insert (topic : Topic) (payload : P) (signed : Meta) (since : Nat)
  | remove (topic : Topic)

def step (r : Retained P) : Op P → Retained P
  | .insert topic payload m since => r.insertAt topic payload m since
  | .remove topic => (r.remove topic).2

/-- An insert is one that `refuse_room` allows. -/
def HasRoom (r : Retained P) : Op P → Prop
  | .insert topic payload m _ => r.refuseRoom topic (len payload) m = none
  | .remove _ => True

def KeepsIndex (r : Retained P) : Op P → Prop
  | .insert .. => True
  | .remove topic => LeavesNamed r topic

theorem exact_step {r : Retained P} (hr : Exact r) (op : Op P) : Exact (r.step op) := by
  cases op with
  | insert topic payload m since => exact exact_insertAt hr topic payload m since
  | remove topic => exact exact_remove hr topic

theorem exact_run (ops : List (Op P)) : Exact (run step empty ops) :=
  run_always (P := Exact) (fun _ op hr => exact_step hr op) exact_empty ops

theorem withinLimits_run {ops : List (Op P)} (hroom : Along step HasRoom empty ops) :
    WithinLimits (run step empty ops) := by
  refine run_invariant (P := WithinLimits) (fun r op hr hop => ?_) hroom
    ⟨Nat.zero_le _, Nat.zero_le _, fun _ => Nat.zero_le _⟩
  cases op with
  | insert topic payload m since => exact withinLimits_insertAt hr hop since
  | remove topic => exact withinLimits_remove hr topic

theorem indexed_iff (ops : List (Op P)) :
    (∀ j, Indexed (run step empty (ops.take j))) ↔ Along step KeepsIndex empty ops := by
  refine always_iff_along (P := Indexed) (fun _ h => h) (fun r op hr hop => ?_) (fun r op _ hop => ?_) ?_ ops
  · cases op with
    | insert topic payload m since => exact indexed_insertAt hr topic payload m since
    | remove topic => exact indexed_remove hr hop
  · cases op with
    | insert topic payload m since => exact absurd trivial hop
    | remove topic => exact not_indexed_remove hop
  · intro topic i hkept
    cases hkept

/-- The books of every run are exact and cover what is taken from them, and inserts that found room keep within the
limits.  The index finds every topic that is alone with its id, in every state of the run, exactly when no remove takes
away one of two topics with one id while the index names it, or neither. -/
theorem retained_books (ops : List (Op P)) :
    Exact (run step empty ops) ∧ Covers (run step empty ops) ∧
      (Along step HasRoom empty ops → WithinLimits (run step empty ops)) ∧
      ((∀ j, Indexed (run step empty (ops.take j))) ↔ Along step KeepsIndex empty ops) :=
  ⟨exact_run ops, (exact_run ops).covers, withinLimits_run, indexed_iff ops⟩

def secondRemoved : List (Op (List UInt8)) :=
  [.insert ["hforum", "t", "tabc"] [1] Meta.default 0, .insert ["hforum", "r", "tdef", "tabc"] [2] Meta.default 1,
    .remove ["hforum", "r", "tdef", "tabc"]]

/-- A thread is still kept when a second topic of its id goes, and the index forgets the id. -/
theorem secondRemoved_not_indexed :
    (run step empty secondRemoved).map.contains ["hforum", "t", "tabc"] = true ∧
      ¬ Indexed (run step empty secondRemoved) := by
  have hkept : (run step empty secondRemoved).map.entries.map Prod.fst = [["hforum", "t", "tabc"]] := by decide
  have hcontains : (run step empty secondRemoved).map.contains ["hforum", "t", "tabc"] = true := by decide
  refine ⟨hcontains, fun hindexed => ?_⟩
  have hfound := hindexed ["hforum", "t", "tabc"] "tabc" hcontains rfl fun other hother _ => by
    obtain ⟨e, he⟩ := contains_iff.1 hother
    have hmem : other ∈ (run step empty secondRemoved).map.entries.map Prod.fst :=
      List.mem_map.2 ⟨_, Map.mem_entries.2 he, rfl⟩
    rw [hkept] at hmem
    exact List.mem_singleton.1 hmem
  revert hfound
  decide

end Retained

end HidraNet.Hidrarelay
