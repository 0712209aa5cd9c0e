import HidraNet.Hidrarelay.Admitted

/-!
# Whose the forum's topics are

In every run of publishes and sweeps from an empty store, what is kept was checked and is remembered as its payload
says, and the index names every kept post and reply (`Good`).  From this follows whose each topic stays (`StoreSafe`): a
post's is its first signer's, dead or alive; the registrar's list only goes forward; a name that the list does not give
is the first claimer's until it is swept.
-/

namespace HidraNet.Hidrarelay

open Maps Runs Retained

variable {P : Type*} [Payload P]

/-! ### What holds of a reachable store -/

structure Good (env : Env P) (pol : ForumPolicy) (s : Forum P) : Prop where
  exact : Exact s.retained
  cache : CacheOk env pol s.cache s.retained
  checked : ∀ topic e, s.retained.map.get? topic = some e →
    e.signed = metaFor env topic e.payload.val ∧
      ∃ fact, check env pol topic e.payload.val true = .ok fact ∧ Shape env pol topic e.payload.val fact
  indexed : ∀ topic e i, s.retained.map.get? topic = some e → postId topic = some i →
    s.retained.topicOfId i = some topic

section

variable {env : Env P} {pol : ForumPolicy}

theorem good_empty : Good env pol Forum.empty := by
  refine ⟨exact_empty, cacheOk_none _, fun topic e h => ?_, fun topic e i h _ => ?_⟩
  · cases h
  · cases h

theorem post_of_shape {topic : Topic} {payload : P} {fact : Fact} (h : Shape env pol topic payload fact)
    (hpost : (postId topic).isSome) :
    (∃ id pk nickNorm, fact = .post id pk nickNorm) ∨ ∃ pk, fact = .tombstone pk := by
  cases fact with
  | post id pk nickNorm => exact Or.inl ⟨id, pk, nickNorm, rfl⟩
  | tombstone pk => exact Or.inr ⟨pk, rfl⟩
  | chat => cases h
  | report =>
    obtain ⟨_, _, rfl⟩ := h
    cases hpost
  | claim norm pk =>
    rw [h.1] at hpost
    cases hpost
  | hide pk =>
    obtain ⟨⟨_, rfl⟩, -⟩ := h
    cases hpost
  | admin pk =>
    rw [h.1] at hpost
    cases hpost
  | registry seq =>
    rw [h.1] at hpost
    cases hpost

variable [DecidableEq P]

private theorem Kept.id_free {s : Forum P} (hs : Good env pol s) {topic : Topic} {payload : Arc P} {meter : Bool}
    {fact : Fact} (h : Kept env pol s.retained topic payload meter fact) {i : String} (hid : postId topic = some i)
    {other : Topic} (hother : s.retained.topicOfId i = some other) : other = topic := by
  have hadmits := h.admits
  have hshape := h.shape
  rcases post_of_shape hshape (by simp [hid]) with ⟨id, pk, nickNorm, rfl⟩ | ⟨pk, rfl⟩
  · rw [hshape.1] at hid
    cases hid
    exact hadmits.2.2.1 other hother
  · -- what a tombstone replaces is kept, and the index names it
    have hkey : keptKey s.retained topic = some pk := hadmits
    obtain ⟨m, hm, -⟩ := Option.bind_eq_some_iff.1 hkey
    obtain ⟨e, he, -⟩ := Option.map_eq_some_iff.1 hm
    have hnamed := hs.indexed topic e i he hid
    rw [hnamed] at hother
    cases hother
    rfl

theorem good_step {s : Forum P} (hs : Good env pol s) (e : Event P) : Good env pol (s.step env pol e) := by
  obtain ⟨hcache, ⟨queued, gone, hgone, hr⟩ | ⟨topic, payload, retain, now, meter, queued, fact, rfl, hkept, hr⟩⟩ :=
    step_cases hs.cache e
  · have hget : ∀ topic e', (s.step env pol e).retained.map.get? topic = some e' →
        s.retained.map.get? topic = some e' := by
      intro topic e' h
      rw [hr, get?_removeQueued] at h
      split at h
      · cases h
      · exact h
    refine ⟨hr ▸ exact_removeQueued hs.exact queued gone, hcache, fun topic e' h => hs.checked topic e' (hget topic e' h),
      fun topic e' i h hid => ?_⟩
    rw [hr, topicOfId_removeQueued queued fun t ht => hgone.postId ht]
    exact hs.indexed topic e' i (hget topic e' h) hid
  · refine ⟨hr ▸ exact_insertAt hs.exact topic payload _ now, hcache, fun other e' h => ?_, fun other e' i h hid => ?_⟩
    · rw [hr, get?_insertAt] at h
      split at h
      · rename_i hother
        cases h
        rw [hother]
        exact ⟨rfl, fact, hkept.checked, hkept.shape⟩
      · exact hs.checked other e' h
    · rw [hr, get?_insertAt] at h
      rw [hr, ids_insertAt]
      split at h
      · rename_i hother
        rw [hother] at hid
        rw [if_pos hid, hother]
      · rename_i hother
        have hnamed := hs.indexed other e' i h hid
        rw [if_neg fun hid' => hother (hkept.id_free hs hid' hnamed), hnamed]

theorem good_run (es : List (Event P)) : Good env pol (forumAfter env pol es) :=
  run_always (P := Good env pol) (fun _ e hs => good_step hs e) good_empty es

omit [Payload P] [DecidableEq P] in
theorem keptKey_eq_some {r : Retained (Arc P)} {topic : Topic} {pk : String} :
    keptKey r topic = some pk ↔ ∃ e, r.map.get? topic = some e ∧ e.signed.pk = some pk := by
  unfold keptKey metaOf
  cases r.map.get? topic <;> simp

omit [Payload P] [DecidableEq P] in
theorem metaOf_eq_none {r : Retained (Arc P)} {topic : Topic} :
    r.metaOf topic = none ↔ r.map.get? topic = none := Option.map_eq_none_iff

/-! ### Posts -/

def signerAt (env : Env P) (pol : ForumPolicy) (r : Retained (Arc P)) (topic : Topic) : Option (String × Bool) :=
  match (r.get topic).map fun bytes => check env pol topic bytes.val true with
  | some (.ok (.post _ pk _)) => some (pk, false)
  | some (.ok (.tombstone pk)) => some (pk, true)
  | _ => none

omit [DecidableEq P] in
theorem signerAt_eq_some {s : Forum P} (hs : Good env pol s) {topic : Topic} {pk : String} {dead : Bool} :
    signerAt env pol s.retained topic = some (pk, dead) ↔
      (postId topic).isSome ∧ ∃ e, s.retained.map.get? topic = some e ∧ e.signed.pk = some pk ∧
        e.signed.tombstone = dead := by
  unfold signerAt Retained.get
  cases he : s.retained.map.get? topic with
  | none => simp
  | some e =>
    obtain ⟨hmeta, fact, hcheck, hshape⟩ := hs.checked topic e he
    simp only [Option.map_some, hcheck, Option.some.injEq, exists_eq_left', hmeta]
    by_cases hpost : (postId topic).isSome
    · rcases post_of_shape hshape hpost with ⟨id, pk', nickNorm, rfl⟩ | ⟨pk', rfl⟩
      · simp [hpost, hshape.2.2.1, hshape.2.2.2]
      · simp [hpost, hshape.2.2.1, hshape.2.2.2]
    · have hnot : ¬ ∃ id pk' nickNorm, fact = .post id pk' nickNorm := by
        rintro ⟨id, pk', nickNorm, rfl⟩
        exact hpost (by simp [hshape.1])
      have hnot' : ¬ ∃ pk', fact = .tombstone pk' := by
        rintro ⟨pk', rfl⟩
        exact hpost hshape.1
      refine iff_of_false (fun h => ?_) fun h => hpost h.1
      split at h
      · rename_i heq
        exact hnot ⟨_, _, _, by simpa using heq⟩
      · rename_i heq
        exact hnot' ⟨_, by simpa using heq⟩
      · cases h

omit [DecidableEq P] in
theorem signerAt_of_kept {s : Forum P} (hs : Good env pol s) {topic : Topic} (hpost : (postId topic).isSome)
    (hkept : s.retained.map.contains topic = true) : ∃ pk dead, signerAt env pol s.retained topic = some (pk, dead) := by
  obtain ⟨e, he⟩ := contains_iff.1 hkept
  obtain ⟨hmeta, fact, -, hshape⟩ := hs.checked topic e he
  have hpk : ∃ pk, e.signed.pk = some pk := by
    rw [hmeta]
    rcases post_of_shape hshape hpost with ⟨id, pk, nickNorm, rfl⟩ | ⟨pk, rfl⟩
    · exact ⟨pk, hshape.2.2.1⟩
    · exact ⟨pk, hshape.2.2.1⟩
  obtain ⟨pk, hpk⟩ := hpk
  exact ⟨pk, _, (signerAt_eq_some hs).2 ⟨hpost, e, he, hpk, rfl⟩⟩

theorem signerAt_step {s : Forum P} (hs : Good env pol s) (e : Event P) {topic : Topic} {pk : String} {dead : Bool}
    (h : signerAt env pol s.retained topic = some (pk, dead)) :
    ∃ dead', signerAt env pol (s.step env pol e).retained topic = some (pk, dead') ∧
      (dead = true → dead' = true) := by
  have hs' := good_step hs e
  obtain ⟨hpost, old, hold, hpk, hdead⟩ := (signerAt_eq_some hs).1 h
  obtain ⟨-, ⟨queued, gone, hgone, hr⟩ | ⟨other, payload, retain, now, meter, queued, fact, rfl, hkept, hr⟩⟩ :=
    step_cases hs.cache e
  · have hnot : topic ∉ gone := by
      intro hmem
      rw [hgone.postId hmem] at hpost
      cases hpost
    refine ⟨dead, (signerAt_eq_some hs').2 ⟨hpost, old, ?_, hpk, hdead⟩, id⟩
    rw [hr, get?_removeQueued, if_neg fun h => hnot h.1]
    exact hold
  · by_cases hother : topic = other
    · subst hother
      have hnew : (Forum.step env pol s (.publish topic payload retain now meter queued)).retained.map.get? topic =
          some ⟨payload, metaFor env topic payload.val, now⟩ := by rw [hr, get?_insertAt, if_pos rfl]
      have hkey : keptKey s.retained topic = some pk := keptKey_eq_some.2 ⟨old, hold, hpk⟩
      have hadmits := hkept.admits
      have hshape := hkept.shape
      rcases post_of_shape hshape hpost with ⟨id, pk', nickNorm, rfl⟩ | ⟨pk', rfl⟩
      · have hpk' : pk = pk' := hadmits.2.1 pk hkey
        have halive : dead = false := by
          rw [← hdead]
          exact hadmits.1 _ (by rw [metaOf, hold]; rfl)
        refine ⟨false, (signerAt_eq_some hs').2 ⟨hpost, _, hnew, ?_, hshape.2.2.2⟩, fun hd => ?_⟩
        · rw [hpk']
          exact hshape.2.2.1
        · rw [halive] at hd
          cases hd
      · have hkey' : keptKey s.retained topic = some pk' := hadmits
        rw [hkey] at hkey'
        cases hkey'
        exact ⟨true, (signerAt_eq_some hs').2 ⟨hpost, _, hnew, hshape.2.2.1, hshape.2.2.2⟩, fun _ => rfl⟩
    · refine ⟨dead, (signerAt_eq_some hs').2 ⟨hpost, old, ?_, hpk, hdead⟩, id⟩
      rw [hr, get?_insertAt, if_neg hother]
      exact hold

theorem signerAt_run (es : List (Event P)) {s : Forum P} (hs : Good env pol s) {topic : Topic} {pk : String}
    {dead : Bool} (h : signerAt env pol s.retained topic = some (pk, dead)) :
    ∃ dead', signerAt env pol (run (Forum.step env pol) s es).retained topic = some (pk, dead') ∧
      (dead = true → dead' = true) := by
  induction es generalizing s dead with
  | nil => exact ⟨dead, h, id⟩
  | cons e es ih =>
    obtain ⟨dead₁, h₁, himp₁⟩ := signerAt_step hs e h
    obtain ⟨dead₂, h₂, himp₂⟩ := ih (good_step hs e) h₁
    exact ⟨dead₂, h₂, himp₂ ∘ himp₁⟩

/-! ### The registrar's list -/

omit [Payload P] [DecidableEq P] in
omit [Payload P] [DecidableEq P] in
theorem VerifiesAs.readRegistry {key : String} {seq : Int} {payload : P} (h : VerifiesAs env key seq payload) :
    (readRegistry env key payload).isSome := by
  obtain ⟨v, fields, sig, hv, hfields, hsig, -⟩ := h
  have hnames : ∃ names, (v.get "names").bind Json.asArray = some names := by
    unfold registryFields at hfields
    simp only [Option.bind_eq_bind, Option.bind_eq_some_iff] at hfields
    obtain ⟨-, -, -, -, names, hnames, -, -, -, -, entries, hentries, -⟩ := hfields
    exact ⟨entries, by rw [hnames]; exact hentries⟩
  obtain ⟨names, hnames⟩ := hnames
  unfold Hidrarelay.readRegistry
  simp [hv, hfields, hsig, hnames]

omit [DecidableEq P] in
theorem registry_kept {s : Forum P} (hs : Good env pol s) {e : Entry (Arc P)}
    (he : s.retained.map.get? registryTopic = some e) :
    ∃ key seq, pol.registrar = some key ∧ VerifiesAs env key seq e.payload.val ∧ e.signed.seq = some seq := by
  obtain ⟨hmeta, fact, -, hshape⟩ := hs.checked registryTopic e he
  obtain ⟨seq, rfl⟩ := registry_of_shape hshape
  obtain ⟨-, -, hseq, key, hkey, hverifies⟩ := hshape
  exact ⟨key, seq, hkey, hverifies, hmeta ▸ hseq⟩

theorem registry_step {s : Forum P} (hs : Good env pol s) (ev : Event P) {e : Entry (Arc P)}
    (he : s.retained.map.get? registryTopic = some e) :
    ∃ e', (s.step env pol ev).retained.map.get? registryTopic = some e' ∧
      (e' = e ∨ ∀ seq seq', e.signed.seq = some seq → e'.signed.seq = some seq' → seq < seq') := by
  obtain ⟨-, ⟨queued, gone, hgone, hr⟩ | ⟨topic, payload, retain, now, meter, queued, fact, rfl, hkept, hr⟩⟩ :=
    step_cases hs.cache ev
  · refine ⟨e, ?_, Or.inl rfl⟩
    have hnot : registryTopic ∉ gone := hgone.not_mem (by decide) (by decide)
    rw [hr, get?_removeQueued, if_neg fun h => hnot h.1]
    exact he
  · by_cases htopic : topic = registryTopic
    · subst htopic
      refine ⟨_, by rw [hr, get?_insertAt, if_pos rfl], Or.inr fun seq seq' hseq hseq' => ?_⟩
      have hadmits := hkept.admits
      have hshape := hkept.shape
      obtain ⟨new, rfl⟩ := registry_of_shape hshape
      obtain ⟨key, old, hkey, hverifies, -⟩ := registry_kept hs he
      have hfacts : (keptFacts env pol s.retained).isSome := by
        unfold keptFacts Retained.get
        rw [hkey, he]
        exact hverifies.readRegistry
      have hlt := hadmits hfacts seq (by rw [metaOf, he]; exact hseq)
      have hnew : some new = some seq' := hshape.2.2.1.symm.trans hseq'
      cases hnew
      exact hlt
    · refine ⟨e, ?_, Or.inl rfl⟩
      rw [hr, get?_insertAt, if_neg (Ne.symm htopic)]
      exact he

theorem registry_run (es : List (Event P)) {s : Forum P} (hs : Good env pol s) {e : Entry (Arc P)}
    (he : s.retained.map.get? registryTopic = some e) :
    ∃ e', (run (Forum.step env pol) s es).retained.map.get? registryTopic = some e' ∧
      (e' = e ∨ ∀ seq seq', e.signed.seq = some seq → e'.signed.seq = some seq' → seq < seq') := by
  induction es generalizing s e with
  | nil => exact ⟨e, he, Or.inl rfl⟩
  | cons ev es ih =>
    obtain ⟨e₁, he₁, h₁⟩ := registry_step hs ev he
    obtain ⟨e₂, he₂, h₂⟩ := ih (good_step hs ev) he₁
    refine ⟨e₂, he₂, ?_⟩
    rcases h₁ with rfl | h₁
    · exact h₂
    · rcases h₂ with rfl | h₂
      · exact Or.inr h₁
      · refine Or.inr fun seq seq' hseq hseq' => ?_
        obtain ⟨key, mid, -, -, hmid⟩ := registry_kept (good_step hs ev) he₁
        exact (h₁ seq mid hseq hmid).trans (h₂ mid seq' hmid hseq')

/-! ### Names -/

theorem claim_step {s : Forum P} (hs : Good env pol s) (ev : Event P) {norm pk : String}
    (hkey : keptKey s.retained (claimTopic norm) = some pk) (hlisted : listed env pol s.retained norm = none) :
    keptKey (s.step env pol ev).retained (claimTopic norm) = some pk ∨
      (∃ queued, ev = .sweep queued) ∧ (s.step env pol ev).retained.map.contains (claimTopic norm) = false := by
  obtain ⟨e, he, hpk⟩ := keptKey_eq_some.1 hkey
  obtain ⟨-, ⟨queued, gone, hgone, hr⟩ | ⟨topic, payload, retain, now, meter, queued, fact, rfl, hkept, hr⟩⟩ :=
    step_cases hs.cache ev
  · by_cases hmem : claimTopic norm ∈ gone ∧ queued (claimTopic norm) = true
    · refine Or.inr ⟨?_, ?_⟩
      · rcases hgone.classes _ hmem.1 with hclass | ⟨hsweep, -⟩
        · simp [claimTopic, topicClass] at hclass
        · exact hsweep
      · unfold Map.contains
        rw [hr, get?_removeQueued, if_pos hmem]
        rfl
    · left
      rw [keptKey_eq_some]
      exact ⟨e, by rw [hr, get?_removeQueued, if_neg hmem]; exact he, hpk⟩
  · left
    rw [keptKey_eq_some, hr]
    by_cases htopic : claimTopic norm = topic
    · subst htopic
      refine ⟨_, by rw [get?_insertAt, if_pos rfl], ?_⟩
      have hadmits := hkept.admits
      have hshape := hkept.shape
      cases fact with
      | claim norm' pk' =>
        have hnorm : norm = norm' := by simpa [claimTopic] using hshape.1
        subst hnorm
        rcases hadmits with hlist | ⟨-, hown | ⟨hnone, -⟩⟩
        · rw [hlisted] at hlist
          cases hlist
        · rw [hkey] at hown
          cases hown
          exact hshape.2.2
        · rw [hkey] at hnone
          cases hnone
      | chat => cases hshape
      | report => simp [Shape, claimTopic] at hshape
      | post id pk' nickNorm => simp [Shape, claimTopic, postId] at hshape
      | tombstone pk' => simp [Shape, claimTopic, postId] at hshape
      | hide pk' => simp [Shape, claimTopic] at hshape
      | admin pk' => simp [Shape, claimTopic, adminTopic] at hshape
      | registry seq => simp [Shape, claimTopic, registryTopic] at hshape
    · exact ⟨e, by rw [get?_insertAt, if_neg htopic]; exact he, hpk⟩

theorem claim_run (es : List (Event P)) {s : Forum P} (hs : Good env pol s) {norm pk : String}
    (hkey : keptKey s.retained (claimTopic norm) = some pk)
    (hlisted : ∀ j < es.length, listed env pol (run (Forum.step env pol) s (es.take j)).retained norm = none)
    (hkept : ∀ j ≤ es.length, (run (Forum.step env pol) s (es.take j)).retained.map.contains (claimTopic norm) = true) :
    keptKey (run (Forum.step env pol) s es).retained (claimTopic norm) = some pk := by
  induction es generalizing s with
  | nil => exact hkey
  | cons ev es ih =>
    have hafter := hkept 1 (by simp)
    rcases claim_step hs ev hkey (hlisted 0 (by simp)) with hkey' | ⟨-, hgone⟩
    · refine ih (good_step hs ev) hkey' (fun j hj => ?_) fun j hj => ?_
      · exact hlisted (j + 1) (by simpa using hj)
      · exact hkept (j + 1) (by simpa using hj)
    · simp only [List.take_succ_cons, List.take_zero, run_cons, run_nil, hgone] at hafter
      cases hafter

omit [DecidableEq P] in
theorem keptKey_of_claimsOf {s : Forum P} (hs : Good env pol s) {pk : String} (h : s.retained.claimsOf pk = 0)
    (norm : String) : keptKey s.retained (claimTopic norm) ≠ some pk := by
  intro hkey
  obtain ⟨e, he, hpk⟩ := keptKey_eq_some.1 hkey
  have hone := ((hs.exact.covers (claimTopic norm) e he).2.2 pk hpk).2 rfl
  omega

/-! ### The forum's store -/

/-- What holds of the store after these events, whatever comes. -/
structure StoreSafe (env : Env P) (pol : ForumPolicy) (es : List (Event P)) : Prop where
  /-- A post or a reply stays its signer's, and a tombstone a tombstone. -/
  posts : ∀ topic, (postId topic).isSome → (forumAfter env pol es).retained.map.contains topic = true →
    ∃ pk dead, signerAt env pol (forumAfter env pol es).retained topic = some (pk, dead) ∧
      ∀ more, ∃ dead', signerAt env pol (forumAfter env pol (es ++ more)).retained topic = some (pk, dead') ∧
        (dead = true → dead' = true)
  ids : ∀ topic other i, (forumAfter env pol es).retained.map.contains topic = true →
    (forumAfter env pol es).retained.map.contains other = true → postId topic = some i → postId other = some i →
      topic = other
  /-- A post is kept under a name its key holds at that moment, a hide from who is the moderator at that moment, and no
  key gets a name that the list does not give while it has one. -/
  admitted : ∀ topic payload now meter queued fact,
    (handlePublish env pol (forumAfter env pol es) topic payload true now meter queued).1 = true →
    check env pol topic payload.val true = .ok fact →
      (∀ id pk nickNorm, fact = .post id pk nickNorm →
        ownerOf env pol (forumAfter env pol es).retained nickNorm = some pk) ∧
      (∀ pk, fact = .hide pk → moderatorOf env pol (forumAfter env pol es).retained = some pk) ∧
      ∀ norm pk, fact = .claim norm pk → listed env pol (forumAfter env pol es).retained norm = none →
        (forumAfter env pol es).retained.map.contains (claimTopic norm) = false →
        ∀ other, keptKey (forumAfter env pol es).retained (claimTopic other) ≠ some pk
  /-- The kept list verifies, stays, and gives way to newer lists only. -/
  registry : ∀ bytes, (forumAfter env pol es).retained.get registryTopic = some bytes →
    ∃ key seq, pol.registrar = some key ∧ VerifiesAs env key seq bytes.val ∧
      ∀ more, ∃ bytes' seq', (forumAfter env pol (es ++ more)).retained.get registryTopic = some bytes' ∧
        VerifiesAs env key seq' bytes'.val ∧ (bytes' = bytes ∨ seq < seq')
  /-- While the list does not give a name, it stays its claimer's as long as it is kept. -/
  names : ∀ norm pk more, keptKey (forumAfter env pol es).retained (claimTopic norm) = some pk →
    (∀ j < more.length, listed env pol (forumAfter env pol (es ++ more.take j)).retained norm = none) →
    (∀ j ≤ more.length,
      (forumAfter env pol (es ++ more.take j)).retained.map.contains (claimTopic norm) = true) →
    keptKey (forumAfter env pol (es ++ more)).retained (claimTopic norm) = some pk
  swept : ∀ norm ev, (forumAfter env pol es).retained.map.contains (claimTopic norm) = true →
    (forumAfter env pol (es ++ [ev])).retained.map.contains (claimTopic norm) = false → ∃ queued, ev = .sweep queued

theorem forumAfter_append (es more : List (Event P)) :
    forumAfter env pol (es ++ more) = run (Forum.step env pol) (forumAfter env pol es) more := run_append ..

/-- Whatever is published and swept, in any order, the store is safe. -/
theorem forum_store_safe (env : Env P) (pol : ForumPolicy) (es : List (Event P)) : StoreSafe env pol es := by
  have hs : Good env pol (forumAfter env pol es) := good_run es
  constructor
  case posts =>
    intro topic hpost hkept
    obtain ⟨pk, dead, hsigner⟩ := signerAt_of_kept hs hpost hkept
    refine ⟨pk, dead, hsigner, fun more => ?_⟩
    rw [forumAfter_append]
    exact signerAt_run more hs hsigner
  case ids =>
    intro topic other i htopic hother hid hid'
    obtain ⟨e, he⟩ := contains_iff.1 htopic
    obtain ⟨e', he'⟩ := contains_iff.1 hother
    have hnamed := (hs.indexed topic e i he hid).symm.trans (hs.indexed other e' i he' hid')
    exact Option.some.inj hnamed
  case admitted =>
    intro topic payload now meter queued fact haccepted hcheck
    obtain ⟨-, ⟨-, hneither⟩ | ⟨-, fact', hkept, hcheck', -⟩⟩ :=
      handlePublish_cases hs.cache topic payload true now meter queued
    · rcases hneither haccepted fact hcheck with rfl | rfl
      · exact ⟨by simp, by simp, by simp⟩
      · exact ⟨by simp, by simp, by simp⟩
    · rw [hcheck] at hcheck'
      cases hcheck'
      have hadmits := hkept.admits
      refine ⟨?_, ?_, ?_⟩
      · rintro id pk nickNorm rfl
        exact hadmits.2.2.2.2
      · rintro pk rfl
        exact hadmits.1
      · rintro norm pk rfl hlisted hnew
        have htopic : topic = claimTopic norm := hkept.shape.1
        subst htopic
        have hnone : keptKey (forumAfter env pol es).retained (claimTopic norm) = none := by
          unfold Map.contains at hnew
          unfold keptKey metaOf
          rw [Option.isSome_eq_false_iff, Option.isNone_iff_eq_none] at hnew
          rw [hnew]
          rfl
        rcases hadmits with hlist | ⟨-, hown | ⟨-, -, hclaims, -⟩⟩
        · rw [hlisted] at hlist
          cases hlist
        · rw [hnone] at hown
          cases hown
        · exact keptKey_of_claimsOf hs hclaims
  case registry =>
    intro bytes hbytes
    obtain ⟨e, he, rfl⟩ := Option.map_eq_some_iff.1 hbytes
    obtain ⟨key, seq, hkey, hverifies, hseq⟩ := registry_kept hs he
    refine ⟨key, seq, hkey, hverifies, fun more => ?_⟩
    rw [forumAfter_append]
    have hs' : Good env pol (run (Forum.step env pol) (forumAfter env pol es) more) := by
      rw [← forumAfter_append]
      exact good_run _
    obtain ⟨e', he', hnewer⟩ := registry_run more hs he
    obtain ⟨key', seq', hkey', hverifies', hseq'⟩ := registry_kept hs' he'
    rw [hkey] at hkey'
    cases hkey'
    refine ⟨e'.payload, seq', by unfold Retained.get; rw [he']; rfl, hverifies', ?_⟩
    rcases hnewer with rfl | hlt
    · exact Or.inl rfl
    · exact Or.inr (hlt seq seq' hseq hseq')
  case names =>
    intro norm pk more hkey hlisted hkept
    simp only [forumAfter_append] at hlisted hkept ⊢
    exact claim_run more hs hkey hlisted hkept
  case swept =>
    intro norm ev hkept hgone
    rw [forumAfter_append] at hgone
    obtain ⟨e, he⟩ := contains_iff.1 hkept
    obtain ⟨-, ⟨queued, gone, htaken, hr⟩ | ⟨topic, payload, retain, now, meter, queued, fact, rfl, -, hr⟩⟩ :=
      step_cases hs.cache ev
    · have hmem : claimTopic norm ∈ gone := by
        by_contra hnot
        simp only [run_cons, run_nil, hr, Map.contains, get?_removeQueued, hnot, false_and, if_false, he,
          Option.isSome_some, Bool.true_eq_false] at hgone
      rcases htaken.classes _ hmem with hclass | ⟨hsweep, -⟩
      · simp [claimTopic, topicClass] at hclass
      · exact hsweep
    · simp only [run_cons, run_nil, hr] at hgone
      rw [contains_insertAt.2 (Or.inr hkept)] at hgone
      cases hgone

end

end HidraNet.Hidrarelay
