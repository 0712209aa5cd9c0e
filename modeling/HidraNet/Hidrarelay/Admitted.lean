import HidraNet.Hidrarelay.Forum

/-!
# What a publish has to meet

`check_shape` says what an established fact says of its topic, its payload and its metadata; `weigh_spec` what
an admitted one met in what was kept, read from the kept list itself (`keptFacts`): the remembered reading of the list is
the list's wherever the bytes lie (`CacheOk`).  `step_cases` puts both together: a step changes the store by one payload
that was checked and admitted, by one report taken back, or by names swept away.
-/

namespace HidraNet.Hidrarelay

open Maps Runs Retained

section

variable {P : Type*} [Payload P] {env : Env P} {pol : ForumPolicy}

/-! ### What was checked -/

omit [Payload P] in
theorem metaFor_eq {kind : String} {levels : List String} (hkind : kind ≠ "rep") {payload : P} {v : Json}
    (hv : parse env payload = some v) :
    metaFor env ("hforum" :: kind :: levels) payload =
      ⟨v.s "pk", (v.get "del").isSome, (v.get "seq").bind Json.asI64⟩ := by
  unfold metaFor
  simp [hkind, hv]

def VerifiesAs (env : Env P) (key : String) (seq : Int) (payload : P) : Prop :=
  ∃ v fields sig, parse env payload = some v ∧ registryFields env v = some (fields, sig) ∧
    env.verifyFields key fields sig = true ∧ (v.get "seq").bind Json.asI64 = some seq

/-- What an established fact says of the publish. -/
def Shape (env : Env P) (pol : ForumPolicy) (topic : Topic) (payload : P) : Fact → Prop
  | .chat => False
  | .report => ∃ id reporter, topic = ["hforum", "rep", id, reporter]
  | .claim norm pk =>
    topic = claimTopic norm ∧ isEmpty payload = false ∧ (metaFor env topic payload).pk = some pk
  | .post id pk _ =>
    postId topic = some id ∧ isEmpty payload = false ∧ (metaFor env topic payload).pk = some pk ∧
      (metaFor env topic payload).tombstone = false
  | .tombstone pk =>
    (postId topic).isSome ∧ isEmpty payload = false ∧ (metaFor env topic payload).pk = some pk ∧
      (metaFor env topic payload).tombstone = true
  | .hide pk =>
    (∃ id, topic = ["hforum", "mod", id]) ∧ isEmpty payload = false ∧ (metaFor env topic payload).pk = some pk
  | .admin pk => topic = adminTopic ∧ isEmpty payload = false ∧ (metaFor env topic payload).pk = some pk
  | .registry seq =>
    topic = registryTopic ∧ isEmpty payload = false ∧ (metaFor env topic payload).seq = some seq ∧
      ∃ key, pol.registrar = some key ∧ VerifiesAs env key seq payload

private theorem claim_shape {norm : String} {payload : P} {fact : Fact} (h : claim env norm payload = .ok fact) :
    Shape env pol (claimTopic norm) payload fact := by
  unfold claim at h
  simp only [bind, Except.bind, pure, Except.pure, throw, throwThe, MonadExceptOf.throw] at h
  repeat' split at h
  all_goals cases h
  rename_i hempty _ v hv _ _ _ _ _ hfields _ _
  simp only [Prod.mk.injEq] at hfields
  refine ⟨rfl, eq_false_of_ne_true hempty, ?_⟩
  rw [claimTopic, metaFor_eq (by decide) hv]
  exact hfields.2.1

private theorem post_shape {kind : Char} {id level : String} {levels : List String} {tid : Option String} {payload : P}
    {fact : Fact} (h : post env kind id tid payload = .ok fact) (hlevel : level ≠ "rep")
    (hid : postId ("hforum" :: level :: levels) = some id) :
    Shape env pol ("hforum" :: level :: levels) payload fact := by
  unfold post at h
  simp only [bind, Except.bind, pure, Except.pure, throw, throwThe, MonadExceptOf.throw] at h
  split at h
  · cases h
  split at h
  · cases h
  rename_i hempty
  split at h
  · rename_i v hv
    split at h
    · rename_i hfields
      simp only [Prod.mk.injEq] at hfields
      split at h
      · rename_i hdel
        split at h
        · cases h
        cases h
        refine ⟨by simp [hid], eq_false_of_ne_true hempty, ?_⟩
        rw [metaFor_eq hlevel hv]
        exact ⟨hfields.1, hdel⟩
      · rename_i hdel
        repeat' split at h
        all_goals cases h
        refine ⟨hid, eq_false_of_ne_true hempty, ?_⟩
        rw [metaFor_eq hlevel hv]
        exact ⟨hfields.1, eq_false_of_ne_true hdel⟩
    · cases h
  · cases h

private theorem hide_shape {id : String} {payload : P} {fact : Fact} (h : hide env id payload = .ok fact) :
    Shape env pol ["hforum", "mod", id] payload fact := by
  unfold hide at h
  simp only [bind, Except.bind, pure, Except.pure, throw, throwThe, MonadExceptOf.throw] at h
  repeat' split at h
  all_goals cases h
  rename_i hempty _ v hv _ _ _ _ hfields _ _
  simp only [Prod.mk.injEq] at hfields
  simp only [Bool.or_eq_true, not_or] at hempty
  refine ⟨⟨id, rfl⟩, eq_false_of_ne_true hempty.1, ?_⟩
  rw [metaFor_eq (by decide) hv]
  exact hfields.1

private theorem admin_shape {payload : P} {fact : Fact} (h : admin env payload = .ok fact) :
    Shape env pol adminTopic payload fact := by
  unfold admin at h
  simp only [bind, Except.bind, pure, Except.pure, throw, throwThe, MonadExceptOf.throw] at h
  repeat' split at h
  all_goals cases h
  rename_i hempty _ v hv _ _ _ _ hfields _ _
  simp only [Prod.mk.injEq] at hfields
  refine ⟨rfl, eq_false_of_ne_true hempty, ?_⟩
  rw [adminTopic, metaFor_eq (by decide) hv]
  exact hfields.1

omit [Payload P] in
theorem seq_of_registryFields {v : Json} {fields : Json} {sig : String}
    (h : registryFields env v = some (fields, sig)) : ∃ seq, (v.get "seq").bind Json.asI64 = some seq := by
  unfold registryFields at h
  rw [Option.bind_eq_bind, Option.bind_eq_some_iff] at h
  obtain ⟨seq, hseq, -⟩ := h
  exact ⟨seq, hseq⟩

private theorem registry_shape {payload : P} {fact : Fact} (h : registry env pol payload = .ok fact) :
    Shape env pol registryTopic payload fact := by
  unfold registry at h
  simp only [bind, Except.bind, pure, Except.pure, throw, throwThe, MonadExceptOf.throw] at h
  repeat' split at h
  all_goals cases h
  rename_i _ key hkey hempty _ v hv _ fields sig hfields hverified
  obtain ⟨seq, hseq⟩ := seq_of_registryFields hfields
  simp only [Bool.not_eq_true', Bool.not_eq_false] at hverified
  rw [hseq]
  refine ⟨rfl, eq_false_of_ne_true hempty, ?_, key, hkey, v, fields, sig, hv, hfields, hverified, hseq⟩
  rw [registryTopic, metaFor_eq (by decide) hv]
  exact hseq

/-- Only the chat's messages are established without being retained, and the chat retains none. -/
theorem check_shape {topic : Topic} {payload : P} {retain : Bool} {fact : Fact}
    (h : check env pol topic payload retain = .ok fact) :
    retain = false ∧ fact = .chat ∨ retain = true ∧ Shape env pol topic payload fact := by
  unfold check at h
  split at h
  · repeat' split at h
    all_goals cases h
    rename_i hretain
    exact Or.inl ⟨eq_false_of_ne_true hretain, rfl⟩
  · split at h
    · cases h
    rename_i hretain
    refine Or.inr ⟨by simpa using hretain, ?_⟩
    split at h
    · rename_i heq
      cases heq
      exact claim_shape h
    · rename_i heq
      cases heq
      exact post_shape h (by decide) rfl
    · rename_i heq
      cases heq
      exact post_shape h (by decide) rfl
    · rename_i heq
      cases heq
      exact hide_shape h
    · rename_i heq
      cases heq
      exact admin_shape h
    · rename_i heq
      cases heq
      exact registry_shape h
    · rename_i heq
      cases heq
      unfold report at h
      split at h
      · cases h
        exact ⟨_, _, rfl⟩
      · cases h
    · cases h
  · cases h

/-! ### What was admitted -/

def keptFacts (env : Env P) (pol : ForumPolicy) (r : Retained (Arc P)) : Option RegistryFacts :=
  match pol.registrar, r.get registryTopic with
  | some key, some bytes => readRegistry env key bytes.val
  | _, _ => none

def listed (env : Env P) (pol : ForumPolicy) (r : Retained (Arc P)) (norm : String) : Option String :=
  (keptFacts env pol r).bind (·.names.get? norm)

def ownerOf (env : Env P) (pol : ForumPolicy) (r : Retained (Arc P)) (norm : String) : Option String :=
  (listed env pol r norm).or (keptKey r (claimTopic norm))

def namedOf (env : Env P) (pol : ForumPolicy) (r : Retained (Arc P)) : Option String :=
  pol.moderator.or ((keptFacts env pol r).bind RegistryFacts.admin)

def moderatorOf (env : Env P) (pol : ForumPolicy) (r : Retained (Arc P)) : Option String :=
  (namedOf env pol r).or (keptKey r adminTopic)

def CacheOk (env : Env P) (pol : ForumPolicy) (cache : Cache) (r : Retained (Arc P)) : Prop :=
  ∀ p l facts key bytes, cache = some (p, l, facts) → pol.registrar = some key → r.get registryTopic = some bytes →
    (p, l) = (bytes.ptr, len bytes) → facts = readRegistry env key bytes.val

theorem cacheOk_none (r : Retained (Arc P)) : CacheOk env pol none r := fun _ _ _ _ _ h => by cases h

theorem CacheOk.of_get {cache : Cache} {r r' : Retained (Arc P)} (h : CacheOk env pol cache r)
    (hget : r'.get registryTopic = r.get registryTopic) : CacheOk env pol cache r' := by
  intro p l facts key bytes hcache hkey hbytes
  rw [hget] at hbytes
  exact h p l facts key bytes hcache hkey hbytes

section Cached

variable {cache : Cache} {r : Retained (Arc P)}

private theorem cacheOk_read {key : String} {bytes : Arc P} (hkey : pol.registrar = some key)
    (hbytes : r.get registryTopic = some bytes) :
    CacheOk env pol (some (bytes.ptr, len bytes, readRegistry env key bytes.val)) r := by
  intro p l facts key' bytes' hcache hkey' hbytes' _
  cases hcache
  rw [hkey] at hkey'
  rw [hbytes] at hbytes'
  cases hkey'
  cases hbytes'
  rfl

theorem registryFacts_spec (h : CacheOk env pol cache r) :
    (registryFacts env pol cache r).1 = keptFacts env pol r ∧ CacheOk env pol (registryFacts env pol cache r).2 r := by
  unfold registryFacts keptFacts
  cases hkey : pol.registrar with
  | none => exact ⟨rfl, h⟩
  | some key =>
    cases hbytes : r.get registryTopic with
    | none => exact ⟨rfl, h⟩
    | some bytes =>
      cases hcache : cache with
      | none => exact ⟨rfl, cacheOk_read hkey hbytes⟩
      | some remembered =>
        obtain ⟨p, l, facts⟩ := remembered
        dsimp only
        split
        · rename_i hident
          exact ⟨h p l facts key bytes hcache hkey hbytes hident, hcache ▸ h⟩
        · exact ⟨rfl, cacheOk_read hkey hbytes⟩

theorem nameOwner_spec (h : CacheOk env pol cache r) (norm : String) :
    (nameOwner env pol cache norm r).1 = ownerOf env pol r norm ∧
      CacheOk env pol (nameOwner env pol cache norm r).2 r := by
  obtain ⟨hfacts, hcache⟩ := registryFacts_spec h
  unfold nameOwner ownerOf listed
  rw [← hfacts]
  dsimp only
  cases (registryFacts env pol cache r).1.bind (·.names.get? norm) with
  | none => exact ⟨rfl, hcache⟩
  | some pk => exact ⟨rfl, hcache⟩

theorem namedModerator_spec (h : CacheOk env pol cache r) :
    (namedModerator env pol cache r).1 = namedOf env pol r ∧ CacheOk env pol (namedModerator env pol cache r).2 r := by
  obtain ⟨hfacts, hcache⟩ := registryFacts_spec h
  unfold namedModerator namedOf
  cases pol.moderator with
  | none =>
    rw [← hfacts]
    exact ⟨rfl, hcache⟩
  | some m => exact ⟨rfl, h⟩

theorem moderatorKey_spec (h : CacheOk env pol cache r) :
    (moderatorKey env pol cache r).1 = moderatorOf env pol r ∧
      CacheOk env pol (moderatorKey env pol cache r).2 r := by
  obtain ⟨hnamed, hcache⟩ := namedModerator_spec h
  unfold moderatorKey moderatorOf
  rw [← hnamed]
  dsimp only
  cases (namedModerator env pol cache r).1 with
  | none => exact ⟨rfl, hcache⟩
  | some m => exact ⟨rfl, hcache⟩

end Cached

/-- What a fact has to meet in what is kept. -/
def Admits (env : Env P) (pol : ForumPolicy) (meter : Bool) (r : Retained (Arc P)) (topic : Topic) : Fact → Prop
  | .chat => True
  | .report => r.metaOf topic = none → r.count ["hforum", "rep"] < maxReports
  | .claim norm pk =>
    listed env pol r norm = some pk ∨
      listed env pol r norm = none ∧
        (keptKey r topic = some pk ∨
          keptKey r topic = none ∧ r.count ["hforum", "u"] < maxClaims ∧ r.claimsOf pk = 0 ∧ meter = true)
  | .tombstone pk => keptKey r topic = some pk
  | .post id pk nickNorm =>
    (∀ m, r.metaOf topic = some m → m.tombstone = false) ∧ (∀ owner, keptKey r topic = some owner → owner = pk) ∧
      (∀ other, r.topicOfId id = some other → other = topic) ∧
      (r.metaOf topic = none → r.count ["hforum", "t"] + r.count ["hforum", "r"] < maxPosts) ∧
      ownerOf env pol r nickNorm = some pk
  | .hide pk =>
    moderatorOf env pol r = some pk ∧ (r.metaOf topic = none → r.count ["hforum", "mod"] < maxHides)
  | .admin pk =>
    namedOf env pol r = some pk ∨
      namedOf env pol r = none ∧ ∀ owner, keptKey r topic = some owner → owner = pk
  | .registry seq =>
    (keptFacts env pol r).isSome → ∀ kept, (r.metaOf topic).bind Meta.seq = some kept → kept < seq

/-- A fact is weighed as `Admits` says, whatever is cached. -/
theorem weigh_spec (meter : Bool) {cache : Cache} {r : Retained (Arc P)} (h : CacheOk env pol cache r) (fact : Fact)
    (topic : Topic) :
    ((weigh env pol meter cache fact topic r).1 = none ↔ Admits env pol meter r topic fact) ∧
      CacheOk env pol (weigh env pol meter cache fact topic r).2 r := by
  cases fact with
  | chat => exact ⟨by simp [weigh, Admits], h⟩
  | report =>
    refine ⟨?_, h⟩
    simp only [weigh, Admits, Option.isNone_iff_eq_none, ite_eq_right_iff, reduceCtorEq, imp_false, not_and,
      Nat.not_le]
  | claim norm pk =>
    obtain ⟨hfacts, hcache⟩ := registryFacts_spec h
    simp only [weigh, Admits, listed, ← hfacts, keptKey]
    cases (registryFacts env pol cache r).1.bind (·.names.get? norm) with
    | some owner => exact ⟨by simp, hcache⟩
    | none =>
      dsimp only
      cases (r.metaOf topic).bind Meta.pk with
      | some owner => exact ⟨by simp, hcache⟩
      | none =>
        refine ⟨?_, hcache⟩
        dsimp only
        split
        · simp; omega
        · split
          · simp; omega
          · split <;> simp_all
  | tombstone pk =>
    simp only [weigh, Admits, keptKey]
    cases (r.metaOf topic).bind Meta.pk with
    | none => exact ⟨by simp, h⟩
    | some owner => exact ⟨by simp, h⟩
  | post id pk nickNorm =>
    obtain ⟨howner, hcache⟩ := nameOwner_spec h nickNorm
    simp only [weigh, Admits, ← howner, keptKey]
    split
    · rename_i hdead
      obtain ⟨m, hm, htomb⟩ := (Option.any_eq_true _ _).1 hdead
      exact ⟨iff_of_false (by simp) fun hadmits => by simp [hadmits.1 m hm] at htomb, h⟩
    rename_i halive
    split
    · rename_i hforeign
      obtain ⟨other, hother, hne⟩ := (Option.any_eq_true _ _).1 hforeign
      exact ⟨iff_of_false (by simp) fun hadmits => by simp [hadmits.2.1 other hother] at hne, h⟩
    rename_i hown
    split
    · rename_i hused
      obtain ⟨other, hother, hne⟩ := (Option.any_eq_true _ _).1 hused
      exact ⟨iff_of_false (by simp) fun hadmits => by simp [hadmits.2.2.1 other hother] at hne, h⟩
    rename_i hfree
    split
    · rename_i hcap
      refine ⟨iff_of_false (by simp) fun hadmits => ?_, h⟩
      have hroom := hadmits.2.2.2.1 (Option.isNone_iff_eq_none.1 hcap.1)
      omega
    rename_i hroom
    have halive' : ∀ m, r.metaOf topic = some m → m.tombstone = false := by
      intro m hm
      simpa [hm] using halive
    have hown' : ∀ owner, (r.metaOf topic).bind Meta.pk = some owner → owner = pk := by
      intro owner ho
      simpa [ho] using hown
    have hfree' : ∀ other, r.topicOfId id = some other → other = topic := by
      intro other ho
      simpa [ho] using hfree
    have hroom' : r.metaOf topic = none → r.count ["hforum", "t"] + r.count ["hforum", "r"] < maxPosts := by
      intro hnone
      by_contra hfull
      exact hroom ⟨Option.isNone_iff_eq_none.2 hnone, Nat.not_lt.1 hfull⟩
    cases (nameOwner env pol cache nickNorm r).1 with
    | none => exact ⟨by simp, hcache⟩
    | some owner =>
      refine ⟨?_, hcache⟩
      simp only [ite_eq_left_iff, reduceCtorEq, imp_false, not_not, Option.some.injEq]
      exact ⟨fun ho => ⟨halive', hown', hfree', hroom', ho⟩, fun hadmits => hadmits.2.2.2.2⟩
  | hide pk =>
    obtain ⟨hmoderator, hcache⟩ := moderatorKey_spec h
    simp only [weigh, Admits, ← hmoderator]
    cases (moderatorKey env pol cache r).1 with
    | none => exact ⟨by simp, hcache⟩
    | some m =>
      by_cases hm : m = pk
      · refine ⟨?_, ?_⟩
        · simp [hm]
        · simpa [hm] using hcache
      · refine ⟨?_, ?_⟩
        · simp [hm]
        · simpa [hm] using hcache
  | admin pk =>
    obtain ⟨hnamed, hcache⟩ := namedModerator_spec h
    simp only [weigh, Admits, ← hnamed, keptKey]
    cases (namedModerator env pol cache r).1 with
    | some m => exact ⟨by simp, hcache⟩
    | none =>
      cases (r.metaOf topic).bind Meta.pk with
      | some owner => exact ⟨by simp, hcache⟩
      | none => exact ⟨by simp, hcache⟩
  | registry seq =>
    obtain ⟨hfacts, hcache⟩ := registryFacts_spec h
    simp only [weigh, Admits, ← hfacts]
    split
    · rename_i hold
      obtain ⟨kept, hkept, hle⟩ := (Option.any_eq_true _ _).1 hold.2
      refine ⟨iff_of_false (by simp) fun hadmits => ?_, hcache⟩
      have hlt := hadmits hold.1 kept hkept
      have hle' := of_decide_eq_true hle
      omega
    · rename_i hnew
      refine ⟨iff_of_true rfl fun hfacts kept hkept => ?_, cacheOk_none r⟩
      by_contra hlt
      exact hnew ⟨hfacts, (Option.any_eq_true _ _).2 ⟨kept, hkept, decide_eq_true (Int.not_lt.1 hlt)⟩⟩

theorem weigh_registry {meter : Bool} {cache : Cache} {r : Retained (Arc P)} {seq : Int} {topic : Topic}
    (h : (weigh env pol meter cache (.registry seq) topic r).1 = none) :
    (weigh env pol meter cache (.registry seq) topic r).2 = none := by
  unfold weigh at *
  dsimp only at *
  split at h
  · cases h
  · rename_i hnew
    rw [if_neg hnew]

/-! ### Taking away -/

theorem get?_removeQueued (r : Retained (Arc P)) (queued : Topic → Bool) (gone : List Topic) (topic : Topic) :
    (removeQueued r queued gone).map.get? topic =
      if topic ∈ gone ∧ queued topic = true then none else r.map.get? topic := by
  unfold removeQueued
  induction gone generalizing r with
  | nil => simp
  | cons t gone ih =>
    rw [List.foldl_cons, ih]
    by_cases hmem : topic ∈ gone ∧ queued topic = true
    · simp [hmem]
    · rw [if_neg hmem]
      by_cases hq : queued t = true
      · rw [if_pos hq, get?_remove]
        by_cases ht : topic = t
        · subst ht
          simp [hq]
        · have hrest : ¬ (topic ∈ t :: gone ∧ queued topic = true) := by
            rintro ⟨hin, hqueued⟩
            rcases List.mem_cons.1 hin with rfl | hin
            · exact ht rfl
            · exact hmem ⟨hin, hqueued⟩
          rw [if_neg ht, if_neg hrest]
      · have hrest : ¬ (topic ∈ t :: gone ∧ queued topic = true) := by
          rintro ⟨hin, hqueued⟩
          rcases List.mem_cons.1 hin with rfl | hin
          · exact hq hqueued
          · exact hmem ⟨hin, hqueued⟩
        rw [if_neg hq, if_neg hrest]

theorem exact_removeQueued {r : Retained (Arc P)} (hr : Exact r) (queued : Topic → Bool) (gone : List Topic) :
    Exact (removeQueued r queued gone) := by
  unfold removeQueued
  induction gone generalizing r with
  | nil => exact hr
  | cons t gone ih =>
    rw [List.foldl_cons]
    split
    · exact ih (exact_remove hr t)
    · exact ih hr

theorem topicOfId_removeQueued {r : Retained (Arc P)} (queued : Topic → Bool) {gone : List Topic}
    (hgone : ∀ t ∈ gone, postId t = none) (i : String) :
    (removeQueued r queued gone).topicOfId i = r.topicOfId i := by
  unfold removeQueued
  induction gone generalizing r with
  | nil => rfl
  | cons t gone ih =>
    simp only [List.mem_cons, forall_eq_or_imp] at hgone
    rw [List.foldl_cons, ih hgone.2]
    split
    · rw [ids_remove, if_neg (by simp [hgone.1])]
    · rfl

/-! ### One step -/

/-- A publish that was checked and admitted, and found room. -/
structure Kept [DecidableEq P] (env : Env P) (pol : ForumPolicy) (r : Retained (Arc P)) (topic : Topic)
    (payload : Arc P) (meter : Bool)
    (fact : Fact) : Prop where
  allowed : allowedTopic topic = true
  limit : len payload ≤ payloadLimit topic
  checked : check env pol topic payload.val true = .ok fact
  shape : Shape env pol topic payload.val fact
  nonempty : isEmpty payload.val = false
  changed : r.holds topic payload.val = false
  room : r.refuseRoom topic (len payload) (metaFor env topic payload.val) = none
  admits : Admits env pol meter r topic fact

/-- A step takes topics away: a report that is taken back, or names that are swept. -/
structure Taken (gone : List Topic) (isSweep : Prop) : Prop where
  classes : ∀ t ∈ gone, topicClass t = ["hforum", "rep"] ∨ isSweep ∧ topicClass t = ["hforum", "u"]

theorem postId_of_class {topic : Topic} {kind : String} (h : topicClass topic = ["hforum", kind]) (ht : kind ≠ "t")
    (hr : kind ≠ "r") : postId topic = none := by
  cases hid : postId topic with
  | none => rfl
  | some i =>
    rcases postId_cases hid with rfl | ⟨tid, rfl⟩
    · simp only [topicClass, List.take_succ_cons, List.take_zero, List.cons.injEq, and_true, true_and] at h
      exact absurd h.symm ht
    · simp only [topicClass, List.take_succ_cons, List.take_zero, List.cons.injEq, and_true, true_and] at h
      exact absurd h.symm hr

theorem Taken.postId {gone : List Topic} {isSweep : Prop} (h : Taken gone isSweep) {t : Topic} (ht : t ∈ gone) :
    postId t = none := by
  rcases h.classes t ht with hclass | ⟨-, hclass⟩
  · exact postId_of_class hclass (by decide) (by decide)
  · exact postId_of_class hclass (by decide) (by decide)

theorem Taken.not_mem {gone : List Topic} {isSweep : Prop} (h : Taken gone isSweep) {topic : Topic}
    (hrep : topicClass topic ≠ ["hforum", "rep"]) (hname : topicClass topic ≠ ["hforum", "u"]) : topic ∉ gone := by
  intro hmem
  rcases h.classes topic hmem with hclass | ⟨-, hclass⟩
  · exact hrep hclass
  · exact hname hclass

theorem registry_of_shape {payload : P} {fact : Fact} (h : Shape env pol registryTopic payload fact) :
    ∃ seq, fact = .registry seq := by
  cases fact with
  | chat => cases h
  | report => simp [Shape, registryTopic] at h
  | claim norm pk => simp [Shape, registryTopic, claimTopic] at h
  | post id pk nickNorm => simp [Shape, registryTopic, postId] at h
  | tombstone pk => simp [Shape, registryTopic, postId] at h
  | hide pk => simp [Shape, registryTopic] at h
  | admin pk => simp [Shape, registryTopic, adminTopic] at h
  | registry seq => exact ⟨seq, rfl⟩

private theorem cacheOk_kept {meter : Bool} {cache : Cache} {r : Retained (Arc P)} (h : CacheOk env pol cache r)
    {topic : Topic} {payload : Arc P} {fact : Fact} (hshape : Shape env pol topic payload.val fact)
    (hadmitted : (weigh env pol meter cache fact topic r).1 = none) (m : Meta) (now : Nat) :
    CacheOk env pol (weigh env pol meter cache fact topic r).2 (r.insertAt topic payload m now) := by
  by_cases htopic : topic = registryTopic
  · obtain ⟨seq, rfl⟩ := registry_of_shape (htopic ▸ hshape)
    rw [weigh_registry hadmitted]
    exact cacheOk_none _
  · refine (weigh_spec meter h fact topic).2.of_get ?_
    rw [get_insertAt, if_neg (Ne.symm htopic)]

theorem taken_nil {isSweep : Prop} : Taken [] isSweep := ⟨by simp⟩

private theorem report_of_empty {topic : Topic} {payload : P} {fact : Fact} (h : Shape env pol topic payload fact)
    (hempty : isEmpty payload = true) : fact = .report := by
  cases fact with
  | report => rfl
  | chat => cases h
  | claim norm pk => simp [Shape, hempty] at h
  | post id pk nickNorm => simp [Shape, hempty] at h
  | tombstone pk => simp [Shape, hempty] at h
  | hide pk => simp [Shape, hempty] at h
  | admin pk => simp [Shape, hempty] at h
  | registry seq => simp [Shape, hempty] at h

variable [DecidableEq P]

theorem handlePublish_cases {s : Forum P} (hs : CacheOk env pol s.cache s.retained) (topic : Topic) (payload : Arc P)
    (retain : Bool) (now : Nat) (meter queued : Bool) :
    let out := handlePublish env pol s topic payload retain now meter queued
    CacheOk env pol out.2.cache out.2.retained ∧
      ((∃ gone, Taken gone False ∧ out.2.retained = removeQueued s.retained (fun _ => true) gone) ∧
          (out.1 = true → ∀ fact, check env pol topic payload.val retain = .ok fact → fact = .chat ∨ fact = .report) ∨
        out.1 = true ∧ ∃ fact, Kept env pol s.retained topic payload meter fact ∧
          check env pol topic payload.val retain = .ok fact ∧
          out.2.retained = s.retained.insertAt topic payload (metaFor env topic payload.val) now) := by
  unfold handlePublish
  by_cases hgate : allowedTopic topic = true ∧ len payload ≤ payloadLimit topic
  · rw [if_pos hgate]
    cases hcheck : check env pol topic payload.val retain with
    | error reason => exact ⟨hs, Or.inl ⟨⟨[], taken_nil, rfl⟩, by simp⟩⟩
    | ok fact =>
      obtain ⟨hweigh, hcache⟩ := weigh_spec meter hs fact topic
      dsimp only
      generalize hm : (if retain = true ∧ (!isEmpty payload.val) = true then metaFor env topic payload.val
        else Meta.default) = m
      unfold publish
      dsimp only
      split
      · exact ⟨hs, Or.inl ⟨⟨[], taken_nil, rfl⟩, by simp⟩⟩
      rename_i hholds
      split
      · exact ⟨hs, Or.inl ⟨⟨[], taken_nil, rfl⟩, by simp⟩⟩
      rename_i hroom
      split
      · exact ⟨hcache, Or.inl ⟨⟨[], taken_nil, rfl⟩, by simp⟩⟩
      rename_i hreason
      have hadmitted : (weigh env pol meter s.cache fact topic s.retained).1 = none := by simpa using hreason
      rcases check_shape hcheck with ⟨rfl, rfl⟩ | ⟨rfl, hshape⟩
      · exact ⟨hcache, Or.inl ⟨⟨[], taken_nil, rfl⟩, by simp⟩⟩
      · rw [if_pos rfl]
        split
        · exact ⟨hcache, Or.inl ⟨⟨[], taken_nil, rfl⟩, by simp⟩⟩
        split
        · rename_i hempty
          cases report_of_empty hshape hempty
          obtain ⟨id, reporter, rfl⟩ := hshape
          refine ⟨hcache.of_get ?_, Or.inl ⟨⟨[["hforum", "rep", id, reporter]], ⟨by simp [topicClass]⟩, rfl⟩, ?_⟩⟩
          · dsimp only
            rw [get_remove, if_neg (by simp [registryTopic])]
          · rintro - fact' ⟨⟩
            exact Or.inr rfl
        · rename_i hempty
          have hnonempty : isEmpty payload.val = false := eq_false_of_ne_true hempty
          rw [if_pos (by simp [hnonempty])] at hm
          subst hm
          refine ⟨cacheOk_kept hs hshape hadmitted _ now, Or.inr ⟨rfl, fact, ?_, rfl, rfl⟩⟩
          exact
            { allowed := hgate.1
              limit := hgate.2
              checked := hcheck
              shape := hshape
              nonempty := hnonempty
              changed := by simpa [hnonempty] using hholds
              room := by simpa [hnonempty] using hroom
              admits := hweigh.1 hadmitted }
  · rw [if_neg hgate]
    exact ⟨hs, Or.inl ⟨⟨[], taken_nil, rfl⟩, by simp⟩⟩

omit [DecidableEq P] in
theorem sweep_spec {s : Forum P} (hs : CacheOk env pol s.cache s.retained) :
    CacheOk env pol (sweep env pol s.cache s.retained).2 s.retained ∧
      ∀ t ∈ (sweep env pol s.cache s.retained).1, topicClass t = ["hforum", "u"] := by
  obtain ⟨-, hcache⟩ := registryFacts_spec hs
  unfold sweep
  dsimp only
  split
  · refine ⟨hcache, fun t ht => ?_⟩
    obtain ⟨e, he, rfl⟩ := List.mem_map.1 ht
    have hclass := (List.mem_filter.1 (List.mem_filter.1 he).1).2
    simpa using hclass
  · exact ⟨hcache, by simp⟩

/-- What a step does to the store. -/
theorem step_cases {s : Forum P} (hs : CacheOk env pol s.cache s.retained) (e : Event P) :
    CacheOk env pol (s.step env pol e).cache (s.step env pol e).retained ∧
      ((∃ queued gone, Taken gone (∃ q, e = .sweep q) ∧
          (s.step env pol e).retained = removeQueued s.retained queued gone) ∨
        ∃ topic payload retain now meter queued fact, e = .publish topic payload retain now meter queued ∧
          Kept env pol s.retained topic payload meter fact ∧
          (s.step env pol e).retained = s.retained.insertAt topic payload (metaFor env topic payload.val) now) := by
  cases e with
  | publish topic payload retain now meter queued =>
    obtain ⟨hcache, ⟨⟨gone, hgone, hr⟩, -⟩ | ⟨-, fact, hkept, -, hr⟩⟩ :=
      handlePublish_cases hs topic payload retain now meter queued
    · refine ⟨hcache, Or.inl ⟨fun _ => true, gone, ⟨fun t ht => ?_⟩, hr⟩⟩
      exact Or.inl ((hgone.classes t ht).resolve_right fun h => h.1)
    · exact ⟨hcache, Or.inr ⟨topic, payload, retain, now, meter, queued, fact, rfl, hkept, hr⟩⟩
  | sweep queued =>
    obtain ⟨hcache, hgone⟩ := sweep_spec hs
    have htaken : Taken (sweep env pol s.cache s.retained).1 (∃ q, Event.sweep queued = .sweep (P := P) q) :=
      ⟨fun t ht => Or.inr ⟨⟨queued, rfl⟩, hgone t ht⟩⟩
    refine ⟨hcache.of_get ?_, Or.inl ⟨queued, _, htaken, rfl⟩⟩
    have hnot : registryTopic ∉ (sweep env pol s.cache s.retained).1 :=
      htaken.not_mem (by decide) (by decide)
    change (removeQueued s.retained queued (sweep env pol s.cache s.retained).1).get registryTopic = _
    unfold Retained.get
    rw [get?_removeQueued, if_neg fun h => hnot h.1]

end

end HidraNet.Hidrarelay
