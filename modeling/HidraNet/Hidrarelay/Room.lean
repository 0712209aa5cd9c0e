import HidraNet.Hidrarelay.Pages

/-!
# Whether there is room

The share a kind of topic may fill is tested against everything that is kept.  So a post cannot be deleted once names
and moderation have filled the store past the posts' share (`deletion_room`), and the registrar's list, the
moderator's claim and a hide always find room for their bytes, but not for one message more than the store may hold
(`moderation_room`).
-/

namespace HidraNet.Hidrarelay

open Maps Books Runs Retained

/-! ### What holds of every reachable store -/

section

variable {P : Type*} [Payload P] {env : Env P} {pol : ForumPolicy} [DecidableEq P]

theorem forumAfter_induction {Q : Retained (Arc P) → Prop} (hempty : Q Retained.empty)
    (hremove : ∀ r topic, Exact r → Q r → Q (r.remove topic).2)
    (hkeep : ∀ r topic payload meter fact now, Exact r → Q r → Kept env pol r topic payload meter fact →
      Q (r.insertAt topic payload (metaFor env topic payload.val) now)) (es : List (Event P)) :
    Q (forumAfter env pol es).retained := by
  have htaken : ∀ (queued : Topic → Bool) (gone : List Topic) (r : Retained (Arc P)), Exact r → Q r →
      Q (removeQueued r queued gone) := by
    intro queued gone
    unfold removeQueued
    induction gone with
    | nil => exact fun _ _ hr => hr
    | cons t gone ih =>
      intro r hexact hr
      rw [List.foldl_cons]
      split
      · exact ih _ (exact_remove hexact t) (hremove r t hexact hr)
      · exact ih r hexact hr
  have hstep : ∀ (s : Forum P) (e : Event P), Good env pol s ∧ Q s.retained →
      Good env pol (s.step env pol e) ∧ Q (s.step env pol e).retained := by
    rintro s e ⟨hs, hq⟩
    refine ⟨good_step hs e, ?_⟩
    obtain ⟨-, ⟨queued, gone, -, hr⟩ | ⟨topic, payload, retain, now, meter, queued, fact, -, hkept, hr⟩⟩ :=
      step_cases hs.cache e
    · rw [hr]
      exact htaken queued gone _ hs.exact hq
    · rw [hr]
      exact hkeep _ topic payload meter fact now hs.exact hq hkept
  exact (run_always (P := fun s => Good env pol s ∧ Q s.retained) hstep ⟨good_empty, hempty⟩ es).2

theorem forum_withinLimits (es : List (Event P)) : WithinLimits (forumAfter env pol es).retained := by
  apply forumAfter_induction
  · exact ⟨Nat.zero_le _, Nat.zero_le _, fun _ => Nat.zero_le _⟩
  · exact fun r topic _ hr => withinLimits_remove hr topic
  · exact fun r topic payload meter fact now _ hr hkept => withinLimits_insertAt hr hkept.room now

/-! ### Deletions -/

/-- A payload that takes the place of a longer one of the same key is refused for bytes or not at all: where everything
else that is kept, with it, is more than the share of its kind. -/
theorem deletion_room (es : List (Event P)) {topic : Topic} {e : Entry (Arc P)}
    (he : (forumAfter env pol es).retained.map.get? topic = some e) {n : Nat} (hn : n ≤ len e.payload) {m : Meta}
    (hm : m.pk = e.signed.pk) :
    (forumAfter env pol es).retained.refuseRoom topic n m =
        (if byteLimitFor topic < (forumAfter env pol es).retained.bytes - len e.payload + n then
          some "store full: bytes" else none) ∧
      ((forumAfter env pol es).retained.bytes ≤ byteLimitFor topic ∨ topicClass topic ∈ moderationClasses →
        (forumAfter env pol es).retained.refuseRoom topic n m = none) := by
  have hexact : Exact (forumAfter env pol es).retained := (good_run es).exact
  have hlimits : WithinLimits (forumAfter env pol es).retained := forum_withinLimits es
  generalize (forumAfter env pol es).retained = r at *
  obtain ⟨hbytes, -, hauthor⟩ := hexact.covers topic e he
  have hrefuse : r.refuseRoom topic n m =
      if byteLimitFor topic < r.bytes - len e.payload + n then some "store full: bytes" else none := by
    unfold refuseRoom
    simp only [he, Option.isNone_some, Bool.false_eq_true, false_and, if_false, Option.map_some, Option.getD_some]
    cases hpk : m.pk with
    | none => rfl
    | some pk =>
      have hown : e.signed.pk = some pk := hm.symm.trans hpk
      have hheld := (hauthor pk hown).1
      have hshare := hlimits.author pk
      have hfits : ¬ maxBytesPerAuthor < r.authorBytes pk - len e.payload + n := by omega
      simp [hown, hfits]
  refine ⟨hrefuse, fun h => ?_⟩
  rw [hrefuse, if_neg]
  have hlimit : r.bytes ≤ byteLimitFor topic := by
    rcases h with h | h
    · exact h
    · unfold byteLimitFor
      rw [if_pos h]
      exact hlimits.bytes
  omega

/-! ### Moderation -/

private theorem lawfulBEq_classes : LawfulBEq (List String) := inferInstance

attribute [local instance] lawfulBEq_classes

def isModeration (topic : Topic) (_ : Entry (Arc P)) : Bool := topicClass topic ∈ moderationClasses

def moderationBytes (r : Retained (Arc P)) : Nat := total isModeration weight r.map

def otherBytes (r : Retained (Arc P)) : Nat := total (fun topic e => !isModeration topic e) weight r.map

def forumClasses : List Topic :=
  [["hforum", "u"], ["hforum", "t"], ["hforum", "r"], ["hforum", "mod"], ["hforum", "rep"], ["hforum", "registry"],
    ["hforum", "admin"]]

omit [DecidableEq P] in
theorem bytes_eq_add {r : Retained (Arc P)} (hr : Exact r) : r.bytes = moderationBytes r + otherBytes r := by
  rw [hr.bytes, total_split (q := isModeration)]
  rfl

omit [DecidableEq P] in
theorem otherBytes_remove_le (r : Retained (Arc P)) (topic : Topic) :
    otherBytes (r.remove topic).2 ≤ otherBytes r := by
  unfold otherBytes
  rw [map_remove]
  cases h : r.map.get? topic with
  | none => rw [remove_of_none h]
  | some e =>
    rw [total_remove h]
    exact Nat.le_add_right ..

theorem otherBytes_le (es : List (Event P)) :
    otherBytes (forumAfter env pol es).retained ≤ maxRetainedBytes - retainedReserveBytes := by
  apply forumAfter_induction (Q := fun r => otherBytes r ≤ maxRetainedBytes - retainedReserveBytes)
  · exact Nat.zero_le _
  · exact fun r topic _ hr => (otherBytes_remove_le r topic).trans hr
  · intro r topic payload meter fact now hexact hr hkept
    by_cases hclass : topicClass topic ∈ moderationClasses
    · have hsame : otherBytes (r.insertAt topic payload (metaFor env topic payload.val) now) =
          otherBytes (r.remove topic).2 := by
        unfold otherBytes
        rw [map_insertAt, total_set (get?_remove_self r topic)]
        simp [share, isModeration, hclass]
      rw [hsame]
      exact (otherBytes_remove_le r topic).trans hr
    · have hroom := (refuseRoom_eq_none.1 hkept.room).2.1
      have hall := bytes_eq_add (exact_insertAt hexact topic payload (metaFor env topic payload.val) now)
      rw [bytes_insertAt] at hall
      have hlimit : byteLimitFor topic ≤ maxRetainedBytes - retainedReserveBytes := by
        unfold byteLimitFor
        dsimp only
        rw [if_neg hclass]
        split
        · exact Nat.le_refl _
        · decide
      omega

omit [DecidableEq P] in
theorem class_of_shape {topic : Topic} {payload : P} {fact : Fact} (h : Shape env pol topic payload fact) :
    topicClass topic ∈ forumClasses := by
  by_cases hpost : (postId topic).isSome
  · obtain ⟨i, hid⟩ := Option.isSome_iff_exists.1 hpost
    rcases postId_cases hid with rfl | ⟨tid, rfl⟩
    · simp [topicClass, forumClasses]
    · simp [topicClass, forumClasses]
  · cases fact with
    | chat => cases h
    | report =>
      obtain ⟨id, reporter, rfl⟩ := h
      simp [topicClass, forumClasses]
    | claim norm pk =>
      rw [h.1]
      simp [claimTopic, topicClass, forumClasses]
    | post id pk nickNorm => exact absurd (by simp [h.1]) hpost
    | tombstone pk => exact absurd h.1 hpost
    | hide pk =>
      obtain ⟨⟨id, rfl⟩, -⟩ := h
      simp [topicClass, forumClasses]
    | admin pk =>
      rw [h.1]
      decide
    | registry seq =>
      rw [h.1]
      decide

theorem size_eq_sum (es : List (Event P)) :
    (forumAfter env pol es).retained.size = (forumClasses.map (forumAfter env pol es).retained.count).sum := by
  have hs : Good env pol (forumAfter env pol es) := good_run es
  have hclasses : ∀ e ∈ (forumAfter env pol es).retained.map.entries, topicClass e.1 ∈ forumClasses := by
    rintro ⟨topic, e⟩ he
    obtain ⟨-, fact, -, hshape⟩ := hs.checked topic e (Map.mem_entries.1 he)
    exact class_of_shape hshape
  have hsize := length_eq_sum_countP (by decide) hclasses
  unfold Retained.size Map.size
  rw [hsize]
  congr 1
  apply List.map_congr_left
  intro c _
  rw [hs.exact.count c]
  rfl

/-- A publish of the list, of the moderator's claim or of a hide is not refused for the number of messages, and not for
bytes while the three kinds stay within the last reserve, exactly when the topic is kept already or the names, posts,
replies, hides and reports, with the list and the moderator's claim, are not as many as the store may hold. -/
theorem moderation_room (es : List (Event P)) {topic : Topic} (htopic : topicClass topic ∈ moderationClasses) (n : Nat)
    (m : Meta) :
    (forumAfter env pol es).retained.refuseRoom topic n m ≠ some "store full: messages" ∧
        (moderationBytes ((forumAfter env pol es).retained.remove topic).2 + n ≤ retainedReserveBytes →
          (forumAfter env pol es).retained.refuseRoom topic n m ≠ some "store full: bytes") ↔
      (forumAfter env pol es).retained.map.contains topic = true ∨
        (forumClasses.map (forumAfter env pol es).retained.count).sum < maxRetainedMessages := by
  have hexact : Exact (forumAfter env pol es).retained := (good_run es).exact
  have hother : otherBytes (forumAfter env pol es).retained ≤ maxRetainedBytes - retainedReserveBytes :=
    otherBytes_le es
  rw [← size_eq_sum]
  generalize (forumAfter env pol es).retained = r at *
  have hbytes : moderationBytes (r.remove topic).2 + n ≤ retainedReserveBytes →
      ¬ byteLimitFor topic < r.bytes - ((r.map.get? topic).map fun e => len e.payload).getD 0 + n := by
    intro hreserve
    have hall := bytes_eq_add (exact_remove hexact topic)
    have hrest := otherBytes_remove_le r topic
    have hreserves : retainedReserveBytes ≤ maxRetainedBytes := by decide
    rw [bytes_remove] at hall
    unfold byteLimitFor
    rw [if_pos htopic]
    omega
  unfold Map.contains refuseRoom
  by_cases hfull : (r.map.get? topic).isNone = true ∧ maxRetainedMessages ≤ r.size
  · have hnone := Option.isNone_iff_eq_none.1 hfull.1
    rw [if_pos hfull]
    simp only [ne_eq, not_true_eq_false, false_and, hnone, Option.isSome_none, Bool.false_eq_true, false_or, false_iff,
      Nat.not_lt]
    exact hfull.2
  · rw [if_neg hfull]
    have hroom : (r.map.get? topic).isSome = true ∨ r.size < maxRetainedMessages := by
      by_cases hkept : (r.map.get? topic).isSome = true
      · exact Or.inl hkept
      · refine Or.inr (Nat.not_le.1 fun hle => hfull ⟨?_, hle⟩)
        simpa using hkept
    refine iff_of_true ⟨?_, fun hreserve => ?_⟩ hroom
    · dsimp only
      split
      · simp
      · split
        · simp
        · split <;> simp
    · dsimp only
      rw [if_neg (hbytes hreserve)]
      split
      · simp
      · split <;> simp

end

/-! ### A forum crowded by names -/

def crowdedPosts : List (Topic × Page) := family (nameAt 0 0) 7 ++ family (threadAt 28 130739) 191

def crowdedPages : List (Topic × Page) := crowdedPosts ++ family (nameAt 7 130701) 2

def crowded : List (Event Page) :=
  (family (nameAt 0 0) 7).map publishOf ++ (family (threadAt 28 130739) 191).map publishOf ++
    (family (nameAt 7 130701) 2).map publishOf

private theorem crowdedNames_budget : Budget pageEnv ([] ++ family (nameAt 0 0) 7) (0 + 7 * 371) (0 + 1 * 371) :=
  budget_names budget_nil (fun _ hp => by cases hp) (by norm_num)

private theorem crowdedPosts_budget :
    Budget pageEnv crowdedPosts (0 + 7 * 371 + 191 * 131072) (0 + 1 * 371 + 28 * 131072) := by
  have hnames := crowdedNames_budget
  rw [List.nil_append] at hnames
  refine budget_threads hnames ?_ (by omega) (by norm_num)
  rw [countP_family (class_nameAt 0 0), if_neg (by decide)]

private theorem crowdedPages_budget :
    Budget pageEnv crowdedPages (0 + 7 * 371 + 191 * 131072 + 2 * 131072) (0 + 1 * 371 + 28 * 131072 + 1 * 131072) := by
  refine budget_names crowdedPosts_budget (fun p hp i hi htopic => ?_) (by norm_num)
  rcases List.mem_append.1 hp with hp | hp
  · obtain ⟨j, hj, rfl⟩ := mem_family.1 hp
    simp only [nameAt, claimTopic, List.cons.injEq, and_true, true_and] at htopic
    have hsame := nameOf_inj (by omega) (by omega) htopic
    omega
  · obtain ⟨j, hj, rfl⟩ := mem_family.1 hp
    simp [threadAt, threadTopic, nameAt, claimTopic] at htopic

private theorem length_family {P : Type*} (g : Nat → Topic × P) (n : Nat) : (family g n).length = n := by
  simp [family]

theorem crowded_reached : (forumAfter pageEnv noKeys crowded).retained = fill pageEnv crowdedPages := by
  have hnames : Fits pageEnv noKeys [] (family (nameAt 0 0) 7) := by
    refine fits_names crowdedNames_budget ?_ (by decide) (by decide) (by norm_num) (by decide) (by decide)
      fun p hp => by cases hp
    rw [List.nil_append, length_family]
    decide
  have hposts : Fits pageEnv noKeys (family (nameAt 0 0) 7) (family (threadAt 28 130739) 191) := by
    refine fits_threads crowdedPosts_budget ?_ (by decide) (by decide) (by decide) (by decide) ?_ fun i hi => ?_
    · rw [List.length_append, length_family, length_family]
      decide
    · rw [countP_family (class_nameAt 0 0), countP_family (class_nameAt 0 0), if_neg (by decide), if_neg (by decide)]
    · exact mem_family.2 ⟨i / 28, by omega, rfl⟩
  have hmore : Fits pageEnv noKeys crowdedPosts (family (nameAt 7 130701) 2) := by
    refine fits_names crowdedPages_budget ?_ (by decide) (by decide) (by norm_num) (by decide) ?_
      fun p hp hclass => ?_
    · rw [crowdedPosts, List.length_append, List.length_append, length_family, length_family, length_family]
      decide
    · rw [crowdedPosts, List.countP_append, countP_family (class_nameAt 0 0), countP_family (class_threadAt 28 130739),
        if_pos rfl, if_neg (by decide)]
      decide
    · rcases List.mem_append.1 hp with hp | hp
      · obtain ⟨j, hj, rfl⟩ := mem_family.1 hp
        exact ⟨0 + j, by omega, congrArg Meta.pk (metaFor_claimPage (0 + j) 0)⟩
      · obtain ⟨j, hj, rfl⟩ := mem_family.1 hp
        rw [class_threadAt] at hclass
        exact absurd hclass (by decide)
  have hfirst := hnames.reached (show (forumAfter pageEnv noKeys []).retained = fill pageEnv [] from rfl)
  exact hmore.reached (hposts.reached hfirst)

theorem crowded_kept :
    (forumAfter pageEnv noKeys crowded).retained.map.get? (threadTopic 0) =
        some (entryOf pageEnv (threadTopic 0, threadPage 0 0 130739)) ∧
      (forumAfter pageEnv noKeys crowded).retained.bytes = 25299493 := by
  rw [crowded_reached]
  refine ⟨(get?_fill crowdedPages_budget.nodup).2 ⟨threadAt 28 130739 0, ?_, rfl, rfl⟩, ?_⟩
  · exact List.mem_append_left _ (List.mem_append_right _ (mem_family.2 ⟨0, by omega, rfl⟩))
  · have hsum : ((crowdedPages.map fun p => len p.2).sum) = 7 * 371 + 191 * 131072 + 2 * 131072 := by
      unfold crowdedPages crowdedPosts
      rw [List.map_append, List.map_append, List.sum_append, List.sum_append,
        sum_family (fun i _ => len_claimPage _ 0), sum_family (fun i _ => len_threadPage i _ 130739),
        sum_family (fun i _ => len_claimPage _ 130701)]
    rw [bytes_fill crowdedPages_budget.nodup, hsum]

/-- Its author's tombstone, though it is shorter than the thread, is refused. -/
theorem crowded_refuses_deletion :
    check pageEnv noKeys (threadTopic 0) (tombstonePage 0 0) true = .ok (.tombstone (keyOf 0)) ∧
      signerAt pageEnv noKeys (forumAfter pageEnv noKeys crowded).retained (threadTopic 0) = some (keyOf 0, false) ∧
      len (tombstonePage 0 0) ≤ len (threadPage 0 0 130739) ∧
      (forumAfter pageEnv noKeys crowded).retained.get (threadTopic 0) = some ⟨0, threadPage 0 0 130739⟩ ∧
      (forumAfter pageEnv noKeys crowded).retained.refuseRoom (threadTopic 0) (len (tombstonePage 0 0))
        (metaFor pageEnv (threadTopic 0) (tombstonePage 0 0)) = some "store full: bytes" := by
  obtain ⟨hkept, hbytes⟩ := crowded_kept
  refine ⟨check_tombstonePage noKeys 0 0, ?_, ?_, ?_, ?_⟩
  · refine (signerAt_eq_some (good_run crowded)).2 ⟨rfl, _, hkept, ?_⟩
    exact ⟨congrArg Meta.pk (metaFor_threadPage 0 0 130739), congrArg Meta.tombstone (metaFor_threadPage 0 0 130739)⟩
  · rw [len_tombstonePage, len_threadPage]
    omega
  · unfold Retained.get
    rw [hkept]
    rfl
  · have hold : len (entryOf pageEnv (threadTopic 0, threadPage 0 0 130739)).payload = 131072 :=
      len_threadPage 0 0 130739
    have hlimit : byteLimitFor (threadTopic 0) = 25165824 := rfl
    unfold refuseRoom
    simp [hkept, hold, hbytes, hlimit, len_tombstonePage]

theorem crowded_deletion_room :
    (forumAfter pageEnv noKeys crowded).retained.refuseRoom (threadTopic 0) (len (tombstonePage 0 0))
        (metaFor pageEnv (threadTopic 0) (tombstonePage 0 0)) =
        (if byteLimitFor (threadTopic 0) < (forumAfter pageEnv noKeys crowded).retained.bytes -
            len (entryOf pageEnv (threadTopic 0, threadPage 0 0 130739)).payload + len (tombstonePage 0 0) then
          some "store full: bytes" else none) ∧
      ((forumAfter pageEnv noKeys crowded).retained.bytes ≤ byteLimitFor (threadTopic 0) ∨
          topicClass (threadTopic 0) ∈ moderationClasses →
        (forumAfter pageEnv noKeys crowded).retained.refuseRoom (threadTopic 0) (len (tombstonePage 0 0))
          (metaFor pageEnv (threadTopic 0) (tombstonePage 0 0)) = none) := by
  refine deletion_room crowded crowded_kept.1 ?_ ?_
  · rw [len_tombstonePage]
    exact (by omega : 237 ≤ 333 + 130739).trans_eq (len_threadPage 0 0 130739).symm
  · rw [metaFor_tombstonePage]
    exact (congrArg Meta.pk (metaFor_threadPage 0 0 130739)).symm

/-! ### A forum at all of its caps -/

def fullNames : List (Topic × Page) := [(adminTopic, adminPage 0)] ++ family (nameAt 0 0) 10000

def fullPosts : List (Topic × Page) := fullNames ++ family (threadAt 3 0) 30000

def fullReports : List (Topic × Page) := fullPosts ++ family reportAt 5000

def fullPages : List (Topic × Page) := fullReports ++ family (hideAt 0) 4999

def full : List (Event Page) :=
  [(adminTopic, adminPage 0)].map publishOf ++ (family (nameAt 0 0) 10000).map publishOf ++
    (family (threadAt 3 0) 30000).map publishOf ++ (family reportAt 5000).map publishOf ++
    (family (hideAt 0) 4999).map publishOf

private theorem fullNames_budget : Budget pageEnv fullNames (314 + 10000 * 371) (314 + 1 * 371) := by
  have hadmin : Budget pageEnv [(adminTopic, adminPage 0)] (len (adminPage 0)) (len (adminPage 0)) :=
    budget_singleton (adminTopic, adminPage 0)
  rw [len_adminPage] at hadmin
  refine budget_names hadmin (fun p hp i _ => ?_) (by norm_num)
  rw [List.mem_singleton.1 hp]
  simp [adminTopic, nameAt, claimTopic]

private theorem count_fullNames (c : Topic) :
    fullNames.countP (fun p => topicClass p.1 = c) =
      (if adminTopic = c then 1 else 0) + if ["hforum", "u"] = c then 10000 else 0 := by
  have hadmin : topicClass adminTopic = adminTopic := rfl
  unfold fullNames
  rw [List.countP_append, countP_family (class_nameAt 0 0), List.countP_singleton, hadmin]
  simp

private theorem fullPosts_budget :
    Budget pageEnv fullPosts (314 + 10000 * 371 + 30000 * 333) (314 + 1 * 371 + 3 * 333) := by
  refine budget_threads fullNames_budget ?_ (by omega) (by norm_num)
  rw [count_fullNames]
  decide

private theorem count_fullPosts (c : Topic) :
    fullPosts.countP (fun p => topicClass p.1 = c) =
      (if adminTopic = c then 1 else 0) + (if ["hforum", "u"] = c then 10000 else 0) +
        if ["hforum", "t"] = c then 30000 else 0 := by
  unfold fullPosts
  rw [List.countP_append, count_fullNames, countP_family (class_threadAt 3 0)]

private theorem fullReports_budget :
    Budget pageEnv fullReports (314 + 10000 * 371 + 30000 * 333 + 5000 * 1) (314 + 1 * 371 + 3 * 333 + 1 * 1) := by
  refine budget_reports fullPosts_budget ?_ (by norm_num)
  rw [count_fullPosts]
  decide

private theorem count_fullReports (c : Topic) :
    fullReports.countP (fun p => topicClass p.1 = c) =
      (if adminTopic = c then 1 else 0) + (if ["hforum", "u"] = c then 10000 else 0) +
        (if ["hforum", "t"] = c then 30000 else 0) + if ["hforum", "rep"] = c then 5000 else 0 := by
  unfold fullReports
  rw [List.countP_append, count_fullPosts, countP_family class_reportAt]

private theorem fullPages_budget :
    Budget pageEnv fullPages (314 + 10000 * 371 + 30000 * 333 + 5000 * 1 + 4999 * 249)
      (314 + 1 * 371 + 3 * 333 + 1 * 1 + 4999 * 249) := by
  refine budget_hides fullReports_budget ?_ (by omega) (by norm_num)
  rw [count_fullReports]
  decide

private theorem length_fullPages : fullPages.length = maxRetainedMessages := by
  unfold fullPages fullReports fullPosts fullNames
  rw [List.length_append, List.length_append, List.length_append, List.length_append, length_family, length_family,
    length_family, length_family, List.length_singleton]
  decide

theorem full_reached : (forumAfter pageEnv noKeys full).retained = fill pageEnv fullPages := by
  have hlength := length_fullPages
  unfold fullPages fullReports fullPosts at hlength
  rw [List.length_append] at hlength
  have hreports : fullReports.length ≤ maxRetainedMessages := by
    unfold fullReports fullPosts
    omega
  have hposts : fullPosts.length ≤ maxRetainedMessages := by
    unfold fullReports at hreports
    rw [List.length_append] at hreports
    omega
  have hnames : fullNames.length ≤ maxRetainedMessages := by
    unfold fullPosts at hposts
    rw [List.length_append] at hposts
    omega
  have hadmin : (adminTopic, adminPage 0) ∈ fullNames := List.mem_append_left _ (List.mem_singleton_self _)
  have h₁ : Fits pageEnv noKeys [(adminTopic, adminPage 0)] (family (nameAt 0 0) 10000) := by
    refine fits_names fullNames_budget hnames (by decide) (by decide) (by norm_num) (by decide) (by decide)
      fun p hp hclass => ?_
    rw [List.mem_singleton.1 hp] at hclass
    exact absurd hclass (by decide)
  have h₂ : Fits pageEnv noKeys fullNames (family (threadAt 3 0) 30000) := by
    refine fits_threads fullPosts_budget hposts (by decide) (by decide) (by decide) (by decide) ?_ fun i hi => ?_
    · rw [count_fullNames, count_fullNames]
      decide
    · exact List.mem_append_right _ (mem_family.2 ⟨i / 3, by omega, rfl⟩)
  have h₃ : Fits pageEnv noKeys fullPosts (family reportAt 5000) := by
    refine fits_reports fullReports_budget hreports (by decide) (by decide) ?_
    rw [count_fullPosts]
    decide
  have h₄ : Fits pageEnv noKeys fullReports (family (hideAt 0) 4999) := by
    refine fits_hides fullPages_budget length_fullPages.le (by decide) (by decide) ?_ ?_
    · rw [count_fullReports]
      decide
    · exact List.mem_append_left _ (List.mem_append_left _ hadmin)
  have hreached := (fits_admin 0).reached (show (forumAfter pageEnv noKeys []).retained = fill pageEnv [] from rfl)
  exact h₄.reached (h₃.reached (h₂.reached (h₁.reached hreached)))

/-- A new hide by the moderator is admitted, and yet refused for the number of messages. -/
theorem full_refuses_hide :
    check pageEnv noKeys (hideTopic 4999) (hidePage 4999 0) true = .ok (.hide (keyOf 0)) ∧
      (∀ meter cache, CacheOk pageEnv noKeys cache (forumAfter pageEnv noKeys full).retained →
        (weigh pageEnv noKeys meter cache (.hide (keyOf 0)) (hideTopic 4999)
          (forumAfter pageEnv noKeys full).retained).1 = none) ∧
      (forumAfter pageEnv noKeys full).retained.count ["hforum", "mod"] < maxHides ∧
      (forumAfter pageEnv noKeys full).retained.refuseRoom (hideTopic 4999) (len (hidePage 4999 0))
        (metaFor pageEnv (hideTopic 4999) (hidePage 4999 0)) = some "store full: messages" := by
  rw [full_reached]
  have hcount : fullPages.countP (fun p => topicClass p.1 = ["hforum", "mod"]) = 4999 := by
    unfold fullPages
    rw [List.countP_append, count_fullReports, countP_family (class_hideAt 0)]
    decide
  have hadmin : (adminTopic, adminPage 0) ∈ fullPages :=
    List.mem_append_left _ (List.mem_append_left _ (List.mem_append_left _ (List.mem_append_left _
      (List.mem_singleton_self _))))
  have hnew : hideTopic 4999 ∉ fullPages.map Prod.fst := by
    intro hmem
    obtain ⟨p, hp, htopic⟩ := List.mem_map.1 hmem
    rcases List.mem_append.1 hp with hp | hp
    · have hnone : fullReports.countP (fun p => topicClass p.1 = ["hforum", "mod"]) = 0 := by
        rw [count_fullReports]
        decide
      exact ne_of_class hnone (class_hideAt 0 4999) p hp htopic
    · obtain ⟨j, hj, rfl⟩ := mem_family.1 hp
      simp only [hideAt, hideTopic, List.cons.injEq, and_true, true_and] at htopic
      have hsame := postIdOf_inj (by omega) (by norm_num) htopic
      omega
  refine ⟨check_hidePage noKeys 4999 0, fun meter cache hcache => ?_, ?_, ?_⟩
  · exact (weigh_spec meter hcache _ _).1.2 (admits_hide fullPages_budget.nodup hadmin (by rw [hcount]; decide))
  · rw [count_fill fullPages_budget.nodup, hcount]
    decide
  · have hmissing : (fill pageEnv fullPages).map.get? (hideTopic 4999) = none :=
      metaOf_eq_none.1 (metaOf_fill_new fullPages_budget.nodup hnew)
    have hfull : (fill pageEnv fullPages).size ≥ maxRetainedMessages := by
      rw [size_fill fullPages_budget.nodup, length_fullPages]
    unfold refuseRoom
    rw [if_pos ⟨by rw [hmissing]; rfl, hfull⟩]

theorem full_moderation_room :
    (forumAfter pageEnv noKeys full).retained.refuseRoom (hideTopic 4999) (len (hidePage 4999 0))
          (metaFor pageEnv (hideTopic 4999) (hidePage 4999 0)) ≠ some "store full: messages" ∧
        (moderationBytes ((forumAfter pageEnv noKeys full).retained.remove (hideTopic 4999)).2 +
            len (hidePage 4999 0) ≤ retainedReserveBytes →
          (forumAfter pageEnv noKeys full).retained.refuseRoom (hideTopic 4999) (len (hidePage 4999 0))
            (metaFor pageEnv (hideTopic 4999) (hidePage 4999 0)) ≠ some "store full: bytes") ↔
      (forumAfter pageEnv noKeys full).retained.map.contains (hideTopic 4999) = true ∨
        (forumClasses.map (forumAfter pageEnv noKeys full).retained.count).sum < maxRetainedMessages :=
  moderation_room full (by rw [show topicClass (hideTopic 4999) = ["hforum", "mod"] from rfl]; decide) _ _

end HidraNet.Hidrarelay
