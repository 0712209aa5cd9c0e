import HidraNet.Hidrarelay.ForumSafety

/-!
# Filling the store

A list of publishes on topics of their own, each of which has room and is admitted after those before it, is kept as it
is (`Fits.reached`): what the store then holds, and its books, are read off the list.
-/

namespace HidraNet.Hidrarelay

open Maps Books Runs Retained

variable {P : Type*} [Payload P]

/-! ### A list as a store -/

def entryOf (env : Env P) (p : Topic × P) : Entry (Arc P) := ⟨⟨0, p.2⟩, metaFor env p.1 p.2, 0⟩

def fill (env : Env P) (ps : List (Topic × P)) : Retained (Arc P) :=
  ps.foldl (fun r p => r.insertAt p.1 ⟨0, p.2⟩ (metaFor env p.1 p.2) 0) Retained.empty

def publishOf (p : Topic × P) : Event P := .publish p.1 ⟨0, p.2⟩ true 0 true true

section

variable {env : Env P}

theorem fill_append_singleton (ps : List (Topic × P)) (p : Topic × P) :
    fill env (ps ++ [p]) = (fill env ps).insertAt p.1 ⟨0, p.2⟩ (metaFor env p.1 p.2) 0 := by
  unfold fill
  rw [List.foldl_append]
  rfl

theorem exact_fill (ps : List (Topic × P)) : Exact (fill env ps) := by
  induction ps using List.reverseRecOn with
  | nil => exact exact_empty
  | append_singleton ps p ih =>
    rw [fill_append_singleton]
    exact exact_insertAt ih p.1 _ _ 0

theorem entries_fill {ps : List (Topic × P)} (h : (ps.map Prod.fst).Nodup) :
    (fill env ps).map.entries = ps.map fun p => (p.1, entryOf env p) := by
  induction ps using List.reverseRecOn with
  | nil => rfl
  | append_singleton ps p ih =>
    rw [List.map_append, List.map_singleton, List.nodup_append] at h
    obtain ⟨hps, -, hnew⟩ := h
    have hentries := ih hps
    have hnone : (fill env ps).map.get? p.1 = none := by
      rw [Option.eq_none_iff_forall_ne_some]
      intro e he
      rw [← Map.mem_entries, hentries] at he
      obtain ⟨q, hq, heq⟩ := List.mem_map.1 he
      rw [Prod.mk.injEq] at heq
      exact hnew q.1 (List.mem_map_of_mem hq) p.1 (List.mem_singleton_self _) heq.1
    rw [fill_append_singleton, map_insertAt, map_remove, remove_of_none hnone]
    change ((fill env ps).map.remove p.1).entries ++ [(p.1, entryOf env p)] = _
    rw [remove_of_none hnone, hentries, List.map_append]
    rfl

section Books

variable {ps : List (Topic × P)} (h : (ps.map Prod.fst).Nodup)
include h

theorem get?_fill {topic : Topic} {e : Entry (Arc P)} :
    (fill env ps).map.get? topic = some e ↔ ∃ p ∈ ps, p.1 = topic ∧ entryOf env p = e := by
  rw [← Map.mem_entries, entries_fill h, List.mem_map]
  simp only [Prod.mk.injEq]

theorem size_fill : (fill env ps).size = ps.length := by
  unfold Retained.size Map.size
  rw [entries_fill h, List.length_map]

theorem number_fill (q : Topic → Entry (Arc P) → Bool) :
    number q (fill env ps).map = ps.countP fun p => q p.1 (entryOf env p) := by
  unfold number
  rw [entries_fill h, List.countP_map]
  rfl

theorem total_fill (q : Topic → Entry (Arc P) → Bool) (f : Topic → Entry (Arc P) → Nat) :
    total q f (fill env ps).map = Lists.tally (fun p => q p.1 (entryOf env p)) (fun p => f p.1 (entryOf env p)) ps := by
  unfold total Lists.tally
  rw [entries_fill h, List.filter_map, List.map_map]
  rfl

theorem bytes_fill : (fill env ps).bytes = (ps.map fun p => len p.2).sum := by
  rw [(exact_fill ps).bytes, total_fill h]
  unfold Lists.tally
  rw [List.filter_true]
  rfl

theorem count_fill (c : Topic) : (fill env ps).count c = ps.countP fun p => topicClass p.1 = c := by
  rw [(exact_fill ps).count, number_fill h]
  rfl

theorem authorBytes_fill (pk : String) :
    (fill env ps).authorBytes pk =
      Lists.tally (fun p => (metaFor env p.1 p.2).pk = some pk) (fun p => len p.2) ps := by
  rw [(exact_fill ps).authorBytes, total_fill h]
  rfl

theorem claimsOf_fill (pk : String) :
    (fill env ps).claimsOf pk =
      ps.countP fun p => topicClass p.1 = ["hforum", "u"] && (metaFor env p.1 p.2).pk = some pk := by
  rw [(exact_fill ps).claimsOf, number_fill h]
  rfl

theorem keptKey_fill {p : Topic × P} (hp : p ∈ ps) : keptKey (fill env ps) p.1 = (metaFor env p.1 p.2).pk := by
  unfold keptKey metaOf
  rw [(get?_fill h).2 ⟨p, hp, rfl, rfl⟩]
  rfl

end Books

end

/-! ### Lists that are kept -/

section

variable {env : Env P} {pol : ForumPolicy} [DecidableEq P]

theorem handlePublish_of_kept {s : Forum P} (hs : CacheOk env pol s.cache s.retained) {topic : Topic}
    {payload : Arc P} {meter : Bool} {fact : Fact} (h : Kept env pol s.retained topic payload meter fact) (now : Nat) :
    handlePublish env pol s topic payload true now meter true =
      (true, ⟨s.retained.insertAt topic payload (metaFor env topic payload.val) now,
        (weigh env pol meter s.cache fact topic s.retained).2⟩) := by
  have hadmitted := (weigh_spec meter hs fact topic).1.2 h.admits
  unfold handlePublish publish
  rw [if_pos ⟨h.allowed, h.limit⟩, h.checked]
  simp [h.nonempty, h.changed, h.room, hadmitted]

/-- The pages of a list fit after those of another. -/
structure Fits (env : Env P) (pol : ForumPolicy) (base ps : List (Topic × P)) : Prop where
  nodup : ((base ++ ps).map Prod.fst).Nodup
  messages : (base ++ ps).length ≤ maxRetainedMessages
  bytes : ∀ p ∈ ps, ((base ++ ps).map fun p => len p.2).sum ≤ byteLimitFor p.1
  author : ∀ pk, Lists.tally (fun p => (metaFor env p.1 p.2).pk = some pk) (fun p => len p.2) (base ++ ps) ≤
    maxBytesPerAuthor
  allowed : ∀ p ∈ ps, allowedTopic p.1 = true ∧ len p.2 ≤ payloadLimit p.1 ∧ isEmpty p.2 = false
  admits : ∀ qs p rest, ps = qs ++ p :: rest → ∃ fact, check env pol p.1 p.2 true = .ok fact ∧
    Admits env pol true (fill env (base ++ qs)) p.1 fact

omit [DecidableEq P] in
theorem Fits.tail {base ps : List (Topic × P)} {p : Topic × P} (h : Fits env pol base (p :: ps)) :
    Fits env pol (base ++ [p]) ps := by
  have happend : base ++ [p] ++ ps = base ++ p :: ps := by simp
  refine ⟨happend ▸ h.nodup, happend ▸ h.messages, ?_, happend ▸ h.author, ?_, ?_⟩
  · intro q hq
    rw [happend]
    exact h.bytes q (List.mem_cons_of_mem _ hq)
  · exact fun q hq => h.allowed q (List.mem_cons_of_mem _ hq)
  · intro qs q rest hsplit
    have hnext := h.admits (p :: qs) q rest (by rw [hsplit]; rfl)
    rwa [List.append_assoc, List.singleton_append]

theorem Fits.kept_head {base ps : List (Topic × P)} {p : Topic × P} (h : Fits env pol base (p :: ps)) :
    ∃ fact, Kept env pol (fill env base) p.1 ⟨0, p.2⟩ true fact := by
  obtain ⟨fact, hcheck, hadmits⟩ := h.admits [] p ps rfl
  rw [List.append_nil] at hadmits
  obtain ⟨hallowed, hlimit, hnonempty⟩ := h.allowed p List.mem_cons_self
  have hnodup := h.nodup
  rw [List.map_append, List.map_cons, List.nodup_append] at hnodup
  obtain ⟨hbase, -, hnew⟩ := hnodup
  have hnone : (fill env base).map.get? p.1 = none := by
    rw [Option.eq_none_iff_forall_ne_some]
    intro e he
    obtain ⟨q, hq, heq, -⟩ := (get?_fill hbase).1 he
    exact hnew q.1 (List.mem_map_of_mem hq) p.1 List.mem_cons_self heq
  have hmessages := h.messages
  have hbytes := h.bytes p List.mem_cons_self
  rw [List.length_append, List.length_cons] at hmessages
  rw [List.map_append, List.sum_append, List.map_cons, List.sum_cons] at hbytes
  have hroom : (fill env base).refuseRoom p.1 (len p.2) (metaFor env p.1 p.2) = none := by
    rw [refuseRoom_eq_none, remove_none hnone]
    refine ⟨fun _ => ?_, ?_, fun pk hpk => ?_⟩
    · rw [size_fill hbase]
      omega
    · rw [bytes_fill hbase]
      omega
    · have hauthor := h.author pk
      rw [Lists.tally_append, ← List.singleton_append, Lists.tally_append, Lists.tally_singleton] at hauthor
      simp only [hpk, decide_true, if_true] at hauthor
      rw [authorBytes_fill hbase]
      omega
  refine ⟨fact, ?_⟩
  exact
    { allowed := hallowed
      limit := hlimit
      checked := hcheck
      shape := (check_shape hcheck).resolve_left (by simp) |>.2
      nonempty := hnonempty
      changed := by unfold Retained.holds Retained.get; rw [hnone]; rfl
      room := hroom
      admits := hadmits }

/-- A list that fits is reached by its publishes. -/
theorem Fits.reached {base ps : List (Topic × P)} (h : Fits env pol base ps) {es : List (Event P)}
    (hbase : (forumAfter env pol es).retained = fill env base) :
    (forumAfter env pol (es ++ ps.map publishOf)).retained = fill env (base ++ ps) := by
  induction ps generalizing base es with
  | nil => simpa using hbase
  | cons p ps ih =>
    obtain ⟨fact, hkept⟩ := h.kept_head
    have hcache : CacheOk env pol (forumAfter env pol es).cache (forumAfter env pol es).retained :=
      (good_run es).cache
    have hstep : (forumAfter env pol (es ++ [publishOf p])).retained = fill env (base ++ [p]) := by
      rw [forumAfter_append, run_cons, run_nil, fill_append_singleton, ← hbase]
      rw [← hbase] at hkept
      change (handlePublish env pol (forumAfter env pol es) p.1 ⟨0, p.2⟩ true 0 true true).2.retained = _
      rw [handlePublish_of_kept hcache hkept]
    have hrest := ih h.tail hstep
    simpa using hrest

end

/-! ### Families of pages -/

/-- What a list of pages takes: so many bytes in all, and so many under one key. -/
structure Budget (env : Env P) (ps : List (Topic × P)) (bytes author : Nat) : Prop where
  nodup : (ps.map Prod.fst).Nodup
  bytes_le : (ps.map fun p => len p.2).sum ≤ bytes
  author_le : ∀ pk, Lists.tally (fun p => (metaFor env p.1 p.2).pk = some pk) (fun p => len p.2) ps ≤ author

section

variable {env : Env P} {pol : ForumPolicy} {bytes author : Nat}

theorem budget_nil : Budget env [] 0 0 := ⟨List.nodup_nil, Nat.le_refl 0, fun _ => Nat.le_refl 0⟩

theorem budget_singleton (p : Topic × P) : Budget env [p] (len p.2) (len p.2) := by
  refine ⟨List.nodup_singleton _, by simp, fun pk => ?_⟩
  rw [Lists.tally_singleton]
  split
  · exact Nat.le_refl _
  · exact Nat.zero_le _

theorem Budget.fits {base ps : List (Topic × P)} (h : Budget env (base ++ ps) bytes author)
    (hmessages : (base ++ ps).length ≤ maxRetainedMessages) (hauthor : author ≤ maxBytesPerAuthor)
    (hlimit : ∀ p ∈ ps, bytes ≤ byteLimitFor p.1)
    (hallowed : ∀ p ∈ ps, allowedTopic p.1 = true ∧ len p.2 ≤ payloadLimit p.1 ∧ isEmpty p.2 = false)
    (hadmits : ∀ qs p rest, ps = qs ++ p :: rest → ∃ fact, check env pol p.1 p.2 true = .ok fact ∧
      Admits env pol true (fill env (base ++ qs)) p.1 fact) : Fits env pol base ps :=
  ⟨h.nodup, hmessages, fun p hp => h.bytes_le.trans (hlimit p hp), fun pk => (h.author_le pk).trans hauthor, hallowed,
    hadmits⟩

/-- The first `n` pages of a sequence. -/
def family (g : Nat → Topic × P) (n : Nat) : List (Topic × P) := (List.range n).map g

variable {g : Nat → Topic × P} {n : Nat}

omit [Payload P] in
theorem mem_family {p : Topic × P} : p ∈ family g n ↔ ∃ i < n, g i = p := by
  unfold family
  simp

omit [Payload P] in
theorem family_split {qs rest : List (Topic × P)} {p : Topic × P} (h : family g n = qs ++ p :: rest) :
    qs.length < n ∧ qs = family g qs.length ∧ p = g qs.length := by
  have hlen : n = qs.length + (rest.length + 1) := by
    have hlength := congrArg List.length h
    simpa [family] using hlength
  have hlt : qs.length < n := by omega
  refine ⟨hlt, ?_, ?_⟩
  · have htake := congrArg (List.take qs.length) h
    rw [List.take_left', family, ← List.map_take, List.take_range, Nat.min_eq_left hlt.le] at htake
    · exact htake.symm
    · rfl
  · have hget := congrArg (·[qs.length]?) h
    simp [family, hlt] at hget
    exact hget.symm

theorem sum_family {c : Nat} (hc : ∀ i < n, len (g i).2 = c) : ((family g n).map fun p => len p.2).sum = n * c := by
  have hconst : ∀ i ∈ List.range n, ((fun p => len p.2) ∘ g) i = c := fun i hi => hc i (List.mem_range.1 hi)
  unfold family
  rw [List.map_map, List.map_congr_left (g := fun _ => c) hconst, List.map_const', List.sum_replicate,
    List.length_range, smul_eq_mul]

omit [Payload P] in
theorem countP_family {c : Topic} (hc : ∀ i, topicClass (g i).1 = c) (c' : Topic) :
    (family g n).countP (fun p => topicClass p.1 = c') = if c = c' then n else 0 := by
  unfold family
  rw [List.countP_map]
  by_cases h : c = c'
  · rw [if_pos h, List.countP_eq_length.2 (by simp [hc, h]), List.length_range]
  · rw [if_neg h, List.countP_eq_zero.2 (by simp [hc, h])]

theorem author_family {d c : Nat} (hd : 0 < d) (hc : ∀ i < n, len (g i).2 = c)
    (hkey : ∀ i < n, ∀ j < n, ∀ pk, (metaFor env (g i).1 (g i).2).pk = some pk →
      (metaFor env (g j).1 (g j).2).pk = some pk → i / d = j / d) (pk : String) :
    Lists.tally (fun p => (metaFor env p.1 p.2).pk = some pk) (fun p => len p.2) (family g n) ≤ d * c := by
  have hlen : ∀ p ∈ family g n, len p.2 ≤ c := by
    intro p hp
    obtain ⟨i, hi, rfl⟩ := mem_family.1 hp
    exact (hc i hi).le
  refine (tally_le_countP_mul hlen).trans (Nat.mul_le_mul_right c ?_)
  unfold family
  rw [List.countP_map]
  by_cases hsome : ∃ j < n, (metaFor env (g j).1 (g j).2).pk = some pk
  · obtain ⟨j, hj, hpk⟩ := hsome
    refine le_trans (List.countP_mono_left fun i hi hpi => ?_) (countP_div_le hd (j / d) n)
    exact decide_eq_true (hkey i (List.mem_range.1 hi) j hj pk (of_decide_eq_true hpi) hpk)
  · have hnone : (List.range n).countP ((fun p => decide ((metaFor env p.1 p.2).pk = some pk)) ∘ g) = 0 := by
      rw [List.countP_eq_zero]
      intro i hi hpi
      exact hsome ⟨i, List.mem_range.1 hi, of_decide_eq_true hpi⟩
    rw [hnone]
    exact Nat.zero_le _

omit [Payload P] in
theorem nodup_family (hg : ∀ i < n, ∀ j < n, (g i).1 = (g j).1 → i = j) :
    ((family g n).map Prod.fst).Nodup := by
  unfold family
  rw [List.map_map]
  refine List.Nodup.map_on (fun i hi j hj h => hg i (List.mem_range.1 hi) j (List.mem_range.1 hj) h) List.nodup_range

omit [Payload P] in
theorem ne_of_class {ps : List (Topic × P)} {c topic : Topic} (hps : ps.countP (fun p => topicClass p.1 = c) = 0)
    (htopic : topicClass topic = c) : ∀ p ∈ ps, p.1 ≠ topic := by
  rintro p hp rfl
  exact List.countP_eq_zero.1 hps p hp (decide_eq_true htopic)

theorem Budget.append_family {ps : List (Topic × P)} (h : Budget env ps bytes author) {d c : Nat} (hd : 0 < d)
    (hnew : ∀ p ∈ ps, ∀ i < n, p.1 ≠ (g i).1) (hg : ∀ i < n, ∀ j < n, (g i).1 = (g j).1 → i = j)
    (hc : ∀ i < n, len (g i).2 = c)
    (hkey : ∀ i < n, ∀ j < n, ∀ pk, (metaFor env (g i).1 (g i).2).pk = some pk →
      (metaFor env (g j).1 (g j).2).pk = some pk → i / d = j / d) :
    Budget env (ps ++ family g n) (bytes + n * c) (author + d * c) := by
  refine ⟨?_, ?_, fun pk => ?_⟩
  · rw [List.map_append, List.nodup_append]
    refine ⟨h.nodup, nodup_family hg, fun topic htopic other hother => ?_⟩
    obtain ⟨p, hp, rfl⟩ := List.mem_map.1 htopic
    obtain ⟨q, hq, rfl⟩ := List.mem_map.1 hother
    obtain ⟨i, hi, rfl⟩ := mem_family.1 hq
    exact hnew p hp i hi
  · rw [List.map_append, List.sum_append, sum_family hc]
    exact Nat.add_le_add_right h.bytes_le _
  · rw [Lists.tally_append]
    exact Nat.add_le_add (h.author_le pk) (author_family hd hc hkey pk)

end

end HidraNet.Hidrarelay
