import HidraNet.Hidrarelay.Broker

/-!
# The index of filters

Two maps say who holds which filter: each client its own, and the index the clients of each filter.  They agree in every
state the relay reaches, so that a publish goes to the clients with a filter that matches its topic (`index_agrees`).

A filter matches as MQTT has it: level by level, where `+` stands for any one, and a `#` at the end for all that is
below the levels before it, and for themselves (`FilterMatches`).
-/

namespace HidraNet.Hidrarelay

open Maps Runs

/-! ### Matching -/

def StandsFor (f t : String) : Prop := f = "+" ∨ f = t

def FilterMatches (filter topic : Topic) : Prop :=
  List.Forall₂ StandsFor filter topic ∨
    ∃ above front below, filter = above ++ ["#"] ∧ topic = front ++ below ∧ List.Forall₂ StandsFor above front

theorem not_filterMatches_nil {f : String} {filter : Topic} (hf : f ≠ "#") : ¬ FilterMatches (f :: filter) [] := by
  rintro (h | ⟨above, front, below, hfilter, htopic, h⟩)
  · cases h
  · have hfront : front = [] := (List.append_eq_nil_iff.1 htopic.symm).1
    rw [hfront] at h
    cases h
    rw [List.nil_append, List.cons.injEq] at hfilter
    exact hf hfilter.1

theorem filterMatches_cons {f t : String} {filter topic : Topic} (hf : f ≠ "#") :
    FilterMatches (f :: filter) (t :: topic) ↔ StandsFor f t ∧ FilterMatches filter topic := by
  constructor
  · rintro (h | ⟨above, front, below, hfilter, htopic, h⟩)
    · obtain ⟨hstands, h⟩ := List.forall₂_cons.1 h
      exact ⟨hstands, Or.inl h⟩
    · cases h with
      | nil =>
        rw [List.nil_append, List.cons.injEq] at hfilter
        exact absurd hfilter.1 hf
      | cons hstands h =>
        rw [List.cons_append, List.cons.injEq] at hfilter htopic
        obtain ⟨rfl, rfl⟩ := hfilter
        obtain ⟨rfl, rfl⟩ := htopic
        exact ⟨hstands, Or.inr ⟨_, _, below, rfl, rfl, h⟩⟩
  · rintro ⟨hstands, h | ⟨above, front, below, rfl, rfl, h⟩⟩
    · exact Or.inl (List.Forall₂.cons hstands h)
    · exact Or.inr ⟨f :: above, t :: front, below, rfl, rfl, List.Forall₂.cons hstands h⟩

theorem topicMatches_iff {filter : Topic} (h : "#" ∉ filter.dropLast) (topic : Topic) :
    topicMatches filter topic = true ↔ FilterMatches filter topic := by
  induction filter generalizing topic with
  | nil =>
    cases topic with
    | nil =>
      have hnil : FilterMatches [] [] := Or.inl List.Forall₂.nil
      exact ⟨fun _ => hnil, fun _ => rfl⟩
    | cons t topic =>
      refine ⟨fun hmatch => absurd hmatch Bool.false_ne_true, ?_⟩
      rintro (hall | ⟨above, front, below, hfilter, -, -⟩)
      · cases hall
      · simp at hfilter
  | cons f filter ih =>
    by_cases hf : f = "#"
    · subst hf
      have hnil : filter = [] := by
        by_contra hne
        rw [List.dropLast_cons_of_ne_nil hne] at h
        exact h List.mem_cons_self
      subst hnil
      have hall : FilterMatches ["#"] topic := Or.inr ⟨[], [], topic, rfl, rfl, List.Forall₂.nil⟩
      exact ⟨fun _ => hall, fun _ => rfl⟩
    · have hrest : "#" ∉ filter.dropLast := by
        intro hmem
        have hne : filter ≠ [] := by
          rintro rfl
          cases hmem
        rw [List.dropLast_cons_of_ne_nil hne] at h
        exact h (List.mem_cons_of_mem _ hmem)
      cases topic with
      | nil =>
        have hfalse : topicMatches (f :: filter) [] = false := by
          unfold topicMatches
          split
          · simp_all
          · contradiction
          · contradiction
          · rfl
        rw [hfalse]
        exact ⟨fun hmatch => (Bool.false_ne_true hmatch).elim, fun hall => absurd hall (not_filterMatches_nil hf)⟩
      | cons t topic =>
        have hstep : topicMatches (f :: filter) (t :: topic) = ((f = "+" || f = t) && topicMatches filter topic) := by
          simp [topicMatches]
        rw [hstep, filterMatches_cons hf, ← ih hrest topic]
        unfold StandsFor
        simp

def InTree (topic : Topic) : Prop := ∃ first rest, topic = first :: rest ∧ first ∈ allowedPrefixes

theorem allowedFilter_spec {filter : Topic} (h : allowedFilter filter = true) :
    "#" ∉ filter.dropLast ∧ InTree filter := by
  unfold allowedFilter at h
  simp only [Bool.and_eq_true, Option.any_eq_true, List.all_eq_true, decide_eq_true_eq] at h
  obtain ⟨⟨⟨-, first, hhead, hfirst⟩, hlast⟩, -⟩ := h
  refine ⟨fun hmem => hlast _ hmem rfl, ?_⟩
  obtain ⟨rest, rfl⟩ := List.head?_eq_some_iff.1 hhead
  exact ⟨first, rest, rfl, hfirst⟩

theorem inTree_of_matches {filter topic : Topic} (h : allowedFilter filter = true)
    (hmatch : topicMatches filter topic = true) : InTree topic := by
  obtain ⟨-, first, rest, rfl, hfirst⟩ := allowedFilter_spec h
  have hhash : first ≠ "#" := by
    rintro rfl
    revert hfirst
    decide
  have hplus : first ≠ "+" := by
    rintro rfl
    revert hfirst
    decide
  cases topic with
  | nil => simp [topicMatches, hhash] at hmatch
  | cons t topic =>
    have ht : first = t := by
      simp only [topicMatches, hplus, Bool.and_eq_true] at hmatch
      simpa using hmatch.1
    exact ⟨t, topic, rfl, ht ▸ hfirst⟩

/-! ### What a client holds -/

/-- No filter twice, no more than a client may hold, and only such as are allowed. -/
structure Held (filters : List Topic) : Prop where
  nodup : filters.Nodup
  few : filters.length ≤ maxSubscriptionsPerClient
  allowed : ∀ f ∈ filters, allowedFilter f = true

theorem held_add {g : Grant} (h : Held g.held) (f : Topic) : Held (g.add f).held := by
  unfold Grant.add
  split
  · exact h
  split
  · exact h
  split
  · exact h
  · rename_i hallowed hnew hroom
    refine ⟨List.nodup_append.2 ⟨h.nodup, List.nodup_singleton f, ?_⟩, ?_, ?_⟩
    · rintro a ha b hb rfl
      exact hnew (List.mem_singleton.1 hb ▸ ha)
    · rw [List.length_append, List.length_singleton]
      omega
    · intro a ha
      rcases List.mem_append.1 ha with ha | ha
      · exact h.allowed a ha
      · rw [List.mem_singleton.1 ha]
        simpa using hallowed

section

variable {P : Type*} [Payload P] {c c' : Client P} {r : Retained P} {id : Nat}

omit [Payload P] in
theorem held_subscribe (h : Held c.filters) {packetId : Nat} {filters : List Topic}
    (hsubscribe : c.subscribe r packetId filters = some c') : Held c'.filters := by
  unfold Client.subscribe at hsubscribe
  split at hsubscribe
  · cases hsubscribe
  · cases hsubscribe
    exact run_always (P := fun g : Grant => Held g.held) (fun g f hg => held_add hg f) h filters

omit [Payload P] in
theorem held_unsubscribe (h : Held c.filters) {packetId : Nat} {filters : List Topic}
    (hunsubscribe : c.unsubscribe packetId filters = some c') : Held c'.filters := by
  unfold Client.unsubscribe at hunsubscribe
  split at hunsubscribe
  · cases hunsubscribe
  · cases hunsubscribe
    refine ⟨h.nodup.filter _, ?_, fun f hf => h.allowed f (List.mem_of_mem_filter hf)⟩
    exact (List.length_filter_le _ _).trans h.few

theorem held_next (h : Held c.filters) {p : Packet P} (hnext : c.next r id p = some c') : Held c'.filters := by
  have hsame {d : Client P} (hd : d.filters = c.filters) (hc' : some d = some c') : Held c'.filters := by
    cases hc'
    rwa [hd]
  have hif {q : Prop} [Decidable q] {d : Option (Client P)} (hd : d = some c' → Held c'.filters)
      (hc' : (if q then d else some c) = some c') : Held c'.filters := by
    split at hc'
    · exact hd hc'
    · exact hsame rfl hc'
  cases p with
  | connect i => exact hsame rfl hnext
  | accept m signed now room =>
    refine hif (fun hd => ?_) hnext
    obtain ⟨d, hdeliver, rfl⟩ := Option.map_eq_some_iff.1 hd
    have hfilters : d.filters = c.filters := by
      unfold Client.deliver at hdeliver
      split at hdeliver <;> split at hdeliver <;> cases hdeliver <;> rfl
    exact hfilters ▸ h
  | sweep gone => exact hsame rfl hnext
  | subscribe i packetId filters => exact hif (held_subscribe h) hnext
  | unsubscribe i packetId filters => exact hif (held_unsubscribe h) hnext
  | other i =>
    have hother : some { c with acking := some (.reply, []) } = some c' → Held c'.filters := hsame rfl
    exact hif hother hnext
  | ack i =>
    have hack : c.ack.filters = c.filters := by
      unfold Client.ack
      split <;> rfl
    exact hif (hsame hack) hnext
  | turn i =>
    have hturn : (c.turn r).filters = c.filters := by
      unfold Client.turn
      split
      · split <;> rfl
      · rfl
    exact hif (hsame hturn) hnext
  | send i =>
    have hsend : c.send.filters = c.filters := by
      unfold Client.send
      split <;> rfl
    exact hif (hsame hsend) hnext
  | release i room =>
    have hrelease : (c.release room).filters = c.filters := by
      unfold Client.release
      split <;> rfl
    exact hif (hsame hrelease) hnext
  | leave i => exact hif (fun hd => by cases hd) hnext

end

/-! ### No empty set -/

def NoneEmpty (m : Map Topic (List Nat)) : Prop := ∀ f, m.get? f ≠ some []

theorem noneEmpty_addFilter {m : Map Topic (List Nat)} (h : NoneEmpty m) (id : Nat) (f : Topic) :
    NoneEmpty (addFilter m id f) := by
  intro g hg
  unfold addFilter at hg
  obtain ⟨-, hempty⟩ | ⟨-, hg⟩ := Map.get?_set_some.1 hg
  · have hmem : id ∈ (idsOf m f).insert id := List.mem_insert_self
    rw [hempty] at hmem
    cases hmem
  · exact h g hg

theorem noneEmpty_removeFilter {m : Map Topic (List Nat)} (h : NoneEmpty m) (id : Nat) (f : Topic) :
    NoneEmpty (removeFilter m id f) := by
  intro g hg
  unfold removeFilter at hg
  split at hg
  · exact h g hg
  · dsimp only at hg
    split at hg
    · exact h g (Map.get?_remove_some.1 hg).2
    · rename_i hne
      obtain ⟨-, hempty⟩ | ⟨-, hg⟩ := Map.get?_set_some.1 hg
      · exact hne (List.isEmpty_iff.2 hempty)
      · exact h g hg

namespace Broker

variable {P : Type*} {s : Broker P}

theorem noneEmpty_removeClient (h : NoneEmpty s.byFilter) (id : Nat) : NoneEmpty (s.removeClient id).byFilter := by
  unfold removeClient
  cases s.clients id with
  | none => exact h
  | some c => exact run_always (P := NoneEmpty) (fun m f hm => noneEmpty_removeFilter hm id f) h c.filters

theorem noneEmpty_setClient (h : NoneEmpty s.byFilter) (id : Nat) (c : Option (Client P)) :
    NoneEmpty (s.setClient id c).byFilter := by
  cases c with
  | none => exact noneEmpty_removeClient h id
  | some c => exact h

variable [Payload P]

theorem noneEmpty_step (h : NoneEmpty s.byFilter) (p : Packet P) : NoneEmpty (s.step p).byFilter := by
  have hown (i : Nat) {act : Client P → Broker P} (hact : ∀ c, NoneEmpty (act c).byFilter) :
      NoneEmpty (s.own i act).byFilter :=
    own_keeps (Q := fun s => NoneEmpty s.byFilter) h fun c _ => hact c
  cases p with
  | connect i =>
    obtain heq | ⟨-, heq⟩ := step_connect s i
    · rwa [heq]
    · rwa [heq]
  | accept m signed now room =>
    change NoneEmpty (s.accept m signed now room).byFilter
    unfold accept
    refine run_always (P := fun s : Broker P => NoneEmpty s.byFilter) (fun s i hs => noneEmpty_removeClient hs i) ?_ _
    exact h
  | sweep gone => exact h
  | subscribe i packetId filters =>
    refine hown i fun c => ?_
    have hset := noneEmpty_setClient h i (c.subscribe s.retained packetId filters)
    dsimp only
    split
    · exact hset
    · exact run_always (P := NoneEmpty) (fun m f hm => noneEmpty_addFilter hm i f) hset _
  | unsubscribe i packetId filters =>
    refine hown i fun c => ?_
    have hset := noneEmpty_setClient h i (c.unsubscribe packetId filters)
    dsimp only
    split
    · exact hset
    · exact run_always (P := NoneEmpty) (fun m f hm => noneEmpty_removeFilter hm i f) hset _
  | other i => exact hown i fun c => h
  | ack i =>
    unfold step
    cases hi : s.clients i with
    | none => simpa only [hi] using h
    | some c => simpa only [hi] using noneEmpty_setClient h i (some c.ack)
  | turn i => exact hown i fun c => h
  | send i => exact hown i fun c => h
  | release i room => exact hown i fun c => h
  | leave i => exact noneEmpty_removeClient h i

/-! ### Every state that is reached -/

structure Tidy (s : Broker P) : Prop where
  indexed : Indexed s
  held : ∀ id c, s.clients id = some c → Held c.filters
  noneEmpty : NoneEmpty s.byFilter

omit [Payload P] in
theorem tidy_empty : Tidy (empty : Broker P) where
  indexed f id := by simp [empty, idsOf]
  held id c hc := by cases hc
  noneEmpty f hf := by cases hf

theorem tidy_step (h : Tidy s) (p : Packet P) : Tidy (s.step p) := by
  refine ⟨indexed_step h.indexed p, fun id c' hc' => ?_, noneEmpty_step h.noneEmpty p⟩
  cases hc : s.clients id with
  | none =>
    rcases clients_step_none hc p with hnone | hfresh
    · rw [hnone] at hc'
      cases hc'
    · rw [hfresh] at hc'
      cases hc'
      refine ⟨List.nodup_nil, Nat.zero_le _, fun f hf => ?_⟩
      cases hf
  | some c =>
    rw [clients_step h.indexed hc] at hc'
    exact held_next (h.held id c hc) hc'

omit [Payload P] in
theorem mem_recipients_iff (h : Tidy s) (topic : Topic) (id : Nat) :
    id ∈ s.recipients topic ↔ ∃ c, s.clients id = some c ∧ ∃ f ∈ c.filters, FilterMatches f topic := by
  cases hc : s.clients id with
  | none =>
    have hout : id ∉ s.recipients topic := by
      unfold recipients
      rw [List.mem_dedup, List.mem_flatMap]
      rintro ⟨⟨f, ids⟩, he, hid⟩
      have hentry := Map.mem_entries.1 (List.mem_filter.1 he).1
      have hids : id ∈ idsOf s.byFilter f := by
        unfold idsOf
        rw [hentry]
        exact hid
      obtain ⟨c, hsome, -⟩ := (h.indexed f id).1 hids
      rw [hc] at hsome
      cases hsome
    simp [hout]
  | some c =>
    have hiff (f : Topic) (hf : f ∈ c.filters) : topicMatches f topic = true ↔ FilterMatches f topic :=
      topicMatches_iff (allowedFilter_spec ((h.held id c hc).allowed f hf)).1 topic
    rw [mem_recipients h.indexed hc]
    unfold covers
    rw [List.any_eq_true]
    constructor
    · rintro ⟨f, hf, hmatch⟩
      exact ⟨c, rfl, f, hf, (hiff f hf).1 hmatch⟩
    · rintro ⟨c', hc', f, hf, hmatch⟩
      cases hc'
      exact ⟨f, hf, (hiff f hf).2 hmatch⟩

/-- The index and the clients' filters agree after every run, and a publish goes to who has a filter for it. -/
theorem index_agrees (ps : List (Packet P)) :
    let s := run step empty ps
    (∀ f id, (∃ ids, s.byFilter.get? f = some ids ∧ id ∈ ids) ↔ ∃ c, s.clients id = some c ∧ f ∈ c.filters) ∧
    (∀ id c, s.clients id = some c → c.filters.Nodup ∧ c.filters.length ≤ maxSubscriptionsPerClient) ∧
    (∀ f, s.byFilter.get? f ≠ some []) ∧
    (∀ topic, (s.recipients topic).Nodup ∧
      ∀ id, id ∈ s.recipients topic ↔ ∃ c, s.clients id = some c ∧ ∃ f ∈ c.filters, FilterMatches f topic) ∧
    (∀ f topic, "#" ∉ f.dropLast → (topicMatches f topic = true ↔ FilterMatches f topic)) ∧
    ∀ f topic, allowedFilter f = true →
      "#" ∉ f.dropLast ∧ (topicMatches f topic = true → InTree topic) := by
  intro s
  have htidy : Tidy s := run_always (P := Tidy) (fun s p hs => tidy_step hs p) tidy_empty ps
  refine ⟨fun f id => ?_, fun id c hc => ?_, htidy.noneEmpty, fun topic => ?_, fun f topic hf => ?_,
    fun f topic hf => ?_⟩
  · rw [← htidy.indexed f id]
    unfold idsOf
    cases s.byFilter.get? f with
    | none => simp
    | some ids => simp
  · exact ⟨(htidy.held id c hc).nodup, (htidy.held id c hc).few⟩
  · exact ⟨List.nodup_dedup _, mem_recipients_iff htidy topic⟩
  · exact topicMatches_iff hf topic
  · exact ⟨(allowedFilter_spec hf).1, inTree_of_matches hf⟩

end Broker

end HidraNet.Hidrarelay
