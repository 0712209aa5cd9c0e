import HidraNet.Dht.ServiceStore

/-!
# The pushers a node keeps track of

A node keeps, for every pusher, when it introduced services in the last hour, and is to forget the others when it tracks
many.  The pusher's own window is made before the forgetting is asked for, and a pusher that is tracked is no reason for
it: nobody is ever forgotten (`introduced_new`).

As long as none would have to be, the windows are bounded by the pushers of an hour (`tracked_run`).  Otherwise there is
no bound (`tracked_forever`).
-/

open HidraNet.Core (Bytes)
open HidraNet.Maps HidraNet.Runs

namespace HidraNet.Dht

/-- A call of `put`. -/
structure PutCall where
  it : Iteration
  hash : Bytes
  descriptor : ServiceDescriptor
  origin : Origin
  now : Nat

/-- The store, the time of the last call, and who introduced a new address when. -/
structure Tracking where
  store : ServiceStore
  clock : Nat
  log : List (NodeId × Nat)

namespace Tracking

variable (c : DescriptorCrypto)

def start (clock : Nat) : Tracking := ⟨.empty, clock, []⟩

def result (s : Tracking) (p : PutCall) : ServiceStore × Except Refused Unit :=
  s.store.put c p.it p.hash p.descriptor p.origin p.now

def introducer (s : Tracking) (p : PutCall) : Option NodeId :=
  match p.origin, s.store.entries.get? p.hash, (s.result c p).2 with
  | .pushed node, none, .ok () => some node
  | _, _, _ => none

def step (s : Tracking) (p : PutCall) : Tracking :=
  ⟨(s.result c p).1, p.now, s.log ++ (s.introducer c p).toList.map fun node => (node, p.now)⟩

def Later (s : Tracking) (p : PutCall) : Prop := s.clock ≤ p.now

def Cleaned (s : Tracking) (p : PutCall) : Prop :=
  (s.introducer c p).isSome = true → MAX_TRACKED_PUSHERS ≤ s.store.introduced.size →
    ∀ node, (s.step c p).store.introduced.contains node = true →
      ∃ t, (node, t) ∈ (s.step c p).log ∧ p.now - t < HOUR

/-- The pushers that introduced something in the hour from `a` on. -/
def introducing (s : Tracking) (a : Nat) : Finset NodeId :=
  ((s.log.filter fun e => a ≤ e.2 ∧ e.2 < a + HOUR).map Prod.fst).toFinset

def Bounded (s : Tracking) : Prop :=
  ∀ P, (∀ a, (s.introducing a).card ≤ P) → s.store.introduced.size ≤ max MAX_TRACKED_PUSHERS P + 1

def HasRoom (s : Tracking) (p : PutCall) : Prop :=
  s.store.entries.size < MAX_STORED_SERVICES ∨ (evictOne p.it s.store.entries p.now p.origin).2 = true

/-- Nobody is to be forgotten: where a new service is pushed within its quota while many are tracked, every other
pusher's last one is of the last hour, or there is no room and the pusher is tracked already. -/
def NothingStale (s : Tracking) (p : PutCall) : Prop :=
  ∀ node, p.origin = .pushed node → Current c p.hash p.descriptor p.now → s.store.entries.get? p.hash = none →
    ServiceStore.overQuota (s.store.slideIntroduced p.origin p.now) p.origin = false →
    MAX_TRACKED_PUSHERS ≤ s.store.introduced.size →
      (s.HasRoom p → ∀ other w, other ≠ node → s.store.introduced.get? other = some w →
        (w.getLast?.any fun t => p.now - t < HOUR) = true) ∧
      (¬ s.HasRoom p → s.store.introduced.contains node = true)

end Tracking

/-! ### The windows -/

variable {c : DescriptorCrypto} {s : Tracking} {p : PutCall} {node : NodeId} {introduced : Map NodeId (List Nat)}

/-- The window of the pusher is there by the time it is asked for, so that nobody is forgotten. -/
theorem introduced_new (store : ServiceStore) (node : NodeId) (now : Nat) :
    ServiceStore.noteIntroduced (store.slideIntroduced (.pushed node) now) (.pushed node) now =
      (store.slideIntroduced (.pushed node) now).set node
        (((store.introduced.get? node).getD []).dropWhile (fun t => now - t ≥ HOUR) ++ [now]) := by
  have hget : (store.slideIntroduced (.pushed node) now).get? node =
      some (((store.introduced.get? node).getD []).dropWhile fun t => now - t ≥ HOUR) := by
    unfold ServiceStore.slideIntroduced
    exact Map.get?_set_self ..
  unfold ServiceStore.noteIntroduced Map.contains
  dsimp only
  rw [hget, Option.isSome_some, Bool.not_true, Bool.and_false, if_neg (by simp), hget]
  rfl

theorem getLast?_dropWhile {α : Type*} {q : α → Bool} {l : List α} {t : α} (h : (l.dropWhile q).getLast? = some t) :
    l.getLast? = some t := by
  obtain ⟨pre, hpre⟩ := List.dropWhile_suffix q (l := l)
  rw [← hpre, List.getLast?_append, h]
  rfl

/-- Every window ends with a time when its pusher introduced something, and nothing happens after the clock. -/
structure TrackInv (s : Tracking) : Prop where
  last : ∀ node w t, s.store.introduced.get? node = some w → w.getLast? = some t → (node, t) ∈ s.log
  before : ∀ e ∈ s.log, e.2 ≤ s.clock

private theorem windows_cases (c : DescriptorCrypto) (s : Tracking) (p : PutCall) :
    ((s.step c p).store.introduced = s.store.introduced ∧ s.introducer c p = none) ∨
    (∃ node, p.origin = .pushed node ∧ Current c p.hash p.descriptor p.now ∧ s.store.entries.get? p.hash = none ∧
      (s.step c p).store.introduced = s.store.slideIntroduced (.pushed node) p.now ∧ s.introducer c p = none ∧
      (ServiceStore.overQuota (s.store.slideIntroduced p.origin p.now) p.origin = true ∨ ¬ s.HasRoom p)) ∨
    ∃ node, p.origin = .pushed node ∧ Current c p.hash p.descriptor p.now ∧ s.store.entries.get? p.hash = none ∧
      (s.step c p).store.introduced =
        ServiceStore.noteIntroduced (s.store.slideIntroduced (.pushed node) p.now) (.pushed node) p.now ∧
      s.introducer c p = some node ∧
      ServiceStore.overQuota (s.store.slideIntroduced p.origin p.now) p.origin = false ∧ s.HasRoom p := by
  unfold Tracking.step Tracking.introducer Tracking.result
  rcases put_cases c p.it s.store p.hash p.descriptor p.origin p.now with ⟨-, e, -, hput⟩ | ⟨hcur,
    ⟨held, hget, -, -, hput⟩ | ⟨held, hget, -, -, hput⟩ | ⟨held, hget, -, hput⟩ | ⟨hnone, hwhy, e, -, hput⟩ |
      ⟨hnone, hquota, entries, hroom, hput⟩⟩
  · rw [hput]
    refine .inl ⟨rfl, ?_⟩
    split
    · rename_i h
      cases h
    · rfl
  · rw [hput, hget]
    exact .inl ⟨rfl, by split <;> simp_all⟩
  · rw [hput, hget]
    exact .inl ⟨rfl, by split <;> simp_all⟩
  · rw [hput, hget]
    exact .inl ⟨rfl, by split <;> simp_all⟩
  · rw [hput, hnone]
    cases horigin : p.origin with
    | pushed node =>
      refine .inr (.inl ⟨node, rfl, hcur, rfl, rfl, rfl, ?_⟩)
      rcases hwhy with hquota | ⟨hfull, hevict⟩
      · rw [horigin] at hquota
        exact .inl hquota
      · right
        rintro (hlt | hroom)
        · omega
        · rw [hevict] at hroom
          cases hroom
    | own => exact .inl ⟨rfl, rfl⟩
    | fetched => exact .inl ⟨rfl, rfl⟩
  · rw [hput, hnone]
    cases horigin : p.origin with
    | pushed node =>
      refine .inr (.inr ⟨node, rfl, hcur, rfl, rfl, rfl, ?_, ?_⟩)
      · rw [horigin] at hquota
        exact hquota
      · rcases hroom with ⟨-, hlt⟩ | ⟨-, hevict⟩
        · exact .inl hlt
        · exact .inr (by rw [hevict])
    | own => exact .inl ⟨rfl, rfl⟩
    | fetched => exact .inl ⟨rfl, rfl⟩

private theorem size_slide_of_contains (h : s.store.introduced.contains node = true) (now : Nat) :
    (s.store.slideIntroduced (.pushed node) now).size ≤ s.store.introduced.size := by
  obtain ⟨w, hw⟩ := Option.isSome_iff_exists.1 h
  exact Map.size_set_of_get? hw _

private theorem size_new_le (store : ServiceStore) (node : NodeId) (now : Nat) :
    (ServiceStore.noteIntroduced (store.slideIntroduced (.pushed node) now) (.pushed node) now).size ≤
      (store.slideIntroduced (.pushed node) now).size := by
  rw [introduced_new]
  exact Map.size_set_of_get? (Map.get?_set_self ..) _

theorem TrackInv.slide (h : TrackInv s) {other : NodeId} {w : List Nat} {now t : Nat}
    (hw : (s.store.slideIntroduced (.pushed node) now).get? other = some w) (ht : w.getLast? = some t) :
    (other, t) ∈ s.log := by
  unfold ServiceStore.slideIntroduced at hw
  dsimp only at hw
  rw [Map.get?_set] at hw
  by_cases hother : other = node
  · rw [if_pos hother] at hw
    rw [← Option.some.inj hw] at ht
    have hlast := getLast?_dropWhile ht
    cases hget : s.store.introduced.get? node with
    | none =>
      rw [hget] at hlast
      cases hlast
    | some w' =>
      rw [hget] at hlast
      rw [hother]
      exact h.last node w' t hget hlast
  · rw [if_neg hother] at hw
    exact h.last other w t hw ht

private theorem trackInv_step (h : TrackInv s) (hlater : s.Later p) : TrackInv (s.step c p) := by
  have hbefore : ∀ e ∈ (s.step c p).log, e.2 ≤ p.now := by
    intro e he
    rcases List.mem_append.1 he with he | he
    · exact (h.before e he).trans hlater
    · obtain ⟨node, -, rfl⟩ := List.mem_map.1 he
      exact le_refl _
  have hlog : ∀ {e : NodeId × Nat}, e ∈ s.log → e ∈ (s.step c p).log := fun he => List.mem_append_left _ he
  refine ⟨?_, hbefore⟩
  intro other w t hw ht
  rcases windows_cases c s p with ⟨hsame, -⟩ | ⟨node, -, -, -, hsame, -, -⟩ | ⟨node, -, -, -, hsame, hnew, -, -⟩
  · rw [hsame] at hw
    exact hlog (h.last other w t hw ht)
  · rw [hsame] at hw
    exact hlog (h.slide hw ht)
  · rw [hsame, introduced_new, Map.get?_set] at hw
    by_cases hother : other = node
    · rw [if_pos hother] at hw
      rw [← Option.some.inj hw, List.getLast?_concat] at ht
      rw [hother, ← Option.some.inj ht]
      apply List.mem_append_right
      rw [hnew]
      exact List.mem_singleton.2 rfl
    · rw [if_neg hother] at hw
      exact hlog (h.slide hw ht)

/-! ### Where nobody is to be forgotten -/

private theorem recent_new (h : TrackInv s) (hnew : s.introducer c p = some node)
    (hsame : (s.step c p).store.introduced =
      ServiceStore.noteIntroduced (s.store.slideIntroduced (.pushed node) p.now) (.pushed node) p.now)
    (hrecent : ∀ other w, other ≠ node → s.store.introduced.get? other = some w →
      (w.getLast?.any fun t => p.now - t < HOUR) = true) {other : NodeId}
    (hother : (s.step c p).store.introduced.contains other = true) :
    ∃ t, (other, t) ∈ (s.step c p).log ∧ p.now - t < HOUR := by
  by_cases heq : other = node
  · refine ⟨p.now, List.mem_append_right _ ?_, ?_⟩
    · rw [hnew, heq]
      exact List.mem_singleton.2 rfl
    · rw [Nat.sub_self]
      decide
  · have htracked : s.store.introduced.contains other = true := by
      rw [hsame, introduced_new, Map.contains_set] at hother
      rcases hother with hother | hother
      · exact absurd hother heq
      · rcases Map.contains_set.1 hother with hother | hother
        · exact absurd hother heq
        · exact hother
    obtain ⟨w, hw⟩ := Option.isSome_iff_exists.1 htracked
    obtain ⟨t, ht, hhour⟩ := (Option.any_eq_true _ _).1 (hrecent other w heq hw)
    exact ⟨t, List.mem_append_left _ (h.last other w t hw ht), of_decide_eq_true hhour⟩

private theorem cleaned_of_nothingStale (h : TrackInv s) (hok : s.NothingStale c p) : s.Cleaned c p := by
  intro hnew hmany other hother
  rcases windows_cases c s p with ⟨-, hnone⟩ | ⟨node, -, -, -, -, hnone, -⟩ |
    ⟨node, horigin, hcur, hfree, hsame, hnode, hquota, hroom⟩
  · rw [hnone] at hnew
    cases hnew
  · rw [hnone] at hnew
    cases hnew
  · exact recent_new h hnode hsame ((hok node horigin hcur hfree hquota hmany).1 hroom) hother

def Few (s : Tracking) : Prop :=
  ∀ P, (∀ a, (s.introducing a).card ≤ P) → s.store.introduced.size ≤ max MAX_TRACKED_PUSHERS P

private theorem introducing_mono (a : Nat) : s.introducing a ⊆ (s.step c p).introducing a := by
  intro node hnode
  unfold Tracking.introducing at hnode ⊢
  rw [List.mem_toFinset, List.mem_map] at hnode ⊢
  obtain ⟨e, he, rfl⟩ := hnode
  obtain ⟨he, hin⟩ := List.mem_filter.1 he
  exact ⟨e, List.mem_filter.2 ⟨List.mem_append_left _ he, hin⟩, rfl⟩

private theorem few_step (h : TrackInv s) (hfew : Few s) (hlater : s.Later p) (hok : s.NothingStale c p) :
    Few (s.step c p) := by
  intro P hP
  have hold := hfew P fun a => (Finset.card_le_card (introducing_mono a)).trans (hP a)
  rcases windows_cases c s p with ⟨hsame, -⟩ | ⟨node, horigin, hcur, hfree, hsame, -, hwhy⟩ |
    ⟨node, horigin, hcur, hfree, hsame, hnode, hquota, hroom⟩
  · rw [hsame]
    exact hold
  · rw [hsame]
    by_cases hmany : MAX_TRACKED_PUSHERS ≤ s.store.introduced.size
    · have htracked : s.store.introduced.contains node = true := by
        cases hquota : ServiceStore.overQuota (s.store.slideIntroduced p.origin p.now) p.origin with
        | false =>
          rcases hwhy with hover | hfull
          · rw [hquota] at hover
            cases hover
          · exact (hok node horigin hcur hfree hquota hmany).2 hfull
        | true =>
          -- who is over quota introduced something before
          unfold Map.contains
          cases hget : s.store.introduced.get? node with
          | some w => rfl
          | none =>
            rw [horigin] at hquota
            unfold ServiceStore.overQuota ServiceStore.slideIntroduced at hquota
            dsimp only at hquota
            rw [Map.get?_set_self, hget] at hquota
            change decide (([] : List Nat).length ≥ MAX_NEW_PER_PUSHER_PER_HOUR) = true at hquota
            exact absurd hquota (by decide)
      exact (size_slide_of_contains htracked p.now).trans hold
    · have hsize : (s.store.slideIntroduced (.pushed node) p.now).size ≤ s.store.introduced.size + 1 :=
        Map.size_set_le ..
      omega
  · have hsize : (s.step c p).store.introduced.size ≤ (s.store.slideIntroduced (.pushed node) p.now).size := by
      rw [hsame]
      exact size_new_le ..
    by_cases hmany : MAX_TRACKED_PUSHERS ≤ s.store.introduced.size
    · have hrecent := (hok node horigin hcur hfree hquota hmany).1 hroom
      have hcard : (s.step c p).store.introduced.size ≤ ((s.step c p).introducing (p.now - (HOUR - 1))).card := by
        apply Map.size_le_card
        intro other hother
        obtain ⟨t, ht, hhour⟩ := recent_new h hnode hsame hrecent hother
        have hbefore : t ≤ p.now := (trackInv_step h hlater).before _ ht
        unfold Tracking.introducing
        rw [List.mem_toFinset, List.mem_map]
        refine ⟨(other, t), List.mem_filter.2 ⟨ht, ?_⟩, rfl⟩
        unfold HOUR at hhour ⊢
        rw [decide_eq_true_eq]
        omega
      exact hcard.trans ((hP _).trans (le_max_right _ _))
    · have hslide : (s.store.slideIntroduced (.pushed node) p.now).size ≤ s.store.introduced.size + 1 :=
        Map.size_set_le ..
      omega

/-- Over every run in which time does not go back and nobody is to be forgotten, the pushers that are tracked are those
of the last hour after every new address, once they are many, and the windows stay bounded. -/
theorem tracked_run (clock : Nat) (ps : List PutCall)
    (h : Along (Tracking.step c) (fun s p => s.Later p ∧ s.NothingStale c p) (Tracking.start clock) ps) :
    Along (Tracking.step c) (Tracking.Cleaned c) (Tracking.start clock) ps ∧
      ∀ k, (run (Tracking.step c) (Tracking.start clock) (ps.take k)).Bounded := by
  have hstep : ∀ (s : Tracking) (p : PutCall), TrackInv s ∧ Few s → s.Later p ∧ s.NothingStale c p →
      TrackInv (s.step c p) ∧ Few (s.step c p) := by
    intro s p hs hp
    exact ⟨trackInv_step hs.1 hp.1, few_step hs.1 hs.2 hp.1 hp.2⟩
  have hstart : TrackInv (Tracking.start clock) ∧ Few (Tracking.start clock) := by
    refine ⟨⟨?_, ?_⟩, ?_⟩
    · intro node w t hw
      cases hw
    · intro e he
      cases he
    · intro P _
      exact Nat.zero_le _
  constructor
  · exact h.of_invariant hstep (fun s p hs hp => cleaned_of_nothingStale hs.1 hp.2) hstart
  · intro k P hP
    have hfew := (run_invariant hstep (h.take k) hstart).2 P hP
    omega

/-! ### Pushers that are never forgotten -/

private theorem size_mono {m m' : Map NodeId (List Nat)} (h : ∀ k, m.contains k = true → m'.contains k = true) :
    m.size ≤ m'.size := by
  have hcard : m.size ≤ (m'.entries.map Prod.fst).toFinset.card := by
    apply Map.size_le_card
    intro k hk
    obtain ⟨w, hw⟩ := Option.isSome_iff_exists.1 (h k hk)
    exact List.mem_toFinset.2 (List.mem_map.2 ⟨(k, w), Map.mem_entries.2 hw, rfl⟩)
  rwa [List.toFinset_card_of_nodup m'.nodup, List.length_map] at hcard

/-- The `i`-th pusher introduces the `i`-th service. -/
private def pushAt (time : Nat → Nat) (i : Nat) : PutCall :=
  ⟨asHeld, hashAt i, descriptorAt i (time i), .pushed (hashAt i), time i⟩

private def pushes (time : Nat → Nat) (n : Nat) : List PutCall := (List.range n).map (pushAt time)

/-- After `n` of them: what is stored is some of their services, and every pusher is tracked. -/
private structure Pushed (time : Nat → Nat) (n : Nat) (s : Tracking) : Prop where
  clock : ∀ t, (∀ i < n, time i ≤ t) → s.clock ≤ t
  stored : ∀ k st, s.store.entries.get? k = some st → ∃ i < n, k = hashAt i ∧ sole st = some (hashAt i)
  size : n ≤ s.store.introduced.size
  windows : ∀ k w, s.store.introduced.get? k = some w → ∃ i < n, k = hashAt i ∧ w = [time i]
  log : ∀ e ∈ s.log, ∃ i < n, e = (hashAt i, time i)

variable {time : Nat → Nat} {n : Nat}

private theorem Pushed.absent (h : Pushed time n s) (hn : n < 65536) :
    s.store.entries.get? (hashAt n) = none ∧ s.store.introduced.get? (hashAt n) = none := by
  constructor
  · rw [Option.eq_none_iff_forall_ne_some]
    intro st hst
    obtain ⟨i, hi, heq, -⟩ := h.stored _ st hst
    have := hashAt_inj hn (by omega) heq
    omega
  · rw [Option.eq_none_iff_forall_ne_some]
    intro w hw
    obtain ⟨i, hi, heq, -⟩ := h.windows _ w hw
    have := hashAt_inj hn (by omega) heq
    omega

private theorem current_push (i : Nat) {now : Nat} (hnow : now < 2 ^ 63) :
    Current trustingAll (hashAt i) (descriptorAt i now) now := by
  refine ⟨?_, ?_, ?_⟩
  · have hhash : (descriptorAt i now).serviceHash trustingAll = hashAt i := rfl
    have hlen : (descriptorAt i now).signature.length = 64 := rfl
    unfold ServiceDescriptor.verify
    rw [hhash, hlen]
    simp [descriptorAt, trustingAll, MAX_INTRO_POINTS]
  · show now ≤ min (now + MAX_CLOCK_SKEW_SECS) (2 ^ 64 - 1)
    unfold MAX_CLOCK_SKEW_SECS
    omega
  · show decide (min (now + DESCRIPTOR_TTL_SECS) (2 ^ 64 - 1) ≤ now) = false
    rw [decide_eq_false_iff_not]
    unfold DESCRIPTOR_TTL_SECS
    omega

/-- A full store has an entry that its pusher alone delivered, and a new pusher has none. -/
private theorem Pushed.evicts (h : Pushed time n s) (hn : n < 65536)
    (hfull : MAX_STORED_SERVICES ≤ s.store.entries.size) (now : Nat) :
    (evictOne asHeld s.store.entries now (.pushed (hashAt n))).2 = true := by
  rcases evictOne_cases asHeld s.store.entries now (.pushed (hashAt n)) with ⟨heq, -⟩ | ⟨_, _, -, heq, -⟩ |
    ⟨-, hzero | ⟨heaviest, hsame, hpos⟩⟩
  · rw [heq]
  · rw [heq]
  · exfalso
    obtain ⟨e, he⟩ := List.exists_mem_of_length_pos (l := s.store.entries.entries)
      (Nat.lt_of_lt_of_le (by decide : 0 < MAX_STORED_SERVICES) hfull)
    obtain ⟨i, -, -, hsole⟩ := h.stored e.1 e.2 (Map.mem_entries.1 he)
    have hnone := List.countP_eq_zero.1 (hzero (hashAt i)) e he
    exact hnone (decide_eq_true hsole)
  · exfalso
    cases hsame
    obtain ⟨e, he, hsole⟩ := List.countP_pos_iff.1 (Nat.pos_of_ne_zero hpos)
    obtain ⟨i, hi, -, hsole'⟩ := h.stored e.1 e.2 (Map.mem_entries.1 he)
    rw [of_decide_eq_true hsole] at hsole'
    have := hashAt_inj hn (by omega) (Option.some.inj hsole')
    omega

private theorem Pushed.hasRoom (h : Pushed time n s) (hn : n < 65536) : s.HasRoom (pushAt time n) := by
  by_cases hfull : s.store.entries.size < MAX_STORED_SERVICES
  · exact .inl hfull
  · exact .inr (h.evicts hn (not_lt.1 hfull) _)

private theorem pushed_step (h : Pushed time n s) (hn : n < 65535) (hnow : time n < 2 ^ 63) :
    Pushed time (n + 1) (s.step trustingAll (pushAt time n)) := by
  obtain ⟨hfree, hnew⟩ := h.absent (by omega)
  have hquota : ServiceStore.overQuota (s.store.slideIntroduced (.pushed (hashAt n)) (time n)) (.pushed (hashAt n)) =
      false := by
    unfold ServiceStore.overQuota ServiceStore.slideIntroduced
    dsimp only
    rw [Map.get?_set_self, hnew]
    rfl
  have hput : ∃ entries : Map Bytes Stored, (∀ k st, entries.get? k = some st → s.store.entries.get? k = some st) ∧
      s.result trustingAll (pushAt time n) = (⟨entries.set (hashAt n) ⟨descriptorAt n (time n), .pushed (hashAt n),
        noteDelivery [] (.pushed (hashAt n))⟩, ServiceStore.noteIntroduced
          (s.store.slideIntroduced (.pushed (hashAt n)) (time n)) (.pushed (hashAt n)) (time n)⟩, .ok ()) := by
    rcases put_cases trustingAll asHeld s.store (hashAt n) (descriptorAt n (time n)) (.pushed (hashAt n)) (time n) with
      ⟨hnot, -⟩ | ⟨-, ⟨held, hheld, -⟩ | ⟨held, hheld, -⟩ | ⟨held, hheld, -⟩ | ⟨-, hwhy, -⟩ |
        ⟨-, -, entries, hentries, hput⟩⟩
    · exact absurd (current_push n hnow) hnot
    · rw [hfree] at hheld
      cases hheld
    · rw [hfree] at hheld
      cases hheld
    · rw [hfree] at hheld
      cases hheld
    · rcases hwhy with hover | ⟨hfull, hfalse⟩
      · rw [hquota] at hover
        cases hover
      · have hroom := h.evicts (by omega) hfull (time n)
        rw [hfalse] at hroom
        cases hroom
    · refine ⟨entries, ?_, hput⟩
      intro k st hk
      rcases hentries with ⟨rfl, -⟩ | ⟨-, hevict⟩
      · exact hk
      · exact get?_of_evictOne hevict hk
  obtain ⟨entries, hkept, hput⟩ := hput
  have hintroducer : s.introducer trustingAll (pushAt time n) = some (hashAt n) := by
    unfold Tracking.introducer
    rw [hput, show s.store.entries.get? (pushAt time n).hash = none from hfree]
    rfl
  have hstore : (s.step trustingAll (pushAt time n)).store.introduced =
      (s.store.introduced.set (hashAt n) []).set (hashAt n) [time n] := by
    show (s.result trustingAll (pushAt time n)).1.introduced = _
    rw [hput]
    dsimp only
    rw [introduced_new, hnew]
    unfold ServiceStore.slideIntroduced
    dsimp only
    rw [hnew]
    rfl
  refine ⟨fun t ht => ht n (Nat.lt_succ_self n), ?_, ?_, ?_, ?_⟩
  · intro k st hk
    change (s.result trustingAll (pushAt time n)).1.entries.get? k = some st at hk
    rw [hput] at hk
    obtain ⟨hkey, rfl⟩ | ⟨-, hk⟩ := Map.get?_set_some.1 hk
    · exact ⟨n, by omega, hkey, rfl⟩
    · obtain ⟨i, hi, heq, hsole⟩ := h.stored k st (hkept k st hk)
      exact ⟨i, by omega, heq, hsole⟩
  · have hsize : (s.store.introduced.set (hashAt n) []).size = s.store.introduced.size + 1 := Map.size_set_new hnew _
    have hmono : (s.store.introduced.set (hashAt n) []).size ≤
        (s.step trustingAll (pushAt time n)).store.introduced.size := by
      apply size_mono
      intro k hk
      rw [hstore, Map.contains_set]
      exact .inr hk
    have hold := h.size
    omega
  · intro k w hk
    rw [hstore, Map.get?_set, Map.get?_set] at hk
    by_cases hkey : k = hashAt n
    · rw [if_pos hkey] at hk
      exact ⟨n, by omega, hkey, (Option.some.inj hk).symm⟩
    · rw [if_neg hkey, if_neg hkey] at hk
      obtain ⟨i, hi, heq⟩ := h.windows k w hk
      exact ⟨i, by omega, heq⟩
  · intro e he
    rcases List.mem_append.1 he with he | he
    · obtain ⟨i, hi, heq⟩ := h.log e he
      exact ⟨i, by omega, heq⟩
    · rw [hintroducer] at he
      exact ⟨n, by omega, List.mem_singleton.1 he⟩

private theorem pushed_run (hmono : Monotone time) (hn : n ≤ 65535) (hnow : time n < 2 ^ 63) :
    Pushed time n (run (Tracking.step trustingAll) (Tracking.start 0) (pushes time n)) ∧
      Along (Tracking.step trustingAll) Tracking.Later (Tracking.start 0) (pushes time n) := by
  induction n with
  | zero =>
    refine ⟨⟨fun t _ => Nat.zero_le t, ?_, Nat.zero_le _, ?_, ?_⟩, trivial⟩
    · intro k st hk
      cases hk
    · intro k w hk
      cases hk
    · intro e he
      cases he
  | succ n ih =>
    have hbefore : time n < 2 ^ 63 := (hmono (Nat.le_succ n)).trans_lt hnow
    obtain ⟨hpushed, halong⟩ := ih (by omega) hbefore
    have hsnoc : pushes time (n + 1) = pushes time n ++ [pushAt time n] := by
      unfold pushes
      rw [List.range_succ, List.map_append]
      rfl
    rw [hsnoc, run_append, along_append]
    exact ⟨pushed_step hpushed (by omega) hbefore, halong, hpushed.clock _ fun i hi => hmono hi.le, trivial⟩

/-! One pusher an hour. -/

private def hourly (i : Nat) : Nat := HOUR * (i + 1)

private theorem monotone_hourly : Monotone hourly := fun _ _ h => Nat.mul_le_mul_left _ (Nat.succ_le_succ h)

private theorem Pushed.one (h : Pushed hourly n s) (a : Nat) : (s.introducing a).card ≤ 1 := by
  rw [Finset.card_le_one]
  intro x hx y hy
  unfold Tracking.introducing at hx hy
  rw [List.mem_toFinset, List.mem_map] at hx hy
  obtain ⟨e, he, rfl⟩ := hx
  obtain ⟨e', he', rfl⟩ := hy
  obtain ⟨hlog, hin⟩ := List.mem_filter.1 he
  obtain ⟨hlog', hin'⟩ := List.mem_filter.1 he'
  obtain ⟨i, -, rfl⟩ := h.log e hlog
  obtain ⟨j, -, rfl⟩ := h.log e' hlog'
  rw [decide_eq_true_eq] at hin hin'
  have hij : i = j := by
    unfold hourly HOUR at hin hin'
    omega
  rw [hij]

/-- A pusher an hour, and every one of them is tracked for ever: neither is anybody forgotten, nor are the windows
bounded. -/
theorem tracked_forever : ¬ ∀ (c : DescriptorCrypto) (clock : Nat) (ps : List PutCall),
    Along (Tracking.step c) Tracking.Later (Tracking.start clock) ps →
      Along (Tracking.step c) (Tracking.Cleaned c) (Tracking.start clock) ps ∧
        ∀ k, (run (Tracking.step c) (Tracking.start clock) (ps.take k)).Bounded := by
  intro h
  obtain ⟨n, hn, hmore⟩ : ∃ n ≤ 65535, MAX_TRACKED_PUSHERS + 2 ≤ n := ⟨8194, by omega, by decide⟩
  obtain ⟨hpushed, halong⟩ := pushed_run monotone_hourly hn (by unfold hourly HOUR; omega)
  have hbounded := (h trustingAll 0 (pushes hourly n) halong).2 (pushes hourly n).length
  rw [List.take_length] at hbounded
  have hsize := hbounded 1 hpushed.one
  have hmany := hpushed.size
  unfold MAX_TRACKED_PUSHERS at hsize hmore
  omega

/-! Four pushers a second, all of them of one hour. -/

private def burst (i : Nat) : Nat := i / 4

private theorem monotone_burst : Monotone burst := fun _ _ h => Nat.div_le_div_right h

private theorem along_burst (hn : n ≤ MAX_TRACKED_PUSHERS + 2) :
    Along (Tracking.step trustingAll) (Tracking.NothingStale trustingAll) (Tracking.start 0) (pushes burst n) := by
  induction n with
  | zero => trivial
  | succ n ih =>
    unfold MAX_TRACKED_PUSHERS at hn ih
    obtain ⟨hpushed, -⟩ := pushed_run (n := n) monotone_burst (by omega) (by unfold burst; omega)
    have hsnoc : pushes burst (n + 1) = pushes burst n ++ [pushAt burst n] := by
      unfold pushes
      rw [List.range_succ, List.map_append]
      rfl
    rw [hsnoc, along_append]
    refine ⟨ih (by omega), ?_, trivial⟩
    intro node _ _ _ _ _
    refine ⟨fun _ other w _ hw => ?_, fun hfull => absurd (hpushed.hasRoom (by omega)) hfull⟩
    obtain ⟨i, -, -, rfl⟩ := hpushed.windows other w hw
    show decide (burst n - burst i < HOUR) = true
    rw [decide_eq_true_eq]
    unfold burst HOUR
    omega

/-- In the first hour more pushers than are to be tracked, each with a service of its own: all of them are tracked. -/
theorem tracked_run_burst :
    let ps := pushes burst (MAX_TRACKED_PUSHERS + 2)
    Along (Tracking.step trustingAll) (Tracking.Cleaned trustingAll) (Tracking.start 0) ps ∧
      (∀ k, (run (Tracking.step trustingAll) (Tracking.start 0) (ps.take k)).Bounded) ∧
      MAX_TRACKED_PUSHERS + 2 ≤ (run (Tracking.step trustingAll) (Tracking.start 0) ps).store.introduced.size := by
  have hrun : ∀ n ≤ MAX_TRACKED_PUSHERS + 2,
      Along (Tracking.step trustingAll) (Tracking.Cleaned trustingAll) (Tracking.start 0) (pushes burst n) ∧
        (∀ k, (run (Tracking.step trustingAll) (Tracking.start 0) ((pushes burst n).take k)).Bounded) ∧
        n ≤ (run (Tracking.step trustingAll) (Tracking.start 0) (pushes burst n)).store.introduced.size := by
    intro n hn
    have hsmall : n ≤ 8194 := hn
    obtain ⟨hpushed, hlater⟩ := pushed_run monotone_burst (by omega : n ≤ 65535) (by unfold burst; omega)
    obtain ⟨hcleaned, hbounded⟩ := tracked_run 0 (pushes burst n) (hlater.and (along_burst hn))
    exact ⟨hcleaned, hbounded, hpushed.size⟩
  exact hrun _ le_rfl

end HidraNet.Dht
