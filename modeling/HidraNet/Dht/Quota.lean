import HidraNet.Dht.ServiceStore

/-!
# A pusher's quota

A node may introduce so many new services an hour.  The quota is asked for services that are not held, and an expired
entry is held until an eviction takes it; a push that renews one costs the pusher nothing.

Without such pushes no hour sees a pusher introduce more than its quota (`quota_run`); with them it does (`not_quota`).
-/

namespace HidraNet.Dht

open HidraNet.Core (Bytes)
open Maps Runs Window

namespace Storing

def QuotaKept (s : Storing) : Prop :=
  ∀ node a, ((timesOf node s.appeared).filter fun t => a ≤ t ∧ t < a + HOUR).length ≤ MAX_NEW_PER_PUSHER_PER_HOUR

def NotRenewing (c : DescriptorCrypto) (s : Storing) : StoreStep → Prop
  | .put _ hash d (.pushed _) now => Current c hash d now →
    ∀ held ∈ s.store.entries.get? hash, expired held.descriptor now = false
  | _ => True

instance (c : DescriptorCrypto) (s : Storing) (e : StoreStep) : Decidable (s.NotRenewing c e) :=
  match e with
  | .put _ hash d (.pushed _) now => inferInstanceAs (Decidable (Current c hash d now →
      ∀ held ∈ s.store.entries.get? hash, expired held.descriptor now = false))
  | .put _ _ _ .own _ => .isTrue trivial
  | .put _ _ _ .fetched _ => .isTrue trivial
  | .forgetOwn .. => .isTrue trivial
  | .get .. => .isTrue trivial

end Storing

variable {c : DescriptorCrypto} {s : Storing} {it : Iteration} {hash : Bytes} {d : ServiceDescriptor} {origin : Origin}
  {now : Nat}

def QuotaInv (s : Storing) : Prop :=
  EachWindowed (HOUR - 1) MAX_NEW_PER_PUSHER_PER_HOUR s.appeared s.store.introduced s.clock

private theorem quotaInv_start (clock : Nat) : QuotaInv (Storing.start clock) :=
  fun _ => windowed_nil ..

private theorem slide_hour (now : Nat) (q : List Nat) :
    q.dropWhile (fun t => decide (now - t ≥ HOUR)) = slide (HOUR - 1) now q := by
  unfold slide HOUR
  congr 1

private theorem quotaInv_slide (h : QuotaInv s) (hclock : s.clock ≤ now) (origin : Origin) :
    EachWindowed (HOUR - 1) MAX_NEW_PER_PUSHER_PER_HOUR s.appeared (s.store.slideIntroduced origin now) now := by
  unfold ServiceStore.slideIntroduced
  cases origin with
  | pushed node =>
    dsimp only
    rw [slide_hour]
    exact h.slide hclock node
  | own => exact h.later hclock
  | fetched => exact h.later hclock

private theorem quotaInv_new (h : QuotaInv s) (hclock : s.clock ≤ now) {node : NodeId}
    (hquota : ServiceStore.overQuota (s.store.slideIntroduced (.pushed node) now) (.pushed node) = false) :
    EachWindowed (HOUR - 1) MAX_NEW_PER_PUSHER_PER_HOUR (s.appeared ++ [(node, now)])
      (ServiceStore.noteIntroduced (s.store.slideIntroduced (.pushed node) now) (.pushed node) now) now := by
  have hslid := quotaInv_slide h hclock (.pushed node)
  have hcontains : (s.store.slideIntroduced (.pushed node) now).contains node = true := by
    unfold ServiceStore.slideIntroduced Map.contains
    dsimp only
    rw [Map.get?_set_self]
    rfl
  unfold ServiceStore.noteIntroduced
  dsimp only
  rw [hcontains]
  simp only [Bool.not_true, Bool.and_false, Bool.false_eq_true, if_false]
  refine hslid.push (hslid node) ?_
  unfold ServiceStore.overQuota at hquota
  simpa using hquota

private theorem appeared_of_live {store : ServiceStore} {held : Stored} (hget : s.store.entries.get? hash = some held)
    (hlive : expired held.descriptor now = false) :
    ((s.store.get hash now).isNone && (store.get hash now).isSome) = false := by
  have hsome : s.store.get hash now = some held := by
    unfold ServiceStore.get
    rw [hget, Option.filter_some, if_pos (by simp [hlive])]
  rw [hsome]
  rfl

private theorem appeared_of_same (store : ServiceStore) (h : store.entries = s.store.entries) :
    ((s.store.get hash now).isNone && (store.get hash now).isSome) = false := by
  have hsame : store.get hash now = s.store.get hash now := by
    unfold ServiceStore.get
    rw [h]
  rw [hsame]
  cases s.store.get hash now <;> rfl

private theorem quotaInv_pushed (h : QuotaInv s) {node : NodeId} (hclock : s.clock ≤ now)
    (hok : s.NotRenewing c (.put it hash d (.pushed node) now)) :
    QuotaInv (s.step c (.put it hash d (.pushed node) now)) := by
  have hslid := quotaInv_slide h hclock (.pushed node)
  unfold Storing.step QuotaInv
  dsimp only
  rcases put_cases c it s.store hash d (.pushed node) now with ⟨-, e, -, hput⟩ | ⟨hcur, ⟨held, hget, hlive, -, hput⟩ |
    ⟨held, hget, hlive, -, hput⟩ | ⟨held, hget, -, hput⟩ | ⟨-, -, e, -, hput⟩ | ⟨hfree, hquota, entries, -, hput⟩⟩ <;>
    rw [hput] <;> dsimp only
  · rw [appeared_of_same s.store rfl]
    exact h.later hclock
  · rw [appeared_of_same s.store rfl]
    exact h.later hclock
  · rw [appeared_of_live hget hlive]
    exact h.later hclock
  · rw [appeared_of_live hget (hok hcur held hget)]
    exact h.later hclock
  · rw [appeared_of_same ⟨s.store.entries, s.store.slideIntroduced (.pushed node) now⟩ rfl]
    exact hslid
  · have hnone : s.store.get hash now = none := by
      unfold ServiceStore.get
      rw [hfree]
      rfl
    have hsome : (ServiceStore.get ⟨entries.set hash ⟨d, .pushed node, noteDelivery [] (.pushed node)⟩,
        ServiceStore.noteIntroduced (s.store.slideIntroduced (.pushed node) now) (.pushed node) now⟩ hash now).isSome := by
      unfold ServiceStore.get
      dsimp only
      rw [Map.get?_set_self, Option.filter_some, if_pos (by simp [hcur.live])]
      rfl
    rw [hnone, hsome]
    exact quotaInv_new h hclock hquota

private theorem quotaInv_other (h : QuotaInv s) (hclock : s.clock ≤ now) (horigin : ∀ node, origin ≠ .pushed node) :
    QuotaInv (s.step c (.put it hash d origin now)) := by
  have hsame : (s.store.put c it hash d origin now).1.introduced = s.store.introduced := by
    cases origin with
    | pushed node => exact absurd rfl (horigin node)
    | own =>
      rcases put_cases c it s.store hash d .own now with ⟨-, e, -, hput⟩ | ⟨-, ⟨held, -, -, -, hput⟩ |
        ⟨held, -, -, -, hput⟩ | ⟨held, -, -, hput⟩ | ⟨-, -, e, -, hput⟩ | ⟨-, -, entries, -, hput⟩⟩ <;> rw [hput] <;> rfl
    | fetched =>
      rcases put_cases c it s.store hash d .fetched now with ⟨-, e, -, hput⟩ | ⟨-, ⟨held, -, -, -, hput⟩ |
        ⟨held, -, -, -, hput⟩ | ⟨held, -, -, hput⟩ | ⟨-, -, e, -, hput⟩ | ⟨-, -, entries, -, hput⟩⟩ <;> rw [hput] <;> rfl
  have hlater := h.later hclock
  unfold QuotaInv Storing.step
  dsimp only
  rw [hsame]
  cases origin with
  | pushed node => exact absurd rfl (horigin node)
  | own => exact hlater
  | fetched => exact hlater

private theorem quotaInv_step (s : Storing) (e : StoreStep) (h : QuotaInv s) (hok : s.Allowed e ∧ s.NotRenewing c e) :
    QuotaInv (s.step c e) := by
  cases e with
  | put it hash d origin now =>
    cases origin with
    | pushed node => exact quotaInv_pushed h hok.1 hok.2
    | own => exact quotaInv_other h hok.1 (by simp)
    | fetched => exact quotaInv_other h hok.1 (by simp)
  | forgetOwn hash =>
    have hsame : (s.store.forgetOwn hash).introduced = s.store.introduced := by
      unfold ServiceStore.forgetOwn
      split <;> rfl
    unfold QuotaInv Storing.step
    dsimp only
    rw [hsame]
    exact h
  | get hash now => exact h.later hok.1

/-- Over every run in which no push renews an expired entry: in no hour are there more pushes of a node than its quota
after which an address is answered for that was not before. -/
theorem quota_run (c : DescriptorCrypto) (clock : Nat) (es : List StoreStep)
    (h : Along (Storing.step c) (fun s e => s.Allowed e ∧ s.NotRenewing c e) (Storing.start clock) es) :
    (run (Storing.step c) (Storing.start clock) es).QuotaKept := by
  have hinv := run_invariant (P := QuotaInv) quotaInv_step h (quotaInv_start clock)
  intro node a
  have hbound := (hinv node).bounded a
  unfold inWindow at hbound
  have hsame : ∀ t, (a ≤ t ∧ t < a + HOUR) ↔ a ≤ t ∧ t ≤ a + (HOUR - 1) := by
    intro t
    unfold HOUR
    omega
  simp only [hsame]
  exact hbound

/-- A pusher's thirty-third service within an hour is refused. -/
theorem quota_thirtyThird :
    let puts (n : Nat) (revision : Nat) (now : Nat) : List StoreStep :=
      (List.range n).map fun i => .put asHeld (hashAt i) (descriptorAt i revision) (.pushed (nodeAt 1)) now
    let s := run (Storing.step trustingAll) (Storing.start 2000) (puts 33 2000 2000)
    (timesOf (nodeAt 1) s.appeared).length = 32 ∧ s.QuotaKept :=
  ⟨by decide +kernel, quota_run trustingAll 2000 _ (by decide +kernel)⟩

/-- The services of others, expired and held still, are renewed by one pusher at once. -/
theorem not_quota : ∃ (c : DescriptorCrypto) (clock : Nat) (es : List StoreStep),
    Along (Storing.step c) Storing.Allowed (Storing.start clock) es ∧
      ¬ (run (Storing.step c) (Storing.start clock) es).QuotaKept := by
  refine ⟨trustingAll, 2000,
    ((List.range 33).map fun i => .put asHeld (hashAt i) (descriptorAt i 2000) .fetched 2000) ++
      ((List.range 33).map fun i => .put asHeld (hashAt i) (descriptorAt i 6000) (.pushed (nodeAt 1)) 6000),
    by decide +kernel, fun h => ?_⟩
  have hbound := h (nodeAt 1) 6000
  revert hbound
  decide +kernel

end HidraNet.Dht
