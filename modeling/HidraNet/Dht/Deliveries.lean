import HidraNet.Dht.ServiceStore

/-!
# Who delivered a service

Every delivery is to be written down, so that what two nodes delivered is nobody's alone.  A new service and one pushed
again are; a newer revision is put down to whoever pushed the service first, and not to the node that brought it
(`delivery_remembered_iff`).
-/

open HidraNet.Core (Bytes)
open HidraNet.Maps

namespace HidraNet.Dht

variable {c : DescriptorCrypto} {it : Iteration} {s : ServiceStore} {hash : Bytes} {d : ServiceDescriptor}
  {node b : NodeId} {now : Nat} {held st : Stored} {l : List NodeId}

namespace ServiceStore

def Delivers (c : DescriptorCrypto) (it : Iteration) (s : ServiceStore) (hash : Bytes) (d : ServiceDescriptor)
    (b : NodeId) (now : Nat) : Prop :=
  (s.put c it hash d (.pushed b) now).2 = .ok () ∨ ((s.put c it hash d (.pushed b) now).2 = .error .notNewer ∧
    ∃ held, s.entries.get? hash = some held ∧ held.descriptor.revision = d.revision)

def Remembers (s : ServiceStore) (hash : Bytes) (b : NodeId) : Prop :=
  ∃ st, s.entries.get? hash = some st ∧ (b ∈ st.deliveredBy ∨ MAX_DELIVERERS ≤ st.deliveredBy.length)

/-- What another node had delivered before counts as nobody's sole entry after `b` delivered it. -/
def Shared (before after : ServiceStore) (hash : Bytes) (b : NodeId) : Prop :=
  ∀ held st, before.entries.get? hash = some held → after.entries.get? hash = some st →
    ∀ a ∈ held.deliveredBy, a ≠ b → sole st = none

end ServiceStore

/-- Where an update by `b` leaves `b` written down, or no room to write it down. -/
def NotesUpdate (held : Stored) (b : NodeId) : Prop :=
  b ∈ held.deliveredBy ∨ MAX_DELIVERERS ≤ held.deliveredBy.length ∨ held.origin = .pushed b ∨
    ∃ first, held.origin = .pushed first ∧ first ∉ held.deliveredBy ∧ held.deliveredBy.length + 1 = MAX_DELIVERERS

/-! ### What is written down -/

theorem noteDelivery_pushed (l : List NodeId) (b : NodeId) :
    b ∈ noteDelivery l (.pushed b) ∨ MAX_DELIVERERS ≤ (noteDelivery l (.pushed b)).length := by
  by_cases hb : b ∈ l
  · rw [noteDelivery_of_mem hb]
    exact .inl hb
  · by_cases hroom : l.length < MAX_DELIVERERS
    · have hnote : noteDelivery l (.pushed b) = l ++ [b] := by simp [noteDelivery, hb, hroom]
      rw [hnote]
      exact .inl (List.mem_append_right _ (List.mem_singleton.2 rfl))
    · have hnote : noteDelivery l (.pushed b) = l := by simp [noteDelivery, hroom]
      rw [hnote]
      exact .inr (not_lt.1 hroom)

theorem noteDelivery_update_iff : (b ∈ noteDelivery held.deliveredBy (mergeOrigin held.origin (.pushed b)) ∨
    MAX_DELIVERERS ≤ (noteDelivery held.deliveredBy (mergeOrigin held.origin (.pushed b))).length) ↔
      NotesUpdate held b := by
  unfold NotesUpdate
  cases horigin : held.origin with
  | own => simp [mergeOrigin, noteDelivery]
  | fetched => simp [mergeOrigin, noteDelivery]
  | pushed first =>
    show (b ∈ noteDelivery held.deliveredBy (.pushed first) ∨
      MAX_DELIVERERS ≤ (noteDelivery held.deliveredBy (.pushed first)).length) ↔ _
    by_cases hfirst : first ∈ held.deliveredBy
    · rw [noteDelivery_of_mem hfirst]
      constructor
      · rintro (h | h)
        · exact .inl h
        · exact .inr (.inl h)
      · rintro (h | h | h | ⟨first', h, hnot, -⟩)
        · exact .inl h
        · exact .inr h
        · cases h
          exact .inl hfirst
        · cases h
          exact absurd hfirst hnot
    · by_cases hroom : held.deliveredBy.length < MAX_DELIVERERS
      · have hnote : noteDelivery held.deliveredBy (.pushed first) = held.deliveredBy ++ [first] := by
          simp [noteDelivery, hfirst, hroom]
        rw [hnote, List.mem_append, List.mem_singleton, List.length_append, List.length_singleton]
        constructor
        · rintro ((h | rfl) | h)
          · exact .inl h
          · exact .inr (.inr (.inl rfl))
          · exact .inr (.inr (.inr ⟨first, rfl, hfirst, by omega⟩))
        · rintro (h | h | h | ⟨first', -, -, h⟩)
          · exact .inl (.inl h)
          · omega
          · cases h
            exact .inl (.inr rfl)
          · exact .inr h.ge
      · have hnote : noteDelivery held.deliveredBy (.pushed first) = held.deliveredBy := by
          simp [noteDelivery, hroom]
        have hfull : MAX_DELIVERERS ≤ held.deliveredBy.length := not_lt.1 hroom
        rw [hnote]
        exact ⟨fun _ => .inr (.inl hfull), fun _ => .inr hfull⟩

theorem sole_eq_none {a : NodeId} (ha : a ∈ st.deliveredBy) (hab : a ≠ b)
    (hb : b ∈ st.deliveredBy ∨ MAX_DELIVERERS ≤ st.deliveredBy.length) : sole st = none := by
  have htwo : 2 ≤ st.deliveredBy.length := by
    rcases hb with hb | hb
    · have hsub : ({a, b} : Finset NodeId) ⊆ st.deliveredBy.toFinset := by
        intro x hx
        rcases Finset.mem_insert.1 hx with rfl | hx
        · exact List.mem_toFinset.2 ha
        · rw [Finset.mem_singleton.1 hx]
          exact List.mem_toFinset.2 hb
      have hcard := (Finset.card_le_card hsub).trans (List.toFinset_card_le _)
      rwa [Finset.card_pair hab] at hcard
    · unfold MAX_DELIVERERS at hb
      omega
  unfold sole
  split
  · rw [if_neg (by omega)]
  · rfl

namespace ServiceStore

theorem shared_of_remembers {after : ServiceStore} (hafter : after.entries.get? hash = some st)
    (hkept : ∀ held, s.entries.get? hash = some held → ∀ a ∈ held.deliveredBy, a ∈ st.deliveredBy)
    (hb : b ∈ st.deliveredBy ∨ MAX_DELIVERERS ≤ st.deliveredBy.length) : Shared s after hash b := by
  intro held st' hheld hst a ha hab
  obtain rfl := Option.some.inj (hafter.symm.trans hst)
  exact sole_eq_none (hkept held hheld a ha) hab hb

/-- Every delivery is remembered, exactly if it is no update, or an update that leaves the node written down. -/
theorem delivery_remembered_iff :
    (Delivers c it s hash d b now → Remembers (s.put c it hash d (.pushed b) now).1 hash b ∧
      Shared s (s.put c it hash d (.pushed b) now).1 hash b) ↔
    ∀ held, s.entries.get? hash = some held → Current c hash d now →
      (expired held.descriptor now = true ∨ held.descriptor.revision < d.revision) → NotesUpdate held b := by
  unfold Delivers
  rcases put_cases c it s hash d (.pushed b) now with ⟨hnot, e, he, hput⟩ | ⟨hcur, ⟨held, hget, hlive, hrev, hput⟩ |
    ⟨held, hget, hlive, hrev, hput⟩ | ⟨held, hget, hnew, hput⟩ | ⟨hnone, -, e, he, hput⟩ |
      ⟨hnone, -, entries, -, hput⟩⟩
  · rw [hput]
    refine ⟨fun _ _ _ hcur => absurd hcur hnot, ?_⟩
    rintro - (h | ⟨h, -⟩)
    · cases h
    · exact absurd (Except.error.inj h) he
  · -- an older revision is no delivery
    rw [hput]
    constructor
    · rintro - held' hget' - (h | h)
      · obtain rfl := Option.some.inj (hget.symm.trans hget')
        rw [hlive] at h
        cases h
      · obtain rfl := Option.some.inj (hget.symm.trans hget')
        omega
    · rintro - (h | ⟨-, held', hget', h⟩)
      · cases h
      · obtain rfl := Option.some.inj (hget.symm.trans hget')
        omega
  · rw [hput]
    have hafter := Map.get?_set_self s.entries hash
      (⟨held.descriptor, held.origin, noteDelivery held.deliveredBy (.pushed b)⟩ : Stored)
    constructor
    · rintro - held' hget' - (h | h)
      · obtain rfl := Option.some.inj (hget.symm.trans hget')
        rw [hlive] at h
        cases h
      · obtain rfl := Option.some.inj (hget.symm.trans hget')
        omega
    · intro _ _
      have hb := noteDelivery_pushed held.deliveredBy b
      refine ⟨⟨_, hafter, hb⟩, shared_of_remembers hafter ?_ hb⟩
      intro held' hget' a ha
      obtain rfl := Option.some.inj (hget.symm.trans hget')
      show a ∈ noteDelivery held.deliveredBy (.pushed b)
      exact subset_noteDelivery ha
  · rw [hput]
    have hafter := Map.get?_set_self s.entries hash (⟨d, mergeOrigin held.origin (.pushed b),
      noteDelivery held.deliveredBy (mergeOrigin held.origin (.pushed b))⟩ : Stored)
    constructor
    · intro h held' hget' _ _
      obtain rfl := Option.some.inj (hget.symm.trans hget')
      obtain ⟨⟨st, hst, hb⟩, -⟩ := h (.inl rfl)
      obtain rfl := Option.some.inj (hafter.symm.trans hst)
      exact noteDelivery_update_iff.1 hb
    · intro h _
      have hb := noteDelivery_update_iff.2 (h held hget hcur hnew)
      refine ⟨⟨_, hafter, hb⟩, shared_of_remembers hafter ?_ hb⟩
      intro held' hget' a ha
      obtain rfl := Option.some.inj (hget.symm.trans hget')
      exact subset_noteDelivery ha
  · rw [hput]
    constructor
    · intro _ held hget
      rw [hnone] at hget
      cases hget
    · rintro - (h | ⟨h, -⟩)
      · cases h
      · exact absurd (Except.error.inj h) he
  · rw [hput]
    have hafter := Map.get?_set_self entries hash (⟨d, .pushed b, noteDelivery [] (.pushed b)⟩ : Stored)
    constructor
    · intro _ held hget
      rw [hnone] at hget
      cases hget
    · intro _ _
      refine ⟨⟨_, hafter, noteDelivery_pushed [] b⟩, ?_⟩
      intro held st hget
      rw [hnone] at hget
      cases hget

/-- The node 2 brings a newer revision of the service that the node 1 pushed: it stays the node 1's alone. -/
theorem delivery_forgotten : ¬ ∀ (c : DescriptorCrypto) (it : Iteration) (s : ServiceStore) (hash : Bytes)
    (d : ServiceDescriptor) (b : NodeId) (now : Nat), Delivers c it s hash d b now →
      Remembers (s.put c it hash d (.pushed b) now).1 hash b ∧
        Shared s (s.put c it hash d (.pushed b) now).1 hash b := by
  intro h
  have hafter : (ServiceStore.put trustingAll asHeld (ServiceStore.put trustingAll asHeld empty (hashAt 0)
      (descriptorAt 0 1000) (.pushed (nodeAt 1)) 2000).1 (hashAt 0) (descriptorAt 0 1001) (.pushed (nodeAt 2)) 2000) =
        (⟨⟨[(hashAt 0, ⟨descriptorAt 0 1001, .pushed (nodeAt 1), [nodeAt 1]⟩)], by simp⟩,
          ⟨[(nodeAt 1, [2000])], by simp⟩⟩, .ok ()) := by
    decide
  obtain ⟨⟨st, hst, hb⟩, -⟩ := h trustingAll asHeld _ (hashAt 0) (descriptorAt 0 1001) (nodeAt 2) 2000
    (.inl (by rw [hafter]))
  rw [hafter] at hst
  obtain rfl : (⟨descriptorAt 0 1001, .pushed (nodeAt 1), [nodeAt 1]⟩ : Stored) = st := Option.some.inj hst
  revert hb
  decide

end ServiceStore

end HidraNet.Dht
