import Mathlib

/-!
# Maps

A finite map as a list of entries, no key twice.  Every operation is known by what `get?` answers after it; the
entries of a map are the answers of `get?` (`mem_entries`).
-/

namespace HidraNet.Maps

structure Map (κ ν : Type*) where
  entries : List (κ × ν)
  nodup : (entries.map Prod.fst).Nodup
deriving DecidableEq

variable {κ ν : Type*} [DecidableEq κ]

namespace Map

def empty : Map κ ν := ⟨[], List.nodup_nil⟩

def get? (m : Map κ ν) (k : κ) : Option ν := (m.entries.find? (·.1 = k)).map Prod.snd

def contains (m : Map κ ν) (k : κ) : Bool := (m.get? k).isSome

def size (m : Map κ ν) : Nat := m.entries.length

def remove (m : Map κ ν) (k : κ) : Map κ ν :=
  ⟨m.entries.filter (·.1 ≠ k), m.nodup.sublist (List.filter_sublist.map _)⟩

def set (m : Map κ ν) (k : κ) (v : ν) : Map κ ν :=
  ⟨m.entries.filter (·.1 ≠ k) ++ [(k, v)], by
    rw [List.map_append, List.map_singleton, List.nodup_append]
    refine ⟨(m.remove k).nodup, List.nodup_singleton _, fun a ha b hb => ?_⟩
    obtain ⟨e, he, rfl⟩ := List.mem_map.1 ha
    rw [List.mem_singleton.1 hb]
    simpa using (List.mem_filter.1 he).2⟩

def retain (m : Map κ ν) (p : κ → ν → Bool) : Map κ ν :=
  ⟨m.entries.filter fun e => p e.1 e.2, m.nodup.sublist (List.filter_sublist.map _)⟩

variable {m : Map κ ν} {k k' : κ} {v : ν} {p : κ → ν → Bool}

theorem mem_entries : (k, v) ∈ m.entries ↔ m.get? k = some v := by
  unfold get?
  constructor
  · intro h
    cases hfind : m.entries.find? (·.1 = k) with
    | none => exact absurd (List.find?_eq_none.1 hfind (k, v) h) (by simp)
    | some e =>
      have hk : e.1 = k := by simpa using List.find?_some hfind
      have heq : e = (k, v) := List.inj_on_of_nodup_map m.nodup (List.mem_of_find?_eq_some hfind) h hk
      rw [heq]
      rfl
  · intro h
    obtain ⟨e, hfind, hv⟩ := Option.map_eq_some_iff.1 h
    have hk : e.1 = k := by simpa using List.find?_some hfind
    rw [← hk, ← hv]
    exact List.mem_of_find?_eq_some hfind

theorem ext_get? {m' : Map κ ν} (h : ∀ v, (k, v) ∈ m.entries ↔ (k', v) ∈ m'.entries) : m.get? k = m'.get? k' := by
  apply Option.ext
  intro v
  rw [← mem_entries, ← mem_entries]
  exact h v

theorem eq_empty (h : ∀ k, m.get? k = none) : m = empty := by
  have hnone : m.entries = [] := by
    rw [List.eq_nil_iff_forall_not_mem]
    rintro ⟨k, v⟩ hmem
    rw [mem_entries, h] at hmem
    cases hmem
  cases m
  cases hnone
  rfl

@[simp] theorem get?_empty (k : κ) : (empty : Map κ ν).get? k = none := rfl

theorem get?_set_self (m : Map κ ν) (k : κ) (v : ν) : (m.set k v).get? k = some v :=
  mem_entries.1 (List.mem_append_right _ (List.mem_singleton_self _))

theorem get?_set_other (m : Map κ ν) (v : ν) (h : k' ≠ k) : (m.set k v).get? k' = m.get? k' := by
  apply ext_get?
  intro v'
  simp [set, h]

theorem get?_set (m : Map κ ν) (k k' : κ) (v : ν) :
    (m.set k v).get? k' = if k' = k then some v else m.get? k' := by
  split
  · rename_i h
    rw [h, get?_set_self]
  · rename_i h
    exact get?_set_other m v h

theorem get?_remove (m : Map κ ν) (k k' : κ) : (m.remove k).get? k' = if k' = k then none else m.get? k' := by
  split
  · rename_i h
    apply Option.eq_none_iff_forall_ne_some.2
    intro v hv
    rw [h, ← mem_entries] at hv
    simpa using (List.mem_filter.1 hv).2
  · rename_i h
    apply ext_get?
    intro v
    simp [remove, h]

theorem get?_set_some {v' : ν} :
    (m.set k v).get? k' = some v' ↔ k' = k ∧ v = v' ∨ k' ≠ k ∧ m.get? k' = some v' := by
  rw [get?_set]
  split <;> simp_all

theorem get?_remove_some : (m.remove k).get? k' = some v ↔ k' ≠ k ∧ m.get? k' = some v := by
  rw [get?_remove]
  split <;> simp_all

theorem get?_retain (m : Map κ ν) (p : κ → ν → Bool) (k : κ) : (m.retain p).get? k = (m.get? k).filter (p k) := by
  apply Option.ext
  intro v
  rw [← mem_entries, Option.filter_eq_some_iff, ← mem_entries]
  simp [retain]

/-- The entries with what is made of them, where something is. -/
def filterMap {μ : Type*} (f : κ → ν → Option μ) (m : Map κ ν) : Map κ μ :=
  ⟨m.entries.filterMap fun e => (f e.1 e.2).map (e.1, ·), by
    have hsub : ((m.entries.filterMap fun e => (f e.1 e.2).map (e.1, ·)).map Prod.fst).Sublist
        (m.entries.map Prod.fst) := by
      induction m.entries with
      | nil => exact List.Sublist.refl _
      | cons e entries ih =>
        rw [List.filterMap_cons]
        cases f e.1 e.2 with
        | none => exact ih.cons _
        | some v => exact ih.cons_cons _
    exact m.nodup.sublist hsub⟩

theorem get?_filterMap {μ : Type*} (f : κ → ν → Option μ) (m : Map κ ν) (k : κ) :
    (m.filterMap f).get? k = (m.get? k).bind (f k) := by
  apply Option.ext
  intro v
  rw [← mem_entries, Option.bind_eq_some_iff]
  unfold filterMap
  simp only [List.mem_filterMap, Option.map_eq_some_iff, Prod.mk.injEq]
  constructor
  · rintro ⟨e, he, w, hw, rfl, rfl⟩
    exact ⟨e.2, mem_entries.1 he, hw⟩
  · rintro ⟨u, hu, hv⟩
    exact ⟨(k, u), mem_entries.2 hu, v, hv, rfl, rfl⟩

theorem size_eq_zero_iff : m.size = 0 ↔ ∀ k, m.get? k = none := by
  constructor
  · intro h k
    unfold get?
    rw [List.length_eq_zero_iff.1 h]
    rfl
  · intro h
    rw [eq_empty h]
    rfl

theorem size_set_le (m : Map κ ν) (k : κ) (v : ν) : (m.set k v).size ≤ m.size + 1 := by
  unfold size set
  rw [List.length_append, List.length_singleton]
  exact Nat.add_le_add_right (List.length_filter_le ..) 1

theorem size_set_new (h : m.get? k = none) (v : ν) : (m.set k v).size = m.size + 1 := by
  have hkept : m.entries.filter (·.1 ≠ k) = m.entries := by
    rw [List.filter_eq_self]
    rintro ⟨k', v'⟩ hmem
    rw [decide_eq_true_eq]
    rintro rfl
    rw [mem_entries.1 hmem] at h
    cases h
  unfold size set
  rw [List.length_append, hkept, List.length_singleton]

theorem size_remove_lt (h : m.get? k = some v) : (m.remove k).size < m.size :=
  List.length_filter_lt_length_iff_exists.2 ⟨(k, v), mem_entries.2 h, by simp⟩

theorem size_set_of_get? (h : m.get? k = some v) (v' : ν) : (m.set k v').size ≤ m.size := by
  have hlt := size_remove_lt h
  unfold size at hlt ⊢
  unfold set
  rw [List.length_append, List.length_singleton]
  exact hlt

theorem size_le_card {S : Finset κ} (h : ∀ k, m.contains k = true → k ∈ S) : m.size ≤ S.card := by
  have hsub : (m.entries.map Prod.fst).toFinset ⊆ S := by
    intro k hk
    obtain ⟨⟨k', v⟩, he, rfl⟩ := List.mem_map.1 (List.mem_toFinset.1 hk)
    apply h
    unfold contains
    rw [mem_entries.1 he]
    rfl
  have hcard := Finset.card_le_card hsub
  rw [List.toFinset_card_of_nodup m.nodup, List.length_map] at hcard
  exact hcard

theorem contains_set : (m.set k v).contains k' = true ↔ k' = k ∨ m.contains k' = true := by
  unfold contains
  rw [get?_set]
  by_cases h : k' = k
  · simp [h]
  · simp [h]

end Map

/-! ### Functions as maps -/

section Functions

variable {α β : Type*} [DecidableEq α] {f : α → Option β} {a a' : α} {b b' : β}

theorem update_some : Function.update f a (some b) a' = some b' ↔ a' = a ∧ b = b' ∨ a' ≠ a ∧ f a' = some b' := by
  rw [Function.update_apply]
  split <;> simp_all

theorem update_none : Function.update f a (some b) a' = none ↔ a' ≠ a ∧ f a' = none := by
  rw [Function.update_apply]
  split <;> simp_all

/-- A new entry leaves the others. -/
theorem update_new (ha : f a = none) (h : f a' = some b') : Function.update f a (some b) a' = some b' := by
  refine update_some.2 (.inr ⟨?_, h⟩)
  rintro rfl
  cases ha.symm.trans h

end Functions

/-! ### Counting by key -/

variable {α : Type*}

def tally (f : α → Option κ) (l : List α) : Map κ Nat :=
  l.foldl (fun m a => match f a with
    | some k => m.set k ((m.get? k).getD 0 + 1)
    | none => m) .empty

theorem tally_append_singleton (f : α → Option κ) (l : List α) (a : α) :
    tally f (l ++ [a]) = match f a with
      | some k => (tally f l).set k (((tally f l).get? k).getD 0 + 1)
      | none => tally f l := by
  unfold tally
  rw [List.foldl_append]
  rfl

theorem get?_tally (f : α → Option κ) (l : List α) (k : κ) :
    (tally f l).get? k = if l.countP (fun a => f a = some k) = 0 then none
      else some (l.countP fun a => f a = some k) := by
  induction l using List.reverseRecOn with
  | nil => rfl
  | append_singleton l a ih =>
    rw [tally_append_singleton, List.countP_append, List.countP_singleton]
    cases ha : f a with
    | none =>
      simp only [ih, reduceCtorEq, decide_false, Bool.false_eq_true, if_false, Nat.add_zero]
    | some k' =>
      dsimp only
      rw [Map.get?_set]
      by_cases hk : k = k'
      · subst hk
        rw [ih]
        simp only [if_true, decide_true, Nat.succ_ne_zero, if_false, Option.some.injEq, Nat.add_right_cancel_iff]
        split
        · rename_i hzero
          rw [hzero]
          rfl
        · rfl
      · have hne : ¬ k' = k := fun h => hk h.symm
        simp only [hk, if_false, Option.some.injEq, hne, decide_false, Bool.false_eq_true, Nat.add_zero]
        exact ih

end HidraNet.Maps
