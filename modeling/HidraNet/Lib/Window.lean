import HidraNet.Lib.Maps

/-!
# Sliding windows

Things happen at times that do not go back, and at most `limit` of them in any window of length `W`.  A queue holds the
last of them, oldest first, and forgets at its front what has slid out of the window; nothing happens while it is full.

`Windowed` relates the queue to all that ever happened: the queue has all of the last window, so that what its length
allows, no window forbids (`Windowed.push`).  `EachWindowed` is a map with a queue for each of many.
-/

namespace HidraNet.Window

open Maps

variable {W limit t t' : Nat} {past past' q : List Nat}

def slide (W now : Nat) (q : List Nat) : List Nat := q.dropWhile fun t => now - t > W

/-- What happened in the window from `a` on. -/
def inWindow (W a : Nat) (past : List Nat) : List Nat := past.filter fun t => decide (a ≤ t ∧ t ≤ a + W)

structure Windowed (W limit : Nat) (past q : List Nat) (now : Nat) : Prop where
  bounded : ∀ a, (inWindow W a past).length ≤ limit
  recent : (past.filter fun t => decide (now ≤ t + W)).Sublist q
  sorted : q.Pairwise (· ≤ ·)
  before : ∀ t ∈ past ++ q, t ≤ now

theorem windowed_nil (W limit now : Nat) : Windowed W limit [] [] now :=
  ⟨fun _ => Nat.zero_le _, List.Sublist.refl _, List.Pairwise.nil, fun t ht => by cases ht⟩

private theorem recent_later (past : List Nat) (ht : t ≤ t') :
    past.filter (fun u => decide (t' ≤ u + W)) =
      (past.filter fun u => decide (t ≤ u + W)).filter fun u => decide (t' ≤ u + W) := by
  rw [List.filter_filter]
  apply List.filter_congr
  intro u _
  by_cases hu : t' ≤ u + W
  · have hu' : t ≤ u + W := ht.trans hu
    simp [hu, hu']
  · simp [hu]

theorem Windowed.later (h : Windowed W limit past q t) (ht : t ≤ t') : Windowed W limit past q t' := by
  refine ⟨h.bounded, ?_, h.sorted, fun u hu => (h.before u hu).trans ht⟩
  rw [recent_later past ht]
  exact List.filter_sublist.trans h.recent

private theorem filter_sublist_slide (W now : Nat) (q : List Nat) :
    (q.filter fun u => decide (now ≤ u + W)).Sublist (slide W now q) := by
  unfold slide
  induction q with
  | nil => exact List.Sublist.refl _
  | cons u q ih =>
    by_cases hu : now - u > W
    · rw [List.dropWhile_cons_of_pos (by simpa using hu), List.filter_cons_of_neg (by simp; omega)]
      exact ih
    · rw [List.dropWhile_cons_of_neg (by simpa using hu)]
      exact List.filter_sublist

theorem Windowed.slide (h : Windowed W limit past q t) (ht : t ≤ t') : Windowed W limit past (slide W t' q) t' := by
  have hsub : (Window.slide W t' q).Sublist q := List.dropWhile_sublist _
  refine ⟨h.bounded, ?_, h.sorted.sublist hsub, fun u hu => ?_⟩
  · rw [recent_later past ht]
    exact (h.recent.filter _).trans (filter_sublist_slide W t' q)
  · refine (h.before u ?_).trans ht
    rcases List.mem_append.1 hu with hu | hu
    · exact List.mem_append_left _ hu
    · exact List.mem_append_right _ (hsub.subset hu)

/-- A queue that is not full takes one more: no window is overfull, since what happened in one that has now in it is in
the queue still. -/
theorem Windowed.push (h : Windowed W limit past q t) (hroom : q.length < limit) :
    Windowed W limit (past ++ [t]) (q ++ [t]) t := by
  refine ⟨fun a => ?_, ?_, ?_, ?_⟩
  · have hpast := h.bounded a
    unfold inWindow at hpast ⊢
    rw [List.filter_append, List.length_append]
    by_cases hin : a ≤ t ∧ t ≤ a + W
    · have hsub : (past.filter fun u => decide (a ≤ u ∧ u ≤ a + W)).Sublist q := by
        refine List.Sublist.trans ?_ h.recent
        refine List.monotone_filter_right _ fun u hu => ?_
        simp only [decide_eq_true_eq] at hu ⊢
        omega
      have hlen := hsub.length_le
      have hone := List.length_filter_le (fun u => decide (a ≤ u ∧ u ≤ a + W)) [t]
      rw [List.length_singleton] at hone
      omega
    · have hnone : [t].filter (fun u => decide (a ≤ u ∧ u ≤ a + W)) = [] := by simp [hin]
      rw [hnone]
      simpa using hpast
  · rw [List.filter_append]
    exact h.recent.append List.filter_sublist
  · rw [List.pairwise_append]
    refine ⟨h.sorted, List.pairwise_singleton _ _, fun u hu v hv => ?_⟩
    rw [List.mem_singleton.1 hv]
    exact h.before u (List.mem_append_right _ hu)
  · intro u hu
    simp only [List.mem_append, List.mem_singleton] at hu
    rcases hu with (hu | rfl) | hu | rfl
    · exact h.before u (List.mem_append_left _ hu)
    · exact le_refl _
    · exact h.before u (List.mem_append_right _ hu)
    · exact le_refl _

theorem Windowed.drop (h : Windowed W limit past q t) (hlast : ∀ u ∈ q.getLast?, t - u > W) :
    Windowed W limit past [] t := by
  refine ⟨h.bounded, ?_, List.Pairwise.nil, fun u hu => h.before u ?_⟩
  · have hnone : ∀ u ∈ q, ¬ t ≤ u + W := by
      intro u hu
      have hne : q ≠ [] := List.ne_nil_of_mem hu
      have hout := hlast _ (List.getLast?_eq_some_getLast hne)
      have hle : u ≤ q.getLast hne := by
        rw [← List.dropLast_append_getLast hne] at hu
        rcases List.mem_append.1 hu with hu | hu
        · have hsorted := h.sorted
          rw [← List.dropLast_append_getLast hne, List.pairwise_append] at hsorted
          exact hsorted.2.2 u hu _ (List.mem_singleton_self _)
        · exact (List.mem_singleton.1 hu).le
      omega
    rw [List.sublist_nil, List.filter_eq_nil_iff]
    intro u hu hin
    exact hnone u (h.recent.subset (List.mem_filter.2 ⟨hu, hin⟩)) (by simpa using hin)
  · rw [List.append_nil] at hu
    exact List.mem_append_left _ hu

/-! ### A queue for each key -/

section Each

variable {κ : Type*} [DecidableEq κ] {k : κ} {past : List (κ × Nat)} {m : Map κ (List Nat)}

def timesOf (k : κ) (past : List (κ × Nat)) : List Nat := (past.filter (·.1 = k)).map Prod.snd

def EachWindowed (W limit : Nat) (past : List (κ × Nat)) (m : Map κ (List Nat)) (now : Nat) : Prop :=
  ∀ k, Windowed W limit (timesOf k past) ((m.get? k).getD []) now

theorem timesOf_append_self (k : κ) (past : List (κ × Nat)) (t : Nat) :
    timesOf k (past ++ [(k, t)]) = timesOf k past ++ [t] := by
  simp [timesOf, List.filter_append]

theorem timesOf_append_other {k' : κ} (h : k' ≠ k) (past : List (κ × Nat)) (t : Nat) :
    timesOf k' (past ++ [(k, t)]) = timesOf k' past := by
  simp [timesOf, List.filter_append, h.symm]

theorem EachWindowed.later (h : EachWindowed W limit past m t) (ht : t ≤ t') : EachWindowed W limit past m t' :=
  fun k => (h k).later ht

theorem EachWindowed.slide (h : EachWindowed W limit past m t) (ht : t ≤ t') (k : κ) :
    EachWindowed W limit past (m.set k (Window.slide W t' ((m.get? k).getD []))) t' := by
  intro k'
  rw [Map.get?_set]
  split
  · rename_i heq
    rw [heq]
    exact (h k).slide ht
  · exact (h k').later ht

theorem EachWindowed.push (h : EachWindowed W limit past m t) (hq : Windowed W limit (timesOf k past) q t)
    (hroom : q.length < limit) : EachWindowed W limit (past ++ [(k, t)]) (m.set k (q ++ [t])) t := by
  intro k'
  rw [Map.get?_set]
  split
  · rename_i heq
    rw [heq, timesOf_append_self]
    exact hq.push hroom
  · rename_i hne
    rw [timesOf_append_other hne]
    exact h k'

theorem EachWindowed.retain (h : EachWindowed W limit past m t) {p : κ → List Nat → Bool}
    (hp : ∀ k q, p k q = false → ∀ u ∈ q.getLast?, t - u > W) : EachWindowed W limit past (m.retain p) t := by
  intro k
  have hk := h k
  rw [Map.get?_retain]
  cases hq : m.get? k with
  | none =>
    rw [hq] at hk
    exact hk
  | some q =>
    rw [hq, Option.getD_some] at hk
    rw [Option.filter_some]
    split
    · exact hk
    · rename_i hgone
      exact hk.drop (hp k q (by simpa using hgone))

end Each

end HidraNet.Window
