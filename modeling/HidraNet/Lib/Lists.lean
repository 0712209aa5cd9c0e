import Mathlib

/-!
# The first element that fits

`modifyFirst p f l` changes by `f` the first element of `l` that fits `p`, and leaves the others: what a program
does with a search through mutable references.  A column of the list that `f` does not change stays as it was
(`map_modifyFirst`), and undoing the change gives the list back (`modifyFirst_modifyFirst`).

`firstBy key l` keeps the first element of each key, as a program does that reads a list with the set of the keys it
has seen.  `tally p f l` is the sum of `f` over the elements of `l` that fit `p`.
-/

namespace HidraNet.Lists

variable {α β : Type*}

/-- The list with `f` applied to the first element that fits `p`. -/
def modifyFirst (p : α → Bool) (f : α → α) : List α → List α
  | [] => []
  | x :: xs => if p x then f x :: xs else x :: modifyFirst p f xs

theorem map_modifyFirst {p : α → Bool} {f : α → α} (g : α → β) {l : List α}
    (hg : ∀ x ∈ l, p x = true → g (f x) = g x) : (modifyFirst p f l).map g = l.map g := by
  induction l with
  | nil => rfl
  | cons x xs ih =>
    simp only [List.mem_cons, forall_eq_or_imp] at hg
    unfold modifyFirst
    split
    · rename_i hp
      rw [List.map_cons, List.map_cons, hg.1 hp]
    · rw [List.map_cons, List.map_cons, ih hg.2]

theorem mem_modifyFirst {p : α → Bool} {f : α → α} {l : List α} {y : α} (hy : y ∈ modifyFirst p f l) :
    y ∈ l ∨ ∃ x ∈ l, p x = true ∧ y = f x := by
  induction l with
  | nil => simp [modifyFirst] at hy
  | cons x xs ih =>
    unfold modifyFirst at hy
    split at hy
    · rename_i hp
      rcases List.mem_cons.1 hy with rfl | hy
      · exact Or.inr ⟨x, by simp, hp, rfl⟩
      · exact Or.inl (by simp [hy])
    · rcases List.mem_cons.1 hy with rfl | hy
      · exact Or.inl (by simp)
      · rcases ih hy with h | ⟨z, hz, hpz, rfl⟩
        · exact Or.inl (by simp [h])
        · exact Or.inr ⟨z, by simp [hz], hpz, rfl⟩

theorem modifyFirst_split {p : α → Bool} {l : List α} {x : α} (hx : l.find? p = some x) :
    ∃ l₁ l₂, l = l₁ ++ x :: l₂ ∧ p x = true ∧ (∀ y ∈ l₁, p y = false) ∧
      ∀ f : α → α, modifyFirst p f l = l₁ ++ f x :: l₂ := by
  induction l with
  | nil => simp at hx
  | cons a l ih =>
    by_cases ha : p a = true
    · simp only [List.find?_cons, ha, Option.some.injEq] at hx
      subst hx
      exact ⟨[], l, rfl, ha, by simp, fun f => by simp [modifyFirst, ha]⟩
    · rw [List.find?_cons, eq_false_of_ne_true ha] at hx
      obtain ⟨l₁, l₂, rfl, hp, hl₁, hf⟩ := ih hx
      refine ⟨a :: l₁, l₂, rfl, hp, ?_, fun f => ?_⟩
      · simpa using ⟨eq_false_of_ne_true ha, hl₁⟩
      · simp [modifyFirst, ha, hf f]

theorem modifyFirst_concat {p : α → Bool} {f : α → α} {l : List α} {x : α} (hl : ∀ y ∈ l, p y = false)
    (hx : p x = true) : modifyFirst p f (l ++ [x]) = l ++ [f x] := by
  induction l with
  | nil => simp [modifyFirst, hx]
  | cons a l ih =>
    simp only [List.mem_cons, forall_eq_or_imp] at hl
    simp [modifyFirst, hl.1, ih hl.2]

/-- A second search that fits only what the first one made undoes it. -/
theorem modifyFirst_modifyFirst {p q : α → Bool} {f g : α → α} {l : List α} {x : α} (hx : l.find? p = some x)
    (hq : ∀ y ∈ l, q y = false) (hqf : q (f x) = true) (hgf : g (f x) = x) :
    modifyFirst q g (modifyFirst p f l) = l := by
  obtain ⟨l₁, l₂, rfl, -, -, hf⟩ := modifyFirst_split hx
  rw [hf f]
  have hl₁ : ∀ y ∈ l₁, q y = false := fun y hy => hq y (by simp [hy])
  clear hq hf hx
  induction l₁ with
  | nil => simp [modifyFirst, hqf, hgf]
  | cons a l₁ ih =>
    simp only [List.mem_cons, forall_eq_or_imp] at hl₁
    simp [modifyFirst, hl₁.1, ih hl₁.2]

/-! ### Searching after a change -/

theorem find?_modifyFirst_self {p : α → Bool} {f : α → α} (hf : ∀ x, p x = true → p (f x) = true) (l : List α) :
    (modifyFirst p f l).find? p = (l.find? p).map f := by
  induction l with
  | nil => rfl
  | cons x xs ih =>
    unfold modifyFirst
    split
    · rename_i hp
      simp [hp, hf x hp]
    · rename_i hp
      simpa [List.find?_cons, hp] using ih

theorem find?_modifyFirst_other {p q : α → Bool} {f : α → α}
    (h : ∀ x, p x = true → q x = false ∧ q (f x) = false) (l : List α) :
    (modifyFirst p f l).find? q = l.find? q := by
  induction l with
  | nil => rfl
  | cons x xs ih =>
    unfold modifyFirst
    split
    · rename_i hp
      simp [h x hp]
    · simp [List.find?_cons, ih]

theorem map_find?_modifyFirst {p q : α → Bool} {f : α → α} {g : α → β}
    (hq : ∀ x, q (f x) = q x) (hg : ∀ x, g (f x) = g x) (l : List α) :
    ((modifyFirst p f l).find? q).map g = (l.find? q).map g := by
  induction l with
  | nil => rfl
  | cons x xs ih =>
    unfold modifyFirst
    split
    · rw [List.find?_cons, List.find?_cons, hq]
      split <;> simp [hg]
    · rw [List.find?_cons, List.find?_cons]
      split
      · rfl
      · exact ih

theorem perm_eraseIdx {l : List α} {i : Nat} {x : α} (h : l[i]? = some x) : l.Perm (x :: l.eraseIdx i) := by
  obtain ⟨hi, rfl⟩ := List.getElem?_eq_some_iff.1 h
  exact (List.getElem_cons_eraseIdx_perm hi).symm

theorem pairwise_of_perm {R : α → α → Prop} {l : List α} (h : ∀ a b rest, (a :: b :: rest).Perm l → R a b) :
    l.Pairwise R := by
  induction l with
  | nil => exact List.Pairwise.nil
  | cons x l ih =>
    refine List.Pairwise.cons (fun y hy => ?_) (ih fun a b rest hperm => ?_)
    · obtain ⟨before, after, rfl⟩ := List.append_of_mem hy
      exact h x y (before ++ after) (List.Perm.cons x List.perm_middle.symm)
    · apply h a b (x :: rest)
      show ([a, b] ++ x :: rest).Perm (x :: l)
      exact List.perm_middle.trans (hperm.cons x)

theorem map_set_of {f : α → β} {l : List α} {i : Nat} {x y : α} (h : l[i]? = some x) (hf : f y = f x) :
    (l.set i y).map f = l.map f := by
  obtain ⟨hi, rfl⟩ := List.getElem?_eq_some_iff.1 h
  rw [List.map_set, hf, ← List.getElem_map f, List.set_getElem_self]
  rwa [List.length_map]

theorem getElem?_filter_countP {p : α → Bool} {l : List α} {k : Nat} {x : α} (hx : l[k]? = some x) (hp : p x = true) :
    (l.filter p)[(l.take k).countP p]? = some x := by
  induction l generalizing k with
  | nil => simp at hx
  | cons y l ih =>
    cases k with
    | zero =>
      cases hx
      simp [List.filter_cons_of_pos hp]
    | succ k =>
      rw [List.getElem?_cons_succ] at hx
      rw [List.take_succ_cons, List.filter_cons]
      by_cases hy : p y = true
      · rw [if_pos hy, List.countP_cons_of_pos hy, List.getElem?_cons_succ]
        exact ih hx
      · rw [if_neg hy, List.countP_cons_of_neg hy]
        exact ih hx

theorem subperm_map (f : α → β) {l l' : List α} (h : l.Subperm l') : (l.map f).Subperm (l'.map f) := by
  obtain ⟨m, hperm, hsub⟩ := h
  exact ⟨m.map f, hperm.map f, hsub.map f⟩


theorem count_map_filter_add [BEq β] (p : α → Bool) (f : α → β) (l : List α) (b : β) :
    (l.map f).count b = ((l.filter p).map f).count b + ((l.filter fun x => !p x).map f).count b := by
  induction l with
  | nil => rfl
  | cons x l ih =>
    rw [List.map_cons, List.count_cons, ih, List.filter_cons, List.filter_cons]
    cases p x <;> simp only [Bool.not_true, Bool.not_false, Bool.false_eq_true, if_true, if_false, List.map_cons,
      List.count_cons] <;> omega

/-! ### The first of each key -/

section FirstBy

variable [DecidableEq β]

/-- The elements whose key was not seen before, `seen` being the keys already seen. -/
def firstByFrom (k : α → β) (seen : List β) : List α → List α
  | [] => []
  | x :: xs => if k x ∈ seen then firstByFrom k seen xs else x :: firstByFrom k (k x :: seen) xs

def firstBy (k : α → β) (l : List α) : List α := firstByFrom k [] l

private theorem mem_firstByFrom {k : α → β} {s : List β} {l : List α} {x : α}
    (hx : x ∈ firstByFrom k s l) : x ∈ l ∧ k x ∉ s := by
  induction l generalizing s with
  | nil => simp [firstByFrom] at hx
  | cons a l ih =>
    unfold firstByFrom at hx
    split at hx
    · exact ⟨List.mem_cons_of_mem _ (ih hx).1, (ih hx).2⟩
    · rename_i ha
      rcases List.mem_cons.1 hx with rfl | hx
      · exact ⟨List.mem_cons_self, ha⟩
      · have := ih hx
        simp only [List.mem_cons, not_or] at this
        exact ⟨List.mem_cons_of_mem _ this.1, this.2.2⟩

theorem mem_of_mem_firstBy {k : α → β} {l : List α} {x : α} (hx : x ∈ firstBy k l) : x ∈ l :=
  (mem_firstByFrom hx).1

private theorem firstByFrom_eq_self {k : α → β} {s : List β} {l : List α} (hl : (l.map k).Nodup)
    (hs : ∀ x ∈ l, k x ∉ s) : firstByFrom k s l = l := by
  induction l generalizing s with
  | nil => rfl
  | cons a l ih =>
    rw [List.map_cons, List.nodup_cons] at hl
    unfold firstByFrom
    rw [if_neg (hs a List.mem_cons_self), ih hl.2]
    intro x hx
    simp only [List.mem_cons, not_or]
    refine ⟨fun h => hl.1 (h ▸ List.mem_map_of_mem hx), hs x (List.mem_cons_of_mem _ hx)⟩

theorem firstBy_eq_self {k : α → β} {l : List α} (hl : (l.map k).Nodup) : firstBy k l = l :=
  firstByFrom_eq_self hl (by simp)

private theorem exists_mem_firstByFrom {k : α → β} {s : List β} {l : List α} {x : α} (hx : x ∈ l)
    (hs : k x ∉ s) : ∃ y ∈ firstByFrom k s l, k y = k x := by
  induction l generalizing s with
  | nil => simp at hx
  | cons a l ih =>
    unfold firstByFrom
    by_cases ha : k a = k x
    · rw [if_neg (ha ▸ hs)]
      exact ⟨a, List.mem_cons_self, ha⟩
    · have hx' : x ∈ l := by
        rcases List.mem_cons.1 hx with rfl | h
        · exact absurd rfl ha
        · exact h
      split
      · exact ih hx' hs
      · obtain ⟨y, hy, hk⟩ := ih (s := k a :: s) hx' (by simp [hs, Ne.symm ha])
        exact ⟨y, List.mem_cons_of_mem _ hy, hk⟩

theorem exists_mem_firstBy {k : α → β} {l : List α} {x : α} (hx : x ∈ l) :
    ∃ y ∈ firstBy k l, k y = k x := exists_mem_firstByFrom hx (by simp)

private theorem nodup_firstByFrom (k : α → β) (s : List β) (l : List α) :
    ((firstByFrom k s l).map k).Nodup := by
  induction l generalizing s with
  | nil => exact List.nodup_nil
  | cons a l ih =>
    unfold firstByFrom
    split
    · exact ih s
    · rw [List.map_cons, List.nodup_cons]
      refine ⟨fun h => ?_, ih _⟩
      obtain ⟨y, hy, hk⟩ := List.mem_map.1 h
      exact (mem_firstByFrom hy).2 (by simp [hk])

theorem nodup_firstBy (k : α → β) (l : List α) : ((firstBy k l).map k).Nodup := nodup_firstByFrom k [] l

theorem firstBy_id_eq_singleton {l : List β} {x : β} : firstBy id l = [x] ↔ x ∈ l ∧ ∀ y ∈ l, y = x := by
  constructor
  · intro h
    refine ⟨mem_of_mem_firstBy (k := id) (h ▸ List.mem_singleton_self x), fun y hy => ?_⟩
    obtain ⟨z, hz, hk⟩ := exists_mem_firstBy (k := id) hy
    rw [h, List.mem_singleton] at hz
    exact hk.symm.trans hz
  · rintro ⟨hx, hall⟩
    have hnodup := nodup_firstBy id l
    rw [List.map_id] at hnodup
    have hmem : ∀ y ∈ firstBy id l, y = x := fun y hy => hall y (mem_of_mem_firstBy hy)
    obtain ⟨z, hz, -⟩ := exists_mem_firstBy (k := id) hx
    cases hl : firstBy id l with
    | nil => simp [hl] at hz
    | cons a t =>
      rw [hl] at hmem hnodup
      have ha := hmem a List.mem_cons_self
      cases t with
      | nil => rw [ha]
      | cons b t =>
        have hb := hmem b (by simp)
        exact absurd (List.mem_cons.2 (Or.inl (ha.trans hb.symm))) (List.nodup_cons.1 hnodup).1

end FirstBy

/-! ### Tallies -/

/-- The sum of `f` over the elements that fit `p`. -/
def tally (p : α → Bool) (f : α → Nat) (l : List α) : Nat := ((l.filter p).map f).sum

@[simp] theorem tally_nil (p : α → Bool) (f : α → Nat) : tally p f [] = 0 := rfl

theorem tally_append (p : α → Bool) (f : α → Nat) (l₁ l₂ : List α) :
    tally p f (l₁ ++ l₂) = tally p f l₁ + tally p f l₂ := by simp [tally]

theorem tally_singleton (p : α → Bool) (f : α → Nat) (x : α) : tally p f [x] = if p x then f x else 0 := by
  by_cases h : p x = true <;> simp [tally, h]

theorem tally_eraseIdx {p : α → Bool} {f : α → Nat} {l : List α} {i : Nat} {x : α} (hx : l[i]? = some x) :
    tally p f l = tally p f (l.eraseIdx i) + tally p f [x] := by
  obtain ⟨hi, rfl⟩ := List.getElem?_eq_some_iff.1 hx
  have hperm := ((List.getElem_cons_eraseIdx_perm hi).filter p).map f
  unfold tally
  rw [← hperm.sum_eq, ← List.singleton_append, List.filter_append, List.map_append, List.sum_append, Nat.add_comm]

end HidraNet.Lists
