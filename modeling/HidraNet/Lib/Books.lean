import HidraNet.Lib.Lists
import HidraNet.Lib.Maps

/-!
# Books kept beside a map

A program that keeps a map often keeps books beside it: a sum over the entries, or a counter for each group of them.
`total p f m` is what the entries of `m` that fit `p` weigh together; it changes by the one entry that comes or goes
(`total_set`, `total_remove`).  A counter that falls to nothing is not kept (`take`), which no reader of `count` sees.

A ledger has a counter for each group of the entries (`IsLedger`); an entry that goes is taken from the counter of its
group, an entry that comes is added to it, and the ledger stays one (`IsLedger.remove`, `IsLedger.set`).
-/

namespace HidraNet.Books

open Maps

variable {κ ν β : Type*} [DecidableEq κ] [DecidableEq β]

def total (p : κ → ν → Bool) (f : κ → ν → Nat) (m : Map κ ν) : Nat :=
  Lists.tally (fun e => p e.1 e.2) (fun e => f e.1 e.2) m.entries

def number (p : κ → ν → Bool) (m : Map κ ν) : Nat := m.entries.countP fun e => p e.1 e.2

def share (p : κ → ν → Bool) (f : κ → ν → Nat) (k : κ) (v : ν) : Nat := if p k v then f k v else 0

variable {p : κ → ν → Bool} {f : κ → ν → Nat} {m : Map κ ν} {k : κ} {v : ν}

omit [DecidableEq κ] in
theorem number_eq_total : number p m = total p (fun _ _ => 1) m := by
  unfold number total Lists.tally
  rw [List.countP_eq_length_filter, List.map_const', List.sum_replicate, smul_eq_mul, Nat.mul_one]

omit [DecidableEq κ] in
@[simp] theorem total_empty : total p f (Map.empty : Map κ ν) = 0 := rfl

theorem remove_of_none (h : m.get? k = none) : m.remove k = m := by
  have hkept : m.entries.filter (·.1 ≠ k) = m.entries := by
    rw [List.filter_eq_self]
    rintro ⟨k', v'⟩ hmem
    rw [decide_eq_true_eq]
    rintro rfl
    rw [Map.mem_entries.1 hmem] at h
    cases h
  unfold Map.remove
  congr 1

theorem total_remove (h : m.get? k = some v) : total p f m = total p f (m.remove k) + share p f k v := by
  obtain ⟨l₁, l₂, hsplit⟩ := List.append_of_mem (Map.mem_entries.2 h)
  have hnodup := m.nodup
  rw [hsplit, List.map_append, List.map_cons, List.nodup_append, List.nodup_cons] at hnodup
  obtain ⟨-, ⟨hk₂, -⟩, hdisj⟩ := hnodup
  have hl₁ : l₁.filter (·.1 ≠ k) = l₁ := by
    rw [List.filter_eq_self]
    intro e he
    rw [decide_eq_true_eq]
    exact hdisj e.1 (List.mem_map_of_mem he) k List.mem_cons_self
  have hl₂ : l₂.filter (·.1 ≠ k) = l₂ := by
    rw [List.filter_eq_self]
    intro e he
    rw [decide_eq_true_eq]
    intro hk
    have hmem : e.1 ∈ l₂.map Prod.fst := List.mem_map_of_mem he
    exact hk₂ (hk ▸ hmem)
  have hrest : (m.remove k).entries = l₁ ++ l₂ := by
    unfold Map.remove
    dsimp only
    rw [hsplit, List.filter_append, hl₁, List.filter_cons_of_neg (by simp), hl₂]
  unfold total
  rw [hrest, hsplit, Lists.tally_append, Lists.tally_append, ← List.singleton_append, Lists.tally_append,
    Lists.tally_singleton]
  unfold share
  dsimp only
  omega

theorem total_set (h : m.get? k = none) : total p f (m.set k v) = total p f m + share p f k v := by
  have hentries : (m.set k v).entries = m.entries ++ [(k, v)] := by
    change (m.remove k).entries ++ [(k, v)] = _
    rw [remove_of_none h]
  unfold total
  rw [hentries, Lists.tally_append, Lists.tally_singleton]
  rfl

theorem share_le_total (h : m.get? k = some v) : share p f k v ≤ total p f m := by
  rw [total_remove h]
  exact Nat.le_add_left ..

/-! ### Tallies of lists -/

section Tallies

variable {α : Type*}

theorem tally_split (p q : α → Bool) (f : α → Nat) (l : List α) :
    Lists.tally p f l = Lists.tally (fun x => p x && q x) f l + Lists.tally (fun x => p x && !q x) f l := by
  induction l with
  | nil => rfl
  | cons x l ih =>
    rw [← List.singleton_append, Lists.tally_append, Lists.tally_append, Lists.tally_append, ih, Lists.tally_singleton,
      Lists.tally_singleton,
      Lists.tally_singleton]
    cases p x <;> cases q x <;> simp <;> omega

theorem tally_le_countP_mul {p : α → Bool} {f : α → Nat} {c : Nat} {l : List α} (h : ∀ x ∈ l, f x ≤ c) :
    Lists.tally p f l ≤ l.countP p * c := by
  induction l with
  | nil => exact Nat.zero_le _
  | cons x l ih =>
    simp only [List.mem_cons, forall_eq_or_imp] at h
    have hrest := ih h.2
    rw [← List.singleton_append, Lists.tally_append, Lists.tally_singleton, List.countP_append, List.countP_singleton,
      Nat.add_mul]
    cases p x
    · simpa using hrest
    · simpa using Nat.add_le_add h.1 hrest

theorem countP_div_le {d : Nat} (hd : 0 < d) (k n : Nat) : (List.range n).countP (fun i => i / d = k) ≤ d := by
  have hboth : (List.range n).countP (fun i => i / d = k) ≤ d ∧
      (List.range n).countP (fun i => i / d = k) ≤ n - d * k := by
    induction n with
    | zero => simp
    | succ n ih =>
      rw [List.range_succ, List.countP_append, List.countP_singleton]
      by_cases hk : n / d = k
      · have hlow : d * k ≤ n := hk ▸ Nat.mul_div_le n d
        have hhigh : n < d * k + d := hk ▸ Nat.lt_mul_div_succ n hd
        simp only [hk, decide_true, if_true]
        omega
      · simp only [hk, decide_false, Bool.false_eq_true, if_false]
        omega
  exact hboth.1

private theorem sum_indicator {ks : List β} (hks : ks.Nodup) {x : β} (hx : x ∈ ks) :
    (ks.map fun k => if x = k then 1 else 0).sum = 1 := by
  induction ks with
  | nil => cases hx
  | cons k ks ih =>
    rw [List.nodup_cons] at hks
    rw [List.map_cons, List.sum_cons]
    by_cases hk : x = k
    · have hrest : (ks.map fun k => if x = k then 1 else 0).sum = 0 := by
        apply List.sum_eq_zero
        intro n hn
        obtain ⟨k', hk', rfl⟩ := List.mem_map.1 hn
        apply if_neg
        rintro rfl
        exact hks.1 (hk ▸ hk')
      rw [if_pos hk, hrest]
    · rw [if_neg hk, ih hks.2 ((List.mem_cons.1 hx).resolve_left hk)]

theorem length_eq_sum_countP {f : α → β} {ks : List β} (hks : ks.Nodup) {l : List α}
    (h : ∀ x ∈ l, f x ∈ ks) : l.length = (ks.map fun k => l.countP fun x => f x = k).sum := by
  induction l with
  | nil => simp
  | cons x l ih =>
    simp only [List.mem_cons, forall_eq_or_imp] at h
    have hone := sum_indicator hks h.1
    simp only [List.countP_cons, List.length_cons, ih h.2, decide_eq_true_eq]
    rw [List.sum_map_add, hone]

end Tallies

omit [DecidableEq κ] in
theorem total_split {q : κ → ν → Bool} :
    total p f m = total (fun k v => p k v && q k v) f m + total (fun k v => p k v && !q k v) f m :=
  tally_split _ _ _ _

/-! ### Counters -/

def count (c : Map β Nat) (b : β) : Nat := (c.get? b).getD 0

/-- `*entry(b).or_insert(0) += n`. -/
def add (c : Map β Nat) (b : β) (n : Nat) : Map β Nat := c.set b (count c b + n)

/-- The counter less `n`, gone where nothing is left of it. -/
def take (c : Map β Nat) (b : β) (n : Nat) : Map β Nat :=
  match c.get? b with
  | some m => if m - n = 0 then c.remove b else c.set b (m - n)
  | none => c

@[simp] theorem count_empty (b : β) : count (Map.empty : Map β Nat) b = 0 := rfl

theorem count_add (c : Map β Nat) (b : β) (n : Nat) (b' : β) :
    count (add c b n) b' = count c b' + if b' = b then n else 0 := by
  unfold add count
  rw [Map.get?_set]
  by_cases h : b' = b
  · rw [if_pos h, if_pos h, h]
    rfl
  · rw [if_neg h, if_neg h, Nat.add_zero]

theorem count_take (c : Map β Nat) (b : β) (n : Nat) (b' : β) :
    count (take c b n) b' = count c b' - if b' = b then n else 0 := by
  unfold take
  by_cases h : b' = b
  · subst h
    rw [if_pos rfl]
    unfold count
    cases hc : c.get? b' with
    | none => simp [hc]
    | some m =>
      dsimp only
      split
      · rename_i hzero
        rw [Map.get?_remove, if_pos rfl]
        exact hzero.symm
      · rw [Map.get?_set_self]
        rfl
  · rw [if_neg h, Nat.sub_zero]
    unfold count
    cases hc : c.get? b with
    | none => rfl
    | some m =>
      dsimp only
      split
      · rw [Map.get?_remove, if_neg h]
      · rw [Map.get?_set_other _ _ h]

/-! ### Ledgers -/

def takeAt (c : Map β Nat) (g : Option β) (n : Nat) : Map β Nat :=
  match g with
  | some b => take c b n
  | none => c

def addAt (c : Map β Nat) (g : Option β) (n : Nat) : Map β Nat :=
  match g with
  | some b => add c b n
  | none => c

theorem count_takeAt (c : Map β Nat) (g : Option β) (n : Nat) (b : β) :
    count (takeAt c g n) b = count c b - if g = some b then n else 0 := by
  cases g with
  | none => rfl
  | some b' =>
    change count (take c b' n) b = _
    rw [count_take]
    by_cases h : b = b'
    · simp [h]
    · have h' : ¬ b' = b := fun hb => h hb.symm
      simp [h, h']

theorem count_addAt (c : Map β Nat) (g : Option β) (n : Nat) (b : β) :
    count (addAt c g n) b = count c b + if g = some b then n else 0 := by
  cases g with
  | none => rfl
  | some b' =>
    change count (add c b' n) b = _
    rw [count_add]
    by_cases h : b = b'
    · simp [h]
    · have h' : ¬ b' = b := fun hb => h hb.symm
      simp [h, h']

/-- Every counter is what the entries of its group weigh together, the group `b` being those that fit `p b`. -/
def IsLedger (c : Map β Nat) (p : β → κ → ν → Bool) (f : κ → ν → Nat) (m : Map κ ν) : Prop :=
  ∀ b, count c b = total (p b) f m

section Ledger

variable {c : Map β Nat} {q : β → κ → ν → Bool} {g : κ → ν → Option β}

theorem IsLedger.remove (hc : IsLedger c q f m) (hq : ∀ b k v, q b k v = true ↔ g k v = some b)
    (h : m.get? k = some v) : IsLedger (takeAt c (g k v) (f k v)) q f (m.remove k) := by
  intro b
  have htotal := total_remove (p := q b) (f := f) h
  rw [← hc b] at htotal
  unfold share at htotal
  rw [count_takeAt]
  by_cases hb : g k v = some b
  · rw [if_pos ((hq b k v).2 hb)] at htotal
    rw [if_pos hb]
    omega
  · rw [if_neg (fun hqb => hb ((hq b k v).1 hqb)), Nat.add_zero] at htotal
    rw [if_neg hb, Nat.sub_zero]
    exact htotal

theorem IsLedger.set (hc : IsLedger c q f m) (hq : ∀ b k v, q b k v = true ↔ g k v = some b)
    (h : m.get? k = none) : IsLedger (addAt c (g k v) (f k v)) q f (m.set k v) := by
  intro b
  rw [total_set h, ← hc b, count_addAt]
  unfold share
  by_cases hb : g k v = some b
  · rw [if_pos hb, if_pos ((hq b k v).2 hb)]
  · rw [if_neg hb, if_neg fun hqb => hb ((hq b k v).1 hqb)]

end Ledger

end HidraNet.Books
