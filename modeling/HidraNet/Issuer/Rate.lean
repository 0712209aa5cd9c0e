import HidraNet.Lib.Runs

/-!
# The going rate

The token's price in dollars, as a feed last said it.  A move too large to take at once is held until the feed insists.
A large move that is taken was insisted on by three values in a row, each close to the one before it
(`large_move_insisted`); the last of them may be far from the first (`three_need_not_agree`).

Rates are rationals here, and the limit is a fraction.
-/

open HidraNet.Runs

namespace HidraNet.Issuer

structure RateState where
  current : Option (ℚ × Int)
  /-- A move past the limit: the rate, and how many fetches in a row agreed with it. -/
  held : Option (ℚ × Nat)

namespace RateState

def empty : RateState := ⟨none, none⟩

end RateState

def RATE_AGREE : Nat := 3

def Moved (maxChange new old : ℚ) : Prop := |new / old - 1| > maxChange

instance (maxChange new old : ℚ) : Decidable (Moved maxChange new old) :=
  inferInstanceAs (Decidable (maxChange < |new / old - 1|))

def agreed (maxChange new : ℚ) (held : Option (ℚ × Nat)) : Nat :=
  match held with
  | some (h, n) => if Moved maxChange new h then 1 else n + 1
  | none => 1

/-- Takes a freshly fetched rate in, or holds it: says which. -/
def offer (maxChange : ℚ) (s : RateState) (new : ℚ) (now : Int) : Bool × RateState :=
  match s.current with
  | none => (true, { s with current := some (new, now) })
  | some (cur, _) =>
    if ¬ Moved maxChange new cur then (true, ⟨some (new, now), none⟩)
    else if agreed maxChange new s.held ≥ RATE_AGREE then (true, ⟨some (new, now), none⟩)
    else (false, { s with held := some (new, agreed maxChange new s.held) })

namespace RateState

def step (maxChange : ℚ) (s : RateState) (o : ℚ × Int) : RateState := (offer maxChange s o.1 o.2).2

variable {maxChange : ℚ} {s : RateState} {o : ℚ × Int} {offers : List (ℚ × Int)} {c : ℚ × Int}

theorem step_first (h : s.current = none) : s.step maxChange o = { s with current := some o } := by
  unfold step offer
  rw [h]

theorem step_small (h : s.current = some c) (hsmall : ¬ Moved maxChange o.1 c.1) :
    s.step maxChange o = ⟨some o, none⟩ := by
  unfold step offer
  rw [h]
  dsimp only
  rw [if_pos hsmall]

theorem step_taken (h : s.current = some c) (hagreed : agreed maxChange o.1 s.held ≥ RATE_AGREE) :
    s.step maxChange o = ⟨some o, none⟩ := by
  unfold step offer
  rw [h]
  dsimp only
  rw [if_pos hagreed, ite_id]

theorem step_held (h : s.current = some c) (hlarge : Moved maxChange o.1 c.1)
    (hagreed : ¬ agreed maxChange o.1 s.held ≥ RATE_AGREE) :
    s.step maxChange o = ⟨some c, some (o.1, agreed maxChange o.1 s.held)⟩ := by
  unfold step offer
  rw [h]
  dsimp only
  rw [if_neg (not_not.2 hlarge), if_neg hagreed]

/-! ### What a held rate says of the fetches -/

def after (maxChange : ℚ) (offers : List (ℚ × Int)) : RateState := run (step maxChange) empty offers

theorem after_snoc : after maxChange (offers ++ [o]) = (after maxChange offers).step maxChange o := run_append ..

/-- What is held is the last fetch, or the second of the last two, which agree; they moved from the rate that was
current before them and still is. -/
def Insisted (maxChange : ℚ) (offers : List (ℚ × Int)) : Option (ℚ × Nat) → Prop
  | none => True
  | some held => ∃ c, (after maxChange offers).current = some c ∧
      ((∃ before a, offers = before ++ [a] ∧ held = (a.1, 1) ∧ Moved maxChange a.1 c.1 ∧
        (after maxChange before).current = some c) ∨
      ∃ before a b, offers = before ++ [a, b] ∧ held = (b.1, 2) ∧ Moved maxChange a.1 c.1 ∧
        Moved maxChange b.1 c.1 ∧ ¬ Moved maxChange b.1 a.1 ∧ (after maxChange before).current = some c ∧
        (after maxChange (before ++ [a])).current = some c)

theorem agreed_cases (hs : Insisted maxChange offers (after maxChange offers).held) :
    agreed maxChange o.1 (after maxChange offers).held = 1 ∨
    (∃ before a, offers = before ++ [a] ∧ agreed maxChange o.1 (after maxChange offers).held = 2 ∧
      ¬ Moved maxChange o.1 a.1 ∧ ∃ c, (after maxChange offers).current = some c ∧ Moved maxChange a.1 c.1 ∧
      (after maxChange before).current = some c) ∨
    ∃ before a b, offers = before ++ [a, b] ∧ agreed maxChange o.1 (after maxChange offers).held = 3 ∧
      ¬ Moved maxChange b.1 a.1 ∧ ¬ Moved maxChange o.1 b.1 ∧ ∃ c, (after maxChange offers).current = some c ∧
      Moved maxChange a.1 c.1 ∧ Moved maxChange b.1 c.1 ∧ (after maxChange before).current = some c ∧
      (after maxChange (before ++ [a])).current = some c := by
  cases hheld : (after maxChange offers).held with
  | none => exact .inl rfl
  | some held =>
    rw [hheld] at hs
    obtain ⟨c, hc, ⟨before, a, hoffers, rfl, hmoved, hbefore⟩ |
      ⟨before, a, b, hoffers, rfl, hmoved, hmoved', hagree, hbefore, hbetween⟩⟩ := hs
    · by_cases ho : Moved maxChange o.1 a.1
      · exact .inl (if_pos ho)
      · exact .inr (.inl ⟨before, a, hoffers, if_neg ho, ho, c, hc, hmoved, hbefore⟩)
    · by_cases ho : Moved maxChange o.1 b.1
      · exact .inl (if_pos ho)
      · exact .inr (.inr ⟨before, a, b, hoffers, if_neg ho, hagree, ho, c, hc, hmoved, hmoved', hbefore, hbetween⟩)

theorem insisted_after (offers : List (ℚ × Int)) : Insisted maxChange offers (after maxChange offers).held := by
  induction offers using List.reverseRecOn with
  | nil => trivial
  | append_singleton offers o ih =>
    rw [after_snoc]
    cases hcur : (after maxChange offers).current with
    | none =>
      rw [step_first hcur]
      cases hheld : (after maxChange offers).held with
      | none => trivial
      | some held =>
        rw [hheld] at ih
        obtain ⟨c, hc, -⟩ := ih
        rw [hcur] at hc
        cases hc
    | some c =>
      by_cases hlarge : Moved maxChange o.1 c.1
      · by_cases hagreed : agreed maxChange o.1 (after maxChange offers).held ≥ RATE_AGREE
        · rw [step_taken hcur hagreed]
          trivial
        · have hstep := step_held hcur hlarge hagreed
          have hnow : (after maxChange (offers ++ [o])).current = some c := by
            rw [after_snoc, hstep]
          rw [hstep]
          rcases agreed_cases (o := o) ih with h | ⟨before, a, rfl, h, hao, c', hc', hmoved, hbefore⟩ |
            ⟨_, _, _, _, h, _⟩
          · rw [h]
            exact ⟨c, hnow, .inl ⟨offers, o, rfl, rfl, hlarge, hcur⟩⟩
          · obtain rfl : c = c' := Option.some.inj (hcur.symm.trans hc')
            rw [h]
            refine ⟨c, hnow, .inr ⟨before, a, o, ?_, rfl, hmoved, hlarge, hao, hbefore, hcur⟩⟩
            rw [List.append_assoc]
            rfl
          · exact absurd (h.ge) hagreed
      · rw [step_small hcur hlarge]
        trivial

theorem current_mem (h : (after maxChange offers).current = some c) : c ∈ offers := by
  induction offers using List.reverseRecOn with
  | nil => cases h
  | append_singleton offers o ih =>
    rw [after_snoc] at h
    have htaken : some o = some c → c ∈ offers ++ [o] := by
      intro ho
      rw [Option.some.inj ho]
      exact List.mem_append_right _ (List.mem_singleton.2 rfl)
    cases hcur : (after maxChange offers).current with
    | none =>
      rw [step_first hcur] at h
      exact htaken h
    | some cur =>
      by_cases hlarge : Moved maxChange o.1 cur.1
      · by_cases hagreed : agreed maxChange o.1 (after maxChange offers).held ≥ RATE_AGREE
        · rw [step_taken hcur hagreed] at h
          exact htaken h
        · rw [step_held hcur hlarge hagreed] at h
          exact List.mem_append_left _ (ih (hcur.trans h))
      · rw [step_small hcur hlarge] at h
        exact htaken h

/-! ### Large moves -/

theorem not_moved_self (hmax : 0 < maxChange) {r : ℚ} (hr : 0 < r) : ¬ Moved maxChange r r := by
  unfold Moved
  rw [div_self hr.ne', sub_self, abs_zero]
  exact not_lt.2 hmax.le

/-- A large move that is taken is the third of three fetches in a row, each a large move from the rate that was current
all the while, and each close to the one before it. -/
theorem large_move_insisted (hmax : 0 < maxChange) (hpos : ∀ r ∈ offers, 0 < r.1) {new : ℚ × Int}
    (hcur : (after maxChange offers).current = some c)
    (hnew : (after maxChange (offers ++ [o])).current = some new) (hlarge : Moved maxChange new.1 c.1) :
    ∃ before a b, offers = before ++ [a, b] ∧ new = o ∧
      (Moved maxChange a.1 c.1 ∧ Moved maxChange b.1 c.1 ∧ Moved maxChange o.1 c.1) ∧
      (¬ Moved maxChange b.1 a.1 ∧ ¬ Moved maxChange o.1 b.1) ∧
      (after maxChange before).current = some c ∧ (after maxChange (before ++ [a])).current = some c := by
  rw [after_snoc] at hnew
  by_cases hmoved : Moved maxChange o.1 c.1
  · by_cases hagreed : agreed maxChange o.1 (after maxChange offers).held ≥ RATE_AGREE
    · rw [step_taken hcur hagreed] at hnew
      obtain rfl := Option.some.inj hnew
      rcases agreed_cases (o := o) (insisted_after offers) with h | ⟨_, _, _, h, _⟩ |
        ⟨before, a, b, hoffers, -, hab, hbo, c', hc', ha, hb, hbefore, hbetween⟩
      · rw [h] at hagreed
        exact absurd hagreed (by decide)
      · rw [h] at hagreed
        exact absurd hagreed (by decide)
      · obtain rfl : c = c' := Option.some.inj (hcur.symm.trans hc')
        exact ⟨before, a, b, hoffers, rfl, ⟨ha, hb, hmoved⟩, ⟨hab, hbo⟩, hbefore, hbetween⟩
    · -- what is held leaves the rate as it was
      rw [step_held hcur hmoved hagreed] at hnew
      obtain rfl := Option.some.inj hnew
      exact absurd hlarge (not_moved_self hmax (hpos c (current_mem hcur)))
  · rw [step_small hcur hmoved] at hnew
    obtain rfl := Option.some.inj hnew
    exact absurd hlarge hmoved

theorem large_move_insisted_third : ∃ before a b, ([(1, 0), (2, 1), (5 / 2, 2)] : List (ℚ × Int)) = before ++ [a, b] ∧
    ¬ Moved (3 / 10) b.1 a.1 ∧ ¬ Moved (3 / 10) (31 / 10) b.1 := by
  have hafter : (after (3 / 10) [(1, 0), (2, 1), (5 / 2, 2)]).current = some (1, 0) ∧
      (after (3 / 10) [(1, 0), (2, 1), (5 / 2, 2), (31 / 10, 3)]).current = some (31 / 10, 3) ∧
      Moved (3 / 10) (31 / 10) 1 := by
    decide +kernel
  obtain ⟨before, a, b, hoffers, -, -, hclose, -⟩ :=
    large_move_insisted (by norm_num) (by simp) hafter.1 hafter.2.1 hafter.2.2
  exact ⟨before, a, b, hoffers, hclose⟩

/-- The rate goes from 1 to 3.1, and the first of the three that insisted was 2. -/
theorem three_need_not_agree : ¬ ∀ (maxChange : ℚ) (offers : List (ℚ × Int)) (o c new : ℚ × Int),
    0 < maxChange → maxChange < 1 → (∀ r ∈ offers ++ [o], 0 < r.1) → (after maxChange offers).current = some c →
    (after maxChange (offers ++ [o])).current = some new → Moved maxChange new.1 c.1 →
    ∃ before a b, offers = before ++ [a, b] ∧
      (Moved maxChange a.1 c.1 ∧ Moved maxChange b.1 c.1 ∧ Moved maxChange o.1 c.1) ∧
      (¬ Moved maxChange b.1 a.1 ∧ ¬ Moved maxChange o.1 b.1 ∧ ¬ Moved maxChange o.1 a.1) := by
  intro h
  have hafter : (after (3 / 10) [(1, 0), (2, 1), (5 / 2, 2)]).current = some (1, 0) ∧
      (after (3 / 10) [(1, 0), (2, 1), (5 / 2, 2), (31 / 10, 3)]).current = some (31 / 10, 3) ∧
      Moved (3 / 10) (31 / 10) 1 ∧ Moved (3 / 10) (31 / 10) 2 := by
    decide +kernel
  obtain ⟨before, a, b, hoffers, -, -, -, hfar⟩ := h (3 / 10) [(1, 0), (2, 1), (5 / 2, 2)] (31 / 10, 3) (1, 0)
    (31 / 10, 3) (by norm_num) (by norm_num) (by simp) hafter.1 hafter.2.1 hafter.2.2.1
  have ha : a = (2, 1) := by
    have hlist : ([(1, 0)] : List (ℚ × Int)) ++ [(2, 1), (5 / 2, 2)] = before ++ [a, b] := hoffers
    have htail := (List.append_inj' hlist rfl).2
    injection htail with htail
    exact htail.symm
  rw [ha] at hfar
  exact hfar hafter.2.2.2

end RateState

end HidraNet.Issuer
