import HidraNet.Issuer.Chain

/-!
# The quorum of the chain's RPCs

Every RPC is asked about a transaction, and what more than half of them say is taken: a payment that they read alike, or
a refusal for the same reason (`tally_majority`).  An RPC that does not answer counts for neither.
-/

namespace HidraNet.Issuer

/-- What one RPC said about a transaction. -/
inductive Verdict where
  | paid (p : Payment)
  /-- It answered, and the answer is no payment, for this reason. -/
  | rejected (r : Rejected)
  | unreachable
deriving DecidableEq

/-- What a set of RPC answers says, taken together. -/
inductive Quorum where
  | paid (p : Payment)
  | refused (r : Rejected)
  /-- Neither: too many RPCs unreachable, or they disagree. -/
  | undecided
deriving DecidableEq

namespace Verdict

def paid? : Verdict → Option Payment
  | .paid p => some p
  | _ => none

def rejected? : Verdict → Option Rejected
  | .rejected r => some r
  | _ => none

end Verdict

def agree (verdicts : List Verdict) (v : Verdict) : Nat := (verdicts.filter (· = v)).length

def firstOf {α : Type} (kind : Verdict → Option α) (verdicts : List Verdict) (need : Nat) : Option α :=
  verdicts.findSome? fun v => if agree verdicts v ≥ need then kind v else none

/-- The quorum of some verdicts over `total` RPCs. -/
def tally (verdicts : List Verdict) (total : Nat) : Quorum :=
  let need := total / 2 + 1
  match firstOf Verdict.paid? verdicts need with
  | some p => .paid p
  | none =>
    match firstOf Verdict.rejected? verdicts need with
    | some r => .refused r
    | none => .undecided

example : tally [.paid ⟨5, 0⟩, .unreachable, .paid ⟨5, 0⟩] 3 = .paid ⟨5, 0⟩ := by decide

/-! ### More than half -/

section Majority

variable {verdicts other : List Verdict} {total need : Nat} {p : Payment} {r : Rejected} {v w : Verdict}

theorem agree_eq_count (verdicts : List Verdict) (v : Verdict) : agree verdicts v = verdicts.count v := by
  unfold agree
  rw [List.count_eq_length_filter]
  congr 2

theorem agree_pos (h : 0 < agree verdicts v) : v ∈ verdicts := by
  rw [agree_eq_count] at h
  exact List.count_pos_iff.1 h

theorem firstOf_some {α : Type} {kind : Verdict → Option α} {a : α} (h : firstOf kind verdicts need = some a) :
    ∃ v, need ≤ agree verdicts v ∧ kind v = some a := by
  obtain ⟨v, -, hv⟩ := List.exists_of_findSome?_eq_some h
  obtain ⟨hneed, hkind⟩ := Option.ite_none_right_eq_some.1 hv
  exact ⟨v, hneed, hkind⟩

theorem firstOf_none {α : Type} {kind : Verdict → Option α} (hneed : 0 < need)
    (h : firstOf kind verdicts need = none) (hv : need ≤ agree verdicts v) : kind v = none := by
  have hall := List.findSome?_eq_none_iff.1 h v (agree_pos (by omega))
  rwa [if_pos hv] at hall

theorem eq_of_agree (hlen : verdicts.length ≤ total) (hv : total / 2 + 1 ≤ agree verdicts v)
    (hw : total / 2 + 1 ≤ agree verdicts w) : v = w := by
  by_contra hne
  have hsum : agree verdicts v + agree verdicts w ≤ verdicts.length := by
    rw [agree_eq_count, agree_eq_count]
    clear hv hw hlen
    induction verdicts with
    | nil => simp
    | cons x xs ih =>
      rw [List.count_cons, List.count_cons, List.length_cons]
      by_cases hx : x = v
      · simp [hx] at ih ⊢
        rw [if_neg hne]
        omega
      · simp [hx] at ih ⊢
        split <;> omega
  omega

theorem tally_paid_iff (hlen : verdicts.length ≤ total) :
    tally verdicts total = .paid p ↔ total / 2 + 1 ≤ agree verdicts (.paid p) := by
  unfold tally
  dsimp only
  cases hpaid : firstOf Verdict.paid? verdicts (total / 2 + 1) with
  | some q =>
    obtain ⟨v, hneed, hv⟩ := firstOf_some hpaid
    obtain rfl : v = .paid q := by
      cases v with
      | paid q' => rw [Option.some.inj hv]
      | rejected => cases hv
      | unreachable => cases hv
    dsimp only
    constructor
    · intro h
      rwa [← Quorum.paid.inj h]
    · intro h
      rw [Verdict.paid.inj (eq_of_agree hlen hneed h)]
  | none =>
    have hnot : ¬ total / 2 + 1 ≤ agree verdicts (.paid p) := by
      intro h
      cases firstOf_none (Nat.succ_pos _) hpaid h
    dsimp only
    split <;> simp [hnot]

theorem tally_refused_iff (hlen : verdicts.length ≤ total) :
    tally verdicts total = .refused r ↔ total / 2 + 1 ≤ agree verdicts (.rejected r) := by
  unfold tally
  dsimp only
  cases hpaid : firstOf Verdict.paid? verdicts (total / 2 + 1) with
  | some q =>
    obtain ⟨v, hneed, hv⟩ := firstOf_some hpaid
    have hnot : ¬ total / 2 + 1 ≤ agree verdicts (.rejected r) := by
      intro h
      rw [eq_of_agree hlen hneed h] at hv
      cases hv
    simp [hnot]
  | none =>
    dsimp only
    cases hrejected : firstOf Verdict.rejected? verdicts (total / 2 + 1) with
    | some q =>
      obtain ⟨v, hneed, hv⟩ := firstOf_some hrejected
      obtain rfl : v = .rejected q := by
        cases v with
        | rejected q' => rw [Option.some.inj hv]
        | paid => cases hv
        | unreachable => cases hv
      dsimp only
      constructor
      · intro h
        rwa [← Quorum.refused.inj h]
      · intro h
        rw [Verdict.rejected.inj (eq_of_agree hlen hneed h)]
    | none =>
      have hnot : ¬ total / 2 + 1 ≤ agree verdicts (.rejected r) := by
        intro h
        cases firstOf_none (Nat.succ_pos _) hrejected h
      simp [hnot]

private theorem quorum_ext {a b : Quorum} (hpaid : ∀ p, a = .paid p ↔ b = .paid p)
    (hrefused : ∀ r, a = .refused r ↔ b = .refused r) : a = b := by
  cases a with
  | paid p => exact ((hpaid p).1 rfl).symm
  | refused r => exact ((hrefused r).1 rfl).symm
  | undecided =>
    cases b with
    | paid p => exact (hpaid p).2 rfl
    | refused r => exact (hrefused r).2 rfl
    | undecided => rfl

theorem tally_perm (hlen : verdicts.length ≤ total) (h : verdicts.Perm other) :
    tally other total = tally verdicts total := by
  have hlen' : other.length ≤ total := h.length_eq ▸ hlen
  have hagree : ∀ v, agree other v = agree verdicts v := by
    intro v
    rw [agree_eq_count, agree_eq_count, h.count_eq]
  apply quorum_ext
  · intro p
    rw [tally_paid_iff hlen', tally_paid_iff hlen, hagree]
  · intro r
    rw [tally_refused_iff hlen', tally_refused_iff hlen, hagree]

def changed (verdicts other : List Verdict) : Nat := ((verdicts.zip other).filter fun x => x.1 ≠ x.2).length

theorem agree_le_changed (hlen : other.length = verdicts.length) (h : v ∉ verdicts) :
    agree other v ≤ changed verdicts other := by
  unfold agree changed
  induction other generalizing verdicts with
  | nil => exact Nat.zero_le _
  | cons x other ih =>
    cases verdicts with
    | nil => cases hlen
    | cons y verdicts =>
      have hy : y ≠ v := fun heq => h (heq ▸ List.mem_cons_self)
      have hstep := ih (Nat.succ.inj hlen) fun hmem => h (List.mem_cons_of_mem _ hmem)
      rw [List.zip_cons_cons]
      by_cases hx : x = v
      · have hdiff : y ≠ x := hx ▸ hy
        rw [List.filter_cons_of_pos (by simpa using hx), List.filter_cons_of_pos (by simpa using hdiff),
          List.length_cons, List.length_cons]
        exact Nat.succ_le_succ hstep
      · rw [List.filter_cons_of_neg (by simpa using hx)]
        exact hstep.trans ((List.Sublist.filter _ (List.sublist_cons_self _ _)).length_le)

theorem agree_set_le (hne : v ≠ w) (i : Nat) : agree (verdicts.set i w) v ≤ agree verdicts v := by
  unfold agree
  induction verdicts generalizing i with
  | nil => simp
  | cons x xs ih =>
    cases i with
    | zero =>
      rw [List.set_cons_zero, List.filter_cons_of_neg (by simpa using hne.symm)]
      exact (List.Sublist.filter _ (List.sublist_cons_self _ _)).length_le
    | succ i =>
      rw [List.set_cons_succ, List.filter_cons, List.filter_cons]
      split
      · exact Nat.succ_le_succ (ih i)
      · exact ih i

theorem tally_set_unreachable (hlen : verdicts.length ≤ total) (i : Nat) :
    tally (verdicts.set i .unreachable) total = tally verdicts total ∨
      tally (verdicts.set i .unreachable) total = .undecided := by
  have hlen' : (verdicts.set i .unreachable).length ≤ total := by rwa [List.length_set]
  cases h : tally (verdicts.set i .unreachable) total with
  | paid p =>
    have hagree := (tally_paid_iff hlen').1 h
    exact Or.inl ((tally_paid_iff hlen).2 (hagree.trans (agree_set_le (by simp) i))).symm
  | refused r =>
    have hagree := (tally_refused_iff hlen').1 h
    exact Or.inl ((tally_refused_iff hlen).2 (hagree.trans (agree_set_le (by simp) i))).symm
  | undecided => exact Or.inr rfl

/-- What more than half of the RPCs say is taken, and nothing else.  The order of the verdicts makes no difference; where
all refuse for one reason no half of them that say something else instead make it a payment; and one that does not
answer after all can only take a decision back. -/
theorem tally_majority (hlen : verdicts.length ≤ total) :
    (∀ p, tally verdicts total = .paid p ↔ total < 2 * verdicts.count (.paid p)) ∧
    (∀ r, tally verdicts total = .refused r ↔ total < 2 * verdicts.count (.rejected r)) ∧
    (tally verdicts total = .undecided ↔ (∀ p, ¬ total < 2 * verdicts.count (.paid p)) ∧
      ∀ r, ¬ total < 2 * verdicts.count (.rejected r)) ∧
    (∀ other, verdicts.Perm other → tally other total = tally verdicts total) ∧
    (∀ r other, (∀ v ∈ verdicts, v = .rejected r) → other.length = verdicts.length →
      changed verdicts other ≤ total / 2 → ∀ p, tally other total ≠ .paid p) ∧
    ∀ i, tally (verdicts.set i .unreachable) total = tally verdicts total ∨
      tally (verdicts.set i .unreachable) total = .undecided := by
  have hhalf : ∀ v, total / 2 + 1 ≤ agree verdicts v ↔ total < 2 * verdicts.count v := by
    intro v
    rw [agree_eq_count]
    omega
  have hpaid : ∀ p, tally verdicts total = .paid p ↔ total < 2 * verdicts.count (.paid p) := fun p => by
    rw [tally_paid_iff hlen, hhalf]
  have hrefused : ∀ r, tally verdicts total = .refused r ↔ total < 2 * verdicts.count (.rejected r) := fun r => by
    rw [tally_refused_iff hlen, hhalf]
  refine ⟨hpaid, hrefused, ?_, fun other => tally_perm hlen, ?_, tally_set_unreachable hlen⟩
  · simp only [← hpaid, ← hrefused]
    cases tally verdicts total <;> simp
  · intro r other hall hother hchanged p h
    have hagree := (tally_paid_iff (hother ▸ hlen)).1 h
    have hnone : Verdict.paid p ∉ verdicts := fun hmem => by cases hall _ hmem
    have hle := agree_le_changed hother hnone
    omega

theorem tally_majority_three :
    let verdicts : List Verdict := [.paid ⟨5, 0⟩, .unreachable, .paid ⟨5, 0⟩]
    (∀ p, tally verdicts 3 = .paid p ↔ 3 < 2 * verdicts.count (.paid p)) ∧
    (∀ r, tally verdicts 3 = .refused r ↔ 3 < 2 * verdicts.count (.rejected r)) ∧
    (tally verdicts 3 = .undecided ↔ (∀ p, ¬ 3 < 2 * verdicts.count (.paid p)) ∧
      ∀ r, ¬ 3 < 2 * verdicts.count (.rejected r)) ∧
    (∀ other, verdicts.Perm other → tally other 3 = tally verdicts 3) ∧
    (∀ r other, (∀ v ∈ verdicts, v = .rejected r) → other.length = verdicts.length →
      changed verdicts other ≤ 3 / 2 → ∀ p, tally other 3 ≠ .paid p) ∧
    ∀ i, tally (verdicts.set i .unreachable) 3 = tally verdicts 3 ∨
      tally (verdicts.set i .unreachable) 3 = .undecided :=
  tally_majority (by decide)

end Majority

end HidraNet.Issuer
