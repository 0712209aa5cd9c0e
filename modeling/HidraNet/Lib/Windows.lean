import Mathlib

/-!
# Where a pattern stands first

`windows(n).position` of a pattern in a list.  A list cut before the pattern's end does not have it
(`position_take_none`).
-/

namespace HidraNet.Windows

variable {α : Type*} [DecidableEq α] {pat l front : List α} {i n : Nat}

def position (pat : List α) : List α → Option Nat
  | [] => none
  | x :: xs => if pat <+: x :: xs then some 0 else (position pat xs).map (· + 1)

theorem position_some (h : position pat l = some i) : ∃ front rest, l = front ++ (pat ++ rest) ∧ front.length = i := by
  induction l generalizing i with
  | nil => cases h
  | cons x xs ih =>
    rw [position] at h
    split at h
    · rename_i hpre
      obtain ⟨rest, hrest⟩ := hpre
      obtain rfl := Option.some.inj h
      exact ⟨[], rest, hrest.symm, rfl⟩
    · obtain ⟨j, hj, rfl⟩ := Option.map_eq_some_iff.1 h
      obtain ⟨front, rest, rfl, rfl⟩ := ih hj
      exact ⟨x :: front, rest, rfl, rfl⟩

theorem position_le (h : position pat l = some i) : i + pat.length ≤ l.length := by
  obtain ⟨front, rest, rfl, rfl⟩ := position_some h
  simp only [List.length_append]
  omega

omit [DecidableEq α] in
private theorem prefix_of_take {n : Nat} (h : pat <+: l.take n) : pat <+: l := h.trans (List.take_prefix n l)

theorem position_take_none (h : position pat l = some i) (hn : n < i + pat.length) : position pat (l.take n) = none := by
  induction l generalizing i n with
  | nil => cases h
  | cons x xs ih =>
    cases n with
    | zero => rfl
    | succ n =>
      rw [position] at h
      rw [List.take_succ_cons, position]
      split at h
      · obtain rfl := Option.some.inj h
        have hlong : ¬ pat <+: x :: xs.take n := by
          intro hpre
          have hlen := hpre.length_le
          rw [List.length_cons, List.length_take] at hlen
          omega
        have hrest : position pat (xs.take n) = none := by
          cases hpos : position pat (xs.take n) with
          | none => rfl
          | some j =>
            have hle := position_le hpos
            rw [List.length_take] at hle
            omega
        rw [if_neg hlong, hrest]
        rfl
      · rename_i hnot
        obtain ⟨j, hj, rfl⟩ := Option.map_eq_some_iff.1 h
        have hpre : ¬ pat <+: x :: xs.take n := fun hpre => hnot (prefix_of_take (n := n + 1) hpre)
        rw [if_neg hpre, ih hj (by omega)]
        rfl

theorem position_isSome (hne : pat ≠ []) (h : pat <:+: l) : (position pat l).isSome = true := by
  induction l with
  | nil => exact absurd (List.eq_nil_of_infix_nil h) hne
  | cons x xs ih =>
    rw [position]
    by_cases hpre : pat <+: x :: xs
    · rw [if_pos hpre, Option.isSome_some]
    · rw [if_neg hpre, Option.isSome_map]
      exact ih ((List.infix_cons_iff.1 h).resolve_left hpre)

theorem position_append (h : ∀ x ∈ front, pat.head? ≠ some x) (hne : pat ≠ []) (l : List α) :
    position pat (front ++ l) = (position pat l).map (· + front.length) := by
  induction front with
  | nil => simp
  | cons x front ih =>
    obtain ⟨hx, hfront⟩ := List.forall_mem_cons.1 h
    have hnot : ¬ pat <+: x :: (front ++ l) := by
      rintro ⟨rest, hrest⟩
      obtain ⟨p, ps, rfl⟩ := List.exists_cons_of_ne_nil hne
      exact hx (congrArg some (List.cons.inj hrest).1)
    rw [List.cons_append, position, if_neg hnot, ih hfront, Option.map_map]
    rfl

end HidraNet.Windows
