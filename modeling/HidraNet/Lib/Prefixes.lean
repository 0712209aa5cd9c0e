import HidraNet.Lib.Packets

/-!
# Ranges in ranges

A range of addresses lies in another that is no longer and begins as it does (`Within`): then so do its addresses
(`inAny_of_within`).
-/

namespace HidraNet.Packets

def Within (width : Nat) (p q : Prefix) : Prop :=
  q.len ≤ p.len ∧ p.len ≤ width ∧ p.addr / 2 ^ (width - q.len) = q.addr / 2 ^ (width - q.len)

instance decidableWithin (width : Nat) (p q : Prefix) : Decidable (Within width p q) :=
  inferInstanceAs (Decidable (_ ∧ _ ∧ _))

variable {width a : Nat} {p q : Prefix} {ps qs : List Prefix}

theorem inAny_iff : inAny width ps a = true ↔
    ∃ p ∈ ps, a / 2 ^ (width - p.len) = p.addr / 2 ^ (width - p.len) := by
  unfold inAny
  simp only [List.any_eq_true, decide_eq_true_eq]

theorem Within.begins (h : Within width p q) (ha : a / 2 ^ (width - p.len) = p.addr / 2 ^ (width - p.len)) :
    a / 2 ^ (width - q.len) = q.addr / 2 ^ (width - q.len) := by
  obtain ⟨hle, hwidth, hbegins⟩ := h
  have hsplit : width - q.len = (width - p.len) + (p.len - q.len) := by omega
  have hdiv (n : Nat) : n / 2 ^ (width - q.len) = n / 2 ^ (width - p.len) / 2 ^ (p.len - q.len) := by
    rw [hsplit, Nat.pow_add, Nat.div_div_eq_div_mul]
  rw [hdiv a, ha, ← hdiv p.addr, hbegins]

theorem inAny_of_within (hwithin : ∀ p ∈ ps, ∃ q ∈ qs, Within width p q) (h : inAny width ps a = true) :
    inAny width qs a = true := by
  obtain ⟨p, hp, ha⟩ := inAny_iff.1 h
  obtain ⟨q, hq, hpq⟩ := hwithin p hp
  exact inAny_iff.2 ⟨q, hq, hpq.begins ha⟩

theorem inAny_filter (out : List Prefix) (h : inAny width ps a = true) (hout : inAny width out a = false) :
    inAny width (ps.filter (· ∉ out)) a = true := by
  obtain ⟨p, hp, ha⟩ := inAny_iff.1 h
  refine inAny_iff.2 ⟨p, List.mem_filter.2 ⟨hp, ?_⟩, ha⟩
  rw [decide_eq_true_eq]
  intro hmem
  have hin := inAny_iff.2 ⟨p, hmem, ha⟩
  rw [hout] at hin
  exact Bool.false_ne_true hin

end HidraNet.Packets
