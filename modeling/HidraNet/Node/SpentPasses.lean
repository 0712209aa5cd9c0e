import Mathlib

/-!
# Spent passes

The tags of the passes a node has taken, each with the end of its issuer key's validity.  Taking a pass appends a line
to the journal, or, when the journal ends in a torn line, rewrites the snapshot; here is what that leaves in memory,
with any of the writes failing.

A tag is remembered when `record` succeeds and not remembered when it fails, but for one case: on a torn journal the
tag is put down before the snapshot is written, and stays when that fails (`record_cases`).
-/

namespace HidraNet.Node

/-- What each write of `record` fails with, if it does. -/
structure RecordFaults where
  opening : Option String
  writing : Option String
  snapshot : Option String
deriving DecidableEq

def RecordFaults.none : RecordFaults := ⟨.none, .none, .none⟩

structure SpentPasses where
  tags : List (String × Int)
  journal : Nat
  journalTorn : Bool
deriving DecidableEq

def COMPACT_AFTER : Nat := 4096

namespace SpentPasses

def contains (s : SpentPasses) (tag : String) : Bool := s.tags.any (·.1 == tag)

def insert (s : SpentPasses) (tag : String) (validUntil : Int) : SpentPasses :=
  { s with tags := s.tags.filter (·.1 ≠ tag) ++ [(tag, validUntil)] }

def save (s : SpentPasses) (fails : Option String) : SpentPasses × Except String Unit :=
  match fails with
  | some e => (s, .error e)
  | none => ({ s with journal := 0, journalTorn := false }, .ok ())

/-- Writes a pass down as spent. -/
def record (s : SpentPasses) (tag : String) (validUntil : Int) (f : RecordFaults) :
    SpentPasses × Except String Unit :=
  if s.journalTorn then (s.insert tag validUntil).save f.snapshot
  else
    match f.opening with
    | some e => (s, .error e)
    | none =>
      match f.writing with
      | some e => ({ s with journalTorn := true }, .error e)
      | none => ({ s.insert tag validUntil with journal := s.journal + 1 }, .ok ())

/-- Takes back a pass written down as spent. -/
def forget (s : SpentPasses) (tag : String) (fails : Option String) : SpentPasses × Except String Unit :=
  match s.tags.find? (·.1 == tag) with
  | none => (s, .ok ())
  | some (_, validUntil) =>
    match ({ s with tags := s.tags.filter (·.1 ≠ tag) }).save fails with
    | (s, .error e) => (s.insert tag validUntil, .error e)
    | (s, .ok _) => (s, .ok ())

def needsCompacting (s : SpentPasses) : Bool := s.journal ≥ COMPACT_AFTER || s.journalTorn

def prune (s : SpentPasses) (now : Int) : SpentPasses := { s with tags := s.tags.filter (now ≤ ·.2) }

/-! ### What each operation leaves -/

variable {s : SpentPasses} {tag tag' : String} {validUntil : Int}

theorem contains_iff : s.contains tag = true ↔ ∃ v, (tag, v) ∈ s.tags := by
  unfold contains
  simp only [List.any_eq_true, beq_iff_eq]
  constructor
  · rintro ⟨⟨t, v⟩, hmem, rfl⟩
    exact ⟨v, hmem⟩
  · rintro ⟨v, hmem⟩
    exact ⟨(tag, v), hmem, rfl⟩

theorem contains_insert (s : SpentPasses) (tag : String) (validUntil : Int) :
    (s.insert tag validUntil).contains tag = true :=
  contains_iff.2 ⟨validUntil, List.mem_append_right _ (List.mem_singleton_self _)⟩

theorem contains_insert_iff : (s.insert tag validUntil).contains tag' = true ↔ tag' = tag ∨ s.contains tag' = true := by
  simp only [contains_iff, insert, List.mem_append, List.mem_filter, List.mem_singleton, Prod.mk.injEq]
  by_cases h : tag' = tag <;> simp [h]

/-- The journal is emptied by a save that holds. -/
theorem save_cases (s : SpentPasses) (fails : Option String) :
    (∃ e, fails = some e ∧ s.save fails = (s, .error e)) ∨
      (fails = none ∧ s.save fails = ({ s with journal := 0, journalTorn := false }, .ok ())) := by
  cases fails with
  | some e => exact Or.inl ⟨e, rfl, rfl⟩
  | none => exact Or.inr ⟨rfl, rfl⟩

def Recordable (s : SpentPasses) (f : RecordFaults) : Prop :=
  if s.journalTorn then f.snapshot = none else f.opening = none ∧ f.writing = none

/-- A pass is written down, or it is not, or, on a torn journal, it is not but its tag is kept. -/
theorem record_cases (s : SpentPasses) (tag : String) (validUntil : Int) (f : RecordFaults) :
    (s.Recordable f ∧
      ∃ s', s'.tags = (s.insert tag validUntil).tags ∧ s.record tag validUntil f = (s', .ok ())) ∨
    (¬ s.Recordable f ∧ s.journalTorn = false ∧
      ∃ e s', s'.tags = s.tags ∧ s.record tag validUntil f = (s', .error e)) ∨
    (¬ s.Recordable f ∧ s.journalTorn = true ∧ ∃ e, s.record tag validUntil f = (s.insert tag validUntil, .error e)) := by
  unfold record Recordable
  by_cases htorn : s.journalTorn = true
  · simp only [if_pos htorn]
    rcases save_cases (s.insert tag validUntil) f.snapshot with ⟨e, he, hs⟩ | ⟨hnone, hs⟩ <;> rw [hs]
    · exact Or.inr (Or.inr ⟨by simp [he], htorn, e, rfl⟩)
    · exact Or.inl ⟨hnone, { s.insert tag validUntil with journal := 0, journalTorn := false }, rfl, rfl⟩
  · simp only [if_neg htorn]
    have htorn' := eq_false_of_ne_true htorn
    cases hopening : f.opening with
    | some e => exact Or.inr (Or.inl ⟨by simp, htorn', e, s, rfl, rfl⟩)
    | none =>
      cases hwriting : f.writing with
      | some e => exact Or.inr (Or.inl ⟨by simp, htorn', e, { s with journalTorn := true }, rfl, rfl⟩)
      | none =>
        exact Or.inl ⟨⟨rfl, rfl⟩, { s.insert tag validUntil with journal := s.journal + 1 }, rfl, rfl⟩

/-- A tag that could not be forgotten is still there. -/
theorem forget_cases (s : SpentPasses) (tag : String) (fails : Option String) :
    (∃ s', s'.tags = s.tags.filter (·.1 ≠ tag) ∧ s.forget tag fails = (s', .ok ()) ∧
      (s.contains tag = true → fails = none)) ∨
    (∃ e v s', (tag, v) ∈ s.tags ∧ s'.tags = s.tags.filter (·.1 ≠ tag) ++ [(tag, v)] ∧
      s.forget tag fails = (s', .error e) ∧ fails = some e) := by
  unfold forget
  cases hfind : s.tags.find? (·.1 == tag) with
  | none =>
    have hnot := List.find?_eq_none.1 hfind
    refine Or.inl ⟨s, ?_, rfl, fun hc => ?_⟩
    · refine (List.filter_eq_self.2 fun t ht => ?_).symm
      simpa using hnot t ht
    · obtain ⟨v, hv⟩ := contains_iff.1 hc
      exact absurd (beq_self_eq_true tag) (hnot (tag, v) hv)
  | some t =>
    obtain ⟨t, v⟩ := t
    have ht : t = tag := by simpa using List.find?_some hfind
    subst ht
    dsimp only
    rcases save_cases ({ s with tags := s.tags.filter (·.1 ≠ t) }) fails with ⟨e, he, hs⟩ | ⟨hnone, hs⟩ <;> rw [hs]
    · refine Or.inr ⟨e, v, SpentPasses.insert { s with tags := s.tags.filter (·.1 ≠ t) } t v,
        List.mem_of_find?_eq_some hfind, ?_, rfl, he⟩
      unfold insert
      simp only [List.filter_filter, Bool.and_self]
    · exact Or.inl ⟨{ s with tags := s.tags.filter (·.1 ≠ t), journal := 0, journalTorn := false }, rfl, rfl,
        fun _ => hnone⟩

end SpentPasses

end HidraNet.Node
