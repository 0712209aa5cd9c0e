import Mathlib

/-!
# Marked once, done once

Something is to be done for a key at most once.  The key is marked before, a marked key is refused, and a mark is
taken back when nothing was done after all; but a mark is remembered only until it is past (`past u t`: past at the
time `t`), so that the marks do not grow forever.

`Once past marks done t` says that no key is done twice, and that the mark of each is remembered or past.  Every
change of the marks keeps it, but marking a key done so long ago that its mark is past (`Once.mark` asks that it is
not).
-/

namespace HidraNet.Marks

variable {K U T : Type*} {past : U → T → Prop} {marks marks' done done' : List (K × U)} {t t' : T} {k : K} {u : U}

structure Once (past : U → T → Prop) (marks done : List (K × U)) (t : T) : Prop where
  nodup : (done.map Prod.fst).Nodup
  kept : ∀ d ∈ done, d ∈ marks ∨ past d.2 t

theorem once_nil (past : U → T → Prop) (marks : List (K × U)) (t : T) : Once past marks [] t :=
  ⟨List.nodup_nil, fun d hd => by cases hd⟩

theorem Once.later (h : Once past marks done t) (hpast : ∀ u, past u t → past u t')
    (hkept : ∀ m ∈ marks, ¬ past m.2 t' → m ∈ marks') : Once past marks' done t' := by
  refine ⟨h.nodup, fun d hd => ?_⟩
  by_cases hp : past d.2 t'
  · exact Or.inr hp
  · rcases h.kept d hd with hm | hm
    · exact Or.inl (hkept d hm hp)
    · exact absurd (hpast _ hm) hp

/-- A key without a mark is marked, unless it was done and its mark is past. -/
theorem Once.mark (h : Once past marks done t) (hmarks : ∀ m ∈ marks, m.1 ≠ k)
    (hdone : ∀ d ∈ done, d.1 = k → ¬ past d.2 t) : Once past (marks ++ [(k, u)]) (done ++ [(k, u)]) t := by
  have hnew : ∀ d ∈ done, d.1 ≠ k := by
    intro d hd hk
    rcases h.kept d hd with hm | hp
    · exact hmarks d hm hk
    · exact hdone d hd hk hp
  constructor
  · rw [List.map_append, List.nodup_append]
    refine ⟨h.nodup, List.nodup_singleton _, fun a ha b hb => ?_⟩
    obtain ⟨d, hd, rfl⟩ := List.mem_map.1 ha
    rw [List.map_singleton, List.mem_singleton] at hb
    rw [hb]
    exact hnew d hd
  · intro d hd
    rcases List.mem_append.1 hd with hd | hd
    · exact (h.kept d hd).imp_left (List.mem_append_left _)
    · exact Or.inl (List.mem_append_right _ hd)

theorem Once.fewer (h : Once past marks done t) (hsub : done'.Subperm done) : Once past marks done' t := by
  obtain ⟨l, hperm, hsub⟩ := hsub
  constructor
  · exact ((hperm.map _).nodup_iff).1 (h.nodup.sublist (hsub.map _))
  · intro d hd
    exact h.kept d (hsub.subset (hperm.mem_iff.2 hd))

theorem Once.undo [DecidableEq K] (h : Once past marks ((k, u) :: done) t) :
    Once past (marks.filter (·.1 ≠ k)) done t := by
  have hnodup := h.nodup
  rw [List.map_cons, List.nodup_cons] at hnodup
  refine ⟨hnodup.2, fun d hd => ?_⟩
  have hne : d.1 ≠ k := by
    intro hk
    exact hnodup.1 (List.mem_map.2 ⟨d, hd, hk⟩)
  rcases h.kept d (List.mem_cons_of_mem _ hd) with hm | hp
  · exact Or.inl (List.mem_filter.2 ⟨hm, by simpa using hne⟩)
  · exact Or.inr hp

end HidraNet.Marks
