import HidraNet.Core.Pocket
import HidraNet.Lib.Base64

/-!
# Known nodes, brought up to date

A known record is replaced by a newer one where one of eight facts differs (`NodeRecord.changes`).  What the node's
software can do is not among them: a record that differs in its features only is left as it was, and no change is told
(`Pocket.upToDate_iff`).
-/

namespace HidraNet.Core

open HidraNet.Lists Text

namespace NodeRecord

/-- The facts that `changes` compares are the same. -/
structure SameListed (k r : NodeRecord) : Prop where
  name : trim k.nodeName = trim r.nodeName
  endpoint : trim k.endpoint = trim r.endpoint
  operator : k.operator = r.operator
  contact : k.contact = r.contact
  role : k.role = r.role
  admission : k.admission = r.admission
  admissionPort : k.admissionPort = r.admissionPort
  country : k.country = r.country

/-- Everything a client decides by is the same. -/
structure Agrees (k r : NodeRecord) : Prop extends SameListed k r where
  features : k.features = r.features

variable {k r : NodeRecord}

theorem Agrees.refl (r : NodeRecord) : r.Agrees r := ⟨⟨rfl, rfl, rfl, rfl, rfl, rfl, rfl, rfl⟩, rfl⟩

theorem changes_eq_nil : k.changes r = [] ↔ k.SameListed r := by
  unfold changes
  rw [List.filterMap_eq_nil_iff]
  constructor
  · intro h
    simp only [List.mem_cons, List.not_mem_nil, or_false, forall_eq_or_imp, forall_eq, ite_eq_right_iff, reduceCtorEq,
      imp_false, decide_eq_true_eq, not_not] at h
    obtain ⟨h1, h2, h3, h4, h5, h6, h7, h8⟩ := h
    exact ⟨h1, h2, h3, h4, h5, h6, h7, h8⟩
  · rintro ⟨h1, h2, h3, h4, h5, h6, h7, h8⟩
    simp [h1, h2, h3, h4, h5, h6, h7, h8]

end NodeRecord

namespace Pocket

def knownOf (p : Pocket) (r : NodeRecord) : Option NodeRecord := p.known.find? fun k => k.key = r.key

def BringsUpToDate (p : Pocket) (r k : NodeRecord) : Prop :=
  (∃ k', (p.refresh r).1.knownOf r = some k' ∧ k'.Agrees r) ∧ ((p.refresh r).2 = [] → k.Agrees r)

theorem refresh_known {p : Pocket} {r k : NodeRecord} (hk : p.knownOf r = some k) :
    (p.refresh r).2 = k.changes r ∧
      (p.refresh r).1.knownOf r = some (if (k.changes r).isEmpty then k else r) := by
  unfold refresh
  unfold knownOf at hk
  rw [hk]
  dsimp only
  split_ifs
  · exact ⟨rfl, hk⟩
  · refine ⟨rfl, ?_⟩
    unfold knownOf
    rw [find?_modifyFirst_self (fun _ _ => by simp), hk, Option.map_some]

/-- A known node is brought up to date, unless its features alone differ. -/
theorem upToDate_iff {p : Pocket} {r k : NodeRecord} (hk : p.knownOf r = some k) :
    p.BringsUpToDate r k ↔ (k.SameListed r → k.features = r.features) := by
  obtain ⟨htold, hknown⟩ := refresh_known hk
  unfold BringsUpToDate
  rw [htold, hknown, NodeRecord.changes_eq_nil]
  constructor
  · rintro ⟨-, hsilent⟩ hsame
    exact (hsilent hsame).features
  · intro h
    refine ⟨⟨_, rfl, ?_⟩, fun hsame => ⟨hsame, h hsame⟩⟩
    split_ifs with hempty
    · have hsame := NodeRecord.changes_eq_nil.1 (List.isEmpty_iff.1 hempty)
      exact ⟨hsame, h hsame⟩
    · exact NodeRecord.Agrees.refl r

private def libraries : Crypto Unit :=
  ⟨fun s => Base64.decode s.toList, id, fun _ => .ok (), fun _ => [], fun _ _ _ _ => true⟩

private def finn : NodeRecord :=
  ⟨"fin", "AAAAAAAAAAAAAAAAAAAAAAAAAAAAAAAAAAAAAAAAAAA=", "203.0.113.10:51820", none, none, some "both", some "open", none,
    some "FI", ["sessions"]⟩

/-- A node that can do more than it could. -/
theorem features_left : ¬ ∀ (p : Pocket) (r k : NodeRecord), r.validate libraries = .ok () → p.knownOf r = some k →
    p.BringsUpToDate r k := by
  intro h
  have htold := (h { empty with known := [{ finn with features := [] }] } finn { finn with features := [] }
    (by decide +kernel) (by decide)).2
  have hfeatures : [] = ["sessions"] := (htold (by decide +kernel)).features
  cases hfeatures

/-- A node that moved and can do more. -/
theorem upToDate_moved : { empty with known := [{ finn with endpoint := "203.0.113.9:51820", features := [] }] }.BringsUpToDate
    finn
    { finn with endpoint := "203.0.113.9:51820", features := [] } :=
  (upToDate_iff (by decide)).2 fun hsame => absurd hsame.endpoint (by decide)

end Pocket

end HidraNet.Core
