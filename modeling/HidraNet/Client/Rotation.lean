import HidraNet.Client.Picks

/-!
# Another identity

A rotation replaces the exit in use by another that an entry may be paired with, and the entry by another that goes with
that exit; where there is none it keeps what is in use.  Among them, the nodes a circuit can be built with now come
first.  What it chooses is two hops that may be built (`chooseRotation_keeps`), and it fails only where no exit has an
entry.
-/

open HidraNet.Core

namespace HidraNet.Client

/-- The circuit in use: its entries, none for one hop, and its exits, in the order given. -/
structure Active where
  entries : List Invite
  currentEntry : Nat
  pool : List Invite
  current : Fin pool.length
  allowSameOperator : Bool
  inUse : entries ≠ [] → currentEntry < entries.length

/-- What is chosen, and the exits passed over, each with why. -/
structure Rotation (a : Active) where
  exit : Fin a.pool.length
  entry : Nat
  skipped : List String

/-- The ones `ok` marks, when there are any, else all of them. -/
def preferring {α : Type} (list : List α) (ok : α → Bool) : List α :=
  let preferred := list.filter ok
  if preferred.isEmpty then list else preferred

def drawnOr {α : Type} (otherwise : α) (list : List α) (draws : List (Except String Nat)) : Option (Except String α) :=
  if list.isEmpty then some (.ok otherwise) else (index list.length draws).map fun drawn => drawn.map list.get

namespace Active

variable (a : Active)

def ok (e : Fin a.entries.length) (x : Fin a.pool.length) : Bool :=
  !sameNode (a.entries.get e) (a.pool.get x) && entryCanReach (a.entries.get e) (a.pool.get x) &&
    pairAllowed (a.entries.get e) (a.pool.get x) a.allowSameOperator

def exits : List (Fin a.pool.length) := List.finRange a.pool.length

def others : List (Fin a.pool.length) := a.exits.filter fun x => x ≠ a.current

def reachable (x : Fin a.pool.length) : Bool := (List.finRange a.entries.length).any fun e => a.ok e x

def apart (x : Fin a.pool.length) : Bool :=
  (List.finRange a.entries.length).any fun e => !sameNode (a.entries.get e) (a.pool.get x)

def skip (x : Fin a.pool.length) : String :=
  let relayable := (List.finRange a.entries.length).any fun e =>
    !sameNode (a.entries.get e) (a.pool.get x) && entryCanReach (a.entries.get e) (a.pool.get x)
  let why := if relayable then "run by the entry's operator" else "the entry cannot ask it for admission"
  (a.pool.get x).nodeName ++ " (" ++ why ++ ")"

/-- The exits one after the other: those with an entry, and what is said of those without.  One that is the same node as
every entry is not spoken of. -/
def sortOut : List (Fin a.pool.length) → List (Fin a.pool.length) × List String
  | [] => ([], [])
  | x :: xs =>
    let (otherExits, skipped) := sortOut xs
    if a.reachable x then (x :: otherExits, skipped)
    else if a.apart x then (otherExits, a.skip x :: skipped)
    else (otherExits, skipped)

/-- An entry to go with the exit: another one, or the one in use. -/
def chooseEntry (usable : Invite → Bool → Bool) (next : Fin a.pool.length) (draws : List (Except String Nat)) :
    Option (Except String Nat) :=
  let entriesOk := (List.finRange a.entries.length).filter fun e => a.ok e next
  let others := preferring (entriesOk.filter fun e => e.val ≠ a.currentEntry) fun e => usable (a.entries.get e) false
  if !others.isEmpty then (index others.length draws).map fun drawn => drawn.map fun i => (others.get i : Nat)
  else if entriesOk.any fun e => e.val = a.currentEntry then some (.ok a.currentEntry)
  else some (.error SAME_OPERATOR_REFUSAL)

/-- The next pair for a new identity, with what is drawn for the exit and for the entry. -/
def chooseRotation (usable : Invite → Bool → Bool) (exitDraws entryDraws : List (Except String Nat)) :
    Option (Except String (Rotation a)) :=
  if a.entries.isEmpty then
    let others := preferring a.others fun x => usable (a.pool.get x) false
    (drawnOr a.current others exitDraws).map fun drawn => drawn.map fun next => ⟨next, 0, []⟩
  else
    let (otherExits, skipped) := a.sortOut a.others
    match drawnOr a.current (preferring otherExits fun x => usable (a.pool.get x) true) exitDraws with
    | none => none
    | some (.error why) => some (.error why)
    | some (.ok next) =>
      (a.chooseEntry usable next entryDraws).map fun drawn => drawn.map fun nextEntry => ⟨next, nextEntry, skipped⟩

/-! ### What is chosen -/

/-- One hop: another exit where there is one, and a usable one where there is one. -/
structure OneHopKept (usable : Invite → Bool → Bool) (r : Rotation a) : Prop where
  exit_iff : r.exit ≠ a.current ↔ ∃ x, x ≠ a.current
  exitUsable : (∃ x, x ≠ a.current ∧ usable (a.pool.get x) false = true) → usable (a.pool.get r.exit) false = true
  skipped : r.skipped = []

/-- Two hops: two nodes that may be paired; another exit if one has an entry, another entry if one goes with the exit,
and usable ones where there are. -/
structure TwoHopsKept (usable : Invite → Bool → Bool) (r : Rotation a) (e : Fin a.entries.length) : Prop where
  entry : r.entry = e
  apart : sameNode (a.entries.get e) (a.pool.get r.exit) = false
  operators : pairAllowed (a.entries.get e) (a.pool.get r.exit) a.allowSameOperator = true
  reach : entryCanReach (a.entries.get e) (a.pool.get r.exit) = true
  exit_iff : r.exit ≠ a.current ↔ ∃ x, x ≠ a.current ∧ ∃ e, a.ok e x = true
  exitUsable : (∃ x, x ≠ a.current ∧ (∃ e, a.ok e x = true) ∧ usable (a.pool.get x) true = true) →
    usable (a.pool.get r.exit) true = true
  entryOther : (∃ e : Fin a.entries.length, (e : Nat) ≠ a.currentEntry ∧ a.ok e r.exit = true) →
    r.entry ≠ a.currentEntry
  entryUsable : (∃ e : Fin a.entries.length, (e : Nat) ≠ a.currentEntry ∧ a.ok e r.exit = true ∧
    usable (a.entries.get e) false = true) → usable (a.entries.get e) false = true
  skipped : r.skipped = (a.others.filter fun x => !a.reachable x && a.apart x).map a.skip

def Kept (usable : Invite → Bool → Bool) (r : Rotation a) : Prop :=
  (a.entries = [] → a.OneHopKept usable r) ∧ (a.entries ≠ [] → ∃ e, a.TwoHopsKept usable r e)

end Active

/-! ### Preferences and draws -/

section

variable {α : Type} {list : List α} {ok : α → Bool} {otherwise x : α} {draws : List (Except String Nat)}

theorem mem_of_mem_preferring (h : x ∈ preferring list ok) : x ∈ list := by
  unfold preferring at h
  dsimp only at h
  split at h
  · exact h
  · exact (List.mem_filter.1 h).1

theorem ok_of_mem_preferring (h : x ∈ preferring list ok) (hsome : ∃ y ∈ list, ok y = true) : ok x = true := by
  unfold preferring at h
  dsimp only at h
  obtain ⟨y, hy, hok⟩ := hsome
  have hmem : y ∈ list.filter ok := List.mem_filter.2 ⟨hy, hok⟩
  rw [if_neg] at h
  · exact (List.mem_filter.1 h).2
  · rw [List.isEmpty_iff]
    exact List.ne_nil_of_mem hmem

theorem preferring_eq_nil : preferring list ok = [] ↔ list = [] := by
  unfold preferring
  dsimp only
  by_cases hfilter : list.filter ok = []
  · rw [hfilter]
    simp
  · rw [if_neg (by rwa [List.isEmpty_iff])]
    constructor
    · intro h
      exact absurd h hfilter
    · rintro rfl
      rfl

def Unlucky (draws : List (Except String Nat)) : Option (Except String α) → Prop
  | none => ∃ n, 0 < n ∧ ∀ d ∈ draws, ∃ r, d = .ok r ∧ zone n ≤ r
  | some (.error _) => ∃ e, Except.error e ∈ draws
  | some (.ok _) => False

theorem Unlucky.map {β : Type} {drawn : Option (Except String α)} (h : Unlucky draws drawn) (f : α → β) :
    Unlucky draws (drawn.map fun d => d.map f) := by
  rcases drawn with _ | _ | x
  · exact h
  · exact h
  · exact h.elim

theorem index_map_cases {β : Type} {n : Nat} (draws : List (Except String Nat)) (h : 0 < n) (f : Fin n → β) :
    Unlucky draws ((index n draws).map fun drawn => drawn.map f) ∨
      ∃ i, ((index n draws).map fun drawn => drawn.map f) = some (.ok (f i)) := by
  have hcases := index_cases h draws
  cases hdrawn : index n draws with
  | none =>
    rw [hdrawn] at hcases
    exact .inl ⟨n, h, hcases⟩
  | some drawn =>
    rw [hdrawn] at hcases
    cases drawn with
    | error e => exact .inl hcases
    | ok i => exact .inr ⟨i, rfl⟩

theorem drawnOr_cases (otherwise : α) (list : List α) (draws : List (Except String Nat)) :
    Unlucky draws (drawnOr otherwise list draws) ∨ (list = [] ∧ drawnOr otherwise list draws = some (.ok otherwise)) ∨
      ∃ x ∈ list, drawnOr otherwise list draws = some (.ok x) := by
  unfold drawnOr
  by_cases hnil : list = []
  · rw [if_pos (by rwa [List.isEmpty_iff])]
    exact .inr (.inl ⟨hnil, rfl⟩)
  · rw [if_neg (by rwa [List.isEmpty_iff])]
    rcases index_map_cases draws (List.length_pos_iff.2 hnil) list.get with hbad | ⟨i, hi⟩
    · exact .inl hbad
    · exact .inr (.inr ⟨list.get i, List.get_mem .., hi⟩)

end

namespace Active

variable {a : Active} {x : Fin a.pool.length} (usable : Invite → Bool → Bool)

/-! ### The exits -/

theorem mem_others : x ∈ a.others ↔ x ≠ a.current := by
  unfold others exits
  rw [List.mem_filter, decide_eq_true_eq]
  exact and_iff_right (List.mem_finRange x)

theorem reachable_iff : a.reachable x = true ↔ ∃ e, a.ok e x = true := by
  unfold reachable
  rw [List.any_eq_true]
  constructor
  · rintro ⟨e, -, h⟩
    exact ⟨e, h⟩
  · rintro ⟨e, h⟩
    exact ⟨e, List.mem_finRange e, h⟩

theorem sortOut_eq (xs : List (Fin a.pool.length)) :
    a.sortOut xs = (xs.filter a.reachable, (xs.filter fun x => !a.reachable x && a.apart x).map a.skip) := by
  induction xs with
  | nil => rfl
  | cons x xs ih =>
    unfold sortOut
    rw [ih]
    cases hreach : a.reachable x with
    | true => simp [hreach]
    | false =>
      cases hapart : a.apart x with
      | true => simp [hreach, hapart]
      | false => simp [hreach, hapart]

theorem mem_reachable : x ∈ a.others.filter a.reachable ↔ x ≠ a.current ∧ ∃ e, a.ok e x = true := by
  rw [List.mem_filter, mem_others, reachable_iff]

/-! ### The entry -/

theorem chooseEntry_cases (next : Fin a.pool.length) (draws : List (Except String Nat)) :
    Unlucky draws (a.chooseEntry usable next draws) ∨
    ((¬ ∃ e, a.ok e next = true) ∧ a.chooseEntry usable next draws = some (.error SAME_OPERATOR_REFUSAL)) ∨
    ∃ e : Fin a.entries.length, a.chooseEntry usable next draws = some (.ok e) ∧ a.ok e next = true ∧
      ((∃ e : Fin a.entries.length, (e : Nat) ≠ a.currentEntry ∧ a.ok e next = true) → (e : Nat) ≠ a.currentEntry) ∧
      ((∃ e : Fin a.entries.length, (e : Nat) ≠ a.currentEntry ∧ a.ok e next = true ∧
        usable (a.entries.get e) false = true) → usable (a.entries.get e) false = true) := by
  have hok : ∀ e, e ∈ (List.finRange a.entries.length).filter (fun e => a.ok e next) ↔ a.ok e next = true := by
    intro e
    rw [List.mem_filter]
    exact and_iff_right (List.mem_finRange e)
  unfold chooseEntry
  dsimp only
  generalize (List.finRange a.entries.length).filter (fun e => a.ok e next) = entriesOk at hok
  have hother : ∀ e, e ∈ entriesOk.filter (fun e => decide (e.val ≠ a.currentEntry)) ↔
      (e : Nat) ≠ a.currentEntry ∧ a.ok e next = true := by
    intro e
    rw [List.mem_filter, hok, decide_eq_true_eq, and_comm]
  generalize entriesOk.filter (fun e => decide (e.val ≠ a.currentEntry)) = others at hother
  by_cases hnone : preferring others (fun e => usable (a.entries.get e) false) = []
  · have hempty : ¬ ∃ e : Fin a.entries.length, (e : Nat) ≠ a.currentEntry ∧ a.ok e next = true := by
      rintro ⟨e, he⟩
      have hmem := (hother e).2 he
      rw [preferring_eq_nil.1 hnone] at hmem
      cases hmem
    rw [hnone, if_neg (by simp)]
    by_cases hcurrent : (entriesOk.any fun e => decide (e.val = a.currentEntry)) = true
    · rw [if_pos hcurrent]
      obtain ⟨e, he, heq⟩ := List.any_eq_true.1 hcurrent
      rw [decide_eq_true_eq] at heq
      refine .inr (.inr ⟨e, by rw [heq], (hok e).1 he, fun h => absurd h hempty, ?_⟩)
      rintro ⟨e', hne, hok', -⟩
      exact absurd ⟨e', hne, hok'⟩ hempty
    · rw [if_neg hcurrent]
      refine .inr (.inl ⟨?_, rfl⟩)
      rintro ⟨e, he⟩
      by_cases heq : (e : Nat) = a.currentEntry
      · exact hcurrent (List.any_eq_true.2 ⟨e, (hok e).2 he, decide_eq_true heq⟩)
      · exact hempty ⟨e, heq, he⟩
  · rw [if_pos (by simpa using hnone)]
    rcases index_map_cases draws (List.length_pos_iff.2 hnone) fun i =>
        ((preferring others fun e => usable (a.entries.get e) false).get i : Nat) with hbad | ⟨i, hi⟩
    · exact .inl hbad
    · have hmem := List.get_mem (preferring others fun e => usable (a.entries.get e) false) i
      have he := (hother _).1 (mem_of_mem_preferring hmem)
      refine .inr (.inr ⟨_, hi, he.2, fun _ => he.1, ?_⟩)
      rintro ⟨e', hne, hok', husable⟩
      have hmarked := ok_of_mem_preferring hmem ⟨e', (hother e').2 ⟨hne, hok'⟩, husable⟩
      exact hmarked

/-! ### The pair -/

theorem kept_single (hone : a.entries = []) (exitDraws entryDraws : List (Except String Nat)) :
    Unlucky exitDraws (a.chooseRotation usable exitDraws entryDraws) ∨
      ∃ r, a.chooseRotation usable exitDraws entryDraws = some (.ok r) ∧ a.OneHopKept usable r := by
  unfold chooseRotation
  rw [if_pos (by rwa [List.isEmpty_iff])]
  dsimp only
  rcases drawnOr_cases a.current (preferring a.others fun x => usable (a.pool.get x) false) exitDraws with
    hbad | ⟨hnone, hnext⟩ | ⟨next, hmem, hnext⟩
  · exact .inl (hbad.map _)
  · have hempty : ¬ ∃ x, x ≠ a.current := by
      rintro ⟨x, hx⟩
      have hmem := mem_others.2 hx
      rw [preferring_eq_nil.1 hnone] at hmem
      cases hmem
    rw [hnext]
    refine .inr ⟨⟨a.current, 0, []⟩, rfl, ⟨?_, ?_, rfl⟩⟩
    · exact ⟨fun h => absurd rfl h, fun h => absurd h hempty⟩
    · rintro ⟨x, hx, -⟩
      exact absurd ⟨x, hx⟩ hempty
  · have hother := mem_others.1 (mem_of_mem_preferring hmem)
    rw [hnext]
    refine .inr ⟨⟨next, 0, []⟩, rfl, ⟨?_, ?_, rfl⟩⟩
    · exact ⟨fun h => ⟨next, h⟩, fun _ => hother⟩
    · rintro ⟨x, hx, husable⟩
      have hmarked := ok_of_mem_preferring hmem ⟨x, mem_others.2 hx, husable⟩
      exact hmarked

theorem kept_pair (htwo : a.entries ≠ []) (exitDraws entryDraws : List (Except String Nat)) :
    Unlucky exitDraws (a.chooseRotation usable exitDraws entryDraws) ∨
    Unlucky entryDraws (a.chooseRotation usable exitDraws entryDraws) ∨
    ((∀ e x, a.ok e x = false) ∧
      a.chooseRotation usable exitDraws entryDraws = some (.error SAME_OPERATOR_REFUSAL)) ∨
    ∃ r e, a.chooseRotation usable exitDraws entryDraws = some (.ok r) ∧ a.TwoHopsKept usable r e := by
  unfold chooseRotation
  rw [if_neg (by rwa [List.isEmpty_iff]), sortOut_eq]
  dsimp only
  have hdrawn := drawnOr_cases a.current
    (preferring (a.others.filter a.reachable) fun x => usable (a.pool.get x) true) exitDraws
  by_cases hunlucky : Unlucky exitDraws (drawnOr a.current
      (preferring (a.others.filter a.reachable) fun x => usable (a.pool.get x) true) exitDraws)
  · left
    rcases hnext : drawnOr a.current
        (preferring (a.others.filter a.reachable) fun x => usable (a.pool.get x) true) exitDraws with _ | _ | next
    · rw [hnext] at hunlucky
      exact hunlucky
    · rw [hnext] at hunlucky
      exact hunlucky
    · rw [hnext] at hunlucky
      exact hunlucky.elim
  -- what the exit that was drawn is: another one with an entry, or the one in use where there is no other
  obtain ⟨next, hnext, hexit, husable⟩ : ∃ next, drawnOr a.current
      (preferring (a.others.filter a.reachable) fun x => usable (a.pool.get x) true) exitDraws = some (.ok next) ∧
      ((next ≠ a.current ∧ ∃ e, a.ok e next = true) ∨
        next = a.current ∧ ¬ ∃ x, x ≠ a.current ∧ ∃ e, a.ok e x = true) ∧
      ((∃ x, x ≠ a.current ∧ (∃ e, a.ok e x = true) ∧ usable (a.pool.get x) true = true) →
        usable (a.pool.get next) true = true) := by
    rcases hdrawn with hbad | ⟨hnone, hnext⟩ | ⟨next, hmem, hnext⟩
    · exact absurd hbad hunlucky
    · have hempty : ¬ ∃ x, x ≠ a.current ∧ ∃ e, a.ok e x = true := by
        rintro ⟨x, hx⟩
        have hmem := mem_reachable.2 hx
        rw [preferring_eq_nil.1 hnone] at hmem
        cases hmem
      refine ⟨a.current, hnext, .inr ⟨rfl, hempty⟩, ?_⟩
      rintro ⟨x, hx, he, -⟩
      exact absurd ⟨x, hx, he⟩ hempty
    · refine ⟨next, hnext, .inl (mem_reachable.1 (mem_of_mem_preferring hmem)), ?_⟩
      rintro ⟨x, hx, he, hu⟩
      have hmarked := ok_of_mem_preferring hmem ⟨x, mem_reachable.2 ⟨hx, he⟩, hu⟩
      exact hmarked
  have hiff : next ≠ a.current ↔ ∃ x, x ≠ a.current ∧ ∃ e, a.ok e x = true := by
    rcases hexit with hother | ⟨hsame, hempty⟩
    · exact ⟨fun _ => ⟨next, hother⟩, fun _ => hother.1⟩
    · exact ⟨fun h => absurd hsame h, fun h => absurd h hempty⟩
  rw [hnext]
  dsimp only
  rcases chooseEntry_cases usable next entryDraws with hbad | ⟨hnone, hfail⟩ |
    ⟨e, hchosen, hok, hother, hentry⟩
  · exact .inr (.inl (hbad.map _))
  · refine .inr (.inr (.inl ⟨?_, by rw [hfail]; rfl⟩))
    rcases hexit with ⟨-, hsome⟩ | ⟨hsame, hempty⟩
    · exact absurd hsome hnone
    · intro e x
      rw [← Bool.not_eq_true]
      intro hpair
      by_cases hx : x = a.current
      · exact hnone ⟨e, by rw [hsame, ← hx]; exact hpair⟩
      · exact hempty ⟨x, hx, e, hpair⟩
  · have hrules := hok
    unfold ok at hrules
    rw [Bool.and_eq_true, Bool.and_eq_true, Bool.not_eq_true'] at hrules
    refine .inr (.inr (.inr ⟨⟨next, e, _⟩, e, by rw [hchosen]; rfl, ?_⟩))
    exact ⟨rfl, hrules.1.1, hrules.2, hrules.1.2, hiff, husable, hother, hentry, rfl⟩

/-- What a rotation may come to: none yet while the draws for the exit or those for the entry are turned down; a failure
where no entry goes with any exit, or no randomness came; and otherwise a pair that keeps the rules. -/
def Rotates (a : Active) (usable : Invite → Bool → Bool) (exitDraws entryDraws : List (Except String Nat)) :
    Option (Except String (Rotation a)) → Prop
  | none => ∃ n, 0 < n ∧ ((∀ d ∈ exitDraws, ∃ r, d = .ok r ∧ zone n ≤ r) ∨
      ∀ d ∈ entryDraws, ∃ r, d = .ok r ∧ zone n ≤ r)
  | some (.error _) => (a.entries ≠ [] ∧ ∀ e x, a.ok e x = false) ∨ ∃ why, Except.error why ∈ exitDraws ++ entryDraws
  | some (.ok r) => a.Kept usable r

/-- A rotation keeps the rules and changes what it can, whatever is drawn and whichever nodes are usable. -/
theorem chooseRotation_keeps (a : Active) (usable : Invite → Bool → Bool)
    (exitDraws entryDraws : List (Except String Nat)) :
    Rotates a usable exitDraws entryDraws (a.chooseRotation usable exitDraws entryDraws) := by
  have hexit : ∀ o : Option (Except String (Rotation a)), Unlucky exitDraws o →
      Rotates a usable exitDraws entryDraws o := by
    rintro (_ | why | r) h
    · obtain ⟨n, hn, hdown⟩ := h
      exact ⟨n, hn, .inl hdown⟩
    · obtain ⟨e, he⟩ := h
      exact .inr ⟨e, List.mem_append_left _ he⟩
    · exact h.elim
  have hentry : ∀ o : Option (Except String (Rotation a)), Unlucky entryDraws o →
      Rotates a usable exitDraws entryDraws o := by
    rintro (_ | why | r) h
    · obtain ⟨n, hn, hdown⟩ := h
      exact ⟨n, hn, .inr hdown⟩
    · obtain ⟨e, he⟩ := h
      exact .inr ⟨e, List.mem_append_right _ he⟩
    · exact h.elim
  by_cases hone : a.entries = []
  · rcases kept_single usable hone exitDraws entryDraws with hbad | ⟨r, hr, hkept⟩
    · exact hexit _ hbad
    · rw [hr]
      exact ⟨fun _ => hkept, fun htwo => absurd hone htwo⟩
  · rcases kept_pair usable hone exitDraws entryDraws with hbad | hbad | ⟨hnone, hfail⟩ | ⟨r, e, hr, hkept⟩
    · exact hexit _ hbad
    · exact hentry _ hbad
    · rw [hfail]
      exact .inl ⟨hone, hnone⟩
    · rw [hr]
      exact ⟨fun hnil => absurd hnil hone, fun _ => ⟨e, hkept⟩⟩

/-- Two nodes of two operators; the entry is the node of the exit that is not in use. -/
private def entryIsExit : Active :=
  let here : Invite := ⟨"fra", "AQEBAQEBAQEBAQEBAQEBAQEBAQEBAQEBAQEBAQEBAQE=", "203.0.113.20:51820", "10.77.0.3/16",
    none, 172818433, ["0.0.0.0/0"], 1420, 25, some "one", none, none, none, none, true, [], none⟩
  let there : Invite := ⟨"fin", "AgICAgICAgICAgICAgICAgICAgICAgICAgICAgICAgI=", "203.0.113.10:51820", "10.78.0.3/16",
    none, 172818433, ["0.0.0.0/0"], 1420, 25, some "two", none, none, none, none, true, [], none⟩
  ⟨[there], 0, [here, there], ⟨0, by decide⟩, false, fun _ => Nat.one_pos⟩

/-- An exit that no entry goes with need not be named among those passed over: it may be the only entry itself. -/
theorem not_all_skipped_named : ¬ ∀ (a : Active) (usable : Invite → Bool → Bool)
    (exitDraws entryDraws : List (Except String Nat)) (r : Rotation a), a.entries ≠ [] →
      a.chooseRotation usable exitDraws entryDraws = some (.ok r) →
      ∀ x, x ≠ a.current → (∀ e, a.ok e x = false) → ∃ why, (a.pool.get x).nodeName ++ why ∈ r.skipped := by
  intro h
  have hchosen : entryIsExit.chooseRotation (fun _ _ => true) [] [] = some (.ok ⟨⟨0, by decide⟩, 0, []⟩) := by
    have hnone : entryIsExit.sortOut entryIsExit.others = ([], []) := by decide +kernel
    have hentry : entryIsExit.chooseEntry (fun _ _ => true) entryIsExit.current [] = some (.ok 0) := by decide +kernel
    unfold chooseRotation
    rw [if_neg (by decide), hnone]
    show (entryIsExit.chooseEntry (fun _ _ => true) entryIsExit.current []).map _ = _
    rw [hentry]
    rfl
  obtain ⟨why, hwhy⟩ := h entryIsExit _ [] [] _ (by decide) hchosen ⟨1, by decide⟩ (by decide) (by decide +kernel)
  cases hwhy

end Active

end HidraNet.Client
