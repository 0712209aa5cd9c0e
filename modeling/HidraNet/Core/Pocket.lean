import HidraNet.Lib.Lists
import HidraNet.Core.Invite
import HidraNet.Core.PassIssuer

/-!
# The pocket

The nodes a client is admitted on, as entries and as exits, and the nodes it only knows of.  Nodes are told apart by
their keys and removed by their names.

Every operation keeps the pocket in order (`Pocket.Sound`): no key is held twice in one list, none is both known and
admitted, a name belongs to one key, and every invite is a valid one.
-/

namespace HidraNet.Core

open HidraNet.Lists Text

inductive Slot where
  | entry
  | exit
deriving DecidableEq

def slotName : Slot → String
  | .entry => "entry"
  | .exit => "exit"

def slotsForRole (role : Option String) : List Slot :=
  match role.map fun r => toAsciiLowercase (trim r) with
  | some "entry" => [.entry]
  | some "exit" => [.exit]
  | _ => [.entry, .exit]

structure Pocket where
  entries : List Invite
  exits : List Invite
  /-- Nodes this machine knows of but is not admitted on. -/
  known : List NodeRecord
  /-- The sequence number of the last node list imported. -/
  listSequence : Nat
  passIssuer : Option PassIssuer
deriving DecidableEq

/-- What a newer record changes about a known one. -/
def NodeRecord.changes (k r : NodeRecord) : List String :=
  ([("name", trim k.nodeName ≠ trim r.nodeName), ("endpoint", trim k.endpoint ≠ trim r.endpoint),
    ("operator", k.operator ≠ r.operator), ("contact", k.contact ≠ r.contact), ("role", k.role ≠ r.role),
    ("admission", k.admission ≠ r.admission), ("admission port", k.admissionPort ≠ r.admissionPort),
    ("country", k.country ≠ r.country)] : List (String × Bool)).filterMap fun field =>
      if field.2 then some field.1 else none

namespace Invite

/-- What a newer record changes about an invite; a name another node has is not taken. -/
def changes (i : Invite) (r : NodeRecord) (nameTaken : Bool) : List String :=
  ([("endpoint", trim i.endpoint ≠ trim r.endpoint), ("operator", i.operator ≠ r.operator),
    ("role", i.role ≠ r.role), ("country", i.country ≠ r.country),
    ("admission", i.admission ≠ r.admission ∨ i.admissionPort ≠ r.admissionPort),
    ("features", i.features ≠ r.features),
    ("name", !nameTaken ∧ trim i.nodeName ≠ trim r.nodeName)] : List (String × Bool)).filterMap fun field =>
      if field.2 then some field.1 else none

def refreshed (i : Invite) (r : NodeRecord) (nameTaken : Bool) : Invite :=
  { i with
    endpoint := if trim i.endpoint ≠ trim r.endpoint then r.endpoint else i.endpoint
    operator := r.operator
    role := r.role
    country := r.country
    admission := r.admission
    admissionPort := r.admissionPort
    features := r.features
    nodeName := if !nameTaken ∧ trim i.nodeName ≠ trim r.nodeName then r.nodeName else i.nodeName }

end Invite

namespace Pocket

def empty : Pocket := ⟨[], [], [], 0, none⟩

def admitted (p : Pocket) : List Invite := p.entries ++ p.exits

def list (p : Pocket) : Slot → List Invite
  | .entry => p.entries
  | .exit => p.exits

def setList (p : Pocket) (slot : Slot) (l : List Invite) : Pocket :=
  match slot with
  | .entry => { p with entries := l }
  | .exit => { p with exits := l }

def forgetKnown (p : Pocket) (key : String) : Pocket := { p with known := p.known.filter fun k => k.key ≠ key }

section

variable {Pk : Type} (c : Crypto Pk)

/-- Adds an invite to one list. -/
def add (p : Pocket) (slot : Slot) (invite : Invite) : Except String Unit × Pocket :=
  match invite.validate c with
  | .error e => (.error e, p)
  | .ok () =>
    let name := trim invite.nodeName
    if name = "" then (.error "the invite has no node name", p)
    else if p.admitted.any fun i => trim i.nodeName = name && i.key ≠ invite.key then
      (.error ("another node named \"" ++ name ++ "\" is already in the pocket; remove it first"), p)
    else if (p.list slot).any fun i => i.key = invite.key then
      (.error ("that node is already in the pocket as an " ++ slotName slot ++ " (same key)"), p)
    else (.ok (), (p.setList slot (p.list slot ++ [invite])).forgetKnown invite.key)

/-- A node from a signed list, not yet admitted. -/
def learn (p : Pocket) (record : NodeRecord) : Except String Unit × Pocket :=
  match record.validate c with
  | .error e => (.error e, p)
  | .ok () =>
    if p.admitted.any fun i => i.key = record.key then (.error "already admitted on this node", p)
    else if p.known.any fun k => k.key = record.key then (.error "already known", p)
    else (.ok (), { p with known := p.known ++ [record] })

end

/-- One slot brought in line with the role the list gives. -/
def followRole (key : String) (allowed : List Slot) (copy : Option Invite) (s : Pocket × List String) (slot : Slot) :
    Pocket × List String :=
  let (p, changed) := s
  let has := (p.list slot).any fun i => i.key = key
  if allowed.contains slot && !has then
    match copy with
    | some inv => (p.setList slot (p.list slot ++ [inv]), changed ++ ["now also an " ++ slotName slot])
    | none => (p, changed)
  else if !allowed.contains slot && has then
    (p.setList slot ((p.list slot).filter fun i => i.key ≠ key), changed ++ ["no longer an " ++ slotName slot])
  else (p, changed)

def nameTaken (p : Pocket) (record : NodeRecord) : Bool :=
  p.admitted.any fun i => trim i.nodeName = trim record.nodeName && i.key ≠ record.key

def updated (p : Pocket) (record : NodeRecord) (i : Invite) : Invite :=
  if i.key = record.key then i.refreshed record (p.nameTaken record) else i

def refreshAdmitted (p : Pocket) (record : NodeRecord) : Pocket × List String :=
  let changed := (p.admitted.filter fun i => i.key = record.key).flatMap fun i =>
    i.changes record (p.nameTaken record)
  ({ p with entries := p.entries.map (p.updated record), exits := p.exits.map (p.updated record) },
    (changed.insertionSort (· ≤ ·)).destutter (· ≠ ·))

/-- Brings what the pocket holds about a node up to date with its record in a newer list; what changed, in words. -/
def refresh (p : Pocket) (record : NodeRecord) : Pocket × List String :=
  match p.known.find? fun k => k.key = record.key with
  | some k =>
    let changed := k.changes record
    if changed.isEmpty then (p, changed)
    else ({ p with known := modifyFirst (fun k => k.key = record.key) (fun _ => record) p.known }, changed)
  | none =>
    if !p.admitted.any fun i => i.key = record.key then (p, [])
    else
      let (p, changed) := p.refreshAdmitted record
      if record.role.isSome then
        let copy := p.admitted.find? fun i => i.key = record.key
        [Slot.entry, Slot.exit].foldl (followRole record.key (slotsForRole record.role) copy) (p, changed)
      else (p, changed)

/-- Removes every node with that name. -/
def remove (p : Pocket) (name : String) : Pocket × Nat :=
  let entries := p.entries.filter fun i => trim i.nodeName ≠ trim name
  let exits := p.exits.filter fun i => trim i.nodeName ≠ trim name
  let known := p.known.filter fun k => trim k.nodeName ≠ trim name
  ({ p with entries := entries, exits := exits, known := known },
    p.entries.length + p.exits.length + p.known.length - entries.length - exits.length - known.length)

/-- Removes every node with that key, and says the names removed. -/
def removeByKey (p : Pocket) (key : String) : Pocket × List String :=
  let names := (p.admitted.filter fun i => i.key = trim key).map (·.nodeName) ++
    (p.known.filter fun k => k.key = trim key).map (·.nodeName)
  ({ p with
      entries := p.entries.filter fun i => i.key ≠ trim key
      exits := p.exits.filter fun i => i.key ≠ trim key
      known := p.known.filter fun k => k.key ≠ trim key },
    (names.insertionSort (· ≤ ·)).destutter (· ≠ ·))

section

variable {Pk : Type} (c : Crypto Pk)

/-- The invite in every one of these slots, as far as it goes. -/
def addEach (p : Pocket) (invite : Invite) : List Slot → Except String Unit × Pocket
  | [] => (.ok (), p)
  | slot :: slots =>
    match p.add c slot invite with
    | (.ok (), p) => p.addEach invite slots
    | (.error e, p) => (.error e, p)

/-- Puts a fresh invite for a node in place of the one it replaces, or in the slots its role allows.  An invite whose
pass was redeemed through an entry never takes the place of one redeemed from this machine's address. -/
def replace (p : Pocket) (invite : Invite) : Except String Unit × Pocket :=
  match invite.validate c with
  | .error e => (.error e, p)
  | .ok () =>
    let keepsDirect := invite.pass.isSome && invite.directPass.isNone
    let put (i : Invite) :=
      if i.key = invite.key ∧ !(keepsDirect && i.directPass.isSome) then invite else i
    let placed := p.admitted.any fun i => i.key = invite.key
    match if placed then (.ok (), { p with entries := p.entries.map put, exits := p.exits.map put })
        else p.addEach c invite (slotsForRole invite.role) with
    | (.ok (), p) => (.ok (), p.forgetKnown invite.key)
    | (.error e, p) => (.error e, p)

end

/-! ### What each operation does -/

@[simp] theorem list_setList_self (p : Pocket) (slot : Slot) (l : List Invite) : (p.setList slot l).list slot = l := by
  cases slot <;> rfl

theorem list_setList_other {p : Pocket} {slot slot' : Slot} {l : List Invite} (h : slot' ≠ slot) :
    (p.setList slot l).list slot' = p.list slot' := by
  cases slot <;> cases slot' <;> first | rfl | exact absurd rfl h

@[simp] theorem known_setList (p : Pocket) (slot : Slot) (l : List Invite) : (p.setList slot l).known = p.known := by
  cases slot <;> rfl

theorem mem_admitted {p : Pocket} {i : Invite} : i ∈ p.admitted ↔ ∃ slot, i ∈ p.list slot := by
  unfold admitted
  rw [List.mem_append]
  constructor
  · rintro (h | h)
    · exact ⟨.entry, h⟩
    · exact ⟨.exit, h⟩
  · rintro ⟨slot, h⟩
    cases slot with
    | entry => exact Or.inl h
    | exit => exact Or.inr h

theorem mem_admitted_setList {p : Pocket} {slot : Slot} {l : List Invite} {i : Invite}
    (h : i ∈ (p.setList slot l).admitted) : i ∈ l ∨ i ∈ p.admitted := by
  obtain ⟨slot', hi⟩ := mem_admitted.1 h
  by_cases hslot : slot' = slot
  · subst hslot
    rw [list_setList_self] at hi
    exact Or.inl hi
  · rw [list_setList_other hslot] at hi
    exact Or.inr (mem_admitted.2 ⟨slot', hi⟩)

section

variable {Pk : Type} {c : Crypto Pk}

theorem add_cases (p : Pocket) (slot : Slot) (invite : Invite) :
    (∃ e, p.add c slot invite = (.error e, p)) ∨
    (invite.validate c = .ok () ∧
      (∀ i ∈ p.admitted, i.key ≠ invite.key → trim i.nodeName ≠ trim invite.nodeName) ∧
      (∀ i ∈ p.list slot, i.key ≠ invite.key) ∧
      p.add c slot invite = (.ok (), (p.setList slot (p.list slot ++ [invite])).forgetKnown invite.key)) := by
  unfold add
  cases hvalid : invite.validate c with
  | error e => exact Or.inl ⟨e, rfl⟩
  | ok u =>
    cases u
    dsimp only
    split
    · exact Or.inl ⟨_, rfl⟩
    · split
      · exact Or.inl ⟨_, rfl⟩
      · rename_i hname
        split
        · exact Or.inl ⟨_, rfl⟩
        · rename_i hkey
          refine Or.inr ⟨rfl, ?_, ?_, rfl⟩
          · intro i hi hne htrim
            simp only [List.any_eq_true, not_exists, not_and, Bool.and_eq_true, decide_eq_true_eq] at hname
            exact hname i hi htrim hne
          · intro i hi heq
            simp only [List.any_eq_true, not_exists, not_and, decide_eq_true_eq] at hkey
            exact hkey i hi heq

theorem learn_cases (p : Pocket) (record : NodeRecord) :
    (∃ e, p.learn c record = (.error e, p) ∧
      (record.validate c = .ok () →
        (∃ i ∈ p.admitted, i.key = record.key) ∨ ∃ k ∈ p.known, k.key = record.key)) ∨
    (record.validate c = .ok () ∧ (∀ i ∈ p.admitted, i.key ≠ record.key) ∧ (∀ k ∈ p.known, k.key ≠ record.key) ∧
      p.learn c record = (.ok (), { p with known := p.known ++ [record] })) := by
  unfold learn
  cases hvalid : record.validate c with
  | error e =>
    refine Or.inl ⟨e, rfl, ?_⟩
    intro h
    cases h
  | ok u =>
    cases u
    dsimp only
    split
    · rename_i hadmitted
      refine Or.inl ⟨_, rfl, ?_⟩
      intro _
      left
      simpa using hadmitted
    · rename_i hadmitted
      split
      · rename_i hknown
        refine Or.inl ⟨_, rfl, ?_⟩
        intro _
        right
        simpa using hknown
      · rename_i hknown
        refine Or.inr ⟨rfl, ?_, ?_, rfl⟩
        · simpa using hadmitted
        · simpa using hknown

end

def followed (key : String) (allowed : Bool) (copy : Option Invite) (l : List Invite) : List Invite :=
  let has := l.any fun i => i.key = key
  if allowed && !has then l ++ copy.toList
  else if !allowed && has then l.filter fun i => i.key ≠ key
  else l

theorem followRole_fst (key : String) (allowed : List Slot) (copy : Option Invite) (s : Pocket × List String)
    (slot : Slot) : (followRole key allowed copy s slot).1 =
      s.1.setList slot (followed key (allowed.contains slot) copy (s.1.list slot)) := by
  obtain ⟨p, changed⟩ := s
  have hself : p.setList slot (p.list slot) = p := by cases slot <;> rfl
  unfold followRole followed
  dsimp only
  split
  · cases copy with
    | none => simp [hself]
    | some inv => simp
  · split
    · rfl
    · simp [hself]

theorem mem_followed {key : String} {allowed : Bool} {copy : Option Invite} {l : List Invite} {i : Invite}
    (h : i ∈ followed key allowed copy l) : i ∈ l ∨ copy = some i := by
  unfold followed at h
  dsimp only at h
  split at h
  · rcases List.mem_append.1 h with h | h
    · exact Or.inl h
    · right
      simpa using h
  · split at h
    · exact Or.inl (List.mem_of_mem_filter h)
    · exact Or.inl h

theorem nodup_followed {key : String} {allowed : Bool} {copy : Option Invite} {l : List Invite}
    (hcopy : ∀ i, copy = some i → i.key = key) (h : (l.map Invite.key).Nodup) :
    ((followed key allowed copy l).map Invite.key).Nodup := by
  unfold followed
  dsimp only
  split
  · rename_i hhas
    cases copy with
    | none => simpa using h
    | some inv =>
      have hkey := hcopy inv rfl
      simp only [Bool.and_eq_true, Bool.not_eq_true', List.any_eq_false, decide_eq_true_eq] at hhas
      simp only [Option.toList_some, List.map_append, List.map_cons, List.map_nil]
      rw [List.nodup_append]
      refine ⟨h, by simp, ?_⟩
      intro a ha b hb heq
      obtain ⟨i, hi, rfl⟩ := List.mem_map.1 ha
      simp only [List.mem_singleton] at hb
      exact hhas.2 i hi (by rw [heq, hb, hkey])
  · split
    · exact h.sublist (List.filter_sublist.map _)
    · exact h

def follow (p : Pocket) (key : String) (allowed : List Slot) (copy : Invite) : Pocket :=
  { p with
    entries := followed key (allowed.contains .entry) (some copy) p.entries
    exits := followed key (allowed.contains .exit) (some copy) p.exits }

@[simp] theorem list_follow (p : Pocket) (key : String) (allowed : List Slot) (copy : Invite) (slot : Slot) :
    (p.follow key allowed copy).list slot = followed key (allowed.contains slot) (some copy) (p.list slot) := by
  cases slot <;> rfl

@[simp] theorem key_updated (p : Pocket) (record : NodeRecord) (i : Invite) : (p.updated record i).key = i.key := by
  unfold updated
  split <;> rfl

@[simp] theorem list_refreshAdmitted (p : Pocket) (record : NodeRecord) (slot : Slot) :
    (p.refreshAdmitted record).1.list slot = (p.list slot).map (p.updated record) := by
  cases slot <;> rfl

theorem mem_refreshAdmitted {p : Pocket} {record : NodeRecord} {j : Invite} :
    j ∈ (p.refreshAdmitted record).1.admitted ↔ ∃ i ∈ p.admitted, p.updated record i = j := by
  have h : (p.refreshAdmitted record).1.admitted = p.admitted.map (p.updated record) := List.map_append.symm
  rw [h, List.mem_map]

theorem refresh_cases (p : Pocket) (record : NodeRecord) :
    (p.refresh record).1 = p ∨
    ((p.refresh record).1 =
      { p with known := modifyFirst (fun k => k.key = record.key) (fun _ => record) p.known }) ∨
    ((p.refresh record).1 = (p.refreshAdmitted record).1) ∨
    ∃ copy ∈ (p.refreshAdmitted record).1.admitted, copy.key = record.key ∧
      (p.refresh record).1 = (p.refreshAdmitted record).1.follow record.key (slotsForRole record.role) copy := by
  unfold refresh
  split
  · dsimp only
    split
    · exact Or.inl rfl
    · exact Or.inr (Or.inl rfl)
  · split
    · exact Or.inl rfl
    · rename_i hadmitted
      dsimp only
      split
      · right; right; right
        simp only [List.any_eq_true, Bool.not_eq_true, Bool.not_eq_false', decide_eq_true_eq] at hadmitted
        obtain ⟨i, hi, hkey⟩ := hadmitted
        cases hcopy : (p.refreshAdmitted record).1.admitted.find? fun i => i.key = record.key with
        | none =>
          have hnone := List.find?_eq_none.1 hcopy _ (mem_refreshAdmitted.2 ⟨i, hi, rfl⟩)
          simp [hkey] at hnone
        | some copy =>
          refine ⟨copy, List.mem_of_find?_eq_some hcopy, by simpa using List.find?_some hcopy, ?_⟩
          simp only [List.foldl_cons, List.foldl_nil, followRole_fst]
          rfl
      · exact Or.inr (Or.inr (Or.inl rfl))

/-! ### In order -/

section

variable {Pk : Type} {c : Crypto Pk} {p q : Pocket}

structure Sound (c : Crypto Pk) (p : Pocket) : Prop where
  lists : ∀ slot, ((p.list slot).map Invite.key).Nodup
  known : (p.known.map NodeRecord.key).Nodup
  apart : ∀ k ∈ p.known, ∀ i ∈ p.admitted, k.key ≠ i.key
  names : ∀ i ∈ p.admitted, ∀ j ∈ p.admitted, i.key ≠ j.key → trim i.nodeName ≠ trim j.nodeName
  valid : ∀ i ∈ p.admitted, i.validate c = .ok ()

theorem sound_empty : empty.Sound c := by
  constructor
  · intro slot
    cases slot <;> exact List.nodup_nil
  · exact List.nodup_nil
  all_goals simp [empty, admitted]

theorem Sound.fewer (hp : p.Sound c) (hlists : ∀ slot, ((q.list slot).map Invite.key).Nodup)
    (hknown : q.known.Sublist p.known) (hadmitted : ∀ i ∈ q.admitted, i ∈ p.admitted) : q.Sound c where
  lists := hlists
  known := hp.known.sublist (hknown.map _)
  apart k hk i hi := hp.apart k (hknown.subset hk) i (hadmitted i hi)
  names i hi j hj := hp.names i (hadmitted i hi) j (hadmitted j hj)
  valid i hi := hp.valid i (hadmitted i hi)

theorem Sound.filter (hp : p.Sound c) (f : Invite → Bool) (g : NodeRecord → Bool) :
    ({ p with entries := p.entries.filter f, exits := p.exits.filter f, known := p.known.filter g } : Pocket).Sound c := by
  refine hp.fewer ?_ List.filter_sublist ?_
  · intro slot
    cases slot
    · exact (hp.lists .entry).sublist (List.filter_sublist.map _)
    · exact (hp.lists .exit).sublist (List.filter_sublist.map _)
  · intro i hi
    rcases List.mem_append.1 hi with hi | hi
    · exact List.mem_append_left _ (List.mem_of_mem_filter hi)
    · exact List.mem_append_right _ (List.mem_of_mem_filter hi)

theorem Sound.forgetKnown (hp : p.Sound c) (key : String) : (p.forgetKnown key).Sound c := by
  refine hp.fewer ?_ List.filter_sublist (fun _ hi => hi)
  intro slot
  cases slot
  · exact hp.lists .entry
  · exact hp.lists .exit

theorem sound_add (hp : p.Sound c) (slot : Slot) (invite : Invite) : (p.add c slot invite).2.Sound c := by
  rcases add_cases p slot invite with ⟨e, h⟩ | ⟨hvalid, hname, hkey, h⟩
  · rw [h]
    exact hp
  · rw [h]
    have hmem : ∀ i ∈ (p.setList slot (p.list slot ++ [invite])).admitted, i = invite ∨ i ∈ p.admitted := by
      intro i hi
      rcases mem_admitted_setList hi with hi | hi
      · rcases List.mem_append.1 hi with hi | hi
        · exact Or.inr (mem_admitted.2 ⟨slot, hi⟩)
        · exact Or.inl (List.mem_singleton.1 hi)
      · exact Or.inr hi
    constructor
    · intro slot'
      change (((p.setList slot (p.list slot ++ [invite])).list slot').map Invite.key).Nodup
      by_cases hslot : slot' = slot
      · subst hslot
        rw [list_setList_self, List.map_append, List.nodup_append]
        refine ⟨hp.lists slot', by simp, ?_⟩
        intro a ha b hb heq
        obtain ⟨i, hi, rfl⟩ := List.mem_map.1 ha
        simp only [List.map_cons, List.map_nil, List.mem_singleton] at hb
        exact hkey i hi (heq.trans hb)
      · rw [list_setList_other hslot]
        exact hp.lists slot'
    · exact hp.known.sublist ((List.filter_sublist.trans (by rw [known_setList])).map _)
    · intro k hk i hi
      obtain ⟨hk, hne⟩ := List.mem_filter.1 hk
      rw [known_setList] at hk
      rcases hmem i hi with rfl | hi
      · simpa using hne
      · exact hp.apart k hk i hi
    · intro i hi j hj hne
      rcases hmem i hi with rfl | hi'
      · rcases hmem j hj with rfl | hj'
        · exact absurd rfl hne
        · exact (hname j hj' (Ne.symm hne)).symm
      · rcases hmem j hj with rfl | hj'
        · exact hname i hi' hne
        · exact hp.names i hi' j hj' hne
    · intro i hi
      rcases hmem i hi with rfl | hi
      · exact hvalid
      · exact hp.valid i hi

theorem sound_learn (hp : p.Sound c) (record : NodeRecord) : (p.learn c record).2.Sound c := by
  rcases learn_cases p record with ⟨e, h, -⟩ | ⟨-, hadmitted, hknown, h⟩
  · rw [h]
    exact hp
  · rw [h]
    constructor
    · exact hp.lists
    · simp only [List.map_append, List.map_cons, List.map_nil]
      rw [List.nodup_append]
      refine ⟨hp.known, by simp, ?_⟩
      intro a ha b hb heq
      obtain ⟨k, hk, rfl⟩ := List.mem_map.1 ha
      simp only [List.mem_singleton] at hb
      exact hknown k hk (heq.trans hb)
    · intro k hk i hi
      rcases List.mem_append.1 hk with hk | hk
      · exact hp.apart k hk i hi
      · rw [List.mem_singleton.1 hk]
        exact (hadmitted i hi).symm
    · exact hp.names
    · exact hp.valid

theorem nodup_refreshAdmitted (hp : p.Sound c) (record : NodeRecord) (slot : Slot) :
    (((p.refreshAdmitted record).1.list slot).map Invite.key).Nodup := by
  have hkeys : Invite.key ∘ p.updated record = Invite.key := by
    funext i
    simp
  rw [list_refreshAdmitted, List.map_map, hkeys]
  exact hp.lists slot

theorem sound_refreshAdmitted (hp : p.Sound c) {record : NodeRecord} (hrecord : record.validate c = .ok ()) :
    (p.refreshAdmitted record).1.Sound c := by
  -- only the invites of the record's key change
  have hother : ∀ i : Invite, i.key ≠ record.key → p.updated record i = i := by
    intro i hi
    unfold updated
    rw [if_neg hi]
  have hname : ∀ i ∈ p.admitted, ∀ j ∈ p.admitted, i.key = record.key → j.key ≠ record.key →
      trim (p.updated record i).nodeName ≠ trim j.nodeName := by
    intro i hi j hj hkey hne
    unfold updated
    rw [if_pos hkey]
    unfold Invite.refreshed
    dsimp only
    split
    · rename_i htaken
      intro heq
      have hfree : p.nameTaken record = false := by
        have := htaken.1
        simpa using this
      unfold nameTaken at hfree
      rw [List.any_eq_false] at hfree
      exact hfree j hj (by simp [heq, hne])
    · exact hp.names i hi j hj (fun h => hne (h ▸ hkey))
  constructor
  · exact nodup_refreshAdmitted hp record
  · exact hp.known
  · intro k hk j hj
    obtain ⟨i, hi, rfl⟩ := mem_refreshAdmitted.1 hj
    rw [key_updated]
    exact hp.apart k hk i hi
  · intro x hx y hy hne
    obtain ⟨i, hi, rfl⟩ := mem_refreshAdmitted.1 hx
    obtain ⟨j, hj, rfl⟩ := mem_refreshAdmitted.1 hy
    simp only [key_updated] at hne
    by_cases hi' : i.key = record.key
    · have hj' : j.key ≠ record.key := fun h => hne (hi'.trans h.symm)
      rw [hother j hj']
      exact hname i hi j hj hi' hj'
    · rw [hother i hi']
      by_cases hj' : j.key = record.key
      · exact (hname j hj i hi hj' hi').symm
      · rw [hother j hj']
        exact hp.names i hi j hj hne
  · intro j hj
    obtain ⟨i, hi, rfl⟩ := mem_refreshAdmitted.1 hj
    by_cases hi' : i.key = record.key
    · unfold updated
      rw [if_pos hi']
      refine Invite.validate_of_record (hp.valid i hi) hrecord rfl ?_ rfl rfl rfl rfl rfl
      unfold Invite.refreshed
      dsimp only
      split
      · exact Or.inr rfl
      · exact Or.inl rfl
    · rw [hother i hi']
      exact hp.valid i hi

theorem sound_refresh (hp : p.Sound c) {record : NodeRecord} (hrecord : record.validate c = .ok ()) :
    (p.refresh record).1.Sound c := by
  rcases refresh_cases p record with h | h | h | ⟨copy, hcopy, hkey, h⟩
  · rw [h]
    exact hp
  · rw [h]
    have hkeys := map_modifyFirst (p := fun k : NodeRecord => k.key = record.key) (f := fun _ => record)
      NodeRecord.key (l := p.known) (by simp +contextual)
    refine ⟨hp.lists, ?_, ?_, hp.names, hp.valid⟩
    · dsimp only
      rw [hkeys]
      exact hp.known
    · intro k hk i hi
      have hk' := List.mem_map_of_mem (f := NodeRecord.key) hk
      dsimp only at hk'
      rw [hkeys] at hk'
      obtain ⟨k', hk', heq⟩ := List.mem_map.1 hk'
      rw [← heq]
      exact hp.apart k' hk' i hi
  · rw [h]
    exact sound_refreshAdmitted hp hrecord
  · rw [h]
    have hupdated := sound_refreshAdmitted hp hrecord
    refine hupdated.fewer ?_ (List.Sublist.refl _) ?_
    · intro slot
      rw [list_follow]
      exact nodup_followed (fun i hi => by cases hi; exact hkey) (hupdated.lists slot)
    · intro i hi
      obtain ⟨slot, hi⟩ := mem_admitted.1 hi
      rw [list_follow] at hi
      rcases mem_followed hi with hi | hi
      · exact mem_admitted.2 ⟨slot, hi⟩
      · cases hi
        exact hcopy

theorem sound_remove (hp : p.Sound c) (name : String) : (p.remove name).1.Sound c := hp.filter _ _

theorem sound_removeByKey (hp : p.Sound c) (key : String) : (p.removeByKey key).1.Sound c := hp.filter _ _

theorem sound_addEach (hp : p.Sound c) (invite : Invite) (slots : List Slot) :
    (p.addEach c invite slots).2.Sound c := by
  induction slots generalizing p with
  | nil => exact hp
  | cons slot slots ih =>
    have hadd := sound_add hp slot invite
    unfold addEach
    split
    · rename_i q h
      rw [h] at hadd
      exact ih hadd
    · rename_i e q h
      rw [h] at hadd
      exact hadd

def Renames (p : Pocket) (invite : Invite) : Prop :=
  (∀ i ∈ p.admitted, i.key ≠ invite.key) ∨ ∃ i ∈ p.admitted, i.key = invite.key ∧ trim i.nodeName = trim invite.nodeName

instance (p : Pocket) (invite : Invite) : Decidable (p.Renames invite) := inferInstanceAs (Decidable (_ ∨ _))

private theorem sound_overwrite (hp : p.Sound c) {invite : Invite} (hvalid : invite.validate c = .ok ())
    {i₀ : Invite} (hi₀ : i₀ ∈ p.admitted) (hkey₀ : i₀.key = invite.key)
    (hname₀ : trim i₀.nodeName = trim invite.nodeName) {put : Invite → Invite}
    (hput : ∀ i, put i = i ∨ (i.key = invite.key ∧ put i = invite)) :
    ({ p with entries := p.entries.map put, exits := p.exits.map put } : Pocket).Sound c := by
  have hkeys : ∀ i, (put i).key = i.key := by
    intro i
    rcases hput i with h | ⟨hkey, h⟩
    · rw [h]
    · rw [h, hkey]
  have hmem : ∀ j ∈ p.entries.map put ++ p.exits.map put, ∃ i ∈ p.admitted, put i = j := by
    intro j hj
    rwa [← List.map_append, List.mem_map] at hj
  -- the invite itself is of the same key and name as one the pocket holds
  have hold : ∀ i ∈ p.admitted, ∃ i' ∈ p.admitted, i'.key = i.key ∧ trim i'.nodeName = trim (put i).nodeName := by
    intro i hi
    rcases hput i with h | ⟨hkey, h⟩
    · exact ⟨i, hi, rfl, by rw [h]⟩
    · exact ⟨i₀, hi₀, by rw [hkey₀, hkey], by rw [h, hname₀]⟩
  constructor
  · intro slot
    have hcomp : Invite.key ∘ put = Invite.key := funext hkeys
    have hlist : (({ p with entries := p.entries.map put, exits := p.exits.map put } : Pocket).list slot) =
        (p.list slot).map put := by
      cases slot <;> rfl
    rw [hlist, List.map_map, hcomp]
    exact hp.lists slot
  · exact hp.known
  · intro k hk j hj
    obtain ⟨i, hi, rfl⟩ := hmem j hj
    rw [hkeys]
    exact hp.apart k hk i hi
  · intro x hx y hy hne
    obtain ⟨i, hi, rfl⟩ := hmem x hx
    obtain ⟨j, hj, rfl⟩ := hmem y hy
    rw [hkeys, hkeys] at hne
    obtain ⟨i', hi', hikey, hiname⟩ := hold i hi
    obtain ⟨j', hj', hjkey, hjname⟩ := hold j hj
    rw [← hiname, ← hjname]
    exact hp.names i' hi' j' hj' (by rwa [hikey, hjkey])
  · intro j hj
    obtain ⟨i, hi, rfl⟩ := hmem j hj
    rcases hput i with h | ⟨-, h⟩
    · rw [h]
      exact hp.valid i hi
    · rw [h]
      exact hvalid

theorem sound_replace (hp : p.Sound c) {invite : Invite} (hnames : p.Renames invite) :
    (p.replace c invite).2.Sound c := by
  unfold replace
  cases hvalid : invite.validate c with
  | error e => exact hp
  | ok u =>
    cases u
    dsimp only
    by_cases hplaced : (p.admitted.any fun i => i.key = invite.key) = true
    · rw [if_pos hplaced]
      dsimp only
      apply Sound.forgetKnown
      rcases hnames with hnew | ⟨i₀, hi₀, hkey₀, hname₀⟩
      · simp only [List.any_eq_true, decide_eq_true_eq] at hplaced
        obtain ⟨i, hi, hkey⟩ := hplaced
        exact absurd hkey (hnew i hi)
      · refine sound_overwrite hp hvalid hi₀ hkey₀ hname₀ ?_
        intro i
        split
        · rename_i h
          exact Or.inr ⟨h.1, rfl⟩
        · exact Or.inl rfl
    · rw [if_neg hplaced]
      have hadd := sound_addEach hp invite (slotsForRole invite.role)
      split
      · rename_i q h
        rw [h] at hadd
        exact hadd.forgetKnown _
      · rename_i e q h
        rw [h] at hadd
        exact hadd

end

end Pocket

end HidraNet.Core
