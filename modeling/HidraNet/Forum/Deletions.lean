import HidraNet.Forum.Page

/-!
# Deleted posts

For one post id the page is a small machine (`Slot`): what is shown under the id, the keys whose tombstones wait, and
whether a deletion is kept.  The page's handling of a message is a step of the slot of the id that it is for, and of no
other (`slot_onMessage`).

Once a key's tombstone was handled its post is not shown, in whatever order they came, but for two things: while an
unsigned post is shown a tombstone is dropped and not remembered, and a deletion is saved only a little later, so that a
reload may find it missing (`InOrder`, `deletions_run`).
-/

namespace HidraNet.Forum

open Hidrarelay Maps Runs

/-! ### One id -/

/-- What the page has under one post id. -/
structure Slot where
  shown : Option (Option String)
  pending : List String
  deleted : Bool

/-- A message for the id, by what it says. -/
inductive Word where
  | wipe
  | tombstone (pk : String)
  | post (pk : String)
  | unsigned
  | noise
deriving DecidableEq

def Slot.step (s : Slot) : Word → Slot
  | .wipe => if s.shown = some none then { s with shown := none } else s
  | .tombstone pk =>
    match s.shown with
    | none => { s with pending := if pk ∈ s.pending then s.pending else s.pending ++ [pk] }
    | some pk' => if pk' = some pk then { s with shown := none, deleted := true } else s
  | .post pk =>
    if s.deleted then s
    else if pk ∈ s.pending then { s with pending := [], deleted := true }
    else match s.shown with
      | some (some pk') => if pk' = pk then { s with shown := some (some pk) } else s
      | _ => { s with shown := some (some pk) }
  | .unsigned =>
    if s.deleted then s
    else match s.shown with
      | some (some _) => s
      | _ => { s with shown := some none }
  | .noise => s

/-- The key's tombstone is not forgotten, and its post is not shown. -/
structure Buried (pk : String) (s : Slot) : Prop where
  hidden : s.shown ≠ some (some pk)
  remembered : pk ∈ s.pending ∨ s.deleted ∨ ∃ pk', s.shown = some (some pk')

theorem Buried.step {pk : String} {s : Slot} (h : Buried pk s) (m : Word) : Buried pk (s.step m) := by
  obtain ⟨hidden, remembered⟩ := h
  obtain ⟨shown, pending, deleted⟩ := s
  cases m <;> simp only [Slot.step]
  all_goals constructor
  all_goals grind

theorem buried_tombstone {pk : String} {s : Slot} (h : s.shown ≠ some none ∨ s.deleted) :
    Buried pk (s.step (.tombstone pk)) := by
  obtain ⟨shown, pending, deleted⟩ := s
  rcases shown with - | - | pk'
  · refine ⟨nofun, .inl ?_⟩
    simp only [Slot.step]
    split_ifs with hmem
    · exact hmem
    · simp
  · have hdeleted : deleted := by simpa using h
    exact ⟨by simp [Slot.step], .inr (.inl hdeleted)⟩
  · by_cases hpk : pk' = pk
    · subst hpk
      constructor <;> simp [Slot.step]
    · constructor <;> simp [Slot.step, hpk]

theorem Slot.step_deleted {s : Slot} (h : s.deleted) (m : Word) :
    (s.step m).deleted ∧ ∀ pk, (s.step m).shown = some (some pk) → s.shown = some (some pk) := by
  obtain ⟨shown, pending, deleted⟩ := s
  cases m <;> simp only [Slot.step]
  all_goals grind

theorem Slot.step_signed {s : Slot} {pk : String} (h : s.shown = some (some pk)) (m : Word) :
    (s.step m).shown = some (some pk) ∨ m = .tombstone pk := by
  obtain ⟨shown, pending, deleted⟩ := s
  cases m <;> simp only [Slot.step]
  all_goals grind

/-! ### The page's slots -/

def kindOf (id : String) : Char := if isPostId id 't' then 't' else 'r'

namespace Page

variable (p : Page)

def shown (id : String) : Option Post := (p.store (kindOf id)).get? id

def slot (id : String) : Slot := ⟨(p.shown id).map Post.pk, p.pending id, p.vault.deleted.contains id⟩

end Page

variable (b : Browser)

def target : List String → Option (String × Option String)
  | ["hforum", "t", id] => if isPostId id 't' then some (id, none) else none
  | ["hforum", "r", tid, id] => if isPostId tid 't' ∧ isPostId id 'r' then some (id, some tid) else none
  | _ => none

def Post.word (post : Post) : Word :=
  match post.pk with
  | some pk => .post pk
  | none => .unsigned

/-- What a message for an id says. -/
def word (id : String) (tid : Option String) (s : String) : Word :=
  if s = "" then .wipe
  else match parse b s with
    | none => .noise
    | some o =>
      if (o.get "del").any (truthy b) then
        match tombstoneKey b id o with
        | some pk => .tombstone pk
        | none => .noise
      else if str (o.get "id") 20 ≠ id then .noise
      else if kindOf id ≠ 't' ∧ some (str (o.get "topicId") 20) ≠ tid then .noise
      else match signedPost b (readPost b (kindOf id) id tid o) o with
        | none => .noise
        | some post => post.word

variable {b} {p : Page} {id : String}

theorem isPostId_kind {kind : Char} (h : isPostId id kind) : id.toList.head? = some kind := by
  unfold isPostId at h
  split at h
  · rename_i c rest hlist
    simp only [Bool.and_eq_true, decide_eq_true_eq] at h
    rw [hlist, h.1.1]
    rfl
  · cases h

theorem kindOf_of_r (h : isPostId id 'r') : kindOf id = 'r' := by
  unfold kindOf
  rw [if_neg]
  intro ht
  have := (isPostId_kind h).symm.trans (isPostId_kind ht)
  cases this

theorem shown_setStore_self (m : Map String Post) : (p.setStore (kindOf id) m).shown id = m.get? id := by
  unfold Page.shown Page.setStore Page.store
  by_cases hkind : kindOf id = 't' <;> simp [hkind]

theorem shown_setStore_other {id' : String} {m : Map String Post}
    (hm : m.get? id' = (p.store (kindOf id)).get? id') : (p.setStore (kindOf id) m).shown id' = p.shown id' := by
  unfold Page.shown Page.setStore Page.store at *
  by_cases hkind : kindOf id = 't' <;> by_cases hkind' : kindOf id' = 't' <;> simp_all

theorem setStore_fields (kind : Char) (m : Map String Post) :
    (p.setStore kind m).pendingDel = p.pendingDel ∧ (p.setStore kind m).vault = p.vault := by
  unfold Page.setStore
  split <;> exact ⟨rfl, rfl⟩

theorem persist_fields : p.persist.topics = p.topics ∧ p.persist.replies = p.replies ∧
    p.persist.pendingDel = p.pendingDel ∧ p.persist.vault = p.vault := by
  unfold Page.persist
  split <;> exact ⟨rfl, rfl, rfl, rfl⟩

theorem slot_setStore (m : Map String Post)
    (hm : ∀ id' ≠ id, m.get? id' = (p.store (kindOf id)).get? id') (id' : String) :
    (p.setStore (kindOf id) m).slot id' =
      if id' = id then { p.slot id with shown := (m.get? id).map Post.pk } else p.slot id' := by
  obtain ⟨hpending, hvault⟩ := setStore_fields (p := p) (kindOf id) m
  unfold Page.slot Page.pending
  rw [hpending, hvault]
  split_ifs with hid
  · subst hid
    rw [shown_setStore_self]
  · rw [shown_setStore_other (hm id' hid)]

theorem slot_persist (id : String) : p.persist.slot id = p.slot id := by
  unfold Page.persist
  split <;> rfl

theorem slot_setPending (l : List String) (id' : String) :
    { p with pendingDel := p.pendingDel.set id l }.slot id' =
      if id' = id then { p.slot id with pending := l } else p.slot id' := by
  unfold Page.slot Page.shown Page.pending
  dsimp only
  rw [Map.get?_set]
  by_cases hid : id' = id
  · subst hid
    rw [if_pos rfl, if_pos rfl]
    rfl
  · rw [if_neg hid, if_neg hid]
    rfl

theorem slot_removePending (id' : String) :
    { p with pendingDel := p.pendingDel.remove id }.slot id' =
      if id' = id then { p.slot id with pending := [] } else p.slot id' := by
  unfold Page.slot Page.shown Page.pending
  dsimp only
  rw [Map.get?_remove]
  by_cases hid : id' = id
  · subst hid
    rw [if_pos rfl, if_pos rfl]
    rfl
  · rw [if_neg hid, if_neg hid]
    rfl

theorem slot_setDeleted (pk : String) (id' : String) :
    { p with vault.deleted := p.vault.deleted.set id pk }.slot id' =
      if id' = id then { p.slot id with deleted := true } else p.slot id' := by
  unfold Page.slot Page.shown Page.pending Map.contains
  dsimp only
  rw [Map.get?_set]
  by_cases hid : id' = id
  · subst hid
    rw [if_pos rfl, if_pos rfl]
    rfl
  · rw [if_neg hid, if_neg hid]
    rfl

theorem showPost_slot (post : Post) (id' : String) :
    (showPost p (kindOf id) id post).slot id' =
      if id' = id then
        match (p.slot id).shown, post.pk with
        | some (some pk'), some pk => if pk' = pk then { p.slot id with shown := some (some pk) } else p.slot id
        | some (some _), none => p.slot id
        | _, pk => { p.slot id with shown := some pk }
      else p.slot id' := by
  have hset : ∀ id' ≠ id, ((p.store (kindOf id)).set id post).get? id' = (p.store (kindOf id)).get? id' :=
    fun id' hid => Map.get?_set_other _ _ hid
  have hshown : (p.slot id).shown = ((p.store (kindOf id)).get? id).map Post.pk := rfl
  unfold showPost
  rw [hshown]
  cases hhave : (p.store (kindOf id)).get? id with
  | none =>
    rw [slot_setStore _ hset, Map.get?_set_self]
    rfl
  | some have' =>
    dsimp only [Option.map_some]
    by_cases hkeep : have'.pk.isSome ∧ have'.pk ≠ post.pk
    · rw [if_pos hkeep]
      obtain ⟨hsome, hne⟩ := hkeep
      obtain ⟨pk', hpk'⟩ := Option.isSome_iff_exists.1 hsome
      rw [hpk'] at hne ⊢
      split_ifs with hid
      · subst hid
        cases hpk : post.pk with
        | none => rfl
        | some pk =>
          rw [hpk] at hne
          dsimp only
          rw [if_neg fun heq => hne (congrArg some heq)]
      · rfl
    · rw [if_neg hkeep, slot_setStore _ hset, Map.get?_set_self]
      split_ifs with hid
      · cases hpk' : have'.pk with
        | none => rfl
        | some pk' =>
          have hsame : post.pk = some pk' := by
            by_contra hne
            exact hkeep ⟨by rw [hpk']; rfl, by rw [hpk']; exact Ne.symm hne⟩
          rw [hsame, Option.map_some, hsame]
          dsimp only
          rw [if_pos rfl]
      · rfl

theorem onTombstone_slot (o : Json) (id' : String) :
    (onTombstone b p (kindOf id) id o).slot id' =
      if id' = id then
        (p.slot id).step (match tombstoneKey b id o with
          | some pk => .tombstone pk
          | none => .noise)
      else p.slot id' := by
  have hkey {pk : String} (h : tombstoneKey b id o = some pk) : pk = str (o.get "pk") 200 := by
    unfold tombstoneKey at h
    dsimp only at h
    split_ifs at h
    exact (Option.some.inj h).symm
  have hshown : (p.slot id).shown = ((p.store (kindOf id)).get? id).map Post.pk := rfl
  have hsame : p.slot id' = if id' = id then p.slot id else p.slot id' := by
    split_ifs with hid
    · rw [hid]
    · rfl
  unfold onTombstone Slot.step
  rw [hshown]
  cases htomb : tombstoneKey b id o with
  | none =>
    dsimp only
    rw [ite_self]
    exact hsame
  | some pk =>
    obtain rfl := hkey htomb
    dsimp only
    cases hhave : (p.store (kindOf id)).get? id with
    | none =>
      -- the post is still to come, and its tombstone waits
      have hnone : (p.slot id).shown = none := by rw [hshown, hhave, Option.map_none]
      rw [if_neg (by simp), Option.map_none]
      dsimp only
      rw [slot_setPending, ← hnone]
      rfl
    | some have' =>
      by_cases hown : have'.pk = some (str (o.get "pk") 200)
      · rw [if_neg (by simp [hown]), Option.map_some]
        dsimp only
        rw [if_pos hown, slot_setStore]
        · rw [slot_persist, slot_persist, slot_setDeleted, slot_setDeleted, Map.get?_remove, if_pos rfl, if_pos rfl]
          split_ifs <;> rfl
        · intro id'' hid
          rw [Map.get?_remove, if_neg hid]
      · rw [if_pos (by simpa using hown), Option.map_some]
        dsimp only
        rw [if_neg hown]
        exact hsame

theorem takePost_slot (post : Post) (hdeleted : ¬ p.vault.deleted.contains id) (id' : String) :
    (takePost p (kindOf id) id post).slot id' = if id' = id then (p.slot id).step post.word else p.slot id' := by
  have hslot : (p.slot id).deleted = p.vault.deleted.contains id := rfl
  have hpending : (p.slot id).pending = p.pending id := rfl
  unfold takePost Post.word
  cases hpk : post.pk with
  | none =>
    dsimp only [Slot.step]
    rw [hslot, if_neg hdeleted, showPost_slot, hpk]
    split_ifs
    · rcases (p.slot id).shown with - | - | pk' <;> rfl
    · rfl
  | some pk =>
    dsimp only [Slot.step]
    rw [hslot, if_neg hdeleted, hpending]
    by_cases hwaits : pk ∈ p.pending id
    · rw [if_pos hwaits, if_pos hwaits, slot_persist]
      refine (@slot_setDeleted { p with pendingDel := p.pendingDel.remove id } id pk id').trans ?_
      rw [slot_removePending, slot_removePending, if_pos rfl]
      split_ifs <;> rfl
    · rw [if_neg hwaits, if_neg hwaits, showPost_slot, hpk]
      split_ifs
      · rcases (p.slot id).shown with - | - | pk' <;> rfl
      · rfl

theorem Slot.step_word {s : Slot} (h : s.deleted) (post : Post) : s.step post.word = s := by
  unfold Post.word
  cases post.pk <;> exact if_pos h

theorem onPost_slot (tid : Option String) (s : String) (id' : String) :
    (onPost b p (kindOf id) id tid s).slot id' =
      if id' = id then (p.slot id).step (word b id tid s) else p.slot id' := by
  have hsame : p.slot id' = if id' = id then p.slot id else p.slot id' := by
    split_ifs with hid
    · rw [hid]
    · rfl
  unfold onPost word
  by_cases hempty : s = ""
  · rw [if_pos hempty, if_pos hempty]
    have hshown : (p.slot id).shown = ((p.store (kindOf id)).get? id).map Post.pk := rfl
    unfold Slot.step
    rw [hshown]
    by_cases hunsigned : ((p.store (kindOf id)).get? id).any fun post => post.pk.isNone
    · rw [if_pos hunsigned, slot_setStore]
      · rw [Map.get?_remove, if_pos rfl]
        obtain ⟨post, hpost, hnone⟩ := (Option.any_eq_true _ _).1 hunsigned
        rw [Option.isNone_iff_eq_none] at hnone
        rw [hpost, Option.map_some, hnone]
        rfl
      · intro id'' hid
        rw [Map.get?_remove, if_neg hid]
    · rw [if_neg hunsigned]
      have hne : ¬ ((p.store (kindOf id)).get? id).map Post.pk = some none := by
        intro h
        obtain ⟨post, hpost, hnone⟩ := Option.map_eq_some_iff.1 h
        exact hunsigned (by simp [hpost, hnone])
      dsimp only
      rw [if_neg hne]
      exact hsame
  · rw [if_neg hempty, if_neg hempty]
    cases parse b s with
    | none => exact hsame
    | some o =>
      dsimp only
      by_cases hdel : (o.get "del").any (truthy b)
      · rw [if_pos hdel, if_pos hdel]
        exact onTombstone_slot o id'
      · rw [if_neg hdel, if_neg hdel]
        by_cases hid : str (o.get "id") 20 ≠ id
        · rw [if_pos hid, if_pos hid]
          exact hsame
        · rw [if_neg hid, if_neg hid]
          by_cases htid : kindOf id ≠ 't' ∧ some (str (o.get "topicId") 20) ≠ tid
          · rw [if_pos htid, if_pos htid, ite_self]
            exact hsame
          · rw [if_neg htid, if_neg htid]
            cases signedPost b (readPost b (kindOf id) id tid o) o with
            | none =>
              dsimp only
              rw [ite_self]
              exact hsame
            | some post =>
              dsimp only
              by_cases hdeleted : p.vault.deleted.contains id
              · rw [if_pos hdeleted, Slot.step_word hdeleted]
                exact hsame
              · rw [if_neg hdeleted]
                exact takePost_slot post hdeleted id'

theorem markHiddenBy_slot (id pk id' : String) : (p.markHiddenBy id pk).slot id' = p.slot id' := by
  unfold Page.markHiddenBy
  split <;> rfl

theorem applyRegistry_slot (reg : Registry) (id' : String) : (applyRegistry p reg).slot id' = p.slot id' := by
  unfold applyRegistry
  dsimp only
  split
  · rfl
  · rename_i admin hadmin
    generalize (reg.hides.getD []).filter (isId ·) = hides
    have hfold (q : Page) : (hides.foldl (fun p id => p.markHiddenBy id admin) q).slot id' = q.slot id' := by
      induction hides generalizing q with
      | nil => rfl
      | cons id hides ih => rw [List.foldl_cons, ih, markHiddenBy_slot]
    rw [hfold]
    rfl

theorem onRegistry_slot (s id' : String) : (onRegistry b p s).slot id' = p.slot id' := by
  unfold onRegistry
  split_ifs
  · rfl
  · split
    · rfl
    · split_ifs
      · rfl
      · rw [applyRegistry_slot, slot_persist]
        rfl

theorem onClaim_slot (norm s id' : String) : (onClaim b p norm s).slot id' = p.slot id' := by
  unfold onClaim
  split
  · rfl
  · split_ifs
    · rfl
    · rw [slot_persist]
      rfl

theorem onAdmin_slot (s id' : String) : (onAdmin b p s).slot id' = p.slot id' := by
  unfold onAdmin
  split
  · rfl
  · split
    · rfl
    · split
      · rfl
      · split
        · rfl
        · rw [slot_persist]
          rfl

theorem onHide_slot (id s id' : String) : (onHide b p id s).slot id' = p.slot id' := by
  unfold onHide
  split_ifs
  · rfl
  · rfl
  · rfl
  · rfl
  · split
    · rfl
    · split
      · split_ifs <;> rfl
      · rfl

/-- A message is a step of the slot of the id that its topic is for, and of no other. -/
theorem slot_onMessage (topic : List String) (s id' : String) :
    (onMessage b p topic s).slot id' =
      match target topic with
      | some (id, tid) => if id' = id then (p.slot id).step (word b id tid s) else p.slot id'
      | none => p.slot id' := by
  unfold onMessage target
  split
  · exact onAdmin_slot s id'
  · exact onRegistry_slot s id'
  · exact onClaim_slot _ s id'
  · rename_i id
    by_cases hid : isPostId id 't'
    · have hkind : kindOf id = 't' := if_pos hid
      have hslot := @onPost_slot b p id none s id'
      rw [hkind] at hslot
      simpa only [if_pos hid] using hslot
    · simp only [if_neg hid]
  · rename_i tid id
    by_cases hid : isPostId tid 't' ∧ isPostId id 'r'
    · have hslot := @onPost_slot b p id (some tid) s id'
      rw [kindOf_of_r hid.2] at hslot
      simpa only [if_pos hid] using hslot
    · simp only [if_neg hid]
  · split_ifs
    · exact onHide_slot _ s id'
    · rfl
  · split <;> grind

/-! ### Visits -/

/-- A page and its vault, with the keys whose posts and tombstones were handled in this visit, and the keys for which
both were handled in one visit, by post id. -/
structure World where
  page : Page
  saved : Option Vault
  posts : List (String × String)
  tombstones : List (String × String)
  gone : List (String × String)

inductive Event where
  | message (topic : List String) (s : String)
  | save
  | reload (locked : Bool)

def start : World := ⟨Page.empty, none, [], [], []⟩

def heard (b : Browser) (topic : List String) (s : String) : Option (String × Word) :=
  (target topic).map fun t => (t.1, word b t.1 t.2 s)

def World.note (w : World) : Option (String × Word) → World
  | some (id, .post pk) =>
    { w with posts := (id, pk) :: w.posts, gone := if (id, pk) ∈ w.tombstones then (id, pk) :: w.gone else w.gone }
  | some (id, .tombstone pk) =>
    { w with tombstones := (id, pk) :: w.tombstones, gone := if (id, pk) ∈ w.posts then (id, pk) :: w.gone else w.gone }
  | _ => w

def World.step (b : Browser) (w : World) : Event → World
  | .message topic s => { w.note (heard b topic s) with page := onMessage b w.page topic s }
  | .save => if w.page.unsaved then { w with page.unsaved := false, saved := some w.page.vault } else w
  | .reload locked => { w with page := loadMe b w.saved locked, posts := [], tombstones := [] }

/-! ### What is to hold -/

def Page.ShownBy (p : Page) (id pk : String) : Prop := ∃ post, p.shown id = some post ∧ post.pk = some pk

structure Holds (b : Browser) (w : World) (e : Event) : Prop where
  /-- After both its post and its tombstone were handled, no post of a key is shown. -/
  deleted : ∀ id pk, (id, pk) ∈ (w.step b e).gone → ¬ (w.step b e).page.ShownBy id pk
  /-- A message takes a signed post away only if it is a tombstone of the post's own key. -/
  removed : ∀ topic s, e = .message topic s → ∀ id pk, w.page.ShownBy id pk →
    (w.step b e).page.ShownBy id pk ∨ heard b topic s = some (id, .tombstone pk)

/-- A tombstone is not handled while an unsigned post is shown under its id, unless a deletion under the id is kept; and a
reload finds the deletions of all whose post and tombstone were both handled. -/
def InOrder (b : Browser) (w : World) : Event → Prop
  | .message topic s => ∀ id pk, heard b topic s = some (id, .tombstone pk) →
      w.page.vault.deleted.contains id ∨ ∀ post, w.page.shown id = some post → post.pk ≠ none
  | .save => True
  | .reload locked => ∀ id pk, (id, pk) ∈ w.gone →
      locked = false ∧ ∃ v, w.saved = some v ∧ v.deleted.contains id

/-! ### What is kept -/

structure Kept (w : World) : Prop where
  buried : ∀ id pk, (id, pk) ∈ w.tombstones → Buried pk (w.page.slot id)
  gone : ∀ id pk, (id, pk) ∈ w.gone →
    (id, pk) ∈ w.tombstones ∨ (w.page.slot id).deleted ∧ (w.page.slot id).shown ≠ some (some pk)
  ids : ∀ id pk, (id, pk) ∈ w.gone → isId id

theorem kept_start : Kept start := by
  constructor
  all_goals
    intro id pk h
    cases h

theorem shownBy_iff {p : Page} {id pk : String} : p.ShownBy id pk ↔ (p.slot id).shown = some (some pk) := by
  unfold Page.ShownBy Page.slot
  rw [Option.map_eq_some_iff]

theorem isId_of_target {topic : List String} {id : String} {tid : Option String} (h : target topic = some (id, tid)) :
    isId id := by
  unfold target at h
  unfold isId
  split at h
  · split_ifs at h with hid
    cases h
    simp [hid]
  · split_ifs at h with hid
    cases h
    simp [hid.2]
  · cases h

variable {w : World}

theorem slot_heard (topic : List String) (s id' : String) :
    (onMessage b p topic s).slot id' =
      match heard b topic s with
      | some (id, m) => if id' = id then (p.slot id).step m else p.slot id'
      | none => p.slot id' := by
  rw [slot_onMessage]
  unfold heard
  cases target topic <;> rfl

theorem note_cases (w : World) (h : Option (String × Word)) :
    (∀ e ∈ (w.note h).tombstones, e ∈ w.tombstones ∨ h = some (e.1, .tombstone e.2)) ∧
      (∀ e ∈ w.tombstones, e ∈ (w.note h).tombstones) ∧
      ∀ e ∈ (w.note h).gone, e ∈ w.gone ∨ e ∈ (w.note h).tombstones ∧ ∃ m, h = some (e.1, m) := by
  unfold World.note
  split
  · rename_i id pk
    refine ⟨fun e he => .inl he, fun e he => he, fun e he => ?_⟩
    dsimp only at he
    split_ifs at he with hmem
    · obtain rfl | hold := List.mem_cons.1 he
      · exact .inr ⟨hmem, _, rfl⟩
      · exact .inl hold
    · exact .inl he
  · rename_i id pk
    refine ⟨fun e he => ?_, fun e he => List.mem_cons_of_mem _ he, fun e he => ?_⟩
    · obtain rfl | hold := List.mem_cons.1 he
      · exact .inr rfl
      · exact .inl hold
    · dsimp only at he
      split_ifs at he with hmem
      · obtain rfl | hold := List.mem_cons.1 he
        · exact .inr ⟨List.mem_cons_self, _, rfl⟩
        · exact .inl hold
      · exact .inl he
  · exact ⟨fun e he => .inl he, fun e he => he, fun e he => .inl he⟩

theorem Kept.message (hw : Kept w) {topic : List String} {s : String} (hin : InOrder b w (.message topic s)) :
    Kept (w.step b (.message topic s)) := by
  obtain ⟨htombs, hmore, hgone⟩ := note_cases w (heard b topic s)
  have hslot (id' : String) : ((w.step b (.message topic s)).page.slot id') = _ := slot_heard topic s id'
  constructor
  · intro id pk hmem
    rw [hslot]
    obtain hold | hnew := htombs _ hmem
    · -- what is buried stays so, whatever comes for the id
      have hburied := hw.buried id pk hold
      cases hheard : heard b topic s with
      | none => exact hburied
      | some h =>
        dsimp only
        split_ifs with hid
        · rw [← hid]
          exact hburied.step h.2
        · exact hburied
    · rw [hnew]
      dsimp only
      rw [if_pos rfl]
      apply buried_tombstone
      obtain hdeleted | hsigned := hin id pk hnew
      · exact .inr hdeleted
      · refine .inl fun hshown => ?_
        obtain ⟨post, hpost, hpk⟩ := Option.map_eq_some_iff.1 hshown
        exact hsigned post hpost hpk
  · intro id pk hmem
    obtain hold | ⟨hnew, -⟩ := hgone _ hmem
    · obtain htomb | ⟨hdeleted, hshown⟩ := hw.gone id pk hold
      · exact .inl (hmore _ htomb)
      · right
        rw [hslot]
        cases hheard : heard b topic s with
        | none => exact ⟨hdeleted, hshown⟩
        | some h =>
          dsimp only
          split_ifs with hid
          · rw [← hid]
            obtain ⟨hdeleted', hshown'⟩ := Slot.step_deleted hdeleted h.2
            exact ⟨hdeleted', fun h' => hshown (hshown' pk h')⟩
          · exact ⟨hdeleted, hshown⟩
    · exact .inl hnew
  · intro id pk hmem
    obtain hold | ⟨-, m, hm⟩ := hgone _ hmem
    · exact hw.ids id pk hold
    · unfold heard at hm
      obtain ⟨⟨id', tid⟩, htarget, hid⟩ := Option.map_eq_some_iff.1 hm
      cases hid
      exact isId_of_target htarget

theorem slot_loadMe {v : Vault} {id : String} (hid : isId id) (hdeleted : v.deleted.contains id) :
    ((loadMe b (some v) false).slot id).deleted ∧ ((loadMe b (some v) false).slot id).shown = none := by
  have hload (p : Page) (htopics : p.topics = .empty) (hreplies : p.replies = .empty)
      (hkept : p.vault.deleted.contains id) : (p.slot id).deleted ∧ (p.slot id).shown = none := by
    refine ⟨hkept, ?_⟩
    unfold Page.slot Page.shown Page.store
    rw [htopics, hreplies, ite_self, Map.get?_empty]
    rfl
  have hretain : (v.deleted.retain fun id _ => isId id).contains id := by
    unfold Map.contains at hdeleted ⊢
    obtain ⟨pk, hpk⟩ := Option.isSome_iff_exists.1 hdeleted
    rw [Map.get?_retain, hpk, Option.filter_some, if_pos hid]
    rfl
  unfold loadMe
  dsimp only
  rw [if_neg (by simp)]
  split
  · split
    · exact hload _ rfl rfl hretain
    · rw [applyRegistry_slot]
      exact hload _ rfl rfl hretain
  · exact hload _ rfl rfl hretain

theorem Kept.step (hw : Kept w) (e : Event) (hin : InOrder b w e) : Kept (w.step b e) := by
  cases e with
  | message topic s => exact hw.message hin
  | save =>
    unfold World.step
    dsimp only
    split
    · exact ⟨hw.buried, hw.gone, hw.ids⟩
    · exact hw
  | reload locked =>
    refine ⟨fun id pk h => (nomatch h), fun id pk hmem => ?_, hw.ids⟩
    obtain ⟨rfl, v, hsaved, hdeleted⟩ := hin id pk hmem
    obtain ⟨hkept, hshown⟩ := slot_loadMe (b := b) (hw.ids id pk hmem) hdeleted
    right
    unfold World.step
    dsimp only
    rw [hsaved, hshown]
    exact ⟨hkept, nofun⟩

theorem Kept.holds (hw : Kept w) (e : Event) (hin : InOrder b w e) : Holds b w e := by
  constructor
  · intro id pk hmem
    have hw' := hw.step e hin
    rw [shownBy_iff]
    obtain htomb | ⟨-, hshown⟩ := hw'.gone id pk hmem
    · exact (hw'.buried id pk htomb).hidden
    · exact hshown
  · rintro topic s rfl id pk hshown
    rw [shownBy_iff] at hshown ⊢
    change ((onMessage b w.page topic s).slot id).shown = _ ∨ _
    rw [slot_heard]
    cases hheard : heard b topic s with
    | none => exact .inl hshown
    | some h =>
      obtain ⟨id', m⟩ := h
      dsimp only
      split_ifs with hid
      · subst hid
        refine (Slot.step_signed hshown m).imp_right ?_
        rintro rfl
        rfl
      · exact .inl hshown

/-- In every run in order, a deleted post stays deleted, and a signed post goes only by its own key's tombstone. -/
theorem deletions_run (b : Browser) (es : List Event) (h : Along (World.step b) (InOrder b) start es) :
    Along (World.step b) (Holds b) start es :=
  Along.of_invariant (fun _ e hw hin => hw.step e hin) (fun _ e hw hin => hw.holds e hin) h kept_start

/-- A page to which three payloads mean something, and all signatures are good. -/
private def reader : Browser where
  fromSlice s :=
    if s = "unsigned" then some (.obj [("id", .str "taaaaaaaaaa")])
    else if s = "post" then some (.obj [("id", .str "taaaaaaaaaa"), ("pk", .str "k"), ("sig", .str "s")])
    else if s = "tombstone" then some (.obj [("del", .int 1), ("pk", .str "k"), ("sig", .str "s")])
    else none
  isOne s := s = "1"
  verifyFields _ _ _ := true
  canonicalPub _ := true
  toLowercase s := s
  ofInt n := n
  ofInt_eq _ _ _ := rfl
  ofText _ := none
  printed q := .int q.num
  printed_eq _ _ _ := rfl
  fingerprint pk := pk
  REGISTRY_PUBKEY := ""

private def thread : List String := ["hforum", "t", "taaaaaaaaaa"]

/-- A tombstone that comes while an unsigned post is shown is forgotten, and its post is shown. -/
theorem tombstone_forgotten : ¬ ∀ (b : Browser) (es : List Event), Along (World.step b) (Holds b) start es := by
  intro h
  have hrun := h reader [.message thread "unsigned", .message thread "tombstone", .message thread "post"]
  refine hrun.2.2.1.deleted "taaaaaaaaaa" "k" (by decide) ?_
  rw [shownBy_iff]
  decide

/-- A post that was deleted comes again after a reload. -/
theorem deletions_reloaded : Along (World.step reader) (Holds reader) start
    [.message thread "tombstone", .message thread "post", .save, .reload false, .message thread "post"] := by
  apply deletions_run
  refine ⟨?_, ?_, trivial, ?_, ?_, trivial⟩
  · intro id pk _
    right
    intro post hpost
    have hnone : start.page.shown id = none := by simp [start, Page.shown, Page.store, Page.empty]
    rw [hnone] at hpost
    cases hpost
  · intro id pk hheard
    have hword : heard reader thread "post" = some ("taaaaaaaaaa", .post "k") := by decide
    rw [hword] at hheard
    cases hheard
  · intro id pk hmem
    have hgone : (run (World.step reader) start [.message thread "tombstone", .message thread "post", .save]).gone =
        [("taaaaaaaaaa", "k")] := by
      decide
    obtain hgone := List.mem_singleton.1 (hgone ▸ hmem)
    cases hgone
    exact ⟨rfl, _, rfl, by decide⟩
  · intro id pk hheard
    have hword : heard reader thread "post" = some ("taaaaaaaaaa", .post "k") := by decide
    rw [hword] at hheard
    cases hheard

end HidraNet.Forum
