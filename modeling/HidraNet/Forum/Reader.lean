import HidraNet.Forum.Readers

/-!
# The registrar's word on a page

A page takes messages one at a time, while its reader signs in, registers a name, takes moderation and writes posts.
These wait for keys, signatures and relays, and go on with what the page has by then; a reload loads what was saved.

The list that is believed says who holds a name and who moderates, but for two slips.  A registration and a claim on
moderation look first and write after they waited, whatever came meanwhile; and a list that was loaded is not among what
is saved again, so that the next reload may find none (`InOrder`, `reader_run`).
-/

namespace HidraNet.Forum.Reader

open Hidrarelay Maps Runs

/-- The keys that accounts have, and what is signed by them. -/
structure Keys extends Browser where
  deriveIdentity : String → String → Option String
  units_pub : ∀ name pass pub, deriveIdentity name pass = some pub → units pub ≤ 200
  signFields : String → Json → String
  signed : ∀ name pass pub fields, deriveIdentity name pass = some pub → verifyFields pub fields (signFields pub fields)
  sha : String → String

variable (b : Keys)

/-- A key that is an account's. -/
structure Identity where
  pub : String
  own : ∃ name pass, b.deriveIdentity name pass = some pub

def derive (name pass : String) : Option (Identity b) :=
  match h : b.deriveIdentity name pass with
  | none => none
  | some pub => some ⟨pub, name, pass, h⟩

structure Account where
  nick : String
  name : String
  id : Identity b

def MIN_ACCOUNT_PASSWORD : Nat := 16

/-- Where a task waits. -/
inductive Place where
  | keying (name norm pass : String)
  /-- For the signature of a claim, and then for the relays to have it. -/
  | signing (norm shown : String) (id : Identity b) (ts : ℚ)
  | publishing (norm shown : String) (id : Identity b) (ts : ℚ)
  | hashing (pass : String)
  | modSigning
  | modPublishing
  | posting (id : Identity b) (kind : Char) (post : Post)

/-- A page with its reader.  `list` is the list believed, and `given` every list that ever was. -/
structure Session where
  page : Page
  me : Option (Account b)
  tasks : List (Place b)
  saved : Option (Vault × Option (Account b))
  list : Option Registry
  given : List Registry

def start : Session b := ⟨Page.empty, none, [], none, none, []⟩

/-! ### What is shown -/

def holder (p : Page) (norm : String) : Option String := (p.vault.claims.get? norm).map Claim.pk

inductive Badge where
  | unsigned
  | verified
  | notVerified
  | unregistered
deriving DecidableEq

/-- Who signed a post, against who holds the name it was posted under. -/
def authorBadge (p : Page) (post : Post) : Badge :=
  match post.pk with
  | none => .unsigned
  | some pk =>
    match holder p (normalizeName b.toEnv post.nick) with
    | some pk' => if pk' = pk then .verified else .notVerified
    | none => if normalizeName b.toEnv post.nick ∈ inherited then .notVerified else .unregistered

/-! ### Messages -/

def believes (p : Page) (topic : List String) (s : String) : Option Registry :=
  if topic = ["hforum", "registry"] ∧ b.REGISTRY_PUBKEY ≠ "" ∧ s ≠ "" then
    ((parse b.toBrowser s).bind (verifyRegistry b.toBrowser)).filter (p.registrySeq < ·.seq)
  else none

namespace Session

variable {b} (s : Session b)

def message (topic : List String) (text : String) : Session b :=
  let believed := believes b s.page topic text
  { s with
    page := onMessage b.toBrowser s.page topic text
    list := believed.or s.list
    given := s.given ++ believed.toList }

/-! ### Tasks -/

def add (p : Place b) : Session b := { s with tasks := s.tasks ++ [p] }

def drop (i : Nat) : Session b := { s with tasks := s.tasks.eraseIdx i }

def move (i : Nat) (p : Place b) : Session b := { s with tasks := s.tasks.set i p }

def signIn (name pass : String) (ready : Bool) : Session b :=
  let norm := normalizeName b.toEnv name
  if s.page.meLocked ∨ ¬ ready ∨ ¬ validName b.toBrowser norm ∨ units pass < MIN_ACCOUNT_PASSWORD then s
  else s.add (.keying name norm pass)

def signedIn (shown norm : String) (id : Identity b) : Session b :=
  { s with me := some ⟨shown, norm, id⟩, page := s.page.persist }

/-- The key is there.  The name's claim, if it has one, is looked at here. -/
def keyed (name norm pass : String) (now : ℚ) (i : Nat) : Session b :=
  let shown := slice 24 (trimJs name)
  match derive b norm pass with
  | none => s.drop i
  | some id =>
    match s.page.vault.claims.get? norm with
    | some c => if c.pk ≠ id.pub then s.drop i else (s.drop i).signedIn (if c.name = "" then shown else c.name) norm id
    | none => if norm ∈ inherited then s.drop i else s.move i (.signing norm shown id now)

def registered (norm shown : String) (id : Identity b) (ts : ℚ) : Session b :=
  signedIn { s with page.vault.claims := s.page.vault.claims.set norm ⟨shown, id.pub, ts⟩ } shown norm id

def signOut : Session b := { s with me := none, page := s.page.persist }

def claimModeration : Session b := if s.me.isSome then s.add .modSigning else s

def enterMod (pass : String) (ready : Bool) : Session b :=
  if s.me.isNone ∨ ¬ ready ∨ s.page.vault.adminPk.isSome then s
  else if s.page.legacyAdminHash.isSome then if pass = "" then s else s.add (.hashing pass)
  else s.claimModeration

def hashed (pass : String) : Session b :=
  if some (b.sha ("hforum-admin:" ++ pass)) ≠ s.page.legacyAdminHash then s else s.claimModeration

def taken : Session b :=
  match s.me with
  | none => s
  | some me => { s with page := Page.persist { s.page with vault.adminPk := some me.id.pub } }

/-- A topic, or a reply to one. -/
def write (id : String) (tid : Option String) (cat title body : String) (ts : ℚ) (ready : Bool) : Session b :=
  match s.me with
  | none => s
  | some me =>
    if ¬ ready ∨ 140 < units title ∨ MAX_TEXT < units body then s
    else s.add (.posting me.id (if tid.isNone then 't' else 'r')
      { id
        topicId := tid
        cat := if tid.isNone then cat else ""
        title := if tid.isNone then title else ""
        body
        nick := me.nick
        tag := b.fingerprint me.id.pub
        ts
        pk := some me.id.pub })

def posted (kind : Char) (post : Post) : Session b :=
  { s with page := s.page.setStore kind ((s.page.store kind).set post.id post) }

/-- A task goes on, unless what it waits for failed. -/
def goOn (i : Nat) (ok : Bool) (now : ℚ) : Session b :=
  match s.tasks[i]? with
  | none => s
  | some place =>
    if ¬ ok then s.drop i
    else match place with
      | .keying name norm pass => s.keyed name norm pass now i
      | .signing norm shown id ts => s.move i (.publishing norm shown id ts)
      | .publishing norm shown id ts => (s.drop i).registered norm shown id ts
      | .hashing pass => (s.drop i).hashed pass
      | .modSigning => s.move i .modPublishing
      | .modPublishing => (s.drop i).taken
      | .posting _ kind post => (s.drop i).posted kind post

/-! ### Saving and loading -/

def save : Session b :=
  if s.page.unsaved then { s with saved := some (s.page.vault, s.me), page.unsaved := false } else s

def savedList : Option Registry :=
  if b.REGISTRY_PUBKEY = "" then none else s.saved.bind fun saved => saved.1.registry

def reload : Session b :=
  { s with
    page := loadMe b.toBrowser (s.saved.map Prod.fst) false
    me := s.saved.bind fun saved => saved.2.map fun me => ⟨slice 24 me.nick, slice 24 me.name, me.id⟩
    tasks := []
    list := s.savedList }

end Session

inductive Event where
  | message (topic : List String) (text : String)
  | signIn (name pass : String) (ready : Bool)
  | signOut
  | enterMod (pass : String) (ready : Bool)
  | write (id : String) (tid : Option String) (cat title body : String) (ts : ℚ) (ready : Bool)
  | goOn (i : Nat) (ok : Bool) (now : ℚ)
  | save
  | reload

variable {b}

def Session.step (s : Session b) : Event → Session b
  | .message topic text => s.message topic text
  | .signIn name pass ready => s.signIn name pass ready
  | .signOut => s.signOut
  | .enterMod pass ready => s.enterMod pass ready
  | .write id tid cat title body ts ready => s.write id tid cat title body ts ready
  | .goOn i ok now => s.goOn i ok now
  | .save => s.save
  | .reload => s.reload

/-! ### The list on top -/

def Ungiven (given : List Registry) (norm : String) : Prop := ∀ reg ∈ given, ∀ entry ∈ reg.names, entry.norm ≠ norm

/-- What a step leaves as the list has it, and what it keeps of what no list says. -/
structure Holds (s : Session b) (e : Event) : Prop where
  forward : s.page.registrySeq ≤ (s.step e).page.registrySeq
  names : ∀ reg, (s.step e).list = some reg → ∀ entry ∈ reg.names, holder (s.step e).page entry.norm = some entry.pk
  shown : ∀ reg, (s.step e).list = some reg → ∀ entry ∈ reg.names, ∀ kind id post,
    ((s.step e).page.store kind).get? id = some post → normalizeName b.toEnv post.nick = entry.norm →
    authorBadge b (s.step e).page post = .verified →
    post.pk = some entry.pk ∧ ∃ sig, b.verifyFields entry.pk (post.fields b.toBrowser) sig
  moderator : ∀ reg, (s.step e).list = some reg → ∀ admin, reg.admin = some admin →
    (s.step e).page.vault.adminPk = some admin
  first : ∀ norm pk, holder s.page norm = some pk → Ungiven (s.step e).given norm →
    holder (s.step e).page norm = some pk
  firstModerator : ∀ pk, s.page.vault.adminPk = some pk → (∀ reg ∈ (s.step e).given, reg.admin = none) →
    (s.step e).page.vault.adminPk = some pk

def Unmet (s : Session b) : Place b → Prop
  | .publishing norm _ id _ => ∀ pk, holder s.page norm = some pk → pk = id.pub
  | .modPublishing => ∀ me, s.me = some me → ∀ pk, s.page.vault.adminPk = some pk → pk = me.id.pub
  | _ => True

def InOrder (s : Session b) : Event → Prop
  | .goOn i ok _ => ok = true → ∀ place, s.tasks[i]? = some place → Unmet s place
  | .reload => s.page.unsaved = false ∧ s.savedList = s.list
  | _ => True

/-! #### Texts and lists -/

theorem units_fitting (max : Nat) (l : List Char) :
    ((fitting max l).map fun c => if 0x10000 ≤ c.val then 2 else 1).sum ≤ max := by
  induction l generalizing max with
  | nil => exact Nat.zero_le _
  | cons c l ih =>
    simp only [fitting]
    by_cases hfits : (if 0x10000 ≤ c.val then 2 else 1) ≤ max
    · rw [if_pos hfits, List.map_cons, List.sum_cons]
      have hrest := ih (max - if 0x10000 ≤ c.val then 2 else 1)
      omega
    · rw [if_neg hfits]
      exact Nat.zero_le _

theorem slice_slice (max : Nat) (s : String) : slice max (slice max s) = slice max s := by
  apply slice_all
  unfold units slice
  rw [String.toList_ofList]
  exact units_fitting max _

theorem slice_str (v : Option Json) (max : Nat) : slice max (str v max) = str v max := by
  unfold str
  split
  · exact slice_slice max _
  · apply slice_all
    exact Nat.zero_le _

theorem readEntries_sorted {l : List Json} {last : String} {entries : List Entry}
    (h : readEntries b.toBrowser last l = some entries) :
    (∀ e ∈ entries, last < e.norm) ∧ (entries.map Entry.norm).Nodup := by
  induction l generalizing last entries with
  | nil =>
    cases h
    exact ⟨nofun, List.nodup_nil⟩
  | cons v l ih =>
    unfold readEntries at h
    split at h
    · rename_i heq
      cases heq
    · rename_i norm name pk ts rest heq
      cases heq
      simp only [bind, Option.bind_eq_some_iff, guard, Option.pure_def] at h
      obtain ⟨_, -, t, -, _, hguard, rest, hrest, hentries⟩ := h
      cases hentries
      have hlast : last < norm := by
        split at hguard
        · rename_i hconds
          exact hconds.2.2.2
        · cases hguard
      obtain ⟨hall, hnodup⟩ := ih hrest
      refine ⟨fun e he => ?_, ?_⟩
      · obtain rfl | he := List.mem_cons.1 he
        · exact hlast
        · exact hlast.trans (hall e he)
      · rw [List.map_cons, List.nodup_cons]
        refine ⟨fun hmem => ?_, hnodup⟩
        obtain ⟨e, he, heq⟩ := List.mem_map.1 hmem
        have hlt := hall e he
        rw [heq] at hlt
        exact lt_irrefl _ hlt
    · cases h

theorem nodup_of_verify {o : Json} {reg : Registry} (h : verifyRegistry b.toBrowser o = some reg) :
    (reg.names.map Entry.norm).Nodup := by
  unfold verifyRegistry at h
  simp only [bind, Option.bind_eq_some_iff] at h
  obtain ⟨sig, -, reg', hread, _, -, heq⟩ := h
  cases heq
  unfold readRegistry at hread
  simp only [bind, Option.bind_eq_some_iff] at hread
  obtain ⟨_, -, seq, -, ts, -, _, -, names, -, hread⟩ := hread
  -- whatever the moderator and the hides are, the names are read alike
  have hentries : ∃ l, readEntries b.toBrowser "" l = some reg.names := by
    split at hread
    all_goals try split at hread
    all_goals try split at hread
    all_goals simp only [Option.bind_some, Option.bind_none, reduceCtorEq] at hread
    all_goals
      obtain ⟨entries, hentries, hread⟩ := Option.bind_eq_some_iff.1 hread
      refine ⟨names, hentries.trans ?_⟩
    all_goals first
      | (cases hread; rfl)
      | (obtain ⟨hides, -, hread⟩ := Option.bind_eq_some_iff.1 hread; cases hread; rfl)
  obtain ⟨l, hl⟩ := hentries
  exact (readEntries_sorted hl).2

theorem get?_foldl_of_mem {entries : List Entry} (hnodup : (entries.map Entry.norm).Nodup) {e : Entry}
    (he : e ∈ entries) (m : Map String Claim) :
    (entries.foldl (fun m e => m.set e.norm ⟨e.name, e.pk, e.ts⟩) m).get? e.norm = some ⟨e.name, e.pk, e.ts⟩ := by
  induction entries using List.reverseRecOn with
  | nil => cases he
  | append_singleton entries e' ih =>
    rw [List.foldl_append, List.foldl_cons, List.foldl_nil, Map.get?_set]
    rw [List.map_append, List.nodup_append] at hnodup
    obtain ⟨hnodup, -, hdisjoint⟩ := hnodup
    obtain he | he := List.mem_append.1 he
    · have hne : e.norm ≠ e'.norm := hdisjoint _ (List.mem_map_of_mem he) _ (by simp)
      rw [if_neg hne]
      exact ih hnodup he
    · rw [List.mem_singleton] at he
      subst he
      rw [if_pos rfl]

theorem get?_foldl_other {entries : List Entry} {norm : String} (h : ∀ e ∈ entries, e.norm ≠ norm)
    (m : Map String Claim) :
    (entries.foldl (fun m e => m.set e.norm ⟨e.name, e.pk, e.ts⟩) m).get? norm = m.get? norm := by
  induction entries generalizing m with
  | nil => rfl
  | cons e entries ih =>
    rw [List.foldl_cons, ih (fun e' he' => h e' (List.mem_cons_of_mem _ he'))]
    exact Map.get?_set_other _ _ (h e (List.mem_cons_self ..)).symm

/-! #### A message -/

/-- Names, moderation and the list are left. -/
structure Untouched (p p' : Page) : Prop where
  claims : p'.vault.claims = p.vault.claims
  admin : p'.vault.adminPk = p.vault.adminPk
  seq : p'.registrySeq = p.registrySeq
  locked : p'.meLocked = p.meLocked
  unsaved : p'.unsaved = false → p.unsaved = false

def Signed (b : Keys) (p : Page) : Prop :=
  ∀ kind id post, (p.store kind).get? id = some post → ∀ pk, post.pk = some pk →
    ∃ sig, b.verifyFields pk (post.fields b.toBrowser) sig

variable {p p' : Page}

theorem Untouched.refl (p : Page) : Untouched p p := ⟨rfl, rfl, rfl, rfl, id⟩

theorem Untouched.trans {p'' : Page} (h : Untouched p p') (h' : Untouched p' p'') : Untouched p p'' :=
  ⟨h'.claims.trans h.claims, h'.admin.trans h.admin, h'.seq.trans h.seq, h'.locked.trans h.locked,
    fun hsaved => h.unsaved (h'.unsaved hsaved)⟩

theorem untouched_setStore (p : Page) (kind : Char) (m : Map String Post) : Untouched p (p.setStore kind m) := by
  unfold Page.setStore
  split <;> exact ⟨rfl, rfl, rfl, rfl, id⟩

theorem untouched_persist (p : Page) : Untouched p p.persist := by
  unfold Page.persist
  split
  · exact Untouched.refl p
  · exact ⟨rfl, rfl, rfl, rfl, nofun⟩

theorem persist_unsaved (h : p.meLocked = false) : p.persist.unsaved = true := by
  unfold Page.persist
  rw [h]
  rfl

theorem signed_setStore (h : Signed b p) (kind : Char) {m : Map String Post}
    (hm : ∀ id post, m.get? id = some post → (p.store kind).get? id = some post ∨
      ∀ pk, post.pk = some pk → ∃ sig, b.verifyFields pk (post.fields b.toBrowser) sig) :
    Signed b (p.setStore kind m) := by
  intro kind' id post hget
  have hstore : (p.setStore kind m).store kind' = m ∧ (kind = 't' ↔ kind' = 't') ∨
      (p.setStore kind m).store kind' = p.store kind' := by
    unfold Page.setStore Page.store
    by_cases hkind : kind = 't' <;> by_cases hkind' : kind' = 't' <;> simp [hkind, hkind']
  obtain ⟨hstore, hkinds⟩ | hstore := hstore
  · rw [hstore] at hget
    obtain hold | hsigned := hm id post hget
    · exact h kind id post hold
    · exact hsigned
  · rw [hstore] at hget
    exact h kind' id post hget

theorem signed_congr (h : Signed b p) (htopics : p'.topics = p.topics) (hreplies : p'.replies = p.replies) :
    Signed b p' := by
  intro kind id post hget
  refine h kind id post ?_
  unfold Page.store at hget ⊢
  rwa [htopics, hreplies] at hget

theorem signed_persist (h : Signed b p) : Signed b p.persist :=
  signed_congr h persist_fields.1 persist_fields.2.1

theorem signed_remove (h : Signed b p) (kind : Char) (id : String) :
    Signed b (p.setStore kind ((p.store kind).remove id)) := by
  exact signed_setStore h kind fun id' post hget => .inl (Map.get?_remove_some.1 hget).2

theorem signed_set (h : Signed b p) (kind : Char) (id : String) {post : Post}
    (hpost : ∀ pk, post.pk = some pk → ∃ sig, b.verifyFields pk (post.fields b.toBrowser) sig) :
    Signed b (p.setStore kind ((p.store kind).set id post)) := by
  refine signed_setStore h kind fun id' post' hget => ?_
  obtain ⟨-, rfl⟩ | ⟨-, hget⟩ := Map.get?_set_some.1 hget
  · exact .inr hpost
  · exact .inl hget

theorem signedPost_signed {post post' : Post} {o : Json} (hpost : post.pk = none)
    (h : signedPost b.toBrowser post o = some post') :
    ∀ pk, post'.pk = some pk → ∃ sig, b.verifyFields pk (post'.fields b.toBrowser) sig := by
  intro pk hpk
  unfold signedPost at h
  split at h
  · dsimp only at h
    split at h
    · rename_i hvalid
      cases h
      cases hpk
      exact ⟨_, hvalid.2.2⟩
    · cases h
  · cases h
    rw [hpost] at hpk
    cases hpk

theorem signed_setDeleted (h : Signed b p) (id pk : String) :
    Untouched p (Page.persist { p with vault.deleted := p.vault.deleted.set id pk }) ∧
      Signed b (Page.persist { p with vault.deleted := p.vault.deleted.set id pk }) := by
  have hset : Untouched p { p with vault.deleted := p.vault.deleted.set id pk } :=
    ⟨rfl, rfl, rfl, rfl, fun hsaved => hsaved⟩
  exact ⟨hset.trans (untouched_persist _), signed_persist (signed_congr h rfl rfl)⟩

theorem onTombstone_kept (h : Signed b p) (kind : Char) (id : String) (o : Json) :
    Untouched p (onTombstone b.toBrowser p kind id o) ∧ Signed b (onTombstone b.toBrowser p kind id o) := by
  unfold onTombstone
  dsimp only
  split
  · exact ⟨Untouched.refl p, h⟩
  split
  · exact ⟨Untouched.refl p, h⟩
  rename_i pk _
  split
  · exact ⟨⟨rfl, rfl, rfl, rfl, fun hsaved => hsaved⟩, signed_congr h rfl rfl⟩
  · obtain ⟨huntouched, hsigned⟩ := signed_setDeleted h id pk
    exact ⟨huntouched.trans (untouched_setStore _ _ _), signed_remove hsigned _ _⟩

theorem takePost_kept (h : Signed b p) (kind : Char) (id : String) {post : Post}
    (hpost : ∀ pk, post.pk = some pk → ∃ sig, b.verifyFields pk (post.fields b.toBrowser) sig) :
    Untouched p (takePost p kind id post) ∧ Signed b (takePost p kind id post) := by
  have hset := And.intro (untouched_setStore p kind ((p.store kind).set id post)) (signed_set h kind id hpost)
  have hshow : Untouched p (showPost p kind id post) ∧ Signed b (showPost p kind id post) := by
    unfold showPost
    split
    · split_ifs
      · exact ⟨Untouched.refl p, h⟩
      · exact hset
    · exact hset
  unfold takePost
  split
  · exact hshow
  · split_ifs
    · refine ⟨.trans ?_ (untouched_persist _), signed_persist (signed_congr h rfl rfl)⟩
      exact ⟨rfl, rfl, rfl, rfl, fun hsaved => hsaved⟩
    · exact hshow

theorem onPost_kept (h : Signed b p) (kind : Char) (id : String) (tid : Option String) (s : String) :
    Untouched p (onPost b.toBrowser p kind id tid s) ∧ Signed b (onPost b.toBrowser p kind id tid s) := by
  have hsame : Untouched p p ∧ Signed b p := ⟨Untouched.refl p, h⟩
  unfold onPost
  split
  · split
    · exact ⟨untouched_setStore p _ _, signed_remove h _ _⟩
    · exact hsame
  split
  · exact hsame
  split
  · exact onTombstone_kept h kind id _
  split
  · exact hsame
  split
  · exact hsame
  split
  · exact hsame
  split
  · exact hsame
  · rename_i hpost
    exact takePost_kept h kind id (signedPost_signed rfl hpost)

theorem onHide_kept (h : Signed b p) (id s : String) :
    Untouched p (onHide b.toBrowser p id s) ∧ Signed b (onHide b.toBrowser p id s) := by
  have hset : ∀ hidden, Untouched p { p with hidden } ∧ Signed b { p with hidden } :=
    fun _ => ⟨⟨rfl, rfl, rfl, rfl, fun h => h⟩, signed_congr h rfl rfl⟩
  unfold onHide
  split_ifs
  · exact hset _
  · exact hset _
  · exact hset _
  · exact hset _
  · split
    · exact hset _
    · split
      · split
        · exact hset _
        · exact ⟨Untouched.refl p, h⟩
      · exact hset _

def listed (p : Page) (reg : Registry) : Page := applyRegistry (Page.persist { p with vault.registry := some reg }) reg

theorem marked_fields (ids : List String) (pk : String) (p : Page) :
    (ids.foldl (fun p id => p.markHiddenBy id pk) p).topics = p.topics ∧
      (ids.foldl (fun p id => p.markHiddenBy id pk) p).replies = p.replies ∧
      (ids.foldl (fun p id => p.markHiddenBy id pk) p).unsaved = p.unsaved ∧
      (ids.foldl (fun p id => p.markHiddenBy id pk) p).meLocked = p.meLocked := by
  induction ids generalizing p with
  | nil => exact ⟨rfl, rfl, rfl, rfl⟩
  | cons id ids ih =>
    have hone : (p.markHiddenBy id pk).topics = p.topics ∧ (p.markHiddenBy id pk).replies = p.replies ∧
        (p.markHiddenBy id pk).unsaved = p.unsaved ∧ (p.markHiddenBy id pk).meLocked = p.meLocked := by
      unfold Page.markHiddenBy
      split <;> exact ⟨rfl, rfl, rfl, rfl⟩
    obtain ⟨htopics, hreplies, hunsaved, hlocked⟩ := ih (p.markHiddenBy id pk)
    exact ⟨htopics.trans hone.1, hreplies.trans hone.2.1, hunsaved.trans hone.2.2.1, hlocked.trans hone.2.2.2⟩

theorem applyRegistry_rest (p : Page) (reg : Registry) :
    (applyRegistry p reg).topics = p.topics ∧ (applyRegistry p reg).replies = p.replies ∧
      (applyRegistry p reg).unsaved = p.unsaved ∧ (applyRegistry p reg).meLocked = p.meLocked := by
  unfold applyRegistry
  dsimp only
  split
  · exact ⟨rfl, rfl, rfl, rfl⟩
  · exact marked_fields _ _ _

theorem signed_applyRegistry (h : Signed b p) (reg : Registry) : Signed b (applyRegistry p reg) :=
  signed_congr h (applyRegistry_rest p reg).1 (applyRegistry_rest p reg).2.1

theorem signed_listed (h : Signed b p) (reg : Registry) : Signed b (listed p reg) := by
  have hset : Signed b { p with vault.registry := some reg } := signed_congr h rfl rfl
  exact signed_applyRegistry (signed_persist hset) reg

theorem onRegistry_eq (p : Page) (s : String) : onRegistry b.toBrowser p s =
    match believes b p ["hforum", "registry"] s with
    | none => p
    | some reg => listed p reg := by
  unfold onRegistry believes
  by_cases hread : b.REGISTRY_PUBKEY = "" ∨ s = ""
  · rw [if_pos hread, if_neg]
    rintro ⟨-, hkey, hs⟩
    exact hread.elim hkey hs
  · rw [if_neg hread, if_pos ⟨rfl, not_or.1 hread⟩]
    cases (parse b.toBrowser s).bind (verifyRegistry b.toBrowser) with
    | none => rfl
    | some reg =>
      by_cases hseq : reg.seq ≤ p.registrySeq
      · simp only [if_pos hseq, Option.filter_some, decide_eq_true_eq, not_lt.2 hseq, if_false]
      · simp only [if_neg hseq, Option.filter_some, decide_eq_true_eq, not_le.1 hseq, if_true]
        rfl

theorem onMessage_cases (h : Signed b p) (topic : List String) (s : String) :
    Signed b (onMessage b.toBrowser p topic s) ∧
      (believes b p topic s = none ∧ Untouched p (onMessage b.toBrowser p topic s) ∨
      believes b p topic s = none ∧ (∃ norm c, readClaim b.toBrowser norm s = some c ∧ p.vault.claims.get? norm = none ∧
        onMessage b.toBrowser p topic s = Page.persist { p with vault.claims := p.vault.claims.set norm c }) ∨
      believes b p topic s = none ∧ (∃ pk, p.vault.adminPk = none ∧
        onMessage b.toBrowser p topic s = Page.persist { p with vault.adminPk := some pk }) ∨
      ∃ reg, believes b p topic s = some reg ∧ onMessage b.toBrowser p topic s = listed p reg) := by
  have hnone : topic ≠ ["hforum", "registry"] → believes b p topic s = none := fun hne => if_neg fun h => hne h.1
  have hsame : Untouched p p ∧ Signed b p := ⟨Untouched.refl p, h⟩
  unfold onMessage
  split
  · unfold onAdmin
    split
    · exact ⟨h, .inl ⟨hnone nofun, hsame.1⟩⟩
    split
    · exact ⟨signed_congr h rfl rfl, .inl ⟨hnone nofun, rfl, rfl, rfl, rfl, fun hsaved => hsaved⟩⟩
    split
    · exact ⟨h, .inl ⟨hnone nofun, hsame.1⟩⟩
    rename_i pk _
    split
    · exact ⟨h, .inl ⟨hnone nofun, hsame.1⟩⟩
    · rename_i hadmin
      refine ⟨signed_persist (signed_congr h rfl rfl), .inr (.inr (.inl ⟨hnone nofun, pk, ?_, rfl⟩))⟩
      simpa using hadmin
  · rw [onRegistry_eq]
    cases hbelieved : believes b p ["hforum", "registry"] s with
    | none => exact ⟨h, .inl ⟨rfl, hsame.1⟩⟩
    | some reg => exact ⟨signed_listed h reg, .inr (.inr (.inr ⟨reg, rfl, rfl⟩))⟩
  · rename_i norm
    unfold onClaim
    split
    · exact ⟨h, .inl ⟨hnone (by simp), hsame.1⟩⟩
    rename_i c hread
    split
    · exact ⟨h, .inl ⟨hnone (by simp), hsame.1⟩⟩
    · rename_i hknown
      have hfree : p.vault.claims.get? norm = none := by
        unfold Vault.known Map.contains at hknown
        rw [Bool.or_eq_true, not_or] at hknown
        exact Option.not_isSome_iff_eq_none.1 hknown.1
      exact ⟨signed_persist (signed_congr h rfl rfl), .inr (.inl ⟨hnone (by simp), norm, c, hread, hfree, rfl⟩)⟩
  · rename_i id
    split
    · have hpost := onPost_kept h 't' id none s
      exact ⟨hpost.2, .inl ⟨hnone (by simp), hpost.1⟩⟩
    · exact ⟨h, .inl ⟨hnone (by simp), hsame.1⟩⟩
  · rename_i tid id
    split
    · have hpost := onPost_kept h 'r' id (some tid) s
      exact ⟨hpost.2, .inl ⟨hnone (by simp), hpost.1⟩⟩
    · exact ⟨h, .inl ⟨hnone (by simp), hsame.1⟩⟩
  · rename_i id
    split
    · have hhide := onHide_kept h id s
      exact ⟨hhide.2, .inl ⟨hnone (by simp), hhide.1⟩⟩
    · exact ⟨h, .inl ⟨hnone (by simp), hsame.1⟩⟩
  · rename_i hother _ _ _ _
    exact ⟨h, .inl ⟨hnone hother, hsame.1⟩⟩

/-! #### What every run in order keeps -/

def Fitting : Place b → Prop
  | .keying _ norm _ | .signing norm _ _ _ | .publishing norm _ _ _ => validName b.toBrowser norm
  | .posting id _ post => post.pk = some id.pub
  | .hashing _ | .modSigning | .modPublishing => True

/-- The list is on top. -/
structure OnTop (p : Page) (list : Option Registry) : Prop where
  seq : p.registrySeq = (list.map Registry.seq).getD (-1)
  names : ∀ reg, list = some reg → ∀ entry ∈ reg.names, holder p entry.norm = some entry.pk
  moderator : ∀ reg, list = some reg → ∀ admin, reg.admin = some admin → p.vault.adminPk = some admin

/-- What is saved is what the page has, but for what lists said. -/
structure Saved (s : Session b) : Prop where
  names : ∀ norm, Ungiven s.given norm →
    (s.saved.bind fun saved => (saved.1.claims.get? norm).map Claim.pk) = holder s.page norm
  moderator : (s.saved.bind fun saved => saved.1.adminPk) = s.page.vault.adminPk

structure Kept (s : Session b) : Prop where
  locked : s.page.meLocked = false
  believed : ∀ reg, s.list = some reg → reg ∈ s.given
  sorted : ∀ reg ∈ s.given, (reg.names.map Entry.norm).Nodup
  onTop : OnTop s.page s.list
  fits : ∀ norm, Ungiven s.given norm → ∀ pk, holder s.page norm = some pk →
    validName b.toBrowser norm ∧ slice 200 pk = pk
  saved : s.page.unsaved = false → Saved s
  signed : Signed b s.page
  tasks : ∀ task ∈ s.tasks, Fitting task

theorem kept_start : Kept (start b) where
  locked := rfl
  believed := nofun
  sorted := nofun
  onTop := ⟨rfl, nofun, nofun⟩
  fits _ _ := nofun
  saved _ := ⟨fun _ _ => rfl, rfl⟩
  signed kind id post hget := by
    unfold start Page.store at hget
    split at hget <;> cases hget
  tasks := nofun

variable {s s' : Session b}

theorem Kept.same (hs : Kept s) (hpage : Untouched s.page s'.page) (hlist : s'.list = s.list)
    (hgiven : s'.given = s.given) (hsaved : s'.saved = s.saved) (hsigned : Signed b s'.page)
    (htasks : ∀ task ∈ s'.tasks, Fitting task) : Kept s' := by
  have hholder : ∀ norm, holder s'.page norm = holder s.page norm := fun norm => by unfold holder; rw [hpage.claims]
  refine ⟨hpage.locked.trans hs.locked, ?_, ?_, ⟨?_, ?_, ?_⟩, ?_, ?_, hsigned, htasks⟩
  · rw [hlist, hgiven]
    exact hs.believed
  · rw [hgiven]
    exact hs.sorted
  · rw [hpage.seq, hlist]
    exact hs.onTop.seq
  · intro reg hreg entry hentry
    rw [hholder]
    exact hs.onTop.names reg (hlist ▸ hreg) entry hentry
  · intro reg hreg admin hadmin
    rw [hpage.admin]
    exact hs.onTop.moderator reg (hlist ▸ hreg) admin hadmin
  · intro norm hungiven pk hpk
    rw [hgiven] at hungiven
    rw [hholder] at hpk
    exact hs.fits norm hungiven pk hpk
  · intro hunsaved
    have hold := hs.saved (hpage.unsaved hunsaved)
    refine ⟨fun norm hungiven => ?_, ?_⟩
    · rw [hgiven] at hungiven
      rw [hsaved, hholder]
      exact hold.names norm hungiven
    · rw [hsaved, hpage.admin]
      exact hold.moderator

theorem Kept.recorded (hs : Kept s) {norm : String} {c : Claim} (hfree : ∀ pk, holder s.page norm = some pk → pk = c.pk)
    (hvalid : validName b.toBrowser norm) (hpk : slice 200 c.pk = c.pk) (me : Option (Account b)) :
    Kept { s with me, page := Page.persist { s.page with vault.claims := s.page.vault.claims.set norm c } } := by
  have hunsaved := persist_unsaved (p := { s.page with vault.claims := s.page.vault.claims.set norm c }) hs.locked
  have hpersist := untouched_persist { s.page with vault.claims := s.page.vault.claims.set norm c }
  have hholder : ∀ norm', holder (Page.persist { s.page with vault.claims := s.page.vault.claims.set norm c }) norm' =
      if norm' = norm then some c.pk else holder s.page norm' := by
    intro norm'
    unfold holder
    rw [hpersist.claims]
    dsimp only
    rw [Map.get?_set]
    split <;> rfl
  refine ⟨hpersist.locked.trans hs.locked, hs.believed, hs.sorted, ⟨hpersist.seq.trans hs.onTop.seq, ?_, ?_⟩,
    ?_, ?_, ?_, hs.tasks⟩
  · intro reg hreg entry hentry
    have hkey := hs.onTop.names reg hreg entry hentry
    rw [hholder]
    split
    · rename_i heq
      rw [heq] at hkey
      rw [hfree _ hkey]
    · exact hkey
  · intro reg hreg admin hadmin
    rw [hpersist.admin]
    exact hs.onTop.moderator reg hreg admin hadmin
  · intro norm' hungiven pk hkey
    rw [hholder] at hkey
    split at hkey
    · rename_i heq
      cases hkey
      rw [heq]
      exact ⟨hvalid, hpk⟩
    · exact hs.fits norm' hungiven pk hkey
  · intro hsaved
    rw [hunsaved] at hsaved
    cases hsaved
  · exact signed_persist (signed_congr hs.signed rfl rfl)

theorem Kept.moderated (hs : Kept s) {pk : String} (hfree : ∀ pk', s.page.vault.adminPk = some pk' → pk' = pk) :
    Kept { s with page := Page.persist { s.page with vault.adminPk := some pk } } := by
  have hunsaved := persist_unsaved (p := { s.page with vault.adminPk := some pk }) hs.locked
  have hpersist := untouched_persist { s.page with vault.adminPk := some pk }
  have hholder : ∀ norm, holder (Page.persist { s.page with vault.adminPk := some pk }) norm = holder s.page norm := by
    intro norm
    unfold holder
    rw [hpersist.claims]
  refine ⟨hpersist.locked.trans hs.locked, hs.believed, hs.sorted, ⟨hpersist.seq.trans hs.onTop.seq, ?_, ?_⟩,
    ?_, ?_, ?_, hs.tasks⟩
  · intro reg hreg entry hentry
    rw [hholder]
    exact hs.onTop.names reg hreg entry hentry
  · intro reg hreg admin hadmin
    rw [hpersist.admin]
    exact congrArg some (hfree admin (hs.onTop.moderator reg hreg admin hadmin)).symm
  · intro norm hungiven pk' hkey
    rw [hholder] at hkey
    exact hs.fits norm hungiven pk' hkey
  · intro hsaved
    rw [hunsaved] at hsaved
    cases hsaved
  · exact signed_persist (signed_congr hs.signed rfl rfl)

theorem onTop_applyRegistry (p : Page) {reg : Registry} (hnodup : (reg.names.map Entry.norm).Nodup) :
    OnTop (applyRegistry p reg) (some reg) := by
  obtain ⟨hseq, hclaims, hadmin⟩ := applyRegistry_fields p reg
  refine ⟨hseq, ?_, ?_⟩
  · rintro _ ⟨⟩ entry hentry
    unfold holder
    rw [hclaims, get?_foldl_of_mem hnodup hentry]
    rfl
  · rintro _ ⟨⟩ admin hmoderator
    rw [hadmin, hmoderator]
    rfl

theorem holder_applyRegistry (p : Page) {reg : Registry} {norm : String} (h : ∀ entry ∈ reg.names, entry.norm ≠ norm) :
    holder (applyRegistry p reg) norm = holder p norm := by
  unfold holder
  rw [(applyRegistry_fields p reg).2.1, get?_foldl_other h]

/-! #### A step -/

theorem readClaim_valid {norm text : String} {c : Claim} (h : readClaim b.toBrowser norm text = some c) :
    validName b.toBrowser norm ∧ slice 200 c.pk = c.pk := by
  unfold readClaim at h
  simp only [bind, Option.bind_eq_some_iff, guard, Option.pure_def] at h
  obtain ⟨_, hguard, o, -, _, -, _, -, _, -, heq⟩ := h
  cases heq
  refine ⟨?_, slice_str _ _⟩
  split at hguard
  · rename_i hconds
    exact hconds.2.1
  · cases hguard

theorem Kept.message (hs : Kept s) (topic : List String) (text : String) : Kept (s.message topic text) := by
  obtain ⟨hsigned, hcases⟩ := onMessage_cases hs.signed topic text
  obtain ⟨hnone, huntouched⟩ | ⟨hnone, norm, c, hread, hfree, heq⟩ | ⟨hnone, pk, hfree, heq⟩ |
    ⟨reg, hbelieved, heq⟩ := hcases
  · have hlist : (s.message topic text).list = s.list := by simp [Session.message, hnone]
    have hgiven : (s.message topic text).given = s.given := by simp [Session.message, hnone]
    exact hs.same huntouched hlist hgiven rfl hsigned hs.tasks
  · obtain ⟨hvalid, hpk⟩ := readClaim_valid hread
    have hrecorded := hs.recorded (c := c) (fun pk hpk => by rw [holder, hfree] at hpk; cases hpk) hvalid hpk s.me
    have hstep : s.message topic text =
        { s with page := Page.persist { s.page with vault.claims := s.page.vault.claims.set norm c } } := by
      simp [Session.message, hnone, heq]
    rw [hstep]
    exact hrecorded
  · have hnobody : ∀ pk', s.page.vault.adminPk = some pk' → pk' = pk := fun pk' hpk' => by
      rw [hfree] at hpk'
      cases hpk'
    have hmoderated := hs.moderated hnobody
    have hstep : s.message topic text = { s with page := Page.persist { s.page with vault.adminPk := some pk } } := by
      simp [Session.message, hnone, heq]
    rw [hstep]
    exact hmoderated
  · have hstep : s.message topic text =
        { s with page := listed s.page reg, list := some reg, given := s.given ++ [reg] } := by
      simp [Session.message, hbelieved, heq]
    have hnodup : (reg.names.map Entry.norm).Nodup := by
      unfold believes at hbelieved
      split at hbelieved
      · obtain ⟨hverified, -⟩ := Option.filter_eq_some_iff.1 hbelieved
        obtain ⟨o, -, hverified⟩ := Option.bind_eq_some_iff.1 hverified
        exact nodup_of_verify hverified
      · cases hbelieved
    rw [heq] at hsigned
    rw [hstep]
    have hpersist := persist_unsaved (p := { s.page with vault.registry := some reg }) hs.locked
    obtain ⟨-, -, hunsaved, hlocked⟩ := applyRegistry_rest (Page.persist { s.page with vault.registry := some reg }) reg
    refine ⟨hlocked.trans ((untouched_persist _).locked.trans hs.locked), ?_, ?_, onTop_applyRegistry _ hnodup, ?_, ?_,
      hsigned, hs.tasks⟩
    · rintro _ ⟨⟩
      exact List.mem_append_right _ (List.mem_singleton_self _)
    · intro reg' hreg'
      obtain hreg' | hreg' := List.mem_append.1 hreg'
      · exact hs.sorted reg' hreg'
      · rw [List.mem_singleton.1 hreg']
        exact hnodup
    · intro norm hungiven pk hkey
      have hother := hungiven reg (List.mem_append_right _ (List.mem_singleton_self _))
      change holder (applyRegistry _ reg) norm = some pk at hkey
      rw [holder_applyRegistry _ hother] at hkey
      refine hs.fits norm (fun reg' hreg' => hungiven reg' (List.mem_append_left _ hreg')) pk ?_
      unfold holder at hkey ⊢
      rwa [(untouched_persist _).claims] at hkey
    · intro hsaved
      change (applyRegistry _ reg).unsaved = false at hsaved
      rw [hunsaved, hpersist] at hsaved
      cases hsaved

theorem Kept.drop (hs : Kept s) (i : Nat) : Kept (s.drop i) :=
  hs.same (Untouched.refl _) rfl rfl rfl hs.signed fun task htask => hs.tasks task (List.mem_of_mem_eraseIdx htask)

theorem Kept.move (hs : Kept s) (i : Nat) {place : Place b} (hplace : Fitting place) : Kept (s.move i place) := by
  refine hs.same (Untouched.refl _) rfl rfl rfl hs.signed fun task htask => ?_
  obtain htask | rfl := List.mem_or_eq_of_mem_set htask
  · exact hs.tasks task htask
  · exact hplace

theorem Kept.add (hs : Kept s) {place : Place b} (hplace : Fitting place) : Kept (s.add place) := by
  refine hs.same (Untouched.refl _) rfl rfl rfl hs.signed fun task htask => ?_
  obtain htask | htask := List.mem_append.1 htask
  · exact hs.tasks task htask
  · rw [List.mem_singleton.1 htask]
    exact hplace

theorem Kept.persist (hs : Kept s) (me : Option (Account b)) : Kept { s with me, page := s.page.persist } :=
  hs.same (untouched_persist _) rfl rfl rfl (signed_persist hs.signed) hs.tasks

theorem Kept.claimModeration (hs : Kept s) : Kept s.claimModeration := by
  unfold Session.claimModeration
  split_ifs
  · exact hs.add trivial
  · exact hs

theorem Kept.goOn (hs : Kept s) {i : Nat} {ok : Bool} {now : ℚ} (hin : InOrder s (.goOn i ok now)) :
    Kept (s.goOn i ok now) := by
  unfold Session.goOn
  split
  · exact hs
  rename_i place hplace
  have hfitting := hs.tasks place (List.mem_of_getElem? hplace)
  split
  · exact hs.drop i
  rename_i hok
  have hunmet := hin (by simpa using hok) place hplace
  split
  · rename_i name norm pass
    unfold Session.keyed
    dsimp only
    split
    · exact hs.drop i
    rename_i id _
    split
    · split
      · exact hs.drop i
      · exact (hs.drop i).persist _
    · split_ifs
      · exact hs.drop i
      · exact hs.move i hfitting
  · exact hs.move i hfitting
  · rename_i norm shown id ts
    obtain ⟨name, pass, hown⟩ := id.own
    have hpk : slice 200 id.pub = id.pub := slice_all (b.units_pub name pass id.pub hown)
    exact (hs.drop i).recorded (c := ⟨shown, id.pub, ts⟩) hunmet hfitting hpk (some ⟨shown, norm, id⟩)
  · unfold Session.hashed
    split_ifs
    · exact hs.drop i
    · exact (hs.drop i).claimModeration
  · exact hs.move i trivial
  · unfold Session.taken
    split
    · exact hs.drop i
    · rename_i me hme
      exact (hs.drop i).moderated (hunmet me hme)
  · rename_i id kind post
    -- the signature that the task waited for is there
    have hdrop := hs.drop i
    refine hdrop.same (untouched_setStore _ _ _) rfl rfl rfl (signed_set hdrop.signed kind post.id ?_) hdrop.tasks
    intro pk hpk
    obtain ⟨name, pass, hown⟩ := id.own
    rw [show post.pk = some id.pub from hfitting] at hpk
    cases hpk
    exact ⟨_, b.signed name pass id.pub _ hown⟩

theorem Kept.save (hs : Kept s) : Kept s.save := by
  unfold Session.save
  split
  · exact ⟨hs.locked, hs.believed, hs.sorted, ⟨hs.onTop.seq, hs.onTop.names, hs.onTop.moderator⟩, hs.fits,
      fun _ => ⟨fun _ _ => rfl, rfl⟩, signed_congr hs.signed rfl rfl, hs.tasks⟩
  · exact hs

def unlisted (b : Keys) (v : Vault) : Page :=
  { Page.empty with vault := ⟨v.claims.filterMap fun norm c =>
      if validName b.toBrowser norm then some ⟨slice 24 c.name, slice 200 c.pk, c.ts⟩ else none,
    v.adminPk, none, v.deleted.retain fun id _ => isId id⟩ }

theorem loadMe_eq (v : Vault) : loadMe b.toBrowser (some v) false =
    match v.registry with
    | some reg => if b.REGISTRY_PUBKEY = "" then unlisted b v else applyRegistry (unlisted b v) reg
    | none => unlisted b v := rfl

theorem signed_empty (vault : Vault) : Signed b { Page.empty with vault } := by
  intro kind id post hget
  unfold Page.store at hget
  split at hget <;> cases hget

theorem holder_unlisted {v : Vault} {norm : String}
    (hfits : ∀ pk, (v.claims.get? norm).map Claim.pk = some pk → validName b.toBrowser norm ∧ slice 200 pk = pk) :
    holder (unlisted b v) norm = (v.claims.get? norm).map Claim.pk := by
  unfold holder unlisted
  dsimp only
  rw [Map.get?_filterMap]
  cases hget : v.claims.get? norm with
  | none => rfl
  | some c =>
    obtain ⟨hvalid, hpk⟩ := hfits c.pk (by rw [hget]; rfl)
    rw [Option.bind_some, if_pos hvalid]
    exact congrArg some hpk

theorem Kept.reload (hs : Kept s) (hin : InOrder s .reload) : Kept s.reload := by
  obtain ⟨hunsaved, hlist⟩ := hin
  obtain ⟨hnames, hmoderator⟩ := hs.saved hunsaved
  unfold Session.reload
  rw [hlist]
  cases hsaved : s.saved with
  | none =>
    have hnone : s.list = none := by
      rw [← hlist]
      unfold Session.savedList
      rw [hsaved]
      split <;> rfl
    rw [hnone]
    exact ⟨rfl, nofun, hs.sorted, ⟨rfl, nofun, nofun⟩, fun _ _ => nofun, fun _ => ⟨fun _ _ => rfl, rfl⟩, signed_empty _,
      nofun⟩
  | some saved =>
    obtain ⟨v, me⟩ := saved
    rw [hsaved] at hnames hmoderator
    change ∀ norm, Ungiven s.given norm → (v.claims.get? norm).map Claim.pk = holder s.page norm at hnames
    change v.adminPk = s.page.vault.adminPk at hmoderator
    have hholder : ∀ norm, Ungiven s.given norm → holder (unlisted b v) norm = holder s.page norm := by
      intro norm hungiven
      rw [← hnames norm hungiven]
      refine holder_unlisted fun pk hpk => hs.fits norm hungiven pk ?_
      rw [← hnames norm hungiven]
      exact hpk
    rw [Option.map_some, loadMe_eq]
    cases hbelieved : s.list with
    | none =>
      have hpage : (match v.registry with
          | some reg => if b.REGISTRY_PUBKEY = "" then unlisted b v else applyRegistry (unlisted b v) reg
          | none => unlisted b v) = unlisted b v := by
        rw [hbelieved] at hlist
        unfold Session.savedList at hlist
        rw [hsaved] at hlist
        split
        · rename_i reg heq
          rw [Option.bind_some, heq] at hlist
          split_ifs at hlist ⊢
          rfl
        · rfl
      rw [hpage]
      refine ⟨rfl, nofun, hs.sorted, ⟨rfl, nofun, nofun⟩, fun norm hungiven pk hpk => ?_,
        fun _ => ⟨fun norm hungiven => ?_, ?_⟩, signed_empty _, nofun⟩
      · rw [hholder norm hungiven] at hpk
        exact hs.fits norm hungiven pk hpk
      · exact (hnames norm hungiven).trans (hholder norm hungiven).symm
      · rfl
    | some reg =>
      have hreg : v.registry = some reg ∧ b.REGISTRY_PUBKEY ≠ "" := by
        rw [hbelieved] at hlist
        unfold Session.savedList at hlist
        rw [hsaved] at hlist
        split_ifs at hlist with hkey
        exact ⟨hlist, hkey⟩
      rw [hreg.1]
      dsimp only
      rw [if_neg hreg.2]
      have hmem := hs.believed reg hbelieved
      obtain ⟨-, -, hloaded, hlocked⟩ := applyRegistry_rest (unlisted b v) reg
      have hother : ∀ norm, Ungiven s.given norm →
          holder (applyRegistry (unlisted b v) reg) norm = holder s.page norm :=
        fun norm hungiven => (holder_applyRegistry _ (hungiven reg hmem)).trans (hholder norm hungiven)
      refine ⟨hlocked, ?_, hs.sorted, onTop_applyRegistry _ (hs.sorted reg hmem), fun norm hungiven pk hpk => ?_,
        fun _ => ⟨fun norm hungiven => ?_, ?_⟩, signed_applyRegistry (signed_empty _) reg, nofun⟩
      · rintro _ ⟨⟩
        exact hmem
      · change holder (applyRegistry (unlisted b v) reg) norm = some pk at hpk
        rw [hother norm hungiven] at hpk
        exact hs.fits norm hungiven pk hpk
      · exact (hnames norm hungiven).trans (hother norm hungiven).symm
      · change v.adminPk = (applyRegistry (unlisted b v) reg).vault.adminPk
        rw [(applyRegistry_fields _ reg).2.2]
        cases hadmin : reg.admin with
        | none => rfl
        | some admin => rw [hmoderator, hs.onTop.moderator reg hbelieved admin hadmin]; rfl

theorem Kept.step (hs : Kept s) (e : Event) (hin : InOrder s e) : Kept (s.step e) := by
  cases e with
  | message topic text => exact hs.message topic text
  | signIn name pass ready =>
    change Kept (s.signIn name pass ready)
    unfold Session.signIn
    dsimp only
    split
    · exact hs
    · rename_i hvalid
      have hname := not_not.1 (not_or.1 (not_or.1 (not_or.1 hvalid).2).2).1
      exact hs.add (show Fitting (.keying name _ pass) from hname)
  | signOut => exact hs.persist none
  | enterMod pass ready =>
    change Kept (s.enterMod pass ready)
    unfold Session.enterMod
    split_ifs
    · exact hs
    · exact hs
    · exact hs.add trivial
    · exact hs.claimModeration
  | write id tid cat title body ts ready =>
    change Kept (s.write id tid cat title body ts ready)
    unfold Session.write
    split
    · exact hs
    · split
      · exact hs
      · exact hs.add rfl
  | goOn i ok now => exact hs.goOn hin
  | save => exact hs.save
  | reload => exact hs.reload hin

/-! #### What a step in order does -/

/-- The list does not go back, and what no list says stays. -/
structure Advances (s s' : Session b) : Prop where
  forward : s.page.registrySeq ≤ s'.page.registrySeq
  first : ∀ norm pk, holder s.page norm = some pk → Ungiven s'.given norm → holder s'.page norm = some pk
  firstModerator : ∀ pk, s.page.vault.adminPk = some pk → (∀ reg ∈ s'.given, reg.admin = none) →
    s'.page.vault.adminPk = some pk

theorem Advances.refl (s : Session b) : Advances s s := ⟨le_rfl, fun _ _ h _ => h, fun _ h _ => h⟩

theorem advances_of_eq (hclaims : s'.page.vault.claims = s.page.vault.claims)
    (hadmin : s'.page.vault.adminPk = s.page.vault.adminPk) (hseq : s'.page.registrySeq = s.page.registrySeq) :
    Advances s s' := by
  refine ⟨hseq.ge, fun norm pk hpk _ => ?_, fun pk hpk _ => hadmin.trans hpk⟩
  unfold holder at hpk ⊢
  rwa [hclaims]

theorem advances_of_untouched (h : Untouched s.page s'.page) : Advances s s' := advances_of_eq h.claims h.admin h.seq

theorem advances_recorded {norm : String} {c : Claim} (hfree : ∀ pk, holder s.page norm = some pk → pk = c.pk)
    (hpage : s'.page = Page.persist { s.page with vault.claims := s.page.vault.claims.set norm c }) :
    Advances s s' := by
  have huntouched := untouched_persist { s.page with vault.claims := s.page.vault.claims.set norm c }
  rw [← hpage] at huntouched
  refine ⟨huntouched.seq.ge, fun norm' pk hpk _ => ?_, fun pk hpk _ => huntouched.admin.trans hpk⟩
  unfold holder
  rw [huntouched.claims]
  dsimp only
  rw [Map.get?_set]
  split
  · rename_i heq
    rw [heq] at hpk
    exact congrArg some (hfree pk hpk).symm
  · exact hpk

theorem advances_moderated {pk : String} (hfree : ∀ pk', s.page.vault.adminPk = some pk' → pk' = pk)
    (hpage : s'.page = Page.persist { s.page with vault.adminPk := some pk }) : Advances s s' := by
  have huntouched := untouched_persist { s.page with vault.adminPk := some pk }
  rw [← hpage] at huntouched
  refine ⟨huntouched.seq.ge, fun norm pk' hpk' _ => ?_, fun pk' hpk' _ => ?_⟩
  · unfold holder at hpk' ⊢
    rwa [huntouched.claims]
  · rw [huntouched.admin]
    exact congrArg some (hfree pk' hpk').symm

theorem Kept.message_advances (hs : Kept s) (topic : List String) (text : String) :
    Advances s (s.message topic text) := by
  obtain ⟨-, ⟨-, huntouched⟩ | ⟨-, norm, c, -, hfree, heq⟩ | ⟨-, pk, hfree, heq⟩ | ⟨reg, hbelieved, heq⟩⟩ :=
    onMessage_cases hs.signed topic text
  · exact advances_of_untouched huntouched
  · exact advances_recorded (fun pk hpk => by rw [holder, hfree] at hpk; cases hpk) heq
  · exact advances_moderated (fun pk' hpk' => by rw [hfree] at hpk'; cases hpk') heq
  · have hpage : (s.message topic text).page = listed s.page reg := heq
    have hgiven : reg ∈ (s.message topic text).given := by
      unfold Session.message
      dsimp only
      rw [hbelieved]
      exact List.mem_append_right _ (List.mem_singleton_self _)
    have huntouched := untouched_persist { s.page with vault.registry := some reg }
    obtain ⟨hseq, -, hadmin⟩ := applyRegistry_fields (Page.persist { s.page with vault.registry := some reg }) reg
    refine ⟨?_, fun norm pk hpk hungiven => ?_, fun pk hpk hnone => ?_⟩
    · have hlt : s.page.registrySeq < reg.seq := by
        unfold believes at hbelieved
        split at hbelieved
        · simpa using (Option.filter_eq_some_iff.1 hbelieved).2
        · cases hbelieved
      rw [hpage]
      unfold listed
      rw [hseq]
      exact hlt.le
    · rw [hpage]
      unfold listed
      rw [holder_applyRegistry _ (hungiven reg hgiven)]
      unfold holder at hpk ⊢
      rwa [huntouched.claims]
    · rw [hpage]
      unfold listed
      rw [hadmin, hnone reg hgiven]
      exact huntouched.admin.trans hpk

theorem Kept.goOn_advances {i : Nat} {ok : Bool} {now : ℚ} (hin : InOrder s (.goOn i ok now)) :
    Advances s (s.goOn i ok now) := by
  have hsame : ∀ s' : Session b, s'.page = s.page → Advances s s' := fun s' h =>
    advances_of_untouched (h ▸ Untouched.refl s.page)
  unfold Session.goOn
  split
  · exact Advances.refl s
  rename_i place hplace
  split
  · exact hsame _ rfl
  rename_i hok
  have hunmet := hin (by simpa using hok) place hplace
  split
  · unfold Session.keyed
    dsimp only
    split
    · exact hsame _ rfl
    split
    · split
      · exact hsame _ rfl
      · exact advances_of_untouched (untouched_persist s.page)
    · split_ifs
      · exact hsame _ rfl
      · exact hsame _ rfl
  · exact hsame _ rfl
  · rename_i norm shown id ts
    have hfree : ∀ pk, holder s.page norm = some pk → pk = (⟨shown, id.pub, ts⟩ : Claim).pk := hunmet
    exact advances_recorded hfree rfl
  · unfold Session.hashed Session.claimModeration
    split_ifs
    · exact hsame _ rfl
    · exact hsame _ rfl
    · exact hsame _ rfl
  · exact hsame _ rfl
  · unfold Session.taken
    split
    · exact hsame _ rfl
    · rename_i me hme
      exact advances_moderated (hunmet me hme) rfl
  · exact advances_of_untouched (untouched_setStore s.page _ _)

theorem reload_unsaved (s : Session b) : s.reload.page.unsaved = false := by
  unfold Session.reload
  cases s.saved with
  | none => rfl
  | some saved =>
    change (loadMe b.toBrowser (some saved.1) false).unsaved = false
    rw [loadMe_eq]
    split
    · split
      · rfl
      · exact (applyRegistry_rest _ _).2.2.1
    · rfl

theorem Kept.reload_advances (hs : Kept s) (hin : InOrder s .reload) : Advances s s.reload := by
  have hnext := hs.reload hin
  have hbefore := hs.saved hin.1
  have hafter := hnext.saved (reload_unsaved s)
  refine ⟨?_, fun norm pk hpk hungiven => ?_, fun pk hpk _ => ?_⟩
  · rw [hs.onTop.seq, hnext.onTop.seq]
    have hlist : s.reload.list = s.list := hin.2
    rw [hlist]
  · rw [← hafter.names norm hungiven]
    exact (hbefore.names norm hungiven).trans hpk
  · rw [← hafter.moderator]
    exact hbefore.moderator.trans hpk

theorem Kept.advances (hs : Kept s) (e : Event) (hin : InOrder s e) : Advances s (s.step e) := by
  have hsame : ∀ s' : Session b, s'.page = s.page → Advances s s' := fun s' h =>
    advances_of_untouched (h ▸ Untouched.refl s.page)
  cases e with
  | message topic text => exact hs.message_advances topic text
  | signIn name pass ready =>
    change Advances s (s.signIn name pass ready)
    unfold Session.signIn
    dsimp only
    split
    · exact hsame _ rfl
    · exact hsame _ rfl
  | signOut => exact advances_of_untouched (untouched_persist s.page)
  | enterMod pass ready =>
    change Advances s (s.enterMod pass ready)
    unfold Session.enterMod Session.claimModeration
    split_ifs
    · exact hsame _ rfl
    · exact hsame _ rfl
    · exact hsame _ rfl
    · exact hsame _ rfl
    · exact hsame _ rfl
  | write id tid cat title body ts ready =>
    change Advances s (s.write id tid cat title body ts ready)
    unfold Session.write
    split
    · exact hsame _ rfl
    · split
      · exact hsame _ rfl
      · exact hsame _ rfl
  | goOn i ok now => exact Kept.goOn_advances hin
  | save =>
    change Advances s s.save
    unfold Session.save
    split
    · exact advances_of_eq rfl rfl rfl
    · exact hsame _ rfl
  | reload => exact hs.reload_advances hin

theorem Kept.shown (hs : Kept s) {reg : Registry} (hreg : s.list = some reg) {entry : Entry}
    (hentry : entry ∈ reg.names) {kind : Char} {id : String} {post : Post}
    (hget : (s.page.store kind).get? id = some post) (hname : normalizeName b.toEnv post.nick = entry.norm)
    (hbadge : authorBadge b s.page post = .verified) :
    post.pk = some entry.pk ∧ ∃ sig, b.verifyFields entry.pk (post.fields b.toBrowser) sig := by
  unfold authorBadge at hbadge
  split at hbadge
  · cases hbadge
  · rename_i pk hpk
    rw [hname, hs.onTop.names reg hreg entry hentry] at hbadge
    dsimp only at hbadge
    split_ifs at hbadge with heq
    rw [heq]
    exact ⟨hpk, hs.signed kind id post hget pk hpk⟩

theorem Kept.holds (hs : Kept s) (e : Event) (hin : InOrder s e) : Holds s e := by
  have hnext := hs.step e hin
  have hadvances := hs.advances e hin
  exact ⟨hadvances.forward, hnext.onTop.names, fun reg hreg entry hentry kind id post hget hname hbadge =>
    hnext.shown hreg hentry hget hname hbadge, hnext.onTop.moderator, hadvances.first, hadvances.firstModerator⟩

/-- In every run in order the registrar's word stands. -/
theorem reader_run (b : Keys) (es : List Event) (hin : Along Session.step InOrder (start b) es) :
    Along Session.step Holds (start b) es :=
  Along.of_invariant (fun _ e hs hok => hs.step e hok) (fun _ e hs hok => hs.holds e hok) hin kept_start

/-- All that is signed verifies, every account has one key, and the registrar gives "alice" to another. -/
private def alices : Keys where
  fromSlice s :=
    if s = "list" then
      some (.obj [("v", .int 1), ("seq", .int 1), ("ts", .int 0), ("admin", .str "moderator"), ("sig", .str ""),
        ("names", .arr [.arr [.str "alice", .str "alice", .str "other", .int 0]])])
    else none
  isOne s := s = "1"
  verifyFields _ _ _ := true
  canonicalPub _ := true
  toLowercase s := s
  ofInt n := n
  ofInt_eq := integer_kept
  ofText _ := none
  printed q := .int q.num
  printed_eq := integer_printed
  fingerprint pk := pk
  REGISTRY_PUBKEY := "registrar"
  deriveIdentity _ _ := some "own"
  units_pub := by
    rintro _ _ _ ⟨⟩
    decide
  signFields _ _ := ""
  signed _ _ _ _ _ := rfl
  sha s := s

private def registering : List Event :=
  [.signIn "alice" "correct horse battery" true, .goOn 0 true 0, .message ["hforum", "registry"] "list", .goOn 0 true 0]

/-- The list gives the name to another key while the claim is published, and then the page's own key takes its place. -/
theorem name_overwritten : ¬ ∀ (b : Keys) (es : List Event), Along Session.step Holds (start b) es := by
  intro hall
  have hrun := hall alices (registering ++ [.goOn 0 true 0])
  have hlast := ((along_append _ _ _).1 hrun).2.1
  have hlist : ((run Session.step (start alices) registering).step (.goOn 0 true 0)).list =
      some ⟨1, 0, [⟨"alice", "alice", "other", 0⟩], some "moderator", none⟩ := by decide
  have hholder : holder ((run Session.step (start alices) registering).step (.goOn 0 true 0)).page "alice" =
      some "own" := by decide
  have hgiven := hlast.names _ hlist _ (List.mem_singleton_self _)
  rw [hholder] at hgiven
  simp at hgiven

/-- What is written is written for the key that is there, and pages are left with all saved. -/
private def Orderly (s : Session alices) (e : Event) : Prop :=
  (match e with
    | .goOn i _ _ => match s.tasks[i]? with
      | some (.publishing norm _ id _) => (holder s.page norm).all (· = id.pub)
      | some .modPublishing => s.page.vault.adminPk.isNone
      | _ => true
    | .reload => s.page.unsaved = false && s.savedList = s.list
    | _ => true) = true

private instance (s : Session alices) (e : Event) : Decidable (Orderly s e) := inferInstanceAs (Decidable (_ = true))

private theorem inOrder_of_orderly {es : List Event} (hes : Along Session.step Orderly (start alices) es) :
    Along Session.step InOrder (start alices) es := by
  refine Along.of_invariant (P := fun _ => True) (fun _ _ _ _ => trivial) (fun s e _ horderly => ?_) hes trivial
  unfold Orderly at horderly
  cases e with
  | goOn i ok now =>
    intro _ place hplace
    simp only [hplace] at horderly
    cases place with
    | publishing norm shown id ts =>
      intro pk hpk
      simpa [hpk] using horderly
    | modPublishing =>
      intro me _ pk hpk
      simp [hpk] at horderly
    | _ => trivial
  | reload => simpa [InOrder] using horderly
  | _ => trivial

/-- A name is registered, a post is signed, the list comes, and the page is opened again. -/
theorem reader_run_registered : Along Session.step Holds (start alices)
    [.signIn "bob" "correct horse battery" true, .goOn 0 true 0, .goOn 0 true 0, .goOn 0 true 0,
      .write "taaaaaaaaaa" none "Privacy" "title" "body" 0 true, .goOn 0 true 0,
      .message ["hforum", "registry"] "list", .save, .reload] :=
  reader_run alices _ (inOrder_of_orderly (by decide))

end HidraNet.Forum.Reader
