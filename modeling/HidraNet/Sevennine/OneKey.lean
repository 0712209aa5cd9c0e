import HidraNet.Sevennine.Changes
import HidraNet.Sevennine.Lifecycle

/-!
# One site, one key

When nothing is under way the map has the sites on disk with the keys in their key files, and the addresses of those keys
are announced (`OneKey`); a creation that was answered stands until a deletion of the name begins (`Kept`).

That holds of the runs in which each takes its turn (`InTurn`, `sites_run`): the start announces after its task filled the
map, a creation writes while no other call is between the map and the files of the name, a deletion does not overtake a
creation, and nothing that is written or removed fails half-way.  Nothing in the code keeps that order: the start announces
an empty map before its task has run (`announced_before_filled`).
-/

namespace HidraNet.Sevennine

open Maps Text Utf8 Runs

variable {env : KeyEnv}

/-! ### What is announced -/

def live (hash : Bytes) (queue : List Announcement) : Bool :=
  queue.foldl (fun up a => match a with
    | .publish h _ => up || h = hash
    | .withdraw h => up && h ≠ hash) false

theorem live_publish (hash h k : Bytes) (queue : List Announcement) :
    live hash (queue ++ [.publish h k]) = (live hash queue || h = hash) := List.foldl_append

theorem live_withdraw (hash h : Bytes) (queue : List Announcement) :
    live hash (queue ++ [.withdraw h]) = (live hash queue && h ≠ hash) := List.foldl_append

theorem live_announcements (hash : Bytes) (sites : Map Text SiteRecord) :
    live hash (announcements env sites) ↔
      ∃ n r, sites.get? n = some r ∧ r.signingKeyBytes ≠ zeroKey ∧ address env r.signingKeyBytes = hash := by
  have hlive (entries : List (Text × SiteRecord)) : live hash (entries.filterMap fun e =>
      if e.2.signingKeyBytes = zeroKey then none
      else some (.publish (address env e.2.signingKeyBytes) e.2.signingKeyBytes)) ↔
      ∃ e ∈ entries, e.2.signingKeyBytes ≠ zeroKey ∧ address env e.2.signingKeyBytes = hash := by
    induction entries using List.reverseRecOn with
    | nil => simp [live]
    | append_singleton entries e ih =>
      rw [List.filterMap_append, List.filterMap_cons]
      by_cases hzero : e.2.signingKeyBytes = zeroKey
      · simp only [if_pos hzero, List.filterMap_nil, List.append_nil, ih]
        simp [hzero]
      · simp only [if_neg hzero, List.filterMap_nil, live_publish, Bool.or_eq_true, ih]
        simp [or_and_right, exists_or, hzero]
  unfold announcements
  rw [hlive]
  constructor
  · rintro ⟨e, he, h⟩
    exact ⟨e.1, e.2, Map.mem_entries.1 he, h⟩
  · rintro ⟨n, r, hget, h⟩
    exact ⟨(n, r), Map.mem_entries.2 hget, h⟩

/-! ### What is on disk -/

def readSite (env : KeyEnv) (d : Dir) : Option (SiteInfo × Option Bytes) :=
  (((d.files.get? metaFile).bind fromUtf8).bind env.fromStr).map (·, readKey env d)

def recordOf (site : SiteInfo × Option Bytes) : SiteRecord := ⟨site.1, site.2.getD zeroKey⟩

theorem loadSite_eq (d : Dir) : loadSite env d = (readSite env d).map recordOf := by
  unfold loadSite readSite
  rw [Option.map_map]
  rfl

def seen (env : KeyEnv) (disk : Map Text Dir) (n : Text) : Option (SiteInfo × Option Bytes) :=
  (disk.get? n).bind (readSite env)

theorem get?_set_update {ν : Type*} (m : Map Text ν) (n : Text) (v : ν) :
    (m.set n v).get? = Function.update m.get? n (some v) := by
  funext n'
  rw [Map.get?_set, Function.update_apply]

theorem get?_remove_update {ν : Type*} (m : Map Text ν) (n : Text) :
    (m.remove n).get? = Function.update m.get? n none := by
  funext n'
  rw [Map.get?_remove, Function.update_apply]

theorem seen_set (disk : Map Text Dir) (site : Text) (d : Dir) :
    seen env (disk.set site d) = Function.update (seen env disk) site (readSite env d) := by
  funext n
  unfold seen
  rw [get?_set_update, Function.update_apply, Function.update_apply]
  split <;> rfl

theorem seen_remove (disk : Map Text Dir) (site : Text) :
    seen env (disk.remove site) = Function.update (seen env disk) site none := by
  funext n
  unfold seen
  rw [get?_remove_update, Function.update_apply, Function.update_apply]
  split <;> rfl

theorem get?_loadSites (disk : Map Text Dir) (n : Text) :
    (loadSites env disk).get? n = (seen env disk n).map recordOf := by
  unfold loadSites seen
  rw [Map.get?_filterMap, Option.map_bind]
  congr 1
  funext d
  exact loadSite_eq d

theorem exists_of_seen {disk : Map Text Dir} {n : Text} {info : SiteInfo} {key : Option Bytes}
    (h : seen env disk n = some (info, key)) :
    ∃ d, disk.get? n = some d ∧ (loadSite env d).isSome ∧ readKey env d = key := by
  obtain ⟨d, hd, hread⟩ := Option.bind_eq_some_iff.1 h
  refine ⟨d, hd, by rw [loadSite_eq, hread]; rfl, ?_⟩
  unfold readSite at hread
  obtain ⟨info', -, heq⟩ := Option.map_eq_some_iff.1 hread
  exact (Prod.mk.inj heq).2

theorem seen_of_load {disk : Map Text Dir} {n : Text} {d : Dir} (hd : disk.get? n = some d)
    (hload : (loadSite env d).isSome) : ∃ info, seen env disk n = some (info, readKey env d) := by
  unfold loadSite at hload
  rw [Option.isSome_map, Option.isSome_iff_exists] at hload
  obtain ⟨info, hinfo⟩ := hload
  refine ⟨info, Option.bind_eq_some_iff.2 ⟨d, hd, ?_⟩⟩
  unfold readSite
  rw [hinfo, Option.map_some]

theorem key_of_nonzero {site : SiteInfo × Option Bytes} (h : (recordOf site).signingKeyBytes ≠ zeroKey) :
    site.2 = some (recordOf site).signingKeyBytes := by
  obtain ⟨info, key⟩ := site
  cases key with
  | none => exact absurd rfl h
  | some k => rfl

theorem readSite_index (d : Dir) (content : Bytes) (w : Wrote) :
    readSite env (d.write indexFile content w) = readSite env d := by
  unfold readSite readKey
  rw [Dir.get?_write, Dir.get?_write, if_neg (by decide), if_neg (by decide)]

/-- A key that is drawn: it is read back from its file, and it is like none before. -/
structure Draws (env : KeyEnv) (b : Builder) (site : Text) (w : World) : Prop where
  length : w.key.length = 32
  nonzero : w.key ≠ zeroKey
  base64 : env.fromBase64 (trim (String.ofList (env.toBase64 w.key))).toList = some w.key
  json : (fromUtf8 (env.toStringPretty (newInfo env site w))).bind env.fromStr = some (newInfo env site w)
  unheard : address env w.key ∉ b.known

theorem readSite_newFiles {b : Builder} {site : Text} {w : World} (h : Draws env b site w) (hrecord : w.record = .done)
    (hkey : w.keyWrote = .done) (d : Dir) :
    readSite env (Builder.newFiles env site w d) = some (newInfo env site w, some w.key) := by
  have hmeta : (Builder.newFiles env site w d).files.get? metaFile =
      some (env.toStringPretty (newInfo env site w)) := by
    unfold Builder.newFiles
    rw [Dir.get?_write, if_neg (by decide), Dir.get?_write, if_pos rfl, hrecord]
    rfl
  have hfile : (Builder.newFiles env site w d).files.get? keyFile = some (encode (env.toBase64 w.key)) := by
    unfold Builder.newFiles
    rw [Dir.get?_write, if_pos rfl, hkey]
    rfl
  unfold readSite readKey
  rw [hmeta, hfile, Option.bind_some, Option.bind_some, h.json, fromUtf8_encode, Option.bind_some, h.base64,
    Option.filter_some, if_pos (decide_eq_true h.length), Option.map_some]

namespace Task

def making : Task → Option (Text × SiteRecord)
  | .made site record => some (site, record)
  | _ => none

def parting : Task → Option (Text × Bytes)
  | .withdrawing site hash => some (site, hash)
  | _ => none

def Makes (site : Text) (t : Task) : Prop := t.making.map Prod.fst = some site

def Parts (site : Text) (t : Task) : Prop := t.parting.map Prod.fst = some site

instance (site : Text) (t : Task) : Decidable (t.Makes site) := inferInstanceAs (Decidable (_ = _))

instance (site : Text) (t : Task) : Decidable (t.Parts site) := inferInstanceAs (Decidable (_ = _))

end Task

namespace Builder

/-! ### What is to hold -/

/-- The map has the sites on disk, each with the key in its key file, and the addresses of those are announced. -/
structure OneKey (env : KeyEnv) (b : Builder) : Prop where
  same (n : Text) : b.sites.get? n = (b.disk.get? n).bind (loadSite env)
  announced (hash : Bytes) : live hash b.queue ↔ ∃ n d k, b.disk.get? n = some d ∧ (loadSite env d).isSome ∧
    readKey env d = some k ∧ address env k = hash

def Quiet (b : Builder) : Prop := b.fill = none ∧ b.announced ∧ ∀ i, b.tasks i = .idle

def Kept (env : KeyEnv) (b : Builder) : Prop :=
  ∀ p ∈ b.stands, ∃ d, b.disk.get? p.1 = some d ∧ (loadSite env d).isSome ∧ readKey env d = some p.2 ∧
    b.sites.get? p.1 = loadSite env d

/-! ### Taking turns -/

def Clears (env : KeyEnv) (b : Builder) (site : Text) (w : World) : Prop :=
  match b.disk.get? site, w.stuck with
  | some d, some (names, _) => loadSite env (d.kept names) = none
  | _, _ => True

instance (b : Builder) (site : Text) (w : World) : Decidable (b.Clears env site w) := by
  unfold Clears
  split <;> infer_instance

/-- The start announces once the map is filled; a creation writes, in full, while no other call is between the map and
the files of the site; a deletion takes off no site whose creation goes on or was answered after it began, and its removal
succeeds. -/
def InTurn (env : KeyEnv) (b : Builder) : Event → Prop
  | .announce => b.announced ∨ b.fill = none
  | .proceed i w =>
    match b.tasks i with
    | .creating site => b.sites.get? site = none ∧ w.folder = none ∧ w.index = .done →
      (∀ j < b.next, ¬ (b.tasks j).Makes site ∧ ¬ (b.tasks j).Parts site) ∧ w.record = .done ∧ w.keyWrote = .done
    | .deleting site => (∀ j < b.next, ¬ (b.tasks j).Makes site) ∧ (∀ p ∈ b.stands, p.1 ≠ site) ∧
      (b.withdrawal env site = none → b.Clears env site w)
    | .withdrawing site _ => b.Clears env site w
    | _ => True
  | _ => True

instance (b : Builder) (e : Event) : Decidable (b.InTurn env e) := by
  unfold InTurn
  split
  · infer_instance
  · split <;> infer_instance
  · infer_instance

/-- What the libraries' part does at an event. -/
def Drawn (env : KeyEnv) (b : Builder) : Event → Prop
  | .proceed i w =>
    match b.tasks i with
    | .creating site => Draws env b site w
    | _ => True
  | _ => True

end Builder

/-- No key is in two key files, and none is zero, which stands for no key in memory. -/
structure Distinct (env : KeyEnv) (disk : Map Text Dir) : Prop where
  nonzero (n : Text) (d : Dir) : disk.get? n = some d → (loadSite env d).isSome → readKey env d ≠ some zeroKey
  one (n n' : Text) (d d' : Dir) (k k' : Bytes) : disk.get? n = some d → disk.get? n' = some d' →
    (loadSite env d).isSome → (loadSite env d').isSome → readKey env d = some k → readKey env d' = some k' →
    address env k = address env k' → n = n'

/-! ### The ledger -/

/-- What the calls do to the sites, with each task by what it is between. -/
structure Ledger where
  sites : Text → Option SiteRecord
  seen : Text → Option (SiteInfo × Option Bytes)
  making : Nat → Option (Text × SiteRecord)
  parting : Nat → Option (Text × Bytes)
  queue : List Announcement
  stands : List (Text × Bytes)
  known : List Bytes

namespace Ledger

def hashOf (env : KeyEnv) (r : SiteRecord) : Option Bytes :=
  if r.signingKeyBytes = zeroKey then none else some (address env r.signingKeyBytes)

def write (env : KeyEnv) (l : Ledger) (i : Nat) (n : Text) (r : SiteRecord) : Ledger :=
  { l with
    making := Function.update l.making i (some (n, r))
    seen := Function.update l.seen n (some (r.info, some r.signingKeyBytes))
    known := l.known ++ [address env r.signingKeyBytes] }

/-- A new site goes on the map. -/
def enter (env : KeyEnv) (l : Ledger) (i : Nat) (n : Text) (r : SiteRecord) : Ledger :=
  { l with
    sites := Function.update l.sites n (some r)
    making := Function.update l.making i none
    queue := l.queue ++ [.publish (address env r.signingKeyBytes) r.signingKeyBytes]
    stands := l.stands ++ [(n, r.signingKeyBytes)] }

def leave (l : Ledger) (i : Nat) (n : Text) (hash : Bytes) : Ledger :=
  { l with
    sites := Function.update l.sites n none
    parting := Function.update l.parting i (some (n, hash)) }

def gone (l : Ledger) (n : Text) : Ledger :=
  { l with sites := Function.update l.sites n none, seen := Function.update l.seen n none }

def withdraw (l : Ledger) (i : Nat) (hash : Bytes) : Ledger :=
  { l with parting := Function.update l.parting i none, queue := l.queue ++ [.withdraw hash] }

theorem hashOf_eq_some {r : SiteRecord} {hash : Bytes} :
    hashOf env r = some hash ↔ r.signingKeyBytes ≠ zeroKey ∧ address env r.signingKeyBytes = hash := by
  unfold hashOf
  by_cases hzero : r.signingKeyBytes = zeroKey <;> simp [hzero]

structure Books (env : KeyEnv) (l : Ledger) : Prop where
  made (i : Nat) (n : Text) (r : SiteRecord) : l.making i = some (n, r) →
    l.sites n = none ∧ r.signingKeyBytes ≠ zeroKey ∧ l.seen n = some (r.info, some r.signingKeyBytes)
  apart (i j : Nat) (n : Text) (r r' : SiteRecord) : l.making i = some (n, r) → l.making j = some (n, r') → i = j
  alone (i j : Nat) (n : Text) (r : SiteRecord) (hash : Bytes) : l.making i = some (n, r) →
    l.parting j ≠ some (n, hash)
  leaving (i : Nat) (n : Text) (hash : Bytes) : l.parting i = some (n, hash) → l.sites n = none
  same (n : Text) : l.sites n = (l.seen n).map recordOf ∨ (∃ i r, l.making i = some (n, r)) ∨
    ∃ i hash, l.parting i = some (n, hash)
  nonzero (n : Text) (info : SiteInfo) : l.seen n ≠ some (info, some zeroKey)
  stands (n : Text) (k : Bytes) : (n, k) ∈ l.stands → ∃ r, l.sites n = some r ∧ r.signingKeyBytes = k ∧ k ≠ zeroKey
  -- each address belongs to one site or task
  oneSite (n n' : Text) (hash : Bytes) : (l.sites n).bind (hashOf env) = some hash →
    (l.sites n').bind (hashOf env) = some hash → n = n'
  onePart (i j : Nat) (n n' : Text) (hash : Bytes) : l.parting i = some (n, hash) → l.parting j = some (n', hash) → i = j
  oneMade (i j : Nat) (n n' : Text) (r r' : SiteRecord) : l.making i = some (n, r) → l.making j = some (n', r') →
    address env r.signingKeyBytes = address env r'.signingKeyBytes → i = j
  sitePart (n : Text) (i : Nat) (n' : Text) (hash : Bytes) : (l.sites n).bind (hashOf env) = some hash →
    l.parting i ≠ some (n', hash)
  siteMade (n : Text) (i : Nat) (n' : Text) (r : SiteRecord) : l.making i = some (n', r) →
    (l.sites n).bind (hashOf env) ≠ some (address env r.signingKeyBytes)
  partMade (i j : Nat) (n n' : Text) (r : SiteRecord) : l.making i = some (n, r) →
    l.parting j ≠ some (n', address env r.signingKeyBytes)
  knownSite (n : Text) (hash : Bytes) : (l.sites n).bind (hashOf env) = some hash → hash ∈ l.known
  knownPart (i : Nat) (n : Text) (hash : Bytes) : l.parting i = some (n, hash) → hash ∈ l.known
  knownMade (i : Nat) (n : Text) (r : SiteRecord) : l.making i = some (n, r) →
    address env r.signingKeyBytes ∈ l.known
  live (hash : Bytes) : live hash l.queue ↔ (∃ n, (l.sites n).bind (hashOf env) = some hash) ∨
    ∃ i n, l.parting i = some (n, hash)

variable {l : Ledger}

theorem Books.write (h : l.Books env) {i : Nat} {n : Text} {r : SiteRecord} (hsite : l.sites n = none)
    (hmaking : l.making i = none) (hmakes : ∀ j r', l.making j ≠ some (n, r'))
    (hparts : ∀ j hash, l.parting j ≠ some (n, hash)) (hnonzero : r.signingKeyBytes ≠ zeroKey)
    (hnew : address env r.signingKeyBytes ∉ l.known) : (l.write env i n r).Books env := by
  cases h
  constructor <;> simp only [Ledger.write, Function.update_apply] at *
  case made | apart | alone | leaving | same | nonzero | stands => grind
  case oneSite | onePart | oneMade | sitePart | siteMade | partMade => grind
  case knownSite | knownPart | knownMade | live => grind

theorem Books.enter (h : l.Books env) {i : Nat} {n : Text} {r : SiteRecord} (hmaking : l.making i = some (n, r)) :
    (l.enter env i n r).Books env := by
  have hmade := h.made
  have hlive := h.live
  cases h
  have hhash : hashOf env r = some (address env r.signingKeyBytes) := if_neg (hmade i n r hmaking).2.1
  have hnone : l.sites n = none := (hmade i n r hmaking).1
  have hrecord : recordOf (r.info, some r.signingKeyBytes) = r := rfl
  constructor <;> simp only [Ledger.enter, Function.update_apply] at *
  case made | apart | alone | leaving | same | nonzero | stands => grind
  case oneSite | onePart | oneMade | sitePart | siteMade | partMade => grind
  case knownSite | knownPart | knownMade => grind
  case live =>
    simp only [live_publish, Bool.or_eq_true, decide_eq_true_eq, hlive]
    grind [hashOf]

theorem Books.leave (h : l.Books env) {i : Nat} {n : Text} {hash : Bytes}
    (hsite : (l.sites n).bind (hashOf env) = some hash) (hparting : l.parting i = none)
    (hstand : ∀ k, (n, k) ∉ l.stands) : (l.leave i n hash).Books env := by
  have hsame := h.same
  have hlive := h.live
  cases h
  constructor <;> simp only [Ledger.leave, Function.update_apply] at *
  case made | apart | alone | leaving | nonzero | stands => grind
  case same =>
    intro m
    by_cases hm : m = n
    · exact .inr (.inr ⟨i, hash, by rw [if_pos rfl, hm]⟩)
    · have hwas := hsame m
      grind
  case oneSite | onePart | oneMade | sitePart | siteMade | partMade => grind
  case knownSite | knownPart | knownMade => grind
  case live =>
    intro hash'
    rw [hlive]
    constructor
    · rintro (⟨m, hm⟩ | ⟨j, m, hm⟩)
      · by_cases hn : m = n
        · exact .inr ⟨i, n, by grind⟩
        · exact .inl ⟨m, by grind⟩
      · exact .inr ⟨j, m, by grind⟩
    · grind

theorem Books.gone (h : l.Books env) {n : Text} (hsite : (l.sites n).bind (hashOf env) = none)
    (hmakes : ∀ j r', l.making j ≠ some (n, r')) (hstand : ∀ k, (n, k) ∉ l.stands) : (l.gone n).Books env := by
  cases h
  constructor <;> simp only [Ledger.gone, Function.update_apply] at *
  case made | apart | alone | leaving | same | nonzero | stands => grind
  case oneSite | onePart | oneMade | sitePart | siteMade | partMade => grind
  case knownSite | knownPart | knownMade | live => grind

theorem Books.withdraw (h : l.Books env) {i : Nat} {n : Text} {hash : Bytes} (hparting : l.parting i = some (n, hash))
    (hseen : l.seen n = none) : (l.withdraw i hash).Books env := by
  have hlive := h.live
  cases h
  constructor <;> simp only [Ledger.withdraw, Function.update_apply] at *
  case made | apart | alone | leaving | same | nonzero | stands => grind
  case oneSite | onePart | oneMade | sitePart | siteMade | partMade => grind
  case knownSite | knownPart | knownMade => grind
  case live =>
    simp only [live_withdraw, Bool.and_eq_true, decide_eq_true_eq, hlive]
    grind [hashOf]

theorem Books.learn (h : l.Books env) (hash : Bytes) : Books env { l with known := l.known ++ [hash] } :=
  { h with
    knownSite := fun n hash' hget => List.mem_append_left _ (h.knownSite n hash' hget)
    knownPart := fun i n hash' hget => List.mem_append_left _ (h.knownPart i n hash' hget)
    knownMade := fun i n r hget => List.mem_append_left _ (h.knownMade i n r hget) }

theorem Books.forget (h : l.Books env) (p : Text × Bytes → Bool) : Books env { l with stands := l.stands.filter p } :=
  { h with stands := fun n k hmem => h.stands n k (List.mem_filter.1 hmem).1 }

end Ledger

theorem bind_loadSite (disk : Map Text Dir) (n : Text) :
    (disk.get? n).bind (loadSite env) = (seen env disk n).map recordOf := by
  rw [← get?_loadSites]
  exact (Map.get?_filterMap (fun _ d => loadSite env d) disk n).symm

theorem hashed_iff {disk : Map Text Dir} {n : Text} {hash : Bytes} :
    ((seen env disk n).map recordOf).bind (Ledger.hashOf env) = some hash ↔
      ∃ d k, disk.get? n = some d ∧ (loadSite env d).isSome ∧ readKey env d = some k ∧ k ≠ zeroKey ∧
        address env k = hash := by
  rw [Option.bind_map, Option.bind_eq_some_iff]
  constructor
  · rintro ⟨⟨info, key⟩, hseen, hhash⟩
    obtain ⟨d, hd, hload, hread⟩ := exists_of_seen hseen
    obtain ⟨hnonzero, haddress⟩ := Ledger.hashOf_eq_some.1 hhash
    exact ⟨d, _, hd, hload, hread.trans (key_of_nonzero hnonzero), hnonzero, haddress⟩
  · rintro ⟨d, k, hd, hload, hread, hnonzero, haddress⟩
    obtain ⟨info, hseen⟩ := seen_of_load hd hload
    rw [hread] at hseen
    exact ⟨_, hseen, Ledger.hashOf_eq_some.2 ⟨hnonzero, haddress⟩⟩

namespace Builder

/-! ### The ledger of the builder -/

def ledger (env : KeyEnv) (b : Builder) : Ledger where
  sites := b.sites.get?
  seen := seen env b.disk
  making := Task.making ∘ b.tasks
  parting := Task.parting ∘ b.tasks
  queue := b.queue
  stands := b.stands
  known := b.known

/-- Calls are taken. -/
structure Running (env : KeyEnv) (b : Builder) : Prop where
  filled : b.fill = none
  announced : b.announced
  idle (i : Nat) : b.next ≤ i → b.tasks i = .idle
  books : (b.ledger env).Books env

variable {b : Builder}

private theorem update_same {α : Type*} {f : Nat → α} {i : Nat} {v : α} (h : f i = v) : Function.update f i v = f := by
  rw [← h, Function.update_eq_self]

theorem ledger_answer {i : Nat} (hmaking : (b.tasks i).making = none) (hparting : (b.tasks i).parting = none)
    (result : Except Text (Option SiteInfo)) : (b.answer i result).ledger env = b.ledger env := by
  unfold ledger answer
  simp only [Function.comp_update, Task.making, Task.parting]
  rw [update_same hmaking, update_same hparting]

theorem ledger_call {task : Except Text Task} (hidle : b.tasks b.next = .idle)
    (hquick : ∀ t, task = .ok t → t.making = none ∧ t.parting = none) : (b.call task).ledger env = b.ledger env := by
  cases task with
  | error e => rfl
  | ok t =>
    unfold ledger call
    simp only [Function.comp_update]
    rw [(hquick t rfl).1, (hquick t rfl).2]
    rw [update_same (by rw [Function.comp_apply, hidle]; rfl), update_same (by rw [Function.comp_apply, hidle]; rfl)]

theorem withdrawal_eq (site : Text) : b.withdrawal env site = (b.sites.get? site).bind (Ledger.hashOf env) := by
  unfold withdrawal Ledger.hashOf
  cases b.sites.get? site with
  | none => rfl
  | some r => by_cases hzero : r.signingKeyBytes = zeroKey <;> simp [hzero]

theorem ledger_clear {i : Nat} {site : Text} {w : World} (hclears : b.Clears env site w) :
    (b.clear i site w).ledger env = { b.ledger env with
      seen := Function.update (seen env b.disk) site none
      making := Function.update (Task.making ∘ b.tasks) i none
      parting := Function.update (Task.parting ∘ b.tasks) i none } := by
  unfold Clears at hclears
  unfold clear
  cases hget : b.disk.get? site with
  | none =>
    have hseen : Function.update (seen env b.disk) site none = seen env b.disk := by
      rw [Function.update_eq_self_iff]
      unfold seen
      rw [hget]
      rfl
    rw [hseen]
    simp [ledger, answer, Function.comp_update, Task.making, Task.parting]
  | some d =>
    rw [hget] at hclears
    cases hstuck : w.stuck with
    | none => simp [ledger, answer, Function.comp_update, Task.making, Task.parting, seen_remove]
    | some left =>
      obtain ⟨names, e⟩ := left
      rw [hstuck] at hclears
      have hread : readSite env (d.kept names) = none := by
        dsimp only at hclears
        rw [loadSite_eq, Option.map_eq_none_iff] at hclears
        exact hclears
      simp [ledger, answer, Function.comp_update, Task.making, Task.parting, seen_set, hread]

namespace Running

theorem idle_update (h : b.Running env) {i : Nat} (hi : i < b.next) (t : Task) (j : Nat) (hj : b.next ≤ j) :
    Function.update b.tasks i t j = .idle := by
  rw [Function.update_of_ne (by omega)]
  exact h.idle j hj

theorem lt_next (h : b.Running env) {i : Nat} (hi : b.tasks i ≠ .idle) : i < b.next := by
  by_contra hge
  exact hi (h.idle i (by omega))

theorem not_makes (h : b.Running env) {site : Text} (hnone : ∀ j < b.next, ¬ (b.tasks j).Makes site) (j : Nat)
    (r : SiteRecord) : (b.tasks j).making ≠ some (site, r) := by
  intro hmaking
  have hj : j < b.next := h.lt_next fun hidle => by
    rw [hidle] at hmaking
    cases hmaking
  exact hnone j hj (by unfold Task.Makes; rw [hmaking]; rfl)

theorem not_parts (h : b.Running env) {site : Text} (hnone : ∀ j < b.next, ¬ (b.tasks j).Parts site) (j : Nat)
    (hash : Bytes) : (b.tasks j).parting ≠ some (site, hash) := by
  intro hparting
  have hj : j < b.next := h.lt_next fun hidle => by
    rw [hidle] at hparting
    cases hparting
  exact hnone j hj (by unfold Task.Parts; rw [hparting]; rfl)

theorem answer (h : b.Running env) {i : Nat} (hmaking : (b.tasks i).making = none)
    (hparting : (b.tasks i).parting = none) (result : Except Text (Option SiteInfo)) :
    (b.answer i result).Running env := by
  refine ⟨h.filled, h.announced, fun j hj => ?_, by rw [ledger_answer hmaking hparting]; exact h.books⟩
  unfold Builder.answer
  dsimp only
  rw [Function.update_apply]
  split
  · rfl
  · exact h.idle j hj

theorem call (h : b.Running env) {task : Except Text Task}
    (hquick : ∀ t, task = .ok t → t.making = none ∧ t.parting = none) : (b.call task).Running env := by
  have hbooks : ((b.call task).ledger env).Books env := by
    rw [ledger_call (h.idle _ le_rfl) hquick]
    exact h.books
  cases task with
  | error e => exact ⟨h.filled, h.announced, fun j hj => h.idle j (Nat.le_of_succ_le hj), hbooks⟩
  | ok t =>
    refine ⟨h.filled, h.announced, fun j hj => ?_, hbooks⟩
    have hlt : b.next < j := hj
    change Function.update b.tasks b.next t j = .idle
    rw [Function.update_of_ne (by omega)]
    exact h.idle j (by omega)

theorem create (h : b.Running env) (name : Text) : (b.create env name).Running env := by
  unfold Builder.create
  apply h.call
  intro t ht
  split_ifs at ht
  cases ht
  exact ⟨rfl, rfl⟩

theorem delete (h : b.Running env) (name : Text) : (b.delete env name).Running env := by
  unfold Builder.delete
  dsimp only
  split
  · exact h.call (fun t ht => by cases ht)
  · have hforgot : Running env { b with stands := b.stands.filter (·.1 ≠ siteName env.toLowercase name) } :=
      ⟨h.filled, h.announced, h.idle, h.books.forget _⟩
    apply hforgot.call
    rintro t ⟨⟩
    exact ⟨rfl, rfl⟩

theorem cleared {i : Nat} {site : Text} {w : World}
    (h : b.fill = none ∧ b.announced ∧ ∀ j, b.next ≤ j → b.tasks j = .idle)
    (hbooks : ((b.clear i site w).ledger env).Books env) : (b.clear i site w).Running env := by
  have hfields : (b.clear i site w).fill = b.fill ∧ (b.clear i site w).announced = b.announced ∧
      (b.clear i site w).next = b.next ∧ (b.clear i site w).tasks = Function.update b.tasks i .idle := by
    unfold Builder.clear
    split
    · exact ⟨rfl, rfl, rfl, rfl⟩
    · split <;> exact ⟨rfl, rfl, rfl, rfl⟩
  obtain ⟨hfill, hannounced, hnext, htasks⟩ := hfields
  refine ⟨hfill ▸ h.1, hannounced ▸ h.2.1, fun j hj => ?_, hbooks⟩
  rw [htasks, Function.update_apply]
  split
  · rfl
  · exact h.2.2 j (hnext ▸ hj)

theorem make (h : b.Running env) {i : Nat} {site : Text} {w : World} (htask : b.tasks i = .creating site)
    (hdrawn : Draws env b site w)
    (hturn : b.sites.get? site = none ∧ w.folder = none ∧ w.index = .done →
      (∀ j < b.next, ¬ (b.tasks j).Makes site ∧ ¬ (b.tasks j).Parts site) ∧ w.record = .done ∧ w.keyWrote = .done) :
    (b.make env i site w).Running env := by
  have hmaking : (b.tasks i).making = none := by
    rw [htask]
    rfl
  have hparting : (b.tasks i).parting = none := by
    rw [htask]
    rfl
  have hlearned : Running env { b with known := b.known ++ [address env w.key] } :=
    ⟨h.filled, h.announced, h.idle, h.books.learn _⟩
  unfold Builder.make
  split
  · exact h.answer hmaking hparting _
  · rename_i hfree
    rw [Option.not_isSome_iff_eq_none] at hfree
    dsimp only
    split
    · exact hlearned.answer hmaking hparting _
    · rename_i hfolder
      split
      · -- the page is not written: nothing that a site is read from has changed
        rename_i left e hindex
        have hsame : Function.update (seen env b.disk) site (readSite env ((b.disk.get? site).getD ⟨.empty, []⟩)) =
            seen env b.disk := by
          rw [Function.update_eq_self_iff]
          unfold seen
          cases b.disk.get? site <;> rfl
        have hfailed : Running env
            { b with
              known := b.known ++ [address env w.key]
              disk := b.disk.set site (((b.disk.get? site).getD ⟨.empty, []⟩).write indexFile
                (encode (env.defaultPage site)) (.failed left e)) } := by
          refine ⟨h.filled, h.announced, h.idle, ?_⟩
          unfold ledger
          simp only [seen_set, readSite_index, hsame]
          exact h.books.learn _
        exact hfailed.answer hmaking hparting _
      · rename_i hindex
        obtain ⟨hothers, hrecord, hkey⟩ := hturn ⟨hfree, hfolder, hindex⟩
        refine ⟨h.filled, h.announced, fun j hj => h.idle_update (h.lt_next (by rw [htask]; nofun)) _ j hj, ?_⟩
        have hledger : ledger env
            { b with
              known := b.known ++ [address env w.key]
              disk := b.disk.set site (newFiles env site w ((b.disk.get? site).getD ⟨.empty, []⟩))
              tasks := Function.update b.tasks i (.made site ⟨newInfo env site w, w.key⟩) } =
            (b.ledger env).write env i site ⟨newInfo env site w, w.key⟩ := by
          unfold ledger Ledger.write
          simp only [seen_set, readSite_newFiles hdrawn hrecord hkey, Function.comp_update, Task.making, Task.parting]
          rw [@update_same _ (Task.parting ∘ b.tasks) _ _ hparting]
        exact hledger ▸ h.books.write hfree hmaking (h.not_makes fun j hj => (hothers j hj).1)
          (h.not_parts fun j hj => (hothers j hj).2) hdrawn.nonzero hdrawn.unheard

theorem insert (h : b.Running env) {i : Nat} {site : Text} {record : SiteRecord}
    (htask : b.tasks i = .made site record) : (b.insert env i site record).Running env := by
  have hmaking : (b.ledger env).making i = some (site, record) := by
    change (b.tasks i).making = some (site, record)
    rw [htask]
    rfl
  have hparting : (b.tasks i).parting = none := by
    rw [htask]
    rfl
  refine ⟨h.filled, h.announced, fun j hj => h.idle_update (h.lt_next (by rw [htask]; nofun)) _ j hj, ?_⟩
  have hledger : (b.insert env i site record).ledger env = (b.ledger env).enter env i site record := by
    unfold ledger Builder.insert Builder.answer Ledger.enter
    simp only [get?_set_update, Function.comp_update, Task.making, Task.parting]
    rw [@update_same _ (Task.parting ∘ b.tasks) _ _ hparting]
  rw [hledger]
  exact h.books.enter hmaking

theorem remove (h : b.Running env) {i : Nat} {site : Text} {w : World} (htask : b.tasks i = .deleting site)
    (hmakes : ∀ j < b.next, ¬ (b.tasks j).Makes site) (hstands : ∀ p ∈ b.stands, p.1 ≠ site)
    (hclears : b.withdrawal env site = none → b.Clears env site w) : (b.remove env i site w).Running env := by
  have hmaking : (b.tasks i).making = none := by
    rw [htask]
    rfl
  have hparting : (b.tasks i).parting = none := by
    rw [htask]
    rfl
  have hi : i < b.next := h.lt_next (by rw [htask]; nofun)
  have hstand (k : Bytes) : (site, k) ∉ b.stands := fun hmem => hstands _ hmem rfl
  unfold Builder.remove
  cases hwithdrawal : b.withdrawal env site with
  | some hash =>
    refine ⟨h.filled, h.announced, fun j hj => h.idle_update hi _ j hj, ?_⟩
    have hledger : ledger env
        { b with sites := b.sites.remove site, tasks := Function.update b.tasks i (.withdrawing site hash) } =
        (b.ledger env).leave i site hash := by
      unfold ledger Ledger.leave
      simp only [get?_remove_update, Function.comp_update, Task.making, Task.parting]
      rw [@update_same _ (Task.making ∘ b.tasks) _ _ hmaking]
    rw [withdrawal_eq] at hwithdrawal
    exact hledger ▸ h.books.leave hwithdrawal hparting hstand
  | none =>
    have hledger : Builder.ledger env (Builder.clear { b with sites := b.sites.remove site } i site w) =
        (b.ledger env).gone site := by
      rw [@ledger_clear env { b with sites := b.sites.remove site } i site w (hclears hwithdrawal)]
      unfold ledger Ledger.gone
      simp only [get?_remove_update]
      rw [@update_same _ (Task.making ∘ b.tasks) _ _ hmaking, @update_same _ (Task.parting ∘ b.tasks) _ _ hparting]
    rw [withdrawal_eq] at hwithdrawal
    refine cleared ⟨h.filled, h.announced, h.idle⟩ ?_
    rw [hledger]
    exact h.books.gone hwithdrawal (h.not_makes hmakes) hstand

theorem withdraw (h : b.Running env) {i : Nat} {site : Text} {hash : Bytes} {w : World}
    (htask : b.tasks i = .withdrawing site hash) (hclears : b.Clears env site w) :
    (b.withdraw i site hash w).Running env := by
  have hmaking : (b.tasks i).making = none := by
    rw [htask]
    rfl
  have hparting : (b.ledger env).parting i = some (site, hash) := by
    change (b.tasks i).parting = some (site, hash)
    rw [htask]
    rfl
  have hoff : b.sites.get? site = none := h.books.leaving i site hash hparting
  have hsites : Function.update b.sites.get? site none = b.sites.get? := Function.update_eq_self_iff.2 hoff.symm
  have hledger : (b.withdraw i site hash w).ledger env = ((b.ledger env).gone site).withdraw i hash := by
    unfold Builder.withdraw
    rw [@ledger_clear env { b with queue := b.queue ++ [.withdraw hash] } i site w hclears]
    unfold ledger Ledger.gone Ledger.withdraw
    dsimp only
    rw [@update_same _ (Task.making ∘ b.tasks) _ _ hmaking, hsites]
  have hgone : ((b.ledger env).gone site).Books env := by
    apply h.books.gone
    · exact congrArg (Option.bind · _) hoff
    · exact fun j r hmade => h.books.alone j i site r hash hmade hparting
    · intro k hmem
      obtain ⟨r, hsite, -⟩ := h.books.stands site k hmem
      exact absurd (hoff.symm.trans hsite) (by nofun)
  refine cleared ⟨h.filled, h.announced, h.idle⟩ ?_
  rw [← Builder.withdraw, hledger]
  exact hgone.withdraw hparting (Function.update_self ..)

theorem step (h : b.Running env) {e : Event} (hdrawn : b.Drawn env e) (hturn : b.InTurn env e) :
    (b.step env e).Running env := by
  cases e with
  | fill =>
    unfold Builder.step
    dsimp only
    rw [h.filled]
    exact h
  | announce =>
    unfold Builder.step
    dsimp only
    rw [if_pos h.announced]
    exact h
  | create name =>
    unfold Builder.step
    dsimp only
    rw [if_pos h.announced]
    exact h.create name
  | delete name =>
    unfold Builder.step
    dsimp only
    rw [if_pos h.announced]
    exact h.delete name
  | proceed i w =>
    unfold Drawn InTurn at *
    unfold Builder.step
    cases htask : b.tasks i <;> dsimp only at hdrawn hturn ⊢ <;> rw [htask] at hdrawn hturn ⊢
    case idle => exact h
    case creating site => exact h.make htask hdrawn hturn
    case made site record => exact h.insert htask
    case deleting site => exact h.remove htask hturn.1 hturn.2.1 hturn.2.2
    case withdrawing site hash => exact h.withdraw htask hturn

end Running

/-! ### The start -/

/-- The sites of the disk are read, and no call is taken yet. -/
structure Starting (env : KeyEnv) (disk : Map Text Dir) (b : Builder) : Prop where
  silent : b.announced = false
  untouched : b.disk = disk
  tasks : b.tasks = fun _ => .idle
  queue : b.queue = []
  stands : b.stands = []
  known : b.known = (loadSites env disk).entries.map fun e => address env e.2.signingKeyBytes
  filling : b.fill = some (loadSites env disk) ∨ b.fill = none ∧ b.sites.get? = (loadSites env disk).get?

theorem starting_start (env : KeyEnv) (disk : Map Text Dir) : (start env disk).Starting env disk := by
  refine ⟨rfl, rfl, rfl, rfl, rfl, rfl, ?_⟩
  unfold start
  dsimp only
  split
  · rename_i hnone
    right
    refine ⟨rfl, ?_⟩
    funext n
    unfold Map.get?
    rw [hnone]
    rfl
  · exact .inl rfl

theorem Starting.announce {disk : Map Text Dir} (hdistinct : Distinct env disk) (h : b.Starting env disk)
    (hfill : b.fill = none) : Running env { b with announced := true, queue := b.queue ++ announcements env b.sites } := by
  have hsites (n : Text) : b.sites.get? n = (seen env disk n).map recordOf := by
    rw [(h.filling.resolve_left (by rw [hfill]; nofun)).2, get?_loadSites]
  refine ⟨hfill, rfl, fun i _ => congrFun h.tasks i, ?_⟩
  have hidle (i : Nat) : b.tasks i = .idle := congrFun h.tasks i
  constructor <;> simp only [ledger, Function.comp_apply, hidle, Task.making, Task.parting, h.untouched, h.stands,
    h.queue, h.known, reduceCtorEq, List.not_mem_nil, false_implies, implies_true, exists_false, or_false, not_false_eq_true,
    ne_eq, List.nil_append]
  case same => exact hsites
  case nonzero =>
    intro n info hseen
    obtain ⟨d, hd, hload, hread⟩ := exists_of_seen hseen
    exact hdistinct.nonzero n d hd hload hread
  case oneSite =>
    intro n n' hash hget hget'
    rw [hsites, hashed_iff] at hget hget'
    obtain ⟨d, k, hd, hload, hread, -, rfl⟩ := hget
    obtain ⟨d', k', hd', hload', hread', -, heq⟩ := hget'
    exact hdistinct.one n n' d d' k k' hd hd' hload hload' hread hread' heq.symm
  case knownSite =>
    intro n hash hget
    obtain ⟨r, hr, hrhash⟩ := Option.bind_eq_some_iff.1 hget
    rw [(h.filling.resolve_left (by rw [hfill]; nofun)).2] at hr
    obtain ⟨-, rfl⟩ := Ledger.hashOf_eq_some.1 hrhash
    exact List.mem_map.2 ⟨(n, r), Map.mem_entries.2 hr, rfl⟩
  case live =>
    intro hash
    rw [live_announcements]
    simp only [Option.bind_eq_some_iff, Ledger.hashOf_eq_some]

def Sound (env : KeyEnv) (disk : Map Text Dir) (b : Builder) : Prop := b.Starting env disk ∨ b.Running env

theorem Sound.step {disk : Map Text Dir} (hdistinct : Distinct env disk) (h : b.Sound env disk) {e : Event}
    (hdrawn : b.Drawn env e) (hturn : b.InTurn env e) : (b.step env e).Sound env disk := by
  obtain h | h := h
  · cases e with
    | fill =>
      left
      unfold Builder.step
      dsimp only
      split
      · rename_i loaded hfill
        refine ⟨h.silent, h.untouched, h.tasks, h.queue, h.stands, h.known, .inr ⟨rfl, ?_⟩⟩
        obtain hfill' | ⟨hnone, -⟩ := h.filling
        · rw [Option.some.inj (hfill.symm.trans hfill')]
        · rw [hnone] at hfill
          cases hfill
      · exact h
    | announce =>
      right
      unfold Builder.step
      dsimp only
      rw [h.silent, if_neg (by decide)]
      exact h.announce hdistinct (hturn.resolve_left (by rw [h.silent]; decide))
    | create name =>
      left
      unfold Builder.step
      dsimp only
      rw [h.silent, if_neg (by decide)]
      exact h
    | delete name =>
      left
      unfold Builder.step
      dsimp only
      rw [h.silent, if_neg (by decide)]
      exact h
    | proceed i w =>
      left
      unfold Builder.step
      dsimp only
      rw [h.tasks]
      exact h
  · exact .inr (h.step hdrawn hturn)

theorem Running.kept (h : b.Running env) : b.Kept env := by
  rintro ⟨n, k⟩ hmem
  obtain ⟨r, hsite, hkey, hnonzero⟩ := h.books.stands n k hmem
  dsimp only [ledger] at hsite
  obtain hsame | ⟨i, r', hmaking⟩ | ⟨i, hash, hparting⟩ := h.books.same n
  · dsimp only [ledger] at hsame
    rw [hsite] at hsame
    obtain ⟨⟨info, key⟩, hseen, rfl⟩ := Option.map_eq_some_iff.1 hsame.symm
    obtain ⟨d, hd, hload, hread⟩ := exists_of_seen hseen
    refine ⟨d, hd, hload, ?_, ?_⟩
    · rw [hread, ← hkey]
      exact @key_of_nonzero (info, key) (by rw [hkey]; exact hnonzero)
    · have hbind := @bind_loadSite env b.disk n
      rw [hseen, hd, Option.bind_some] at hbind
      exact hsite.trans hbind.symm
  · exact absurd ((h.books.made i n r' hmaking).1.symm.trans hsite) (by nofun)
  · exact absurd ((h.books.leaving i n hash hparting).symm.trans hsite) (by nofun)

theorem Running.oneKey (h : b.Running env) (hidle : ∀ i, b.tasks i = .idle) : b.OneKey env := by
  have hsame (n : Text) : b.sites.get? n = (seen env b.disk n).map recordOf := by
    obtain hsame | ⟨i, r', hmaking⟩ | ⟨i, hash, hparting⟩ := h.books.same n
    · exact hsame
    · dsimp only [ledger, Function.comp_apply] at hmaking
      rw [hidle] at hmaking
      cases hmaking
    · dsimp only [ledger, Function.comp_apply] at hparting
      rw [hidle] at hparting
      cases hparting
  constructor
  · intro n
    rw [hsame, bind_loadSite]
  · intro hash
    rw [← show (b.ledger env).queue = b.queue from rfl, h.books.live]
    constructor
    · rintro (⟨n, hget⟩ | ⟨i, n, hparting⟩)
      · change (b.sites.get? n).bind (Ledger.hashOf env) = some hash at hget
        rw [hsame, hashed_iff] at hget
        obtain ⟨d, k, hd, hload, hread, -, haddress⟩ := hget
        exact ⟨n, d, k, hd, hload, hread, haddress⟩
      · dsimp only [ledger, Function.comp_apply] at hparting
        rw [hidle] at hparting
        cases hparting
    · rintro ⟨n, d, k, hd, hload, hread, haddress⟩
      left
      refine ⟨n, ?_⟩
      change (b.sites.get? n).bind (Ledger.hashOf env) = some hash
      rw [hsame, hashed_iff]
      refine ⟨d, k, hd, hload, hread, ?_, haddress⟩
      rintro rfl
      obtain ⟨info, hseen⟩ := seen_of_load hd hload
      rw [hread] at hseen
      exact h.books.nonzero n info hseen

/-- In every run in which each takes its turn, what was created stays until it is deleted, and when nothing is under way
the sites are the same in the map, on disk and in the DHT. -/
theorem sites_run (env : KeyEnv) (disk : Map Text Dir) (hdistinct : Distinct env disk) (events : List Event)
    (hdrawn : Along (step env) (Drawn env) (start env disk) events)
    (hturn : Along (step env) (InTurn env) (start env disk) events) :
    (run (step env) (start env disk) events).Kept env ∧
      ((run (step env) (start env disk) events).Quiet → (run (step env) (start env disk) events).OneKey env) := by
  have hsound : (run (step env) (start env disk) events).Sound env disk :=
    run_invariant (P := Sound env disk) (fun b e h hok => h.step hdistinct hok.1 hok.2) (hdrawn.and hturn)
      (.inl (starting_start env disk))
  obtain h | h := hsound
  · refine ⟨fun p hp => ?_, fun hquiet => ?_⟩
    · rw [h.stands] at hp
      cases hp
    · rw [Quiet, h.silent] at hquiet
      exact absurd hquiet.2.1 (by decide)
  · exact ⟨h.kept, fun hquiet => h.oneKey hquiet.2.2⟩

namespace Sample

/-- Records are written as their names and keys as the letters of their bytes. -/
def lib : KeyEnv where
  toLowercase := id
  toStringPretty info := encode info.name
  defaultPage _ := "hi".toList
  fromStr t := some ⟨t, t ++ ".hidra".toList, List.replicate 32 'b', "now".toList, [indexFile], 2, 0⟩
  toBase64 key := key.map fun x => Char.ofNat (96 + x.toNat)
  fromBase64 t := some (t.map fun c => UInt8.ofNat (c.toNat - 96))
  publicKey key := key.map (· + 1)
  blake3 := id

def blog : Text := "blog".toList

def folder : Dir := ⟨(Map.empty.set metaFile (encode blog)).set keyFile (encode (List.replicate 32 'b')), []⟩

def drawing (k : UInt8) : World := ⟨List.replicate 32 k, "now".toList, none, .done, .done, .done, none⟩

def disk : Map Text Dir := Map.empty.set blog folder

theorem of_disk {n : Text} {d : Dir} (h : disk.get? n = some d) : n = blog ∧ d = folder := by
  unfold disk at h
  obtain ⟨hn, rfl⟩ | ⟨-, h⟩ := Map.get?_set_some.1 h
  · exact ⟨hn, rfl⟩
  · cases h

theorem distinct_disk : Distinct lib disk := by
  constructor
  · intro n d hd _
    rw [(of_disk hd).2]
    decide
  · intro n n' d d' k k' hd hd' _ _ _ _ _
    rw [(of_disk hd).1, (of_disk hd').1]

end Sample

open Sample

private theorem lawfulBEq_hashes : LawfulBEq (List UInt8) := inferInstance

attribute [local instance] lawfulBEq_hashes

instance (env : KeyEnv) (b : Builder) (site : Text) (w : World) : Decidable (Draws env b site w) :=
  decidable_of_iff (w.key.length = 32 ∧ w.key ≠ zeroKey ∧
    env.fromBase64 (trim (String.ofList (env.toBase64 w.key))).toList = some w.key ∧
    (fromUtf8 (env.toStringPretty (newInfo env site w))).bind env.fromStr = some (newInfo env site w) ∧
    address env w.key ∉ b.known)
    ⟨fun ⟨h1, h2, h3, h4, h5⟩ => ⟨h1, h2, h3, h4, h5⟩, fun h => ⟨h.length, h.nonzero, h.base64, h.json, h.unheard⟩⟩

instance (env : KeyEnv) (b : Builder) (e : Event) : Decidable (b.Drawn env e) := by
  unfold Drawn
  split
  · split <;> infer_instance
  · infer_instance

/-- The start announces before its task has run: a site of the disk is on the map, and is not announced. -/
theorem announced_before_filled : ¬ ∀ (env : KeyEnv) (disk : Map Text Dir), Distinct env disk → ∀ events : List Event,
    Along (step env) (Drawn env) (start env disk) events →
    (run (step env) (start env disk) events).Kept env ∧
      ((run (step env) (start env disk) events).Quiet → (run (step env) (start env disk) events).OneKey env) := by
  intro h
  have hone := (h lib disk distinct_disk [.announce, .fill] (by decide)).2 ⟨rfl, rfl, fun _ => rfl⟩
  have hlive := (hone.announced (List.replicate 20 3)).2 ⟨blog, folder, List.replicate 32 2, by decide⟩
  revert hlive
  decide

/-- After the start a site is created, and the one of the disk is deleted. -/
theorem sites_run_blog :
    let events : List Event := [.fill, .announce, .create "shop".toList, .proceed 0 (drawing 1), .delete blog,
      .proceed 1 (drawing 5), .proceed 0 (drawing 5), .proceed 1 (drawing 5)]
    (run (step lib) (start lib disk) events).Kept lib ∧
      ((run (step lib) (start lib disk) events).Quiet → (run (step lib) (start lib disk) events).OneKey lib) :=
  sites_run lib disk distinct_disk _ (by decide) (by decide)

end Builder

end HidraNet.Sevennine
