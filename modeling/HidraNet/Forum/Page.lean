import HidraNet.Hidrarelay.Facts

/-!
# The forum page

What the page keeps, and what it makes of the messages of the relays: posts and their tombstones, claims on names, hides,
and the registrar's list.  Messages are handled one at a time, in the order in which they arrive.

Numbers are read as the page reads them, and a text is cut at so many UTF-16 units; of a character that the cut goes
through, nothing is left.
-/

namespace HidraNet.Forum

open Hidrarelay Maps

/-- The browser's part, and the key that is built into the page.  The relay and the page read JSON alike, and signatures. -/
structure Browser extends Env String where
  ofInt : Int → ℚ
  ofInt_eq : ∀ n : Int, 0 ≤ n → n ≤ Json.maxSafeInteger → ofInt n = n
  /-- A number of another shape as a double, if it is finite. -/
  ofText : String → Option ℚ
  printed : ℚ → Json
  printed_eq : ∀ n : Int, 0 ≤ n → n ≤ Json.maxSafeInteger → printed n = .int n
  fingerprint : String → String
  REGISTRY_PUBKEY : String

variable (b : Browser)

/-! ### Values -/

def MAX_TEXT : Nat := 20000

def number : Json → Option ℚ
  | .int n => some (b.ofInt n)
  | .number text => b.ofText text
  | _ => none

def truthy : Json → Bool
  | .null => false
  | .bool v => v
  | .int n => n ≠ 0
  | .number text => b.ofText text ≠ some 0
  | .str s => s ≠ ""
  | .arr _ | .obj _ => true

def fitting : Nat → List Char → List Char
  | _, [] => []
  | max, c :: rest =>
    let width := if 0x10000 ≤ c.val then 2 else 1
    if width ≤ max then c :: fitting (max - width) rest else []

def slice (max : Nat) (s : String) : String := String.ofList (fitting max s.toList)

def str (v : Option Json) (max : Nat) : String :=
  match v with
  | some (.str s) => slice max s
  | _ => ""

def num (v : Option Json) : ℚ := (v.bind (number b)).getD 0

def parse (s : String) : Option Json :=
  match b.fromSlice s with
  | some (.obj l) => some (.obj l)
  | some (.arr l) => some (.arr l)
  | _ => none

def isId (id : String) : Bool := isPostId id 't' || isPostId id 'r'

def CAT_LEGACY : List (String × String) := [("Tecnologia", "Technology"), ("Privacidade", "Privacy")]

def normCat (c : String) : String := ((CAT_LEGACY.find? (·.1 = c)).map Prod.snd).getD c

def inherited : List String := ["constructor", "hasOwnProperty", "isPrototypeOf", "propertyIsEnumerable", "toLocaleString",
  "toString", "valueOf", "__defineGetter__", "__defineSetter__", "__lookupGetter__", "__lookupSetter__", "__proto__"]

/-! ### What the page keeps -/

structure Post where
  id : String
  topicId : Option String
  cat : String
  title : String
  body : String
  nick : String
  tag : String
  ts : ℚ
  pk : Option String
deriving DecidableEq

structure Claim where
  name : String
  pk : String
  ts : ℚ
deriving DecidableEq

structure Entry where
  norm : String
  name : String
  pk : String
  ts : ℚ
deriving DecidableEq

structure Registry where
  seq : ℚ
  ts : ℚ
  names : List Entry
  admin : Option String
  hides : Option (List String)
deriving DecidableEq

inductive Hidden where
  | legacy
  | keys (pks : List String)
deriving DecidableEq

/-- What the vault keeps of the page. -/
structure Vault where
  claims : Map String Claim
  adminPk : Option String
  registry : Option Registry
  deleted : Map String String

structure Page where
  topics : Map String Post
  replies : Map String Post
  /-- Tombstones that came before their post, by post id: the keys that signed them. -/
  pendingDel : Map String (List String)
  hidden : Map String Hidden
  registrySeq : ℚ
  registryNames : List String
  legacyAdminHash : Option String
  vault : Vault
  unsaved : Bool
  meLocked : Bool

def Vault.empty : Vault := ⟨.empty, none, none, .empty⟩

def Page.empty : Page := ⟨.empty, .empty, .empty, .empty, -1, [], none, .empty, false, false⟩

namespace Page

variable (p : Page)

def persist : Page := if p.meLocked then p else { p with unsaved := true }

def store (kind : Char) : Map String Post := if kind = 't' then p.topics else p.replies

def setStore (kind : Char) (m : Map String Post) : Page :=
  if kind = 't' then { p with topics := m } else { p with replies := m }

/-! ### Posts -/

def markHiddenBy (id pk : String) : Page :=
  match p.hidden.get? id with
  | some (.keys pks) => { p with hidden := p.hidden.set id (.keys (if pk ∈ pks then pks else pks ++ [pk])) }
  | _ => { p with hidden := p.hidden.set id (.keys [pk]) }

def pending (id : String) : List String := (p.pendingDel.get? id).getD []

end Page

def tombstoneKey (id : String) (o : Json) : Option String :=
  let pk := str (o.get "pk") 200
  if pk ≠ "" ∧ b.verifyFields pk (.arr [.str "del", .str id, b.printed (num b (o.get "ts"))]) (str (o.get "sig") 200) then
    some pk
  else none

def onTombstone (p : Page) (kind : Char) (id : String) (o : Json) : Page :=
  let have' := (p.store kind).get? id
  if have'.any fun post => post.pk ≠ some (str (o.get "pk") 200) then p
  else match tombstoneKey b id o with
    | none => p
    | some pk =>
      match have' with
      | none => { p with
          pendingDel := p.pendingDel.set id (if pk ∈ p.pending id then p.pending id else p.pending id ++ [pk]) }
      | some _ =>
        let p := Page.persist { p with vault.deleted := p.vault.deleted.set id pk }
        p.setStore kind ((p.store kind).remove id)

/-- A post as it is read, without its key. -/
def readPost (kind : Char) (id : String) (tid : Option String) (o : Json) : Post :=
  { id
    topicId := if kind = 't' then none else tid
    cat := if kind = 't' then normCat (str (o.get "cat") 40) else ""
    title := if kind = 't' then str (o.get "title") 140 else ""
    body := str (o.get "body") MAX_TEXT
    nick := str (o.get "nick") 24
    tag := str (o.get "tag") 32
    ts := num b (o.get "ts")
    pk := none }

def Post.fields (post : Post) : Json :=
  match post.topicId with
  | none => .arr [.str "t", .str post.id, .str post.cat, .str post.title, .str post.body, .str post.nick, b.printed post.ts]
  | some tid => .arr [.str "r", .str post.id, .str tid, .str post.body, .str post.nick, b.printed post.ts]

def isText (v : Option Json) : Bool := (v.bind Json.asStr).isSome

/-- A post with its key, if its signature holds; without a key it has none. -/
def signedPost (post : Post) (o : Json) : Option Post :=
  if isText (o.get "pk") || isText (o.get "sig") then
    let pk := str (o.get "pk") 200
    let sig := str (o.get "sig") 200
    if pk ≠ "" ∧ sig ≠ "" ∧ b.verifyFields pk (post.fields b) sig then
      some { post with pk := some pk, tag := b.fingerprint pk }
    else none
  else some post

def showPost (p : Page) (kind : Char) (id : String) (post : Post) : Page :=
  match (p.store kind).get? id with
  | some have' => if have'.pk.isSome ∧ have'.pk ≠ post.pk then p else p.setStore kind ((p.store kind).set id post)
  | none => p.setStore kind ((p.store kind).set id post)

/-- A post that was read: a tombstone of its key may be waiting for it. -/
def takePost (p : Page) (kind : Char) (id : String) (post : Post) : Page :=
  match post.pk with
  | none => showPost p kind id post
  | some pk =>
    if pk ∈ p.pending id then
      Page.persist { p with pendingDel := p.pendingDel.remove id, vault.deleted := p.vault.deleted.set id pk }
    else showPost p kind id post

def onPost (p : Page) (kind : Char) (id : String) (tid : Option String) (s : String) : Page :=
  if s = "" then
    if ((p.store kind).get? id).any fun post => post.pk.isNone then p.setStore kind ((p.store kind).remove id) else p
  else match parse b s with
    | none => p
    | some o =>
      if (o.get "del").any (truthy b) then onTombstone b p kind id o
      else if str (o.get "id") 20 ≠ id then p
      else if p.vault.deleted.contains id then p
      else if kind ≠ 't' ∧ some (str (o.get "topicId") 20) ≠ tid then p
      else match signedPost b (readPost b kind id tid o) o with
        | none => p
        | some post => takePost p kind id post

/-- The key that signed a hide. -/
def readHide (id s : String) : Option String := do
  let o ← parse b s
  let pk := str (o.get "pk") 200
  let sig := str (o.get "sig") 200
  guard (pk ≠ "" ∧ sig ≠ "" ∧ b.verifyFields pk (.arr [.str "hide", .str id, b.printed (num b (o.get "ts"))]) sig)
  return pk

def onHide (p : Page) (id : String) (s : String) : Page :=
  if s = "" then if p.hidden.get? id = some .legacy then { p with hidden := p.hidden.remove id } else p
  else if s = "1" then if p.hidden.contains id then p else { p with hidden := p.hidden.set id .legacy }
  else match readHide b id s with
    | none => p
    | some pk =>
      match p.hidden.get? id with
      | some (.keys pks) =>
        if pks.length < 16 then { p with hidden := p.hidden.set id (.keys (if pk ∈ pks then pks else pks ++ [pk])) } else p
      | _ => { p with hidden := p.hidden.set id (.keys [pk]) }

/-! ### Names -/

def validName (name : String) : Bool := isName (normalizeName b.toEnv name)

/-- `[norm, name, pk, ts]`, in the order of the names. -/
def readEntries (last : String) : List Json → Option (List Entry)
  | [] => some []
  | .arr [.str norm, .str name, .str pk, ts] :: rest => do
    guard (validName b norm ∧ norm = normalizeName b.toEnv norm ∧ normalizeName b.toEnv name = norm ∧ b.canonicalPub pk)
    let t ← number b ts
    guard (t.den = 1 ∧ 0 ≤ t ∧ t ≤ Json.maxSafeInteger ∧ last < norm)
    return ⟨norm, name, pk, t⟩ :: (← readEntries norm rest)
  | _ :: _ => none

def readHides (last : String) : List Json → Option (List String)
  | [] => some []
  | .str id :: rest => do
    guard (isId id ∧ last < id)
    return id :: (← readHides id rest)
  | _ :: _ => none

def Entry.json (e : Entry) : Json := .arr [.str e.norm, .str e.name, .str e.pk, b.printed e.ts]

def Registry.fields (reg : Registry) : Json :=
  .arr ([.str "registry", b.printed reg.seq, b.printed reg.ts, .arr (reg.names.map (Entry.json b)),
    .str (reg.admin.getD "")] ++ (reg.hides.map fun hides => Json.arr (hides.map Json.str)).toList)

/-- The shape of a list: what it says. -/
def readRegistry (o : Json) : Option Registry := do
  guard ((o.get "v").bind (number b) = some 1)
  let seq ← (o.get "seq").bind (number b)
  let ts ← (o.get "ts").bind (number b)
  guard (seq.den = 1 ∧ 0 ≤ seq)
  let names ← (o.get "names").bind Json.asArray
  let admin ← match o.get "admin" with
    | none | some .null => some none
    | some (.str a) => if b.canonicalPub a then some (some a) else none
    | some _ => none
  let hides ← match o.get "hides" with
    | none => some none
    | some (.arr h) => some (some h)
    | some _ => none
  let entries ← readEntries b "" names
  let hides ← match hides with
    | none => some none
    | some h => (readHides "" h).map some
  return ⟨seq, ts, entries, admin, hides⟩

def verifyRegistry (o : Json) : Option Registry := do
  let sig ← o.s "sig"
  let reg ← readRegistry b o
  guard (b.verifyFields b.REGISTRY_PUBKEY (reg.fields b) sig)
  return reg

def applyRegistry (p : Page) (reg : Registry) : Page :=
  let p := { p with
    registrySeq := reg.seq
    registryNames := reg.names.map Entry.norm
    vault.claims := reg.names.foldl (fun m e => m.set e.norm ⟨e.name, e.pk, e.ts⟩) p.vault.claims }
  match reg.admin with
  | none => p
  | some admin =>
    ((reg.hides.getD []).filter (isId ·)).foldl (fun p id => p.markHiddenBy id admin) { p with vault.adminPk := some admin }

def onRegistry (p : Page) (s : String) : Page :=
  if b.REGISTRY_PUBKEY = "" ∨ s = "" then p
  else match (parse b s).bind (verifyRegistry b) with
    | none => p
    | some reg =>
      if reg.seq ≤ p.registrySeq then p else applyRegistry (Page.persist { p with vault.registry := some reg }) reg

def Vault.known (v : Vault) (norm : String) : Bool := v.claims.contains norm || norm ∈ inherited

/-- A claim, if it is well formed and its signature holds. -/
def readClaim (norm s : String) : Option Claim := do
  guard (s ≠ "" ∧ validName b norm ∧ norm = normalizeName b.toEnv norm)
  let o ← parse b s
  let name := str (o.get "name") 24
  let pk := str (o.get "pk") 200
  let ts := num b (o.get "ts")
  let sig := str (o.get "sig") 200
  guard ((o.get "v").bind (number b) = some 2)
  guard (name ≠ "" ∧ pk ≠ "" ∧ sig ≠ "" ∧ normalizeName b.toEnv name = norm)
  guard (b.verifyFields pk (.arr [.str "claim", .str norm, .str name, .str pk, b.printed ts]) sig)
  return ⟨name, pk, ts⟩

def onClaim (p : Page) (norm s : String) : Page :=
  match readClaim b norm s with
  | none => p
  | some c => if p.vault.known norm then p else Page.persist { p with vault.claims := p.vault.claims.set norm c }

def isOldHash (s : String) : Bool := s.length = 64 && s.toList.all fun c => c.isDigit || ('a' ≤ c && c ≤ 'f')

/-- The key of a claim on moderation. -/
def readAdmin (s : String) : Option String := do
  let o ← parse b s
  let pk := str (o.get "pk") 200
  let sig := str (o.get "sig") 200
  guard ((o.get "v").bind (number b) = some 2)
  guard (pk ≠ "" ∧ sig ≠ "")
  guard (b.verifyFields pk (.arr [.str "admin", .str pk, b.printed (num b (o.get "ts"))]) sig)
  return pk

def onAdmin (p : Page) (s : String) : Page :=
  if s = "" then p
  else if isOldHash s then { p with legacyAdminHash := some s }
  else match readAdmin b s with
    | none => p
    | some pk => if p.vault.adminPk.isSome then p else Page.persist { p with vault.adminPk := some pk }

/-! ### Messages -/

/-- A message by the levels of its topic; what readers report is not followed here. -/
def onMessage (p : Page) (topic : List String) (s : String) : Page :=
  match topic with
  | ["hforum", "admin"] => onAdmin b p s
  | ["hforum", "registry"] => onRegistry b p s
  | ["hforum", "u", norm] => onClaim b p norm s
  | ["hforum", "t", id] => if isPostId id 't' then onPost b p 't' id none s else p
  | ["hforum", "r", tid, id] => if isPostId tid 't' ∧ isPostId id 'r' then onPost b p 'r' id (some tid) s else p
  | ["hforum", "mod", id] => if isId id then onHide b p id s else p
  | _ => p

/-! ### Reloads -/

/-- A page that loads what was saved; the list is believed again, but is not among what is to be saved. -/
def loadMe (saved : Option Vault) (locked : Bool) : Page :=
  if locked then { Page.empty with meLocked := true }
  else match saved with
    | none => Page.empty
    | some v =>
      let claims := v.claims.filterMap fun k c =>
        if validName b k then some ⟨slice 24 c.name, slice 200 c.pk, c.ts⟩ else none
      let p := { Page.empty with vault := ⟨claims, v.adminPk, none, v.deleted.retain fun id _ => isId id⟩ }
      match v.registry with
      | some reg => if b.REGISTRY_PUBKEY = "" then p else applyRegistry p reg
      | none => p

end HidraNet.Forum
