import HidraNet.Lib.Runs
import HidraNet.Sevennine.Sites

/-!
# Sites that come and go

The site builder's start and the calls that create and delete sites, as tasks that go on at every await.  The start reads
the sites on disk at once, leaves it to a task to put them in the map (`fill`), announces what the map has, and only then
takes calls.  A creation looks the name up, writes the files, and waits for the map; a deletion takes the record off the
map, waits until it is withdrawn, and removes the directory.

The queue of announcements has all that was ever sent, which the DHT is told in order.
-/

namespace HidraNet.Sevennine

open Maps Text Utf8

/-- The libraries' part, with what the keys need. -/
structure KeyEnv extends Env where
  /-- `generate_default_page`. -/
  defaultPage : Text → Text
  /-- `serde_json::from_str`. -/
  fromStr : Text → Option SiteInfo
  toBase64 : Bytes → Text
  fromBase64 : Text → Option Bytes
  publicKey : Bytes → Bytes
  blake3 : Bytes → Bytes

inductive Announcement where
  | publish (hash key : Bytes)
  | withdraw (hash : Bytes)
deriving DecidableEq

/-- Where a call stands. -/
inductive Task where
  | idle
  | creating (site : Text)
  /-- A creation that wrote its files and waits for the map. -/
  | made (site : Text) (record : SiteRecord)
  | deleting (site : Text)
  | withdrawing (site : Text) (hash : Bytes)
deriving DecidableEq

/-- What a step is given from outside. -/
structure World where
  key : Bytes
  createdAt : Text
  folder : Option Text
  index : Wrote
  record : Wrote
  keyWrote : Wrote
  stuck : Option (List Text × Text)

structure Builder extends SiteManager where
  fill : Option (Map Text SiteRecord)
  /-- The sites of the start are announced, and calls are taken. -/
  announced : Bool
  queue : List Announcement
  tasks : Nat → Task
  next : Nat
  answers : List (Nat × Except Text (Option SiteInfo))
  /-- The creations that were answered, with their keys, while no deletion of the name has begun since. -/
  stands : List (Text × Bytes)
  known : List Bytes

inductive Event where
  | fill
  | announce
  | create (name : Text)
  | delete (name : Text)
  | proceed (i : Nat) (w : World)

/-! ### Keys and records -/

def zeroKey : Bytes := List.replicate 32 0

section Keys

variable (env : KeyEnv)

def readKey (d : Dir) : Option Bytes :=
  (((d.files.get? keyFile).bind fromUtf8).bind fun b64 => env.fromBase64 (trim (String.ofList b64)).toList).filter
    (·.length = 32)

def loadSiteKey (d : Dir) : Bytes := (readKey env d).getD zeroKey

def loadSite (d : Dir) : Option SiteRecord :=
  (((d.files.get? metaFile).bind fromUtf8).bind env.fromStr).map fun info => ⟨info, loadSiteKey env d⟩

def loadSites (disk : Map Text Dir) : Map Text SiteRecord := disk.filterMap fun _ d => loadSite env d

def address (key : Bytes) : Bytes := (env.blake3 (env.publicKey key)).take 20

def announcements (sites : Map Text SiteRecord) : List Announcement :=
  sites.entries.filterMap fun e =>
    if e.2.signingKeyBytes = zeroKey then none
    else some (.publish (address env e.2.signingKeyBytes) e.2.signingKeyBytes)

/-- The record of a site that is created. -/
def newInfo (site : Text) (w : World) : SiteInfo where
  name := site
  hidraAddress := site ++ ".hidra".toList
  publicKey := env.toBase64 (env.publicKey w.key)
  createdAt := w.createdAt
  files := [indexFile]
  sizeBytes := (encode (env.defaultPage site)).length
  visits := 0

end Keys

private theorem lawfulBEq_kept : LawfulBEq (List Char) := inferInstance

attribute [local instance] lawfulBEq_kept

def Dir.kept (d : Dir) (names : List Text) : Dir where
  files := d.files.retain fun n _ => n ∈ names
  others := d.others.filter (·.1 ∈ names)

namespace Builder

variable (env : KeyEnv) (b : Builder)

/-- `_init`: the map is empty until the task of the start has filled it, if there is anything to fill it with. -/
def start (disk : Map Text Dir) : Builder where
  sites := .empty
  disk := disk
  fill := if (loadSites env disk).entries = [] then none else some (loadSites env disk)
  announced := false
  queue := []
  tasks := fun _ => .idle
  next := 0
  answers := []
  stands := []
  known := (loadSites env disk).entries.map fun e => address env e.2.signingKeyBytes

def call (task : Except Text Task) : Builder :=
  match task with
  | .ok task => { b with tasks := Function.update b.tasks b.next task, next := b.next + 1 }
  | .error e => { b with answers := b.answers ++ [(b.next, .error e)], next := b.next + 1 }

def answer (i : Nat) (result : Except Text (Option SiteInfo)) : Builder :=
  { b with tasks := Function.update b.tasks i .idle, answers := b.answers ++ [(i, result)] }

/-! ### `create_site` -/

def create (name : Text) : Builder :=
  let site := siteName env.toLowercase name
  b.call (if site = [] ∨ (encode site).length > 32 then .error "Name must be between 1 and 32 characters".toList
    else if !siteNameOk site then .error "Name may contain only letters, numbers, - and _".toList
    else .ok (.creating site))

def newFiles (site : Text) (w : World) (d : Dir) : Dir :=
  ((d.write indexFile (encode (env.defaultPage site)) .done).write metaFile (env.toStringPretty (newInfo env site w))
    w.record).write keyFile (encode (env.toBase64 w.key)) w.keyWrote

/-- From the look at the map to the wait for it. -/
def make (i : Nat) (site : Text) (w : World) : Builder :=
  if (b.sites.get? site).isSome then
    b.answer i (.error ("The name '".toList ++ site ++ "' is already taken".toList))
  else
    let b := { b with known := b.known ++ [address env w.key] }
    match w.folder with
    | some e => b.answer i (.error ("Could not create folder: ".toList ++ e))
    | none =>
      let d := (b.disk.get? site).getD ⟨.empty, []⟩
      match w.index with
      | .failed left e =>
        let d := d.write indexFile (encode (env.defaultPage site)) (.failed left e)
        { b with disk := b.disk.set site d }.answer i (.error ("Could not save index.html: ".toList ++ e))
      | .done =>
        { b with
          disk := b.disk.set site (newFiles env site w d)
          tasks := Function.update b.tasks i (.made site ⟨newInfo env site w, w.key⟩) }

def insert (i : Nat) (site : Text) (record : SiteRecord) : Builder :=
  { b with
    sites := b.sites.set site record
    queue := b.queue ++ [Announcement.publish (address env record.signingKeyBytes) record.signingKeyBytes]
    stands := b.stands ++ [(site, record.signingKeyBytes)] }.answer i (.ok (some record.info))

/-! ### `delete_site` -/

def delete (name : Text) : Builder :=
  let site := siteName env.toLowercase name
  if !siteNameOk site then b.call (.error "Invalid site name".toList)
  else { b with stands := b.stands.filter (·.1 ≠ site) }.call (.ok (.deleting site))

/-- The folder is removed. -/
def clear (i : Nat) (site : Text) (w : World) : Builder :=
  match b.disk.get? site with
  | none => b.answer i (.ok none)
  | some d =>
    match w.stuck with
    | none => { b with disk := b.disk.remove site }.answer i (.ok none)
    | some (names, e) =>
      { b with disk := b.disk.set site (d.kept names) }.answer i (.error ("Could not remove: ".toList ++ e))

def withdrawal (site : Text) : Option Bytes :=
  ((b.sites.get? site).filter (·.signingKeyBytes ≠ zeroKey)).map fun record => address env record.signingKeyBytes

def remove (i : Nat) (site : Text) (w : World) : Builder :=
  match b.withdrawal env site with
  | some hash =>
    { b with sites := b.sites.remove site, tasks := Function.update b.tasks i (.withdrawing site hash) }
  | none => { b with sites := b.sites.remove site }.clear i site w

def withdraw (i : Nat) (site : Text) (hash : Bytes) (w : World) : Builder :=
  { b with queue := b.queue ++ [Announcement.withdraw hash] }.clear i site w

/-! ### Steps -/

def step : Event → Builder
  | .fill =>
    match b.fill with
    | some loaded => { b with sites := loaded, fill := none }
    | none => b
  | .announce =>
    if b.announced then b else { b with announced := true, queue := b.queue ++ announcements env b.sites }
  | .create name => if b.announced then b.create env name else b
  | .delete name => if b.announced then b.delete env name else b
  | .proceed i w =>
    match b.tasks i with
    | .idle => b
    | .creating site => b.make env i site w
    | .made site record => b.insert env i site record
    | .deleting site => b.remove env i site w
    | .withdrawing site hash => b.withdraw i site hash w

end Builder

end HidraNet.Sevennine
