import HidraNet.Lib.Maps
import HidraNet.Lib.Text
import HidraNet.Lib.Utf8

/-!
# The sites of the site builder

A site is a directory below `sites`: its pages and uploads, and three hidden files with its record, its key and the
source that its pages were made from in the editor.  The records of the sites are kept in memory too.

Each call that changes a site does one file operation after another, any of which may fail (`Faults`), and looks the
record up last.
-/

namespace HidraNet.Sevennine

open Maps Text Utf8

abbrev Text := List Char
abbrev Bytes := List UInt8

structure SiteInfo where
  name : Text
  hidraAddress : Text
  publicKey : Text
  createdAt : Text
  files : List Text
  sizeBytes : Nat
  visits : Nat
deriving DecidableEq

structure SiteRecord where
  info : SiteInfo
  signingKeyBytes : Bytes
deriving DecidableEq

/-- A site's directory. -/
structure Dir where
  files : Map Text Bytes
  /-- What else is in it, with the size that its metadata give. -/
  others : List (Text × Nat)
deriving DecidableEq

def metaFile : Text := ".sevennine-meta.json".toList
def pageFile : Text := ".sevennine-page.json".toList
def keyFile : Text := ".site-key.secret".toList
def indexFile : Text := "index.html".toList

/-! ### Names -/

def siteNameOk (name : Text) : Bool :=
  name ≠ [] && (encode name).length ≤ 32 && name.all fun c => c.isAlphanum || c == '-' || c == '_'

def siteName (toLowercase : Text → Text) (name : Text) : Text := toLowercase (trim (String.ofList name)).toList

/-- `Path::file_name`: the last component that is not `.`, unless it is `..`. -/
def fileName (path : Text) : Option Text :=
  ((path.splitOn '/').filter fun c => c ≠ [] && c ≠ ['.']).getLast?.filter (· ≠ ['.', '.'])

def hidden (name : Text) : Bool := name.head? = some '.'

def isHtml (name : Text) : Bool := ".html".toList.isSuffixOf name

def pageName (path : Text) : Option Text := (fileName path).filter fun n => !hidden n && isHtml n

/-! ### File operations -/

/-- What became of a write. -/
inductive Wrote where
  | done
  /-- It failed: the file is as it was, or has so much of what was written. -/
  | failed (left : Option Nat) (e : Text)
deriving DecidableEq

def Dir.write (d : Dir) (name : Text) (content : Bytes) : Wrote → Dir
  | .done => { d with files := d.files.set name content }
  | .failed none _ => d
  | .failed (some k) _ => { d with files := d.files.set name (content.take k) }

/-- What becomes of the file operations of a call. -/
structure Faults where
  stuck : List Text
  /-- The writes of the pages or of the upload, in order. -/
  page : Nat → Wrote
  source : Wrote
  record : Wrote
  /-- What is not listed of the directory, and what is listed with no size. -/
  unlisted : List Text
  unsized : List Text

private theorem lawfulBEq_names : LawfulBEq (List Char) := inferInstance

attribute [local instance] lawfulBEq_names

def Dir.listing (d : Dir) (f : Faults) : List (Text × Nat) :=
  (d.files.entries.map (fun e => (e.1, e.2.length)) ++ d.others).filter fun e => !hidden e.1 && e.1 ∉ f.unlisted

structure SiteManager where
  sites : Map Text SiteRecord
  /-- What is below `sites`. -/
  disk : Map Text Dir

/-- The libraries' part. -/
structure Env where
  toLowercase : Text → Text
  /-- `serde_json::to_string_pretty`. -/
  toStringPretty : SiteInfo → Bytes

namespace SiteManager

variable (env : Env) (m : SiteManager) (f : Faults)

/-- The end of every change: the record is looked up, brought up to date, and written. -/
def finish (site : Text) (d : Dir) : SiteManager × Except Text SiteInfo :=
  match m.sites.get? site with
  | none => ({ m with disk := m.disk.set site d }, .error "Site not found".toList)
  | some record =>
    let listed := d.listing f
    let info := { record.info with
      files := (listed.map Prod.fst).mergeSort fun a b => decide (String.ofList a ≤ String.ofList b)
      sizeBytes := ((listed.filter (·.1 ∉ f.unsized)).map Prod.snd).sum }
    ({ sites := m.sites.set site { record with info := info }
       disk := m.disk.set site (d.write metaFile (env.toStringPretty info) f.record) }, .ok info)

def uploadFile (name filename : Text) (content : Bytes) : SiteManager × Except Text SiteInfo :=
  let site := siteName env.toLowercase name
  if !siteNameOk site then (m, .error "Invalid site name".toList)
  else
    match fileName filename with
    | none => (m, .error "Invalid file name".toList)
    | some safe =>
      if hidden safe then (m, .error "Hidden files are not allowed".toList)
      else
        match m.disk.get? site with
        | none => (m, .error ("Site '".toList ++ site ++ "' does not exist".toList))
        | some d =>
          match f.page 0 with
          | .failed left e =>
            ({ m with disk := m.disk.set site (d.write safe content (.failed left e)) },
              .error ("Could not save file: ".toList ++ e))
          | .done => m.finish env f site (d.write safe content .done)

def savePage (name html : Text) (source : Bytes) : SiteManager × Except Text SiteInfo :=
  let site := siteName env.toLowercase name
  if !siteNameOk site then (m, .error "Invalid site name".toList)
  else
    match m.disk.get? site with
    | none => (m, .error ("Site '".toList ++ site ++ "' does not exist".toList))
    | some d =>
      if (encode html).length > 2000000 then (m, .error "Page too large (max 2 MB)".toList)
      else
        match f.page 0 with
        | .failed left e =>
          ({ m with disk := m.disk.set site (d.write indexFile (encode html) (.failed left e)) },
            .error ("Could not save page: ".toList ++ e))
        | .done => m.finish env f site ((d.write indexFile (encode html) .done).write pageFile source f.source)

def clearPages (d : Dir) : Dir := { d with files := d.files.retain fun n _ => !isHtml n || n ∈ f.stuck }

/-- The pages are written one after another, up to the first write that fails; what is no page's name is left out. -/
def writePages (page : Nat → Wrote) : Nat → List (Text × Text) → Dir → Dir × Except Text Nat
  | i, [], d => (d, .ok i)
  | i, (path, html) :: rest, d =>
    match pageName path with
    | none => writePages page i rest d
    | some safe =>
      match page i with
      | .failed left e =>
        (d.write safe (encode html) (.failed left e),
          .error ("Could not save ".toList ++ safe ++ ": ".toList ++ e))
      | .done => writePages page (i + 1) rest (d.write safe (encode html) .done)

def publishSite (name : Text) (source : Bytes) (files : List (Text × Text)) : SiteManager × Except Text SiteInfo :=
  let site := siteName env.toLowercase name
  if !siteNameOk site then (m, .error "Invalid site name".toList)
  else
    match m.disk.get? site with
    | none => (m, .error ("Site '".toList ++ site ++ "' does not exist".toList))
    | some d =>
      if (files.map fun p => (encode p.2).length).sum > 5000000 then
        (m, .error "Site too large (max 5 MB in total)".toList)
      else if files = [] then (m, .error "No page to publish".toList)
      else
        match writePages f.page 0 files (clearPages f d) with
        | (d, .error e) => ({ m with disk := m.disk.set site d }, .error e)
        | (d, .ok 0) => ({ m with disk := m.disk.set site d }, .error "No valid page (.html)".toList)
        | (d, .ok _) => m.finish env f site (d.write pageFile source f.source)

/-! ### What is read of a site -/

def source (site : Text) : Option Bytes := (m.disk.get? site).bind (·.files.get? pageFile)

/-- The file that `serve_file` answers with. -/
def serveFile (name path : Text) : Option Bytes :=
  let site := siteName env.toLowercase name
  if !siteNameOk site then none
  else
    match fileName (if path = [] ∨ path = ['/'] then indexFile else path) with
    | none => none
    | some safe => if hidden safe then none else (m.disk.get? site).bind (·.files.get? safe)

end SiteManager

end HidraNet.Sevennine
