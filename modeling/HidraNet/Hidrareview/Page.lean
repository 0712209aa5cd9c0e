import HidraNet.Forum.Page

/-!
# The reviews page

What the page keeps of listings, their photos, the reviews and the replies, and what it makes of a message of the relay.
Anyone publishes anything under any topic; the page remembers the first key that signed a listing, and from then on
takes for that listing only what the key signed.  What is signed and comes before its listing is held until that is
known.

Photos and what is held are kept by the listing and their id, reviews and replies by their id alone.
-/

namespace HidraNet.Hidrareview

open Hidrarelay (Json trimJs isLowerAlnum isLowerBase32)
open Forum (slice inherited)
open Maps

/-- The browser's part. -/
structure Browser where
  parse : String → Option Json
  number : Json → Option ℚ
  printed : ℚ → Json
  toLowercase : String → String
  /-- An address as the browser writes it, if it is one of http or https. -/
  href : String → Option String
  verifyFields : String → List Json → String → Bool
  /-- No text that is not a key verifies anything, the empty one least of all. -/
  verifyFields_empty : ∀ fields sig, verifyFields "" fields sig = false

/-! ### What a message may hold -/

def SLUG_RE (slug : String) : Bool :=
  let chars := slug.toList
  chars.length ≤ 64 && chars.head?.any isLowerAlnum && chars.all fun c => isLowerAlnum c || c = '-'

def ID_RE (id : String) : Bool :=
  let chars := id.toList
  chars.length ≤ 64 && chars.head?.any Char.isAlphanum && chars.all fun c => c.isAlphanum || c = '-'

def PIC_MAX : Nat := 2 * 1024 * 1024

private theorem lawfulBEq_tails : LawfulBEq (List Char) := inferInstance

attribute [local instance] lawfulBEq_tails

/-- Image data in base64, and nothing else. -/
def PIC_RE (p : List Char) : Bool :=
  ["jpeg", "png", "webp", "gif"].any fun kind =>
    let head := ("data:image/" ++ kind ++ ";base64,").toList
    let rest := p.drop head.length
    let digits := rest.takeWhile fun c => c.isAlphanum || c ∈ ['+', '/']
    head.isPrefixOf p && digits ≠ [] && rest.drop digits.length ∈ [[], ['='], ['=', '=']]

def okPic (p : String) : Bool := p.toList.length ≤ PIC_MAX && PIC_RE p.toList

section Values

variable (b : Browser)

def str (v : Option Json) : String := (v.bind Json.asStr).getD ""

def num (v : Option Json) : ℚ := (v.bind b.number).getD 0

def toInt32 (q : ℚ) : Int := (q.num.tdiv q.den).bmod (2 ^ 32)

def TYPE_LEGACY : List (String × String) := [("Padaria", "Bakery"), ("Loja", "Shop"), ("Restaurante", "Restaurant"),
  ("Servico", "Service"), ("Serviço", "Service"), ("Outro", "Other")]

def normType (t : String) : Json :=
  match TYPE_LEGACY.find? (·.1 = t) with
  | some e => .str e.2
  | none => if t = "__proto__" then .obj [] else if t ∈ inherited then .null else .str t

/-- An address up to its path: the first `/` that has no line's end after it. -/
def beforePath : List Char → List Char
  | [] => []
  | c :: rest =>
    if c = '/' && rest.all (fun d => d ∉ ['\n', '\r', '\u2028', '\u2029']) then [] else c :: beforePath rest

def normHidra (a : String) : String :=
  let a := (b.toLowercase (trimJs a)).toList
  let a := beforePath (if "hidra://".toList.isPrefixOf a then a.drop 8 else a)
  if a = [] then ""
  else
    let a := if ".hidra".toList.isSuffixOf a then a else a ++ ".hidra".toList
    let label := a.take (a.length - 6)
    if 24 ≤ label.length && label.all isLowerBase32 then String.ofList a else ""

/-- Nothing but a link of http or https. -/
def safeUrl (u : String) : String :=
  let u := trimJs u
  if u = "" then ""
  else
    let small := u.toList.map Char.toLower
    let named := "http://".toList.isPrefixOf small || "https://".toList.isPrefixOf small
    (b.href (if named then u else "https://" ++ u)).getD ""

def isHash (s : String) : Bool :=
  s.toList.length = 64 && s.toList.all fun c => ('0' ≤ c && c ≤ '9') || ('a' ≤ c && c ≤ 'f')

/-! ### Listings, reviews, replies and photos -/

structure Biz where
  name : String
  kind : String
  hidra : String
  sats : ℚ
  mail : String
  ownerHash : String
  cat : Json
  desc : String
  city : String
  addr : String
  phone : String
  site : String
  hours : String
  about : String
  menu : String
  «at» : ℚ
  opk : String
  sig : String
  signed : Bool

structure Review where
  stars : Int
  text : String
  name : String
  loc : String
  «at» : ℚ
  slug : String

structure Reply where
  text : String
  «at» : ℚ
  sig : String
  slug : String
  verified : Bool
deriving DecidableEq

structure Pic where
  d : String
  sig : String
deriving DecidableEq

/-- Whether something is an object, as `typeof` has it. -/
def isObject : Json → Bool
  | .obj _ | .arr _ => true
  | _ => false

def cleanBiz (o : Json) : Option Biz :=
  if isObject o then
    some {
      name := str (o.get "name")
      kind := if str (o.get "kind") ∈ ["site", "place"] then str (o.get "kind") else ""
      hidra := normHidra b (str (o.get "hidra"))
      sats := if (num b (o.get "sats")).den = 1 ∧ 0 < num b (o.get "sats") then num b (o.get "sats") else 0
      mail := str (o.get "mail")
      ownerHash := if isHash (str (o.get "ownerHash")) then str (o.get "ownerHash") else ""
      cat := normType (str (o.get "cat"))
      desc := str (o.get "desc")
      city := str (o.get "city")
      addr := str (o.get "addr")
      phone := str (o.get "phone")
      site := safeUrl b (str (o.get "site"))
      hours := str (o.get "hours")
      about := str (o.get "about")
      menu := str (o.get "menu")
      «at» := num b (o.get "at")
      opk := slice 200 (str (o.get "opk"))
      sig := slice 200 (str (o.get "sig"))
      signed := false }
  else none

def cleanReview (slug : String) (o : Json) : Option Review :=
  if isObject o then
    some {
      stars := max 1 (min 5 (toInt32 (num b (o.get "stars"))))
      text := str (o.get "text")
      name := str (o.get "name")
      loc := str (o.get "loc")
      «at» := num b (o.get "at")
      slug := slug }
  else none

def cleanReply (slug : String) (o : Json) : Option Reply :=
  if isObject o then
    some {
      text := str (o.get "text")
      «at» := num b (o.get "at")
      sig := slice 200 (str (o.get "sig"))
      slug := slug
      verified := false }
  else none

/-- A photo: the data alone, or `{ d, sig }`. -/
def readPhoto (s : String) : Option Pic :=
  if s.toList.head? = some '{' then do
    let po ← b.parse s
    let d ← (po.get "d").bind Json.asStr
    let sig ← (po.get "sig").bind Json.asStr
    return ⟨d, slice 200 sig⟩
  else some ⟨s, ""⟩

def listingFields (slug : String) (rec : Biz) : List Json :=
  [.str "hreview-listing-v2", .str slug, .str rec.name, .str rec.kind, .str rec.hidra, b.printed rec.sats,
    .str rec.mail, .str rec.ownerHash, rec.cat, .str rec.desc, .str rec.city, .str rec.addr, .str rec.phone,
    .str rec.site, .str rec.hours, .str rec.about, .str rec.menu, b.printed rec.at]

def replyFields (slug id : String) (r : Reply) : List Json :=
  [.str "hreview-reply-v2", .str slug, .str id, .str r.text, b.printed r.at]

def photoFields (slug pid d : String) : List Json := [.str "hreview-photo-v2", .str slug, .str pid, .str d]

def listingVerifies (pk slug : String) (rec : Biz) : Bool := b.verifyFields pk (listingFields b slug rec) rec.sig

def replyVerifies (pk slug id : String) (r : Reply) : Bool := b.verifyFields pk (replyFields b slug id r) r.sig

def photoVerifies (pk slug pid : String) (p : Pic) : Bool := b.verifyFields pk (photoFields slug pid p.d) p.sig

end Values

/-! ### Topics -/

/-- What a message is about. -/
inductive Topic where
  | reply (slug id : String)
  | listing (slug : String)
  | review (slug id : String)
  | photo (slug pid : String)

/-- A topic, by its levels. -/
def readTopic : List String → Option Topic
  | ["hreview", "reply", slug, id] => if SLUG_RE slug && ID_RE id then some (.reply slug id) else none
  | ["hreview", "b", slug] => if SLUG_RE slug then some (.listing slug) else none
  | ["hreview", "r", slug, id] => if SLUG_RE slug && ID_RE id then some (.review slug id) else none
  | ["hreview", "p", slug, pid] => if SLUG_RE slug && ID_RE pid then some (.photo slug pid) else none
  | _ => none

/-! ### What the page keeps -/

structure Page where
  /-- The first key of each listing; it stays over reloads. -/
  knownOwners : Map String String
  disputed : List String
  biz : Map String Biz
  revs : Map String Review
  pics : Map (String × String) Pic
  replies : Map String Reply
  pendingPics : Map (String × String) Pic
  pendingReplies : Map (String × String) Reply

def HOLD_MAX : Nat := 64

def setAll {κ ν : Type*} [DecidableEq κ] (m : Map κ ν) (l : List (κ × ν)) : Map κ ν :=
  l.foldl (fun m e => m.set e.1 e.2) m

section

variable {κ ν : Type*} [DecidableEq κ] {m : Map κ ν} {l : List (κ × ν)} {k : κ} {v : ν}

theorem get?_setAll (h : (setAll m l).get? k = some v) : (k, v) ∈ l ∨ m.get? k = some v := by
  induction l generalizing m with
  | nil => exact .inr h
  | cons e l ih =>
    rcases ih (m := m.set e.1 e.2) h with hmem | hset
    · exact .inl (List.mem_cons_of_mem _ hmem)
    · obtain ⟨rfl, rfl⟩ | ⟨-, hset⟩ := Map.get?_set_some.1 hset
      · exact .inl List.mem_cons_self
      · exact .inr hset

theorem get?_setAll_other (h : ∀ v, (k, v) ∉ l) : (setAll m l).get? k = m.get? k := by
  induction l generalizing m with
  | nil => rfl
  | cons e l ih =>
    have hne : k ≠ e.1 := by
      rintro rfl
      exact h e.2 List.mem_cons_self
    have hrest : (setAll (m.set e.1 e.2) l).get? k = (m.set e.1 e.2).get? k :=
      ih fun v hmem => h v (List.mem_cons_of_mem _ hmem)
    exact hrest.trans (Map.get?_set_other m e.2 hne)

end

def hold {ν : Type*} (held : Map (String × String) ν) (slug id : String) (item : ν) : Map (String × String) ν :=
  if (held.entries.filter (·.1.1 = slug)).length < HOLD_MAX then held.set (slug, id) item else held

namespace Page

def opened (knownOwners : Map String String) : Page := ⟨knownOwners, [], .empty, .empty, .empty, .empty, .empty, .empty⟩

def owner (p : Page) (slug : String) : Option (Option String) :=
  match (p.knownOwners.get? slug).filter (· ≠ "") with
  | some opk => some (some opk)
  | none => if slug ∈ inherited then some none else none

def dispute (p : Page) (slug : String) : Page := { p with disputed := slug :: p.disputed }

def rememberOwner (p : Page) (slug opk : String) : Page :=
  if (p.owner slug).isSome then p else { p with knownOwners := p.knownOwners.set slug opk }

variable (b : Browser)

def heldPics (p : Page) (slug opk : String) : List ((String × String) × Pic) :=
  p.pendingPics.entries.filter fun e => e.1.1 = slug && e.2.sig ≠ "" && photoVerifies b opk slug e.1.2 e.2

def heldReplies (p : Page) (slug opk : String) : List (String × Reply) :=
  (p.pendingReplies.entries.filter fun e => e.1.1 = slug && e.2.sig ≠ "" && replyVerifies b opk slug e.1.2 e.2).map
    fun e => (e.1.2, { e.2 with verified := true })

/-- What was held is checked against the key of the listing, and what is unsigned goes. -/
def settle (p : Page) (slug opk : String) : Page :=
  { p with
    pendingPics := p.pendingPics.retain fun k _ => k.1 ≠ slug
    pendingReplies := p.pendingReplies.retain fun k _ => k.1 ≠ slug
    pics := setAll (p.pics.retain fun k x => !(k.1 = slug && x.sig = "")) (p.heldPics b slug opk)
    replies := setAll (p.replies.retain fun _ r => !(r.slug = slug && !r.verified)) (p.heldReplies b slug opk) }

/-! ### A message comes -/

def reply (p : Page) (slug id s : String) : Page :=
  let owner := p.owner slug
  if s = "" then if owner.isNone then { p with replies := p.replies.remove id } else p
  else
    match (b.parse s).bind (cleanReply b slug) with
    | none => p
    | some r =>
      match owner with
      | some owner =>
        if r.sig ≠ "" && owner.any (replyVerifies b · slug id r) then
          { p with replies := p.replies.set id { r with verified := true } }
        else p
      | none =>
        let p := { p with pendingReplies := hold p.pendingReplies slug id r }
        if r.sig ≠ "" then p else { p with replies := p.replies.set id r }

def listing (p : Page) (slug s : String) : Page :=
  let known := p.owner slug
  if s = "" then if known.isNone then { p with biz := p.biz.remove slug } else p.dispute slug
  else
    match (b.parse s).bind (cleanBiz b) with
    | none => p
    | some rec =>
      if rec.opk ≠ "" || rec.sig ≠ "" then
        if listingVerifies b rec.opk slug rec then
          if known.isSome && known ≠ some (some rec.opk) then p.dispute slug
          else
            let p := (p.rememberOwner slug rec.opk).settle b slug rec.opk
            { p with biz := p.biz.set slug { rec with signed := true } }
        else p
      else if known.isSome then p.dispute slug
      else { p with biz := p.biz.set slug rec }

def review (p : Page) (slug id s : String) : Page :=
  if s = "" then { p with revs := p.revs.remove id }
  else
    match (b.parse s).bind (cleanReview b slug) with
    | none => p
    | some r => { p with revs := p.revs.set id r }

def photo (p : Page) (slug pid s : String) : Page :=
  let owner := p.owner slug
  if s = "" then if owner.isNone then { p with pics := p.pics.remove (slug, pid) } else p
  else
    match (readPhoto b s).filter (okPic ·.d) with
    | none => p
    | some x =>
      match owner with
      | some owner =>
        if x.sig ≠ "" && owner.any (photoVerifies b · slug pid x) then { p with pics := p.pics.set (slug, pid) x }
        else p
      | none =>
        let p := { p with pendingPics := hold p.pendingPics slug pid x }
        if x.sig ≠ "" then p else { p with pics := p.pics.set (slug, pid) x }

/-- What the page makes of a message under a topic.  An answer of the mail directory changes nothing. -/
def handle (p : Page) (topic : List String) (s : String) : Page :=
  match readTopic topic with
  | some (.reply slug id) => p.reply b slug id s
  | some (.listing slug) => p.listing b slug s
  | some (.review slug id) => p.review b slug id s
  | some (.photo slug pid) => p.photo b slug pid s
  | none => p

def fromBusiness (p : Page) (slug id : String) : Option Reply :=
  if (p.revs.get? id).any (·.slug = slug) then (p.replies.get? id).filter (·.verified) else none

end Page

/-- A message of the relay, or a reload. -/
inductive Event where
  | message (topic : List String) (s : String)
  | reload

def step (b : Browser) (p : Page) : Event → Page
  | .message topic s => p.handle b topic s
  | .reload => .opened p.knownOwners

end HidraNet.Hidrareview
