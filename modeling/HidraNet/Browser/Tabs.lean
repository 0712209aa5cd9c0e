import HidraNet.Forum.Page

/-!
# A tab

Where the browser loads what a tab is sent to.  The apps that keep an identity share a partition kept on disk; all
else is loaded into a throwaway one.  A view cannot change its partition, so a tab that crosses the line gets a new
view, which is put in place once its route is set and its fingerprint is in.  Navigations interleave at every such
wait, and at the lookups of a .hidra name.

A navigation that was overtaken loads nothing any more, but its view is still put in place.
-/

namespace HidraNet.Browser.Tabs

open Maps Runs
open Forum (inherited)

/-! ### Addresses -/

structure Url where
  protocol : String
  hostname : String
  port : String
deriving DecidableEq

/-- What the platform gives. -/
structure Platform where
  URL : String → Option Url
  URL_data : ∀ s u, URL ("data:text/html," ++ s) = some u → u.protocol = "data:"
  encodeURIComponent : String → String
  resolving : String → String

variable (b : Platform)

def APPS : List (String × Option String) :=
  [("chat", some "chat"), ("mail", some "mail"), ("forum", some "forum"), ("publish", some "publish"), ("site", none),
    ("search", none), ("reviews", none), ("donate", none)]

def appOrigin (name : String) : String := "http://" ++ name ++ ".localhost:8090"

/-- The app that a URL belongs to, by its exact origin. -/
def appOfUrl (rawUrl : String) : Option (String × Option String) :=
  match b.URL rawUrl with
  | none => none
  | some u =>
    if u.protocol ≠ "http:" ∨ u.port ≠ "8090" then none
    else APPS.find? fun app => u.hostname = app.1 ++ ".localhost"

def appNamespace (rawUrl : String) : Option String := (appOfUrl b rawUrl).bind Prod.snd

def wantsAppStorage (rawUrl : String) : Bool := (appNamespace b rawUrl).isSome

inductive Target where
  | file (name : String)
  | url (url : String)
  | domain (url : String)
deriving DecidableEq

def belongsInApps : Target → Bool
  | .url url => wantsAppStorage b url
  | .file _ | .domain _ => false

def SEARCH_URL : String := appOrigin "search" ++ "/"

def INTERNAL_BY_NAME : List (String × Target) :=
  [("newtab", .file "newtab.html"), ("mail", .url (appOrigin "mail")), ("chat", .url (appOrigin "chat")),
    ("forum", .url (appOrigin "forum")), ("reviews", .url (appOrigin "reviews")),
    ("publish", .url (appOrigin "publish")), ("donate", .url (appOrigin "donate")), ("vpn", .file "hidravpn.html")]

def includes (part l : List Char) : Bool := l.tails.any (part.isPrefixOf ·)

def splitAt (part : List Char) : List Char → List Char × Option (List Char)
  | [] => ([], none)
  | c :: l =>
    if part.isPrefixOf (c :: l) then ([], some ((c :: l).drop part.length))
    else (c :: (splitAt part l).1, (splitAt part l).2)

def without (part l : List Char) : List Char := (splitAt part l).1 ++ ((splitAt part l).2).getD []

def HIDRA : List Char := "hidra://".toList

/-- What was typed or clicked, with the scheme that it goes without. -/
def finalUrl (url : String) : String :=
  let l := url.toList
  if includes "://".toList l || HIDRA.isPrefixOf l then url
  else if ".hidra".toList.isSuffixOf l || includes ".hidra/".toList l then "hidra://" ++ url
  else if l.contains '.' && !l.contains ' ' then "https://" ++ url
  else SEARCH_URL ++ "?q=" ++ b.encodeURIComponent url

/-- What is loaded for an address.  A name that the table has of its own nature throws. -/
def resolve (url : String) : Option (Target × String) :=
  let full := finalUrl b url
  if HIDRA.isPrefixOf full.toList then
    let rest := full.toList.drop HIDRA.length
    let name := String.ofList (rest.takeWhile (· ∉ ['/', '?', '#']))
    let tail := rest.drop name.length
    if name = "search" then
      let searchQuery := ((splitAt "?q=".toList full.toList).2.map fun after => (splitAt "?q=".toList after).1).getD []
      some (.url (if searchQuery = [] then SEARCH_URL else SEARCH_URL ++ "?q=" ++ String.ofList searchQuery), full)
    else if name ∈ inherited then none
    else match (INTERNAL_BY_NAME.find? (·.1 = name)).map Prod.snd with
      | some (.url origin) =>
        let query := match tail.head? with
          | some '?' | some '#' => String.ofList tail
          | _ => ""
        some (.url (origin ++ "/" ++ query), full)
      | some route => some (route, full)
      | none => some (.domain full, full)
  else some (.url full, full)

/-! ### The tab -/

/-- What is loaded into a view. -/
inductive Load where
  | file (name : String)
  | url (url : String)
deriving DecidableEq

def Load.target : Load → Target
  | .file name => .file name
  | .url address => .url address

/-- Where a navigation waits: for its view, for its turn once the view is in place, and for the two lookups. -/
inductive Place where
  | routing (target : Target)
  | guarding (target : Target)
  | entering (target : Target)
  | resolver (siteName pathPart : String)
  | sevenNine (siteName : String)
deriving DecidableEq

/-- A tab, with what is under way by the number of its navigation.  `asked` is the address last asked for, once
something was, and what it comes to; `led` what the lookup of it led to; `loads` all that was loaded, with the side
of the line that it was loaded on. -/
structure Tab where
  persistent : Bool
  view : List Load
  backStack : List String
  navSeq : Nat
  closed : Bool
  url : String
  tasks : Map Nat Place
  asked : Option (Option Target)
  led : Option String
  loads : List (Bool × Load)
deriving DecidableEq

/-- A tab with its first view. -/
def opened (persistent : Bool) (url : String) : Tab where
  persistent := persistent
  view := []
  backStack := []
  navSeq := 0
  closed := false
  url := url
  tasks := .empty
  asked := none
  led := none
  loads := []

namespace Tab

def put (t : Tab) (l : Load) : Tab := { t with view := l :: t.view, loads := (t.persistent, l) :: t.loads }

def wait (t : Tab) (seq : Nat) (p : Place) : Tab := { t with tasks := t.tasks.set seq p }

def done (t : Tab) (seq : Nat) : Tab := { t with tasks := t.tasks.remove seq }

/-- `navigate` up to where it waits: for a new view on the other side, else for its turn. -/
def send (t : Tab) (url leaving : String) (returning : Bool) : Tab :=
  let seq := t.navSeq + 1
  match resolve b url with
  | none => { t with navSeq := seq, asked := some none, led := none }
  | some (target, full) =>
    let t := { t with navSeq := seq, url := full, asked := some (some target), led := none }
    if belongsInApps b target ≠ t.persistent then
      let kept := !returning && leaving ≠ "" && !"data:".toList.isPrefixOf leaving.toList
      { t with backStack := if kept then leaving :: t.backStack else t.backStack }.wait seq (.routing target)
    else t.wait seq (.entering target)

/-- A load that was decided later.  `final` is what the lookup led to; before it, a page is shown that says so. -/
def loadLater (t : Tab) (seq : Nat) (url leaving : String) (final : Bool) : Tab :=
  if t.closed ∨ t.navSeq ≠ seq then t
  else if wantsAppStorage b url ≠ t.persistent then t.send b url leaving false
  else { t.put (.url url) with led := if final then some url else t.led }

def isLong (label : List Char) : Bool :=
  24 ≤ label.length && label.all fun c => ('a' ≤ c && c ≤ 'z') || ('2' ≤ c && c ≤ '7')

def resolveHidraDomain (t : Tab) (hidraUrl : String) (seq : Nat) (leaving : String) : Tab :=
  let rest := hidraUrl.toList.drop HIDRA.length
  let hostname := rest.takeWhile (· ≠ '/')
  let pathPart := String.ofList (rest.drop hostname.length)
  let label := without ".hidra".toList hostname
  if isLong label then
    t.loadLater b seq (appOrigin "site" ++ "/?addr=" ++ b.encodeURIComponent (String.ofList hostname)) leaving true
  else
    let shown := b.encodeURIComponent (b.resolving (String.ofList hostname))
    let t := t.loadLater b seq ("data:text/html," ++ shown) leaving false
    t.wait seq (.resolver (String.ofList label) pathPart)

/-- `navigate` from its turn on. -/
def enter (t : Tab) (seq : Nat) (leaving : String) : Tab :=
  match t.tasks.get? seq with
  | some (.entering target) =>
    let t := t.done seq
    if t.navSeq ≠ seq then t
    else match target with
      | .file name => t.put (.file name)
      | .domain url => t.resolveHidraDomain b url seq leaving
      | .url url => t.put (.url url)
  | _ => t

def navigate (t : Tab) (url leaving : String) (returning : Bool) : Tab :=
  if t.closed then t else (t.send b url leaving returning).enter b (t.navSeq + 1) leaving

def page (t : Tab) (url leaving : String) : Tab :=
  if t.closed then t
  else if wantsAppStorage b url ≠ t.persistent then t.navigate b url leaving false
  else { t.put (.url url) with asked := some (some (.url url)) }

/-- The view goes back over so many of its own pages, or the tab to the page that it left. -/
def goBack (t : Tab) (pages : Nat) : Tab :=
  if t.closed then t
  else if pages ≠ 0 then
    match t.view.drop pages with
    | [] => t
    | l :: earlier => { t with view := l :: earlier, asked := some (some l.target) }
  else match t.backStack with
    | [] => t
    | previous :: backStack => { t with backStack := backStack }.navigate b previous "" true

def routed (t : Tab) (seq : Nat) (ok : Bool) : Tab :=
  match t.tasks.get? seq with
  | some (.routing target) => if ok ∧ ¬ t.closed then t.wait seq (.guarding target) else t.done seq
  | _ => t

/-- The fingerprint of a new view is in, and the view is put in place. -/
def guarded (t : Tab) (seq : Nat) : Tab :=
  match t.tasks.get? seq with
  | some (.guarding target) =>
    if t.closed then t.done seq
    else { t with persistent := belongsInApps b target, view := [] }.wait seq (.entering target)
  | _ => t

/-- A lookup is answered, with an address if one was found. -/
def answered (t : Tab) (seq : Nat) (found : Option String) (leaving : String) : Tab :=
  match t.tasks.get? seq with
  | some (.resolver siteName pathPart) =>
    match found with
    | some address => (t.done seq).loadLater b seq ("http://" ++ (address ++ pathPart)) leaving true
    | none => t.wait seq (.sevenNine siteName)
  | some (.sevenNine siteName) =>
    match found with
    | some address => (t.done seq).loadLater b seq ("http://" ++ address) leaving true
    | none => (t.done seq).loadLater b seq (appOrigin "reviews" ++ "/?b=" ++ b.encodeURIComponent siteName) leaving true
  | _ => t

def close (t : Tab) : Tab := { t with closed := true }

end Tab

inductive Event where
  | navigate (url leaving : String)
  | page (url leaving : String)
  | goBack (pages : Nat)
  | routed (seq : Nat) (ok : Bool)
  | guarded (seq : Nat)
  | enter (seq : Nat) (leaving : String)
  | answered (seq : Nat) (found : Option String) (leaving : String)
  | close
deriving DecidableEq

def Tab.step (t : Tab) : Event → Tab
  | .navigate url leaving => t.navigate b url leaving false
  | .page url leaving => t.page b url leaving
  | .goBack pages => t.goBack b pages
  | .routed seq ok => t.routed seq ok
  | .guarded seq => t.guarded b seq
  | .enter seq leaving => t.enter b seq leaving
  | .answered seq found leaving => t.answered b seq found leaving
  | .close => t.close

/-! ### Where a tab ends -/

def Reached (led : Option String) : Target → Load → Prop
  | .file name, l => l = .file name
  | .url address, l => l = .url address
  | .domain _, l => ∃ address, led = some address ∧ l = .url address

namespace Tab

def Settled (t : Tab) (target : Target) : Prop :=
  ∃ l, t.view.head? = some l ∧ Reached t.led target l ∧ t.persistent = belongsInApps b l.target

/-- Once nothing is under way the tab is where it was last sent, and all was loaded on its side of the line. -/
structure Holds (t : Tab) : Prop where
  settled : t.closed = false → (∀ seq, t.tasks.get? seq = none) → ∀ asked, t.asked = some asked →
    ∃ target, asked = some target ∧ t.Settled b target
  sides : ∀ x ∈ t.loads, x.1 = belongsInApps b x.2.target

def Unfinished (t : Tab) (target : Target) : Prop :=
  match t.tasks.get? t.navSeq with
  | some (.entering target') => belongsInApps b target' = belongsInApps b target
  | some _ => True
  | none => False

/-- Every address comes to something; a new view is put in place for the newest navigation, or while that is unfinished;
the route of its view is set; and the view goes nowhere by itself while it is under way. -/
def InOrder (t : Tab) (e : Event) : Prop :=
  t.closed = false → match e with
    | .navigate url _ => (resolve b url).isSome
    | .page url _ =>
      if wantsAppStorage b url ≠ t.persistent then (resolve b url).isSome = true else t.tasks.get? t.navSeq = none
    | .goBack pages =>
      if pages ≠ 0 then t.tasks.get? t.navSeq = none else ∀ previous ∈ t.backStack.head?, (resolve b previous).isSome
    | .routed seq ok => seq = t.navSeq → ok = true
    | .guarded seq => ∀ target, t.tasks.get? seq = some (.guarding target) → seq = t.navSeq ∨ t.Unfinished b target
    | .enter _ _ | .answered _ _ _ | .close => True

/-- What holds whatever the newest navigation is at. -/
structure Sound (t : Tab) : Prop where
  fresh : ∀ seq place, t.tasks.get? seq = some place → seq ≤ t.navSeq
  sides : ∀ x ∈ t.loads, x.1 = belongsInApps b x.2.target
  views : ∀ l ∈ t.view, t.persistent = belongsInApps b l.target

def Current (t : Tab) : Option Place → Prop
  | some (.routing target) | some (.guarding target) => t.asked = some (some target)
  | some (.entering target) => t.asked = some (some target) ∧ t.persistent = belongsInApps b target
  | some (.resolver _ _) | some (.sevenNine _) => ∃ url, t.asked = some (some (.domain url))
  | none => t.closed = true ∨ t.asked = none ∨ ∃ target, t.asked = some (some target) ∧ t.Settled b target

structure Kept (t : Tab) : Prop extends Sound b t where
  current : t.Current b (t.tasks.get? t.navSeq)

variable {b} {t : Tab} {seq : Nat} {place : Place} {l : Load}

theorem Kept.holds (ht : t.Kept b) : t.Holds b := by
  refine ⟨fun hopen hnone asked hasked => ?_, ht.sides⟩
  have hcurrent := ht.current
  rw [hnone] at hcurrent
  obtain hclosed | hnothing | ⟨target, htarget, hsettled⟩ := hcurrent
  · rw [hopen] at hclosed
    cases hclosed
  · rw [hasked] at hnothing
    cases hnothing
  · rw [hasked] at htarget
    cases htarget
    exact ⟨target, rfl, hsettled⟩

theorem kept_opened (persistent : Bool) (url : String) : (opened persistent url).Kept b :=
  ⟨⟨nofun, nofun, nofun⟩, .inr (.inl rfl)⟩

/-! #### One task more or less -/

theorem Sound.wait (ht : t.Sound b) (hseq : seq ≤ t.navSeq) : (t.wait seq place).Sound b := by
  refine ⟨fun seq' place' hget => ?_, ht.sides, ht.views⟩
  obtain ⟨rfl, -⟩ | ⟨-, hget⟩ := Map.get?_set_some.1 hget
  · exact hseq
  · exact ht.fresh _ _ hget

theorem Sound.done (ht : t.Sound b) (seq : Nat) : (t.done seq).Sound b := by
  exact ⟨fun _ _ hget => ht.fresh _ _ (Map.get?_remove_some.1 hget).2, ht.sides, ht.views⟩

theorem Sound.put (ht : t.Sound b) (hside : t.persistent = belongsInApps b l.target) : (t.put l).Sound b := by
  refine ⟨ht.fresh, fun x hx => ?_, fun l' hl' => ?_⟩
  · obtain rfl | hx := List.mem_cons.1 hx
    · exact hside
    · exact ht.sides x hx
  · obtain rfl | hl' := List.mem_cons.1 hl'
    · exact hside
    · exact ht.views l' hl'

theorem get?_wait (t : Tab) (seq : Nat) (place : Place) : (t.wait seq place).tasks.get? seq = some place :=
  Map.get?_set_self _ _ _

theorem get?_done (t : Tab) (seq : Nat) : (t.done seq).tasks.get? seq = none := by
  unfold Tab.done
  rw [Map.get?_remove, if_pos rfl]

theorem Kept.wait (ht : t.Sound b) (hcurrent : t.Current b (some place)) : (t.wait t.navSeq place).Kept b := by
  refine ⟨ht.wait le_rfl, ?_⟩
  change Current b (t.wait t.navSeq place) ((t.wait t.navSeq place).tasks.get? t.navSeq)
  rw [get?_wait]
  exact hcurrent

theorem Kept.wait_other (ht : t.Kept b) (hseq : seq ≤ t.navSeq) (hne : seq ≠ t.navSeq) : (t.wait seq place).Kept b := by
  refine ⟨ht.toSound.wait hseq, ?_⟩
  have hget : (t.wait seq place).tasks.get? t.navSeq = t.tasks.get? t.navSeq := Map.get?_set_other _ _ hne.symm
  change Current b (t.wait seq place) ((t.wait seq place).tasks.get? t.navSeq)
  rw [hget]
  exact ht.current

theorem Kept.done_other (ht : t.Kept b) (hne : seq ≠ t.navSeq) : (t.done seq).Kept b := by
  refine ⟨ht.toSound.done seq, ?_⟩
  have hget : (t.done seq).tasks.get? t.navSeq = t.tasks.get? t.navSeq := by
    unfold Tab.done
    rw [Map.get?_remove, if_neg hne.symm]
  change Current b (t.done seq) ((t.done seq).tasks.get? t.navSeq)
  rw [hget]
  exact ht.current

theorem kept_of_settled (ht : t.Sound b) (hnone : t.tasks.get? t.navSeq = none)
    (hcurrent : t.closed = true ∨ ∃ target, t.asked = some (some target) ∧ t.Settled b target) : t.Kept b := by
  refine ⟨ht, ?_⟩
  rw [hnone]
  obtain hclosed | hsettled := hcurrent
  · exact .inl hclosed
  · exact .inr (.inr hsettled)

theorem Kept.done_closed (ht : t.Kept b) (hclosed : t.closed = true) (seq : Nat) : (t.done seq).Kept b := by
  by_cases hseq : seq = t.navSeq
  · subst hseq
    exact kept_of_settled (ht.toSound.done _) (get?_done t _) (.inl hclosed)
  · exact ht.done_other hseq

/-! #### A navigation -/

theorem Sound.send (ht : t.Sound b) {url : String} (hresolve : (resolve b url).isSome) (leaving : String)
    (returning : Bool) : (t.send b url leaving returning).Kept b := by
  obtain ⟨⟨target, full⟩, heq⟩ := Option.isSome_iff_exists.1 hresolve
  have hfresh : ∀ (backStack : List String), Sound b { t with
      navSeq := t.navSeq + 1, url := full, asked := some (some target), led := none, backStack := backStack } :=
    fun _ => ⟨fun seq place hget => Nat.le_succ_of_le (ht.fresh seq place hget), ht.sides, ht.views⟩
  unfold Tab.send
  simp only [heq]
  by_cases hside : belongsInApps b target ≠ t.persistent
  · rw [if_pos hside]
    exact Kept.wait (hfresh _) rfl
  · rw [if_neg hside]
    exact Kept.wait (hfresh _) ⟨rfl, (not_not.1 hside).symm⟩

theorem resolve_http (b : Platform) (s : String) :
    resolve b ("http://" ++ s) = some (.url ("http://" ++ s), "http://" ++ s) := by
  have hlist : ("http://" ++ s).toList = 'h' :: 't' :: 't' :: 'p' :: "://".toList ++ s.toList := by simp
  have hscheme : includes "://".toList ("http://" ++ s).toList = true := by
    unfold includes
    rw [hlist, List.any_eq_true]
    refine ⟨"://".toList ++ s.toList, ?_, ?_⟩
    · rw [List.mem_tails]
      exact ⟨['h', 't', 't', 'p'], by simp⟩
    · rw [List.isPrefixOf_iff_prefix]
      exact List.prefix_append _ _
  have hhidra : HIDRA.isPrefixOf ("http://" ++ s).toList = false := by
    rw [hlist]
    rfl
  unfold resolve finalUrl
  simp only [hscheme, hhidra, Bool.true_or, if_true, Bool.false_eq_true, if_false]

theorem spinner_website (b : Platform) (s : String) : wantsAppStorage b ("data:text/html," ++ s) = false := by
  unfold wantsAppStorage appNamespace appOfUrl
  cases hurl : b.URL ("data:text/html," ++ s) with
  | none => rfl
  | some u =>
    have hprotocol := b.URL_data s u hurl
    simp [hprotocol]

theorem Kept.led (ht : t.Kept b) {url : String}
    (hdomain : seq = t.navSeq → ∃ domain, t.asked = some (some (.domain domain))) (hresolve : (resolve b url).isSome)
    (leaving : String) : ((t.done seq).loadLater b seq url leaving true).Kept b := by
  unfold Tab.loadLater
  split
  · rename_i hdropped
    by_cases hclosed : t.closed = true
    · exact ht.done_closed hclosed seq
    · obtain h | hne := hdropped
      · exact absurd h hclosed
      · exact ht.done_other (Ne.symm hne)
  rename_i hdropped
  split
  · exact (ht.toSound.done seq).send hresolve leaving false
  · rename_i hcross
    have hseq : seq = t.navSeq := (not_not.1 (not_or.1 hdropped).2).symm
    have hside : (t.done seq).persistent = belongsInApps b (.url url) := (not_not.1 hcross).symm
    obtain ⟨domain, hasked⟩ := hdomain hseq
    have hput : ((t.done seq).put (.url url)).Sound b := (ht.toSound.done seq).put (l := .url url) hside
    refine kept_of_settled ⟨hput.fresh, hput.sides, hput.views⟩ ?_
      (.inr ⟨.domain domain, hasked, .url url, rfl, ?_, hside⟩)
    · subst hseq
      exact get?_done t _
    · exact ⟨url, rfl, rfl⟩

theorem Kept.resolveHidraDomain (ht : t.Kept b) {url : String}
    (hget : t.tasks.get? t.navSeq = some (.entering (.domain url))) (leaving : String) :
    ((t.done t.navSeq).resolveHidraDomain b url t.navSeq leaving).Kept b := by
  have hcurrent := ht.current
  rw [hget] at hcurrent
  obtain ⟨hasked, hside⟩ := hcurrent
  unfold Tab.resolveHidraDomain
  dsimp only
  split_ifs with hlong
  · refine ht.led (fun _ => ⟨url, hasked⟩) ?_ leaving
    unfold appOrigin
    simp only [String.append_assoc]
    rw [resolve_http]
    rfl
  · -- the page that waits is a website's, and the tab is on that side
    have hdone := ht.toSound.done t.navSeq
    unfold Tab.loadLater
    split
    · exact Kept.wait (t := t.done t.navSeq) hdone ⟨url, hasked⟩
    split
    · rename_i hcross
      rw [spinner_website] at hcross
      exact absurd hside.symm hcross
    · rename_i hcross
      have hput := hdone.put (l := .url _) (not_not.1 hcross).symm
      exact Kept.wait (t := { (t.done t.navSeq).put _ with led := _ }) ⟨hput.fresh, hput.sides, hput.views⟩
        ⟨url, hasked⟩

theorem Kept.enter (ht : t.Kept b) (seq : Nat) (leaving : String) : (t.enter b seq leaving).Kept b := by
  unfold Tab.enter
  split
  · rename_i target hget
    by_cases hseq : t.navSeq = seq
    · subst hseq
      have hcurrent := ht.current
      rw [hget] at hcurrent
      obtain ⟨hasked, hside⟩ := hcurrent
      have hdone := ht.toSound.done t.navSeq
      change Kept b (if t.navSeq ≠ t.navSeq then _ else _)
      rw [if_neg (not_not.2 rfl)]
      cases target with
      | file name =>
        exact kept_of_settled (hdone.put hside) (get?_done t _) (.inr ⟨.file name, hasked, .file name, rfl, rfl, hside⟩)
      | url address =>
        exact kept_of_settled (hdone.put hside) (get?_done t _)
          (.inr ⟨.url address, hasked, .url address, rfl, rfl, hside⟩)
      | domain url => exact ht.resolveHidraDomain hget leaving
    · change Kept b (if t.navSeq ≠ seq then _ else _)
      rw [if_pos hseq]
      exact ht.done_other (Ne.symm hseq)
  · exact ht

theorem Kept.navigate (ht : t.Kept b) {url : String} (hresolve : t.closed = false → (resolve b url).isSome)
    (leaving : String) (returning : Bool) : (t.navigate b url leaving returning).Kept b := by
  unfold Tab.navigate
  split_ifs with hclosed
  · exact ht
  · exact (ht.toSound.send (hresolve (by simpa using hclosed)) leaving returning).enter _ leaving

/-! #### A step -/

theorem Sound.itself (ht : t.Sound b) (hnone : t.tasks.get? t.navSeq = none) {earlier : List Load}
    (hviews : ∀ l' ∈ l :: earlier, t.persistent = belongsInApps b l'.target) :
    Kept b { t with view := l :: earlier, asked := some (some l.target) } := by
  have hside : t.persistent = belongsInApps b l.target := hviews l (List.mem_cons_self ..)
  refine kept_of_settled ⟨ht.fresh, ht.sides, hviews⟩ hnone (.inr ⟨l.target, rfl, l, rfl, ?_, hside⟩)
  cases l with
  | file name => rfl
  | url address => rfl

theorem Kept.page (ht : t.Kept b) {url leaving : String} (hin : t.InOrder b (.page url leaving)) :
    (t.page b url leaving).Kept b := by
  unfold Tab.page
  split_ifs with hclosed hcross
  · exact ht
  · have hopen : t.closed = false := by simpa using hclosed
    have hresolve := hin hopen
    simp only [if_pos hcross] at hresolve
    exact ht.navigate (fun _ => hresolve) leaving false
  · have hopen : t.closed = false := by simpa using hclosed
    have hnone := hin hopen
    simp only [if_neg hcross] at hnone
    have hput := ht.toSound.put (l := .url url) (not_not.1 hcross).symm
    exact hput.itself hnone hput.views

theorem Kept.goBack (ht : t.Kept b) {pages : Nat} (hin : t.InOrder b (.goBack pages)) : (t.goBack b pages).Kept b := by
  unfold Tab.goBack
  split_ifs with hclosed hpages
  · exact ht
  · have hopen : t.closed = false := by simpa using hclosed
    have hnone := hin hopen
    simp only [if_pos hpages] at hnone
    split
    · exact ht
    · rename_i l earlier hdrop
      refine ht.toSound.itself hnone fun l' hl' => ht.views l' ?_
      exact List.mem_of_mem_drop (hdrop ▸ hl')
  · have hopen : t.closed = false := by simpa using hclosed
    have hresolve := hin hopen
    simp only [if_neg hpages] at hresolve
    split
    · exact ht
    · rename_i previous backStack heq
      have hpopped : Kept b { t with backStack := backStack } := ⟨⟨ht.fresh, ht.sides, ht.views⟩, ht.current⟩
      exact hpopped.navigate (fun _ => hresolve previous (by simp [heq])) "" true

theorem Kept.routed (ht : t.Kept b) {seq : Nat} {ok : Bool} (hin : t.InOrder b (.routed seq ok)) :
    (t.routed seq ok).Kept b := by
  unfold Tab.routed
  split
  · rename_i target hget
    by_cases hseq : seq = t.navSeq
    · subst hseq
      have hcurrent := ht.current
      rw [hget] at hcurrent
      split_ifs with hset
      · exact Kept.wait ht.toSound hcurrent
      · refine ht.done_closed ?_ _
        by_contra hopen
        exact hset ⟨hin (by simpa using hopen) rfl, hopen⟩
    · split_ifs
      · exact ht.wait_other (ht.fresh _ _ hget) hseq
      · exact ht.done_other hseq
  · exact ht

theorem Kept.replaced (ht : t.Kept b) {target : Target} (hget : t.tasks.get? seq = some (.guarding target))
    (hnext : seq = t.navSeq ∨ t.Unfinished b target) :
    (Tab.wait { t with persistent := belongsInApps b target, view := [] } seq (.entering target)).Kept b := by
  have hsound : Sound b { t with persistent := belongsInApps b target, view := [] } := ⟨ht.fresh, ht.sides, nofun⟩
  have hcurrent := ht.current
  by_cases hseq : seq = t.navSeq
  · subst hseq
    rw [hget] at hcurrent
    exact Kept.wait (t := { t with persistent := belongsInApps b target, view := [] }) hsound ⟨hcurrent, rfl⟩
  · have hunfinished := hnext.resolve_left hseq
    have hkept : Kept b { t with persistent := belongsInApps b target, view := [] } := by
      refine ⟨hsound, ?_⟩
      change Current b _ (t.tasks.get? t.navSeq)
      unfold Unfinished at hunfinished
      cases hplace : t.tasks.get? t.navSeq with
      | none =>
        rw [hplace] at hunfinished
        exact hunfinished.elim
      | some place =>
        rw [hplace] at hunfinished hcurrent
        cases place with
        | entering target' => exact ⟨hcurrent.1, hunfinished.symm⟩
        | _ => exact hcurrent
    exact hkept.wait_other (ht.fresh _ _ hget) hseq

theorem Kept.guarded (ht : t.Kept b) (hin : t.InOrder b (.guarded seq)) : (t.guarded b seq).Kept b := by
  unfold Tab.guarded
  split
  · rename_i target hget
    split_ifs with hclosed
    · exact ht.done_closed hclosed seq
    · exact ht.replaced hget (hin (by simpa using hclosed) target hget)
  · exact ht

theorem Kept.answered (ht : t.Kept b) (seq : Nat) (found : Option String) (leaving : String) :
    (t.answered b seq found leaving).Kept b := by
  have hdomain : ∀ place, t.tasks.get? seq = some place →
      (∃ siteName pathPart, place = .resolver siteName pathPart) ∨ (∃ siteName, place = .sevenNine siteName) →
      seq = t.navSeq → ∃ domain, t.asked = some (some (.domain domain)) := by
    rintro place hget hlookup rfl
    have hcurrent := ht.current
    rw [hget] at hcurrent
    obtain ⟨siteName, pathPart, rfl⟩ | ⟨siteName, rfl⟩ := hlookup
    · exact hcurrent
    · exact hcurrent
  unfold Tab.answered
  split
  · rename_i siteName pathPart hget
    have hasked := hdomain _ hget (.inl ⟨siteName, pathPart, rfl⟩)
    split
    · exact ht.led hasked (by rw [resolve_http]; rfl) leaving
    · by_cases hseq : seq = t.navSeq
      · subst hseq
        exact Kept.wait ht.toSound (hasked rfl)
      · exact ht.wait_other (ht.fresh _ _ hget) hseq
  · rename_i siteName hget
    have hasked := hdomain _ hget (.inr ⟨siteName, rfl⟩)
    split
    · exact ht.led hasked (by rw [resolve_http]; rfl) leaving
    · refine ht.led hasked ?_ leaving
      unfold appOrigin
      simp only [String.append_assoc]
      rw [resolve_http]
      rfl
  · exact ht

theorem Kept.step (ht : t.Kept b) (e : Event) (hin : t.InOrder b e) : (t.step b e).Kept b := by
  cases e with
  | navigate url leaving => exact ht.navigate hin leaving false
  | page url leaving => exact ht.page hin
  | goBack pages => exact ht.goBack hin
  | routed seq ok => exact ht.routed hin
  | guarded seq => exact ht.guarded hin
  | enter seq leaving => exact ht.enter seq leaving
  | answered seq found leaving => exact ht.answered seq found leaving
  | close =>
    refine ⟨⟨ht.fresh, ht.sides, ht.views⟩, ?_⟩
    have hcurrent := ht.current
    change Current b t.close (t.tasks.get? t.navSeq)
    cases hplace : t.tasks.get? t.navSeq with
    | none => exact .inl rfl
    | some place =>
      rw [hplace] at hcurrent
      cases place <;> exact hcurrent

end Tab

/-- In every run in order a tab ends where it was last sent, and loads nothing on the wrong side of the line. -/
theorem tab_run (b : Platform) (persistent : Bool) (url : String) (es : List Event)
    (hin : Along (Tab.step b) (Tab.InOrder b) (opened persistent url) es) :
    (run (Tab.step b) (opened persistent url) es).Holds b :=
  (run_invariant (fun _ e ht hok => ht.step e hok) hin (Tab.kept_opened persistent url)).holds

/-- A platform on which only the mail is an app. -/
private def desktop : Platform where
  URL s := if s = "http://mail.localhost:8090/" then some ⟨"http:", "mail.localhost", "8090"⟩ else none
  URL_data s u hurl := by
    have hlist : ("data:text/html," ++ s).toList = 'd' :: ("ata:text/html,".toList ++ s.toList) := by simp
    have hne : "data:text/html," ++ s ≠ "http://mail.localhost:8090/" := by
      intro heq
      rw [heq] at hlist
      cases hlist
    rw [if_neg hne] at hurl
    cases hurl
  encodeURIComponent s := s
  resolving s := s

private def overtaking : List Event :=
  [.navigate "hidra://newtab" "", .navigate "hidra://mail" "", .navigate "https://example.com/" "", .routed 2 true,
    .guarded 2, .enter 2 ""]

/-- The view for the mail, with nothing in it, takes the place of the website's. -/
theorem website_replaced : ¬ ∀ (b : Platform) (persistent : Bool) (url : String) (es : List Event),
    (run (Tab.step b) (opened persistent url) es).Holds b := by
  intro hall
  have hholds := hall desktop false "hidra://newtab" overtaking
  have hempty : (run (Tab.step desktop) (opened false "hidra://newtab") overtaking).tasks = .empty := by decide
  have hview : (run (Tab.step desktop) (opened false "hidra://newtab") overtaking).view = [] := by decide
  obtain ⟨target, -, l, hlast, -⟩ := hholds.settled (by decide) (fun seq => by rw [hempty]; rfl)
    (some (.url "https://example.com/")) (by decide)
  rw [hview] at hlast
  cases hlast

/-- Navigations only, each with its view put in place while it is the newest. -/
private def Orderly (t : Tab) (e : Event) : Prop :=
  (match e with
    | .navigate url _ => (resolve desktop url).isSome
    | .routed _ ok => ok
    | .guarded seq => seq = t.navSeq
    | .enter _ _ | .answered _ _ _ | .close => true
    | .page _ _ | .goBack _ => false) = true

private instance (t : Tab) (e : Event) : Decidable (Orderly t e) := inferInstanceAs (Decidable (_ = true))

private theorem inOrder_of_orderly {persistent : Bool} {url : String} {es : List Event}
    (hes : Along (Tab.step desktop) Orderly (opened persistent url) es) :
    Along (Tab.step desktop) (Tab.InOrder desktop) (opened persistent url) es := by
  refine Along.of_invariant (P := fun _ => True) (fun _ _ _ _ => trivial) (fun t e _ horderly _ => ?_) hes trivial
  unfold Orderly at horderly
  cases e with
  | navigate url leaving => exact horderly
  | routed seq ok => exact fun _ => horderly
  | guarded seq => exact fun _ _ => .inl (by simpa using horderly)
  | enter _ _ => trivial
  | answered _ _ _ => trivial
  | close => trivial
  | page _ _ => cases horderly
  | goBack _ => cases horderly

/-- From the new tab to the mail, and from there to a name that is looked up. -/
theorem tab_run_mail : (run (Tab.step desktop) (opened false "hidra://newtab") [.navigate "hidra://newtab" "",
    .navigate "hidra://mail" "", .routed 2 true, .guarded 2, .enter 2 "", .navigate "shop.hidra" "", .routed 3 true,
    .guarded 3, .enter 3 "", .answered 3 none "", .answered 3 (some "10.0.0.1/") ""]).Holds desktop :=
  tab_run desktop false "hidra://newtab" _ (inOrder_of_orderly (by decide))

end HidraNet.Browser.Tabs
