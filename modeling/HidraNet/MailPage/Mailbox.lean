import HidraNet.Forum.Page
import HidraNet.MailPage.Format

/-!
# The mailbox of the mail page

The page keeps its mails in five folders, and the ids of those that were deleted for good.  What a relay delivers is
looked up by its id, both when it has been decrypted and when its sender has been proven, for the deliveries of several
relays are under way at once; what is new goes in the inbox, and a copy of what was put away goes off the relay that
delivered it.

The relays and all who write to them are around the page (`World`): anyone publishes anything under any topic, and
anything is delivered, any number of times.
-/

namespace HidraNet.MailPage

open Hidrarelay (Json)
open Forum (inherited)

def GONE_KEPT : Nat := 1000

/-! ### Mails -/

inductive Folder where
  | inbox | sent | drafts | trash | spam
deriving DecidableEq

def folders : List Folder := [.inbox, .sent, .drafts, .trash, .spam]

/-- A mail as its sender made it: the id that it was given, if that is a text, and all that is signed. -/
structure Letter where
  mid : Option String
  signed : List UInt8
deriving DecidableEq

/-- A mail in a folder. -/
structure Mail where
  mid : String
  sender : String
  recipient : String
  subject : String
  body : String
  date : ℚ
  read : Bool
  folder : Folder
  /-- The topic that it came by, as long as the relays may have a copy. -/
  topic : Option String
  verified : Bool
  letter : Option Letter
deriving DecidableEq

def MID_RE (mid : String) : Bool :=
  let chars := mid.toList
  0 < chars.length && chars.length ≤ 64 && chars.all fun c => c.isAlphanum || c ∈ ['.', '_', '-']

def Mail.cleared (x : Mail) (up : List Nat) : Mail := if up = [] then x else { x with topic := none }

def isTaken (taken : List String) (mid : String) : Bool := mid ∈ taken || mid ∈ inherited

def cleanMid (taken : List String) (fresh : String) : Option String → String
  | some mid => if MID_RE mid && !isTaken taken mid then mid else fresh
  | none => fresh

/-! ### The folders -/

abbrev Box := Folder → List Mail

namespace Box

def mails (box : Box) : List Mail := folders.flatMap box

def put (box : Box) (f : Folder) (x : Mail) : Box := Function.update box f (x :: box f)

def find (box : Box) (mid : String) : Option (Folder × Mail) :=
  folders.findSome? fun f => ((box f).find? (·.mid = mid)).map (f, ·)

def findByMid (box : Box) (mid : String) : Option Mail := (box.find mid).map Prod.snd

def without (box : Box) (f : Folder) (mid : String) : Box := Function.update box f ((box f).eraseP (·.mid = mid))

end Box

/-- Stored mails that are cleaned one after another, with the ids given so far; `fresh` makes the new ones. -/
def cleanFolder (fresh : Nat → String) : List String → List Mail → List Mail × List String
  | taken, [] => ([], taken)
  | taken, x :: rest =>
    let mid := cleanMid taken (fresh taken.length) (some x.mid)
    let cleaned := cleanFolder fresh (mid :: taken) rest
    ({ x with mid } :: cleaned.1, cleaned.2)

def cleanBox (fresh : Nat → String) (box : Box) : Box :=
  (folders.foldl (fun (s : Box × List String) f =>
    let cleaned := cleanFolder fresh s.2 (s.1 f)
    (Function.update s.1 f cleaned.1, cleaned.2)) (box, [])).1

section Folders

variable {box : Box} {f : Folder} {x : Mail} {mid : String}

theorem mem_folders (f : Folder) : f ∈ folders := by
  cases f <;> decide

namespace Box

theorem mem_mails : x ∈ box.mails ↔ ∃ f, x ∈ box f := by
  simp [mails, mem_folders]

theorem mails_perm (box : Box) (f : Folder) : box.mails.Perm (box f ++ (folders.erase f).flatMap box) :=
  (List.perm_cons_erase (mem_folders f)).flatMap_right box

theorem mails_update (box : Box) (f : Folder) (l : List Mail) :
    (mails (Function.update box f l)).Perm (l ++ (folders.erase f).flatMap box) := by
  have hrest : (folders.erase f).flatMap (Function.update box f l) = (folders.erase f).flatMap box := by
    refine List.flatMap_congr fun g hg => ?_
    have hne : g ≠ f := by
      rintro rfl
      revert hg
      cases g <;> decide
    exact Function.update_of_ne hne _ _
  have hperm := mails_perm (Function.update box f l) f
  rw [hrest, Function.update_self] at hperm
  exact hperm

theorem mails_put (box : Box) (f : Folder) (x : Mail) : (box.put f x).mails.Perm (x :: box.mails) :=
  (mails_update box f (x :: box f)).trans ((mails_perm box f).symm.cons x)

theorem find_none (h : box.find mid = none) (hx : x ∈ box.mails) : x.mid ≠ mid := by
  obtain ⟨f, hf⟩ := mem_mails.1 hx
  have hnone := List.findSome?_eq_none_iff.1 h f (mem_folders f)
  rw [Option.map_eq_none_iff, List.find?_eq_none] at hnone
  simpa using hnone x hf

theorem find_some (h : box.find mid = some (f, x)) : x.mid = mid ∧ box.mails.Perm (x :: (box.without f mid).mails) := by
  obtain ⟨g, -, hfound⟩ := List.exists_of_findSome?_eq_some h
  obtain ⟨y, hy, heq⟩ := Option.map_eq_some_iff.1 hfound
  obtain ⟨rfl, rfl⟩ := Prod.mk.inj heq
  obtain ⟨hmid, front, rest, hsplit, hfront⟩ := List.find?_eq_some_iff_append.1 hy
  have herase : (box g).eraseP (·.mid = mid) = front ++ rest := by
    rw [hsplit, List.eraseP_append_right _ (by simpa using hfront)]
    simp [of_decide_eq_true hmid]
  have hperm : (box g).Perm (y :: (box g).eraseP (·.mid = mid)) := by
    rw [herase, hsplit]
    exact List.perm_middle
  refine ⟨by simpa using hmid, (mails_perm box g).trans ((hperm.append_right _).trans ?_)⟩
  exact (mails_update box g _).symm.cons y

end Box

/-! ### Cleaning what is clean -/

def Keeps (mid : String) : Prop := MID_RE mid = true ∧ mid ∉ inherited

instance : DecidablePred Keeps := fun mid => inferInstanceAs (Decidable (MID_RE mid = true ∧ mid ∉ inherited))

theorem cleanMid_self {taken : List String} {fresh : String} (h : Keeps mid) (hnew : mid ∉ taken) :
    cleanMid taken fresh (some mid) = mid := by
  simp [cleanMid, isTaken, h.1, h.2, hnew]

theorem cleanFolder_self {fresh : Nat → String} {taken : List String} {l : List Mail} (hkeeps : ∀ x ∈ l, Keeps x.mid)
    (hmids : (l.map Mail.mid).Nodup) (hnew : ∀ x ∈ l, x.mid ∉ taken) :
    cleanFolder fresh taken l = (l, (l.map Mail.mid).reverse ++ taken) := by
  induction l generalizing taken with
  | nil => rfl
  | cons x rest ih =>
    rw [List.map_cons, List.nodup_cons] at hmids
    have hmid : cleanMid taken (fresh taken.length) (some x.mid) = x.mid :=
      cleanMid_self (hkeeps x List.mem_cons_self) (hnew x List.mem_cons_self)
    have hrest : ∀ y ∈ rest, y.mid ∉ x.mid :: taken := by
      intro y hy hmem
      rcases List.mem_cons.1 hmem with heq | hmem
      · exact hmids.1 (heq ▸ List.mem_map_of_mem hy)
      · exact hnew y (List.mem_cons_of_mem _ hy) hmem
    have hcleaned := ih (fun y hy => hkeeps y (List.mem_cons_of_mem _ hy)) hmids.2 hrest
    simp only [cleanFolder, hmid, hcleaned, List.map_cons, List.reverse_cons, List.append_assoc, List.singleton_append]

theorem cleanBox_self {fresh : Nat → String} (hkeeps : ∀ x ∈ box.mails, Keeps x.mid)
    (hmids : (box.mails.map Mail.mid).Nodup) : cleanBox fresh box = box := by
  -- the ids given so far are those of the folders that were cleaned
  have hall : ∀ (fs : List Folder) (taken : List String), (∀ x ∈ fs.flatMap box, Keeps x.mid) →
      ((fs.flatMap box).map Mail.mid).Nodup → (∀ x ∈ fs.flatMap box, x.mid ∉ taken) →
      (fs.foldl (fun (s : Box × List String) f =>
        let cleaned := cleanFolder fresh s.2 (s.1 f)
        (Function.update s.1 f cleaned.1, cleaned.2)) (box, taken)).1 = box := by
    intro fs
    induction fs with
    | nil => intro taken _ _ _; rfl
    | cons f fs ih =>
      intro taken hkeeps hmids hnew
      rw [List.flatMap_cons, List.map_append, List.nodup_append] at hmids
      simp only [List.flatMap_cons, List.mem_append] at hkeeps hnew
      have hfolder : cleanFolder fresh taken (box f) = (box f, ((box f).map Mail.mid).reverse ++ taken) :=
        cleanFolder_self (fun x hx => hkeeps x (.inl hx)) hmids.1 fun x hx => hnew x (.inl hx)
      simp only [List.foldl_cons, hfolder, Function.update_eq_self]
      refine ih _ (fun x hx => hkeeps x (.inr hx)) hmids.2.1 fun x hx hmem => ?_
      rcases List.mem_append.1 hmem with hmem | hmem
      · exact hmids.2.2 _ (List.mem_reverse.1 hmem) _ (List.mem_map_of_mem hx) rfl
      · exact hnew x (.inr hx) hmem
  exact hall folders [] hkeeps hmids fun _ _ => List.not_mem_nil

end Folders

/-! ### The mailbox -/

structure Mailbox where
  box : Box
  /-- The ids of what was deleted for good, and when it was. -/
  gone : List (String × Int)

namespace Mailbox

def empty : Mailbox := ⟨fun _ => [], []⟩

def isGone (s : Mailbox) (mid : String) : Bool := s.gone.any (·.1 = mid)

end Mailbox

def isIndex (name : String) : Bool :=
  let chars := name.toList
  chars ≠ [] && chars.all Char.isDigit && (chars.head? ≠ some '0' || chars.length = 1) &&
    Nat.ofDigitChars 10 chars 0 < 2 ^ 32 - 1

def fieldNames (o : List (String × Int)) : List String :=
  let names := o.map Prod.fst
  (names.filter isIndex).mergeSort (fun a c => Nat.ofDigitChars 10 a.toList 0 ≤ Nat.ofDigitChars 10 c.toList 0) ++
    names.filter fun name => !isIndex name

def setField (o : List (String × Int)) (name : String) (v : Int) : List (String × Int) :=
  if o.any (·.1 = name) then o.map fun e => if e.1 = name then (name, v) else e else o ++ [(name, v)]

def timeOf (o : List (String × Int)) (name : String) : Int := ((o.find? (·.1 = name)).map Prod.snd).getD 0

/-- The oldest are forgotten once there are too many. -/
def forget (gone : List (String × Int)) (mid : String) (now : Int) : List (String × Int) :=
  let gone := setField gone mid now
  if GONE_KEPT < gone.length then
    let oldest := ((fieldNames gone).mergeSort fun a c => timeOf gone a ≤ timeOf gone c).take (gone.length - GONE_KEPT)
    gone.filter fun e => e.1 ∉ oldest
  else gone

theorem any_setField (o : List (String × Int)) (name k : String) (v : Int) :
    (setField o name v).any (·.1 = k) = (decide (name = k) || o.any (·.1 = k)) := by
  unfold setField
  split
  case isTrue hset =>
    obtain ⟨e, he, hname⟩ := List.any_eq_true.1 hset
    rw [Bool.eq_iff_iff, List.any_map, List.any_eq_true, Bool.or_eq_true, List.any_eq_true]
    constructor
    · rintro ⟨e', he', hk⟩
      by_cases hsame : e'.1 = name
      · exact .inl (by simpa [hsame] using hk)
      · exact .inr ⟨e', he', by simpa [hsame] using hk⟩
    · rintro (hk | ⟨e', he', hk⟩)
      · exact ⟨e, he, by simpa [of_decide_eq_true hname] using hk⟩
      · refine ⟨e', he', ?_⟩
        by_cases hsame : e'.1 = name
        · simpa [hsame] using hk
        · simpa [hsame] using hk
  case isFalse hnew => simp [Bool.or_comm]

theorem length_setField_le (o : List (String × Int)) (name : String) (v : Int) :
    (setField o name v).length ≤ o.length + 1 := by
  unfold setField
  split <;> simp

theorem any_forget {gone : List (String × Int)} (hroom : gone.length < GONE_KEPT) (mid k : String) (now : Int) :
    (forget gone mid now).any (·.1 = k) = (decide (mid = k) || gone.any (·.1 = k)) := by
  have hlength : (setField gone mid now).length ≤ GONE_KEPT := (length_setField_le _ _ _).trans hroom
  simp only [forget, if_neg (Nat.not_lt.2 hlength), any_setField]

def load (fresh : Nat → String) (s : Mailbox) : Mailbox :=
  ⟨cleanBox fresh s.box, s.gone.filter fun e => MID_RE e.1⟩

def known (s : Mailbox) (m : Json) : Option Bool := do
  let mid ← m.s "mid"
  match s.box.findByMid mid with
  | some found => some (found.folder = .trash || found.folder = .spam)
  | none => if s.isGone mid then some true else none

theorem known_some {s : Mailbox} {m : Json} {clear : Bool} (h : known s m = some clear) :
    ∃ mid, m.s "mid" = some mid ∧
      ((∃ x ∈ s.box.mails, x.mid = mid ∧ clear = (x.folder = .trash || x.folder = .spam)) ∨ s.isGone mid = true) := by
  obtain ⟨mid, hmid, hfound⟩ := Option.bind_eq_some_iff.1 h
  refine ⟨mid, hmid, ?_⟩
  cases hfind : s.box.find mid with
  | some found =>
    obtain ⟨hsame, hperm⟩ := Box.find_some hfind
    simp only [Box.findByMid, hfind, Option.map_some, Option.some.injEq] at hfound
    exact .inl ⟨found.2, hperm.mem_iff.2 List.mem_cons_self, hsame, hfound.symm⟩
  | none =>
    simp only [Box.findByMid, hfind, Option.map_none] at hfound
    split at hfound
    case isTrue hgone => exact .inr hgone
    case isFalse => cases hfound

theorem known_none {s : Mailbox} {m : Json} {mid : String} (h : known s m = none) (hmid : m.s "mid" = some mid) :
    (∀ x ∈ s.box.mails, x.mid ≠ mid) ∧ s.isGone mid = false := by
  have hfound := Option.bind_eq_none_iff.1 h mid hmid
  cases hfind : s.box.find mid with
  | some found => simp [Box.findByMid, hfind] at hfound
  | none =>
    simp only [Box.findByMid, hfind, Option.map_none] at hfound
    split at hfound
    case isTrue => cases hfound
    case isFalse hgone => exact ⟨fun x hx => Box.find_none hfind hx, Bool.eq_false_iff.2 hgone⟩

section Page

variable {κ : Type*} (b : Platform κ)

def letterOf (m : Json) : Letter := ⟨m.s "mid", signedBytes b m⟩

/-- A mail that came, as it goes in the inbox. -/
def cleanMail (taken : List String) (fresh : String) (now : ℚ) (topic : String) (m : Json) : Mail where
  mid := cleanMid taken fresh (m.s "mid")
  sender := (m.s "from").getD ""
  recipient := (m.s "to").getD ""
  subject := (m.s "subject").getD ""
  body := (m.s "body").getD ""
  date := ((m.get "date").bind b.number).getD now
  read := false
  folder := .inbox
  topic := some topic
  verified := true
  letter := some (letterOf b m)

def opened (ids : List (Identity κ)) (topic payload : String) : Option (Identity κ × Json) :=
  if payload = "" || "hmaildir/".toList.isPrefixOf topic.toList then none
  else
    (ids.find? fun id => (inboxTopic b id.addr ++ "/").toList.isPrefixOf topic.toList).bind fun id =>
      ((decryptFor b id payload).bind b.parse).map fun m => (id, m)

/-! ### The page among its relays -/

/-- A message whose sender is being proven. -/
structure Flight where
  relay : Nat
  topic : String
  mail : Json

structure World (κ : Type*) where
  ids : List (Identity κ)
  now : Mailbox
  saved : Mailbox
  flights : List Flight
  /-- What each relay holds under a topic; an empty text is nothing. -/
  held : Nat → String → String
  /-- The proven mails to one of the identities that `onMessage` was done with. -/
  arrived : List Letter
  entered : List Letter
  /-- What the user put in the trash or in the spam, or deleted. -/
  putAway : List Letter
  deleted : List Letter
  takenOff : List (String × String)

namespace World

def start (ids : List (Identity κ)) (held : Nat → String → String) : World κ :=
  ⟨ids, .empty, .empty, [], held, [], [], [], [], []⟩

def save (w : World κ) : World κ := { w with saved := w.now }

def takeOff (w : World κ) (relays : List Nat) (topic : String) : World κ :=
  { w with
    held := fun r t => if r ∈ relays ∧ t = topic then "" else w.held r t
    takenOff := w.takenOff ++ (relays.map fun r => (topic, w.held r topic)).filter (·.2 ≠ "") }

def clearOn (w : World κ) (up : List Nat) (relay : Nat) (topic : String) : World κ :=
  w.takeOff (up.filter (· = relay)) topic

def clearRetained (w : World κ) (up : List Nat) (x : Mail) : World κ :=
  match x.topic with
  | some topic => w.takeOff up topic
  | none => w

def dropped (w : World κ) (clear : Bool) (up : List Nat) (relay : Nat) (topic : String) : World κ :=
  if clear then w.clearOn up relay topic else w

def arrive (w : World κ) (m : Json) : World κ := { w with arrived := letterOf b m :: w.arrived }

/-- `onMessage` until the sender is to be proven. -/
def deliver (w : World κ) (relay : Nat) (topic payload : String) (up : List Nat) : World κ :=
  match opened b w.ids topic payload with
  | none => w
  | some (id, m) =>
    match known w.now m with
    | some clear =>
      let w := w.dropped clear up relay topic
      if m.s "to" = some id.addr ∧ (verifyMail b m).isSome then w.arrive b m else w
    | none => if m.s "to" = some id.addr then { w with flights := w.flights ++ [⟨relay, topic, m⟩] } else w

/-- `onMessage` from there on. -/
def finish (w : World κ) (k : Nat) (up : List Nat) (fresh : String) (now : ℚ) : World κ :=
  match w.flights[k]? with
  | none => w
  | some fl =>
    let w := { w with flights := w.flights.eraseIdx k }
    if (verifyMail b fl.mail).isNone then w
    else
      match known w.now fl.mail with
      | some clear => (w.dropped clear up fl.relay fl.topic).arrive b fl.mail
      | none =>
        let x := cleanMail b (w.now.box.mails.map Mail.mid) fresh now fl.topic fl.mail
        ({ w with
          now := { w.now with box := w.now.box.put .inbox x }
          entered := letterOf b fl.mail :: w.entered }.arrive b fl.mail).save

/-- `trash`: into the trash, or out of it for good. -/
def trash (w : World κ) (mid : String) (up : List Nat) (now : Int) : World κ :=
  match w.now.box.find mid with
  | none => w.save
  | some (f, x) =>
    let w := { w.clearRetained up x with
      now := { w.now with box := w.now.box.without f mid }
      putAway := x.letter.toList ++ w.putAway }
    if f = .trash then
      { w with
        now := { w.now with gone := forget w.now.gone x.mid now }
        deleted := x.letter.toList ++ w.deleted }.save
    else { w with now := { w.now with box := w.now.box.put .trash { x.cleared up with folder := .trash } } }.save

def spam (w : World κ) (mid : String) (up : List Nat) : World κ :=
  match w.now.box.find mid with
  | none => w.save
  | some (f, x) =>
    { w.clearRetained up x with
      now := { w.now with box := (w.now.box.without f mid).put .spam { x.cleared up with folder := .spam } }
      putAway := x.letter.toList ++ w.putAway }.save

def write (w : World κ) (f : Folder) (mid sender recipient subject body : String) (date : ℚ) : World κ :=
  { w with now := { w.now with
      box := w.now.box.put f ⟨mid, sender, recipient, subject, body, date, true, f, none, false, none⟩ } }.save

def reload (w : World κ) (fresh : Nat → String) : World κ := { w with now := load fresh w.saved, flights := [] }

end World

/-- What happens, with the relays that are up then, what `newMid` makes and the time where the page asks for them. -/
inductive Step (κ : Type*) where
  | published (relay : Nat) (topic payload : String)
  | delivered (relay : Nat) (topic payload : String) (up : List Nat)
  | finished (k : Nat) (up : List Nat) (fresh : String) (now : ℚ)
  | trashed (mid : String) (up : List Nat) (now : Int)
  | spammed (mid : String) (up : List Nat)
  | sent (mid sender recipient subject body : String) (date : ℚ)
  | drafted (mid sender recipient subject body : String) (date : ℚ)
  | newAddress (id : Identity κ)
  | reloaded (fresh : Nat → String)

def step (w : World κ) : Step κ → World κ
  | .published relay topic payload =>
    { w with held := fun r t => if r = relay ∧ t = topic then payload else w.held r t }
  | .delivered relay topic payload up => w.deliver b relay topic payload up
  | .finished k up fresh now => w.finish b k up fresh now
  | .trashed mid up now => w.trash mid up now
  | .spammed mid up => w.spam mid up
  | .sent mid sender recipient subject body date => w.write .sent mid sender recipient subject body date
  | .drafted mid sender recipient subject body date => w.write .drafts mid sender recipient subject body date
  | .newAddress id => { w with ids := w.ids ++ [id] }
  | .reloaded fresh => w.reload fresh

end Page

end HidraNet.MailPage
