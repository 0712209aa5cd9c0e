import HidraNet.MailPage.Format

/-!
# A review's notice

When someone writes a review, the review page sends the owner a mail.  It looks the owner's address up in the mail
page's directory, takes the entry for a key in base64, and encrypts to it.

What the mail page puts in the directory is an object with both keys, which is not base64: no notice is ever sent
(`notice_never_arrives`).
-/

namespace HidraNet.MailPage

open Hidrarelay (Json trimJs)
open Text (jsWhitespace)

/-- What the review page draws for a notice: an ephemeral key, a nonce, the time and a number. -/
structure Draw (κ : Type*) where
  ephPriv : κ
  ephPub : List UInt8
  iv : List UInt8
  now : Nat
  random : Nat

namespace Draw

variable {κ : Type*}

def mid (d : Draw κ) : String := "m" ++ toString d.now ++ toString d.random

end Draw

def lineEnd (c : Char) : Bool := c ∈ ['\n', '\r', '\u2028', '\u2029']

/-- Without its first `@` and the rest of that line. -/
def cutAt (a : Text) : Text := a.takeWhile (· ≠ '@') ++ (a.dropWhile (· ≠ '@')).dropWhile (!lineEnd ·)

def atHidra : Text := "@hidra".toList

section Page

variable {κ : Type*} (b : Platform κ)

def normMail (a : String) : String :=
  let a := b.lower (trimJs a).toList
  String.ofList (if a = [] then [] else if atHidra <:+: a then a else cutAt a ++ atHidra)

def looksMail (a : String) : Bool :=
  let a := (normMail b a).toList
  a.length = 22 && (a.take 16).all (fun c => c.isLower || '2' ≤ c && c ≤ '7') && a.drop 16 = atHidra

def addrFromPub (pubRaw : List UInt8) : String := String.ofList (b32 ((b.sha256 pubRaw).take 10)) ++ "@hidra"

def encryptTo (d : Draw κ) (recipPubRaw : List UInt8) (text : Text) : Option String :=
  (b.deriveBits d.ephPriv recipPubRaw).map fun bits =>
    b64e (d.ephPub ++ d.iv ++ b.encrypt bits d.iv [] (Utf8.encode text))

def dirResolve (connected : Bool) (dir : String → Option String) (addr : String) : Option String :=
  if connected then dir (dirTopic b addr) else none

def notice (d : Draw κ) (subject body : String) : Text :=
  HidraNet.Json.object [("mid", HidraNet.Json.quoted d.mid.toList),
    ("from", HidraNet.Json.quoted "reviews@hidra".toList), ("subject", HidraNet.Json.quoted subject.toList),
    ("body", HidraNet.Json.quoted body.toList),
    ("date", HidraNet.Json.number d.now)]

/-- `notifyOwner`: what is published, if anything is, and what it returns. -/
def notifyOwner (connected : Bool) (dir : String → Option String) (d : Draw κ) (addr subject body : String) :
    Option (String × String) × Bool :=
  let addr := normMail b addr
  let sent : Option (String × String) := do
    guard (looksMail b addr)
    let pub64 ← (dirResolve b connected dir addr).filter (· ≠ "")
    let pubRaw ← b64d pub64
    guard (addrFromPub b pubRaw = addr)
    let ct ← encryptTo b d pubRaw (notice d subject body)
    guard (ct.length ≤ 800000)
    return (inboxTopic b addr ++ "/" ++ d.mid, ct)
  (sent, sent.isSome)

/-- What `onMessage` puts in the inbox of a mail that came for one of the page's identities. -/
def accepted (id : Identity κ) (payload : String) : Option Json := do
  let text ← decryptFor b id payload
  let m ← b.parse text
  guard ((m.get "to").bind Json.asStr = some id.addr)
  let _ ← verifyMail b m
  return m

def NoticeArrives (connected : Bool) (dir : String → Option String) (d : Draw κ) (id : Identity κ)
    (subject body : String) : Prop :=
  ∃ ct m, notifyOwner b connected dir d id.addr subject body =
      (some (inboxTopic b id.addr ++ "/" ++ d.mid, ct), true) ∧
    accepted b id ct = some m ∧ m.get "subject" = some (.str subject) ∧ m.get "body" = some (.str body)

/-! ### An address is normal as it is -/

/-- Small letters stay as they are, and so do digits and `@`. -/
def Platform.KeepsSmall : Prop :=
  ∀ t : Text, (∀ c ∈ t, c.isLower = true ∨ c.isDigit = true ∨ c = '@') → b.lower t = t

theorem base32Digit_small {n : Nat} (h : n < 32) : (base32Digit n).isLower = true ∨ (base32Digit n).isDigit = true := by
  revert n
  decide

theorem b32From_small (bits v : Nat) (bytes : List UInt8) {c : Char} (h : c ∈ b32From bits v bytes) :
    c.isLower = true ∨ c.isDigit = true := by
  induction bytes generalizing bits v with
  | nil =>
    unfold b32From at h
    split at h
    · rw [List.mem_singleton.1 h]
      exact base32Digit_small (Nat.mod_lt _ (by decide))
    · cases h
  | cons byte bytes ih =>
    rw [b32From, List.mem_append] at h
    rcases h with h | h
    · obtain ⟨k, -, rfl⟩ := List.mem_map.1 h
      exact base32Digit_small (Nat.mod_lt _ (by decide))
    · exact ih _ _ h

theorem addrFrom_small (encPub sigPub : List UInt8) {c : Char} (h : c ∈ (addrFrom b encPub sigPub).toList) :
    c.isLower = true ∨ c.isDigit = true ∨ c = '@' := by
  unfold addrFrom at h
  rw [String.toList_append, List.mem_append, String.toList_ofList] at h
  rcases h with h | h
  · rcases b32From_small 0 0 _ h with h | h
    · exact Or.inl h
    · exact Or.inr (Or.inl h)
  · have hletters : "@hidra".toList = ['@', 'h', 'i', 'd', 'r', 'a'] := by simp
    rw [hletters] at h
    simp only [List.mem_cons, List.not_mem_nil, or_false] at h
    rcases h with rfl | rfl | rfl | rfl | rfl | rfl
    · exact Or.inr (Or.inr rfl)
    all_goals exact Or.inl rfl

private theorem not_white_small : ∀ n < 128, (Char.ofNat n).isLower = true ∨ (Char.ofNat n).isDigit = true ∨
    Char.ofNat n = '@' → jsWhitespace (Char.ofNat n) = false := by
  decide

theorem not_white {c : Char} (h : c.isLower = true ∨ c.isDigit = true ∨ c = '@') : jsWhitespace c = false := by
  have hlt : c.toNat < 128 := by
    rcases h with h | h | rfl
    · simp only [Char.isLower, Bool.and_eq_true, decide_eq_true_eq, UInt32.le_iff_toNat_le] at h
      have hz : c.toNat ≤ 122 := h.2
      omega
    · simp only [Char.isDigit, Bool.and_eq_true, decide_eq_true_eq, UInt32.le_iff_toNat_le] at h
      have hnine : c.toNat ≤ 57 := h.2
      omega
    · decide
  have hchar : Char.ofNat c.toNat = c := Char.ofNat_toNat c
  rw [← hchar] at h ⊢
  exact not_white_small _ hlt h

theorem trimJs_small {a : String} (h : ∀ c ∈ a.toList, c.isLower = true ∨ c.isDigit = true ∨ c = '@') :
    trimJs a = a := by
  have hdrop (l : List Char) (hl : ∀ c ∈ l, jsWhitespace c = false) : l.dropWhile jsWhitespace = l := by
    cases l with
    | nil => rfl
    | cons c l =>
      rw [List.dropWhile_cons, hl c List.mem_cons_self]
      rfl
  have hwhite : ∀ c ∈ a.toList, jsWhitespace c = false := fun c hc => not_white (h c hc)
  unfold trimJs
  rw [hdrop _ hwhite, hdrop _ fun c hc => hwhite c (List.mem_reverse.1 hc), List.reverse_reverse, String.ofList_toList]

theorem normMail_addrFrom (hlower : b.KeepsSmall) (encPub sigPub : List UInt8) :
    normMail b (addrFrom b encPub sigPub) = addrFrom b encPub sigPub := by
  have hsmall : ∀ c ∈ (addrFrom b encPub sigPub).toList, c.isLower = true ∨ c.isDigit = true ∨ c = '@' :=
    fun c hc => addrFrom_small b encPub sigPub hc
  have hsuffix : atHidra <:+: (addrFrom b encPub sigPub).toList := by
    unfold addrFrom atHidra
    rw [String.toList_append]
    exact (List.suffix_append _ _).isInfix
  have hne : (addrFrom b encPub sigPub).toList ≠ [] := by
    intro hnil
    rw [hnil] at hsuffix
    revert hsuffix
    decide
  unfold normMail
  rw [trimJs_small hsmall, hlower _ hsmall]
  dsimp only
  rw [if_neg hne, if_pos hsuffix, String.ofList_toList]

/-! ### What the directory says is not a key -/

theorem b64d_dirEntry {id : Identity κ} {entry : String} (h : dirEntry id = some entry) : b64d entry = none := by
  obtain ⟨sigPubRaw, -, rfl⟩ := Option.map_eq_some_iff.1 h
  unfold b64d
  rw [String.toList_ofList]
  exact Base64.atob_other (by decide) (by decide)

theorem notifyOwner_none (hlower : b.KeepsSmall) {encPub sigPub : List UInt8} {priv : κ} {dir : String → Option String}
    (hdir : dir (dirTopic b (genId b encPub sigPub priv).addr) = dirEntry (genId b encPub sigPub priv))
    (connected : Bool) (d : Draw κ) (subject body : String) :
    notifyOwner b connected dir d (genId b encPub sigPub priv).addr subject body = (none, false) := by
  have hnorm : normMail b (genId b encPub sigPub priv).addr = (genId b encPub sigPub priv).addr :=
    normMail_addrFrom b hlower encPub sigPub
  have hentry : ((dirResolve b connected dir (genId b encPub sigPub priv).addr).filter (· ≠ "")).bind b64d = none := by
    unfold dirResolve
    cases connected with
    | false => rfl
    | true =>
      rw [if_pos rfl, hdir, Option.bind_eq_none_iff]
      intro entry hentry
      exact b64d_dirEntry (Option.filter_eq_some_iff.1 hentry).1
  have hnone : ∀ (next : List UInt8 → Option (String × String)),
      ((dirResolve b connected dir (genId b encPub sigPub priv).addr).filter (· ≠ "") >>= fun pub64 =>
        b64d pub64 >>= next) = none := by
    intro next
    cases hfilter : (dirResolve b connected dir (genId b encPub sigPub priv).addr).filter (· ≠ "") with
    | none => rfl
    | some pub64 =>
      rw [hfilter] at hentry
      change b64d pub64 = none at hentry
      change (b64d pub64).bind next = none
      rw [hentry]
      rfl
  unfold notifyOwner
  simp only [hnorm, hnone]
  cases looksMail b (genId b encPub sigPub priv).addr with
  | false => rfl
  | true => rfl

/-- The directory holds the entry of an identity that was just made: a notice to it never arrives. -/
theorem notice_never_arrives (hlower : b.KeepsSmall) (encPub sigPub : List UInt8) (priv : κ)
    (dir : String → Option String)
    (hdir : dir (dirTopic b (genId b encPub sigPub priv).addr) = dirEntry (genId b encPub sigPub priv))
    (connected : Bool) (d : Draw κ) (subject body : String) :
    ¬ NoticeArrives b connected dir d (genId b encPub sigPub priv) subject body := by
  rintro ⟨ct, m, hsent, -⟩
  rw [notifyOwner_none b hlower hdir] at hsent
  cases hsent

end Page

/-! ### A mailbox that is never told -/

/-- A browser whose cryptography hides nothing. -/
def bare : Platform Unit where
  sha256 _ := List.replicate 32 0
  deriveBits _ _ := some (List.replicate 32 0)
  hkdf bits _ := bits
  encrypt _ _ _ text := text ++ List.replicate 16 0
  decrypt _ _ _ text := some (text.take (text.length - 16))
  verify _ _ _ := some true
  parse _ := none
  number
    | .int n => some n
    | _ => none
  string v := (v.asStr).getD ""
  lower t := t.map Char.toLower

theorem bare_keepsSmall : bare.KeepsSmall := by
  intro t ht
  have hsame : ∀ c ∈ t, c.toLower = c := by
    intro c hc
    refine Char.toLower_eq_of_not_isUpper fun hupper => ?_
    rcases ht c hc with h | h | rfl
    · exact Char.not_isUpper_of_isLower h hupper
    · simp only [Char.isUpper, Char.isDigit, Bool.and_eq_true, decide_eq_true_eq, UInt32.le_iff_toNat_le] at h hupper
      have hnine : c.val.toNat ≤ 57 := h.2
      have hletter : 65 ≤ c.val.toNat := hupper.1
      omega
    · revert hupper
      decide
  exact (List.map_congr_left hsame).trans (List.map_id t)

def owner : Identity Unit := genId bare (List.replicate 65 4) (List.replicate 65 5) ()

def ownerDir (topic : String) : Option String := if topic = dirTopic bare owner.addr then dirEntry owner else none

def draw : Draw Unit := ⟨(), List.replicate 65 6, List.replicate 12 7, 1700000000000, 42⟩

/-- The owner has a directory entry, and the notice of a review is not sent. -/
theorem notice_lost : ¬ NoticeArrives bare true ownerDir draw owner "New review" "Ana gave 5 stars" := by
  rintro ⟨ct, m, hsent, -⟩
  have hdir : ownerDir (dirTopic bare owner.addr) = dirEntry owner := if_pos rfl
  have hnone : notifyOwner bare true ownerDir draw owner.addr "New review" "Ana gave 5 stars" = (none, false) :=
    notifyOwner_none bare bare_keepsSmall hdir true draw _ _
  rw [hnone] at hsent
  cases hsent

theorem notice_never_arrives_bare : bare.KeepsSmall ∧ ownerDir (dirTopic bare owner.addr) = dirEntry owner ∧
    ¬ NoticeArrives bare true ownerDir draw owner "New review" "Ana gave 5 stars" :=
  ⟨bare_keepsSmall, if_pos rfl,
    notice_never_arrives bare bare_keepsSmall _ _ () ownerDir (if_pos rfl) true draw "New review" "Ana gave 5 stars"⟩

end HidraNet.MailPage
