import HidraNet.Forum.Deletions
import HidraNet.Forum.Registrar

/-!
# What the relay keeps, and what the pages read

The relay's check of a forum publish and the page's reading of it, side by side: both read the same JSON, normalise the
same names and verify the same fields.  A page that holds nothing yet takes from an accepted payload what the relay took,
but for a few payloads that the page reads otherwise (`Alike`).
-/

namespace HidraNet.Forum

open Hidrarelay Maps

instance : Payload String := ⟨String.utf8ByteSize⟩

/-- What the libraries promise. -/
structure Specified (b : Browser) : Prop where
  isOne : ∀ s, b.isOne s ↔ s = "1"
  lower : ∀ s : String, (∀ c ∈ s.toList, isLowerAlnum c ∨ c ∈ ['.', '_', '-']) → b.toLowercase s = s
  canonical : ∀ pk, b.canonicalPub pk → units pk = 88
  signed : ∀ pk fields sig, b.verifyFields pk fields sig → b.canonicalPub pk ∧ units sig = 88
  one : ∀ pk fields fields' sig, b.verifyFields pk fields sig → b.verifyFields pk fields' sig → fields = fields'

variable {b : Browser}

/-! ### Texts -/

theorem fitting_all {l : List Char} {max : Nat} (h : (l.map fun c => if 0x10000 ≤ c.val then 2 else 1).sum ≤ max) :
    fitting max l = l := by
  induction l generalizing max with
  | nil => rfl
  | cons c l ih =>
    rw [List.map_cons, List.sum_cons] at h
    have hwidth : (if 0x10000 ≤ c.val then 2 else 1) ≤ max := by omega
    simp only [fitting]
    rw [if_pos hwidth, ih (by omega)]

theorem slice_all {s : String} {max : Nat} (h : units s ≤ max) : slice max s = s := by
  unfold slice
  rw [fitting_all h, String.ofList_toList]

theorem units_eq_length {s : String} (h : ∀ c ∈ s.toList, c.val < 0x10000) : units s = s.toList.length := by
  have hone : (s.toList.map fun c => if 0x10000 ≤ c.val then 2 else 1) = s.toList.map fun _ => 1 := by
    apply List.map_congr_left
    intro c hc
    exact if_neg (UInt32.not_le.2 (h c hc))
  unfold units
  rw [hone]
  simp

theorem ne_empty_of_units {s : String} (h : units s = 88) : s ≠ "" := by
  rintro rfl
  cases h

theorem units_postId {id : String} {kind : Char} (h : isPostId id kind) (hkind : kind.val < 0x10000) : units id = 11 := by
  unfold isPostId at h
  split at h
  · rename_i c rest hlist
    simp only [Bool.and_eq_true, decide_eq_true_eq, List.all_eq_true] at h
    obtain ⟨⟨rfl, hlength⟩, hall⟩ := h
    have hsmall : ∀ d ∈ id.toList, d.val < 0x10000 := by
      intro d hd
      rw [hlist] at hd
      obtain rfl | hd := List.mem_cons.1 hd
      · exact hkind
      · have hbase := hall d hd
        simp only [isLowerBase32, Bool.or_eq_true, Bool.and_eq_true, decide_eq_true_eq, Char.le_def] at hbase
        obtain hbase | hbase := hbase
        · exact UInt32.lt_of_le_of_lt hbase.2 (by decide)
        · exact UInt32.lt_of_le_of_lt hbase.2 (by decide)
    rw [units_eq_length hsmall, hlist, List.length_cons, hlength]
  · cases h

theorem not_jsWhitespace {c : Char} (h : isLowerAlnum c ∨ c ∈ ['.', '_', '-']) : Text.jsWhitespace c = false := by
  have hall : ∀ n < 128, isLowerAlnum (Char.ofNat n) ∨ Char.ofNat n ∈ ['.', '_', '-'] →
      Text.jsWhitespace (Char.ofNat n) = false := by decide
  have hsmall : c.toNat < 128 := by
    obtain h | h := h
    · simp only [isLowerAlnum, Bool.or_eq_true, Bool.and_eq_true, decide_eq_true_eq, Char.le_def, UInt32.le_iff_toNat_le] at h
      have hz : 'z'.val.toNat = 0x7A := rfl
      have h9 : '9'.val.toNat = 0x39 := rfl
      have hc : c.toNat = c.val.toNat := rfl
      omega
    · fin_cases h
      · decide
      · decide
      · decide
  have hc := hall c.toNat hsmall
  rw [Char.ofNat_toNat] at hc
  exact hc h

theorem chars_of_isName {norm : String} (h : isName norm) :
    norm.toList ≠ [] ∧ ∀ c ∈ norm.toList, isLowerAlnum c ∨ c ∈ ['.', '_', '-'] := by
  simp only [isName, Bool.and_eq_true, List.all_eq_true, Bool.or_eq_true, decide_eq_true_eq] at h
  obtain ⟨⟨-, hhead⟩, hall⟩ := h
  refine ⟨?_, hall⟩
  intro hnil
  rw [hnil] at hhead
  cases hhead

theorem normalizeName_of_isName (hb : Specified b) {norm : String} (h : isName norm) : normalizeName b.toEnv norm = norm := by
  obtain ⟨-, hall⟩ := chars_of_isName h
  have hdrop : ∀ l : List Char, (∀ c ∈ l, isLowerAlnum c ∨ c ∈ ['.', '_', '-']) → l.dropWhile Text.jsWhitespace = l := by
    intro l hl
    cases l with
    | nil => rfl
    | cons c l => rw [List.dropWhile_cons, not_jsWhitespace (hl c List.mem_cons_self), if_neg Bool.false_ne_true]
  have htrim : trimJs norm = norm := by
    unfold trimJs
    rw [hdrop _ hall, hdrop _ (fun c hc => hall c (List.mem_reverse.1 hc)), List.reverse_reverse, String.ofList_toList]
  unfold normalizeName
  rw [htrim]
  exact hb.lower norm hall

theorem validName_iff (hb : Specified b) (norm : String) :
    (validName b norm ∧ norm = normalizeName b.toEnv norm) ↔ isName norm := by
  unfold validName
  constructor
  · rintro ⟨hvalid, heq⟩
    rwa [← heq] at hvalid
  · intro h
    rw [normalizeName_of_isName hb h]
    exact ⟨h, rfl⟩

theorem empty_not_isName : ¬ isName "" := by decide

theorem ne_empty_of_normalizeName (hb : Specified b) {name norm : String} (hname : isName norm)
    (h : normalizeName b.toEnv name = norm) : name ≠ "" := by
  rintro rfl
  have hempty : normalizeName b.toEnv "" = "" := hb.lower "" (fun c hc => by cases hc)
  rw [← h, hempty] at hname
  exact empty_not_isName hname

/-! ### Fields -/

variable {v : Json} {s : String}

theorem get_of_s {k x : String} (h : v.s k = some x) : v.get k = some (.str x) := by
  unfold Json.s at h
  obtain ⟨y, hget, hy⟩ := Option.bind_eq_some_iff.1 h
  cases y with
  | str z =>
    cases hy
    exact hget
  | _ => cases hy

theorem str_of_s {k x : String} {max : Nat} (h : v.s k = some x) (hx : units x ≤ max) : str (v.get k) max = x := by
  rw [get_of_s h]
  exact slice_all hx

theorem get_of_asI64 {k : String} {n : Int} (h : (v.get k).bind Json.asI64 = some n) : v.get k = some (.int n) := by
  obtain ⟨y, hget, hy⟩ := Option.bind_eq_some_iff.1 h
  cases y with
  | int m =>
    cases hy
    exact hget
  | _ => cases hy

theorem range_of_ts {k : String} {t : Int} (h : v.ts k = some t) :
    v.get k = some (.int t) ∧ 0 ≤ t ∧ t ≤ Json.maxSafeInteger := by
  unfold Json.ts at h
  rw [Option.filter_eq_some_iff] at h
  exact ⟨get_of_asI64 h.1, by simpa using h.2⟩

theorem num_of_ts {k : String} {t : Int} (h : v.ts k = some t) : num b (v.get k) = t := by
  obtain ⟨hget, hlow, hhigh⟩ := range_of_ts h
  rw [hget]
  exact b.ofInt_eq t hlow hhigh

theorem printed_of_ts {k : String} {t : Int} (h : v.ts k = some t) : b.printed (num b (v.get k)) = .int t := by
  obtain ⟨-, hlow, hhigh⟩ := range_of_ts h
  rw [num_of_ts h]
  exact b.printed_eq t hlow hhigh

theorem number_small {n : Int} (hlow : 0 ≤ n) (hhigh : n ≤ Json.maxSafeInteger) : number b (.int n) = some (n : ℚ) := by
  show some (b.ofInt n) = _
  rw [b.ofInt_eq n hlow hhigh]

theorem parse_of_relay (h : Hidrarelay.parse b.toEnv s = some v) : parse b s = some v ∧ b.fromSlice s = some v := by
  unfold Hidrarelay.parse at h
  obtain ⟨hread, hobject⟩ := Option.filter_eq_some_iff.1 h
  refine ⟨?_, hread⟩
  unfold parse
  rw [hread]
  cases v with
  | obj l => rfl
  | _ => cases hobject

theorem ne_empty_of_isEmpty (h : isEmpty s = false) : s ≠ "" := by
  rintro rfl
  cases h

/-! ### What the relay accepts -/

/-- What a payload of a key's has, and what its signature covers. -/
structure SignedBy (b : Browser) (v : Json) (pk sig : String) (t : Int) (fields : Json) : Prop where
  key : v.s "pk" = some pk
  signature : v.s "sig" = some sig
  time : v.ts "ts" = some t
  verified : b.verifyFields pk fields sig

variable {pk sig : String} {t : Int} {fields : Json}

theorem SignedBy.read (h : SignedBy b v pk sig t fields) (hb : Specified b) :
    str (v.get "pk") 200 = pk ∧ str (v.get "sig") 200 = sig ∧ pk ≠ "" ∧ sig ≠ "" := by
  obtain ⟨hcanonical, hsig⟩ := hb.signed pk fields sig h.verified
  have hpk := hb.canonical pk hcanonical
  exact ⟨str_of_s h.key (by omega), str_of_s h.signature (by omega), ne_empty_of_units hpk, ne_empty_of_units hsig⟩

theorem claim_ok {norm : String} {fact : Fact} (h : claim b.toEnv norm s = .ok fact) :
    isName norm ∧ s ≠ "" ∧ ∃ v name pk sig t, Hidrarelay.parse b.toEnv s = some v ∧ v.s "name" = some name ∧
      (v.get "v").bind Json.asI64 = some 2 ∧ normalizeName b.toEnv name = norm ∧ units name ≤ 24 ∧
      SignedBy b v pk sig t (.arr [.str "claim", .str norm, .str name, .str pk, .int t]) ∧ fact = .claim norm pk := by
  unfold claim at h
  simp only [bind, Except.bind, pure, Except.pure, throw, throwThe, MonadExceptOf.throw] at h
  repeat' split at h
  all_goals cases h
  rename_i hname hempty _ v hv _ name pk sig t hfields hshape hverified
  simp only [Prod.mk.injEq] at hfields
  simp only [not_or, not_not, not_lt] at hshape
  refine ⟨by simpa using hname, ne_empty_of_isEmpty (by simpa using hempty), v, name, pk, sig, t, hv, hfields.1,
    hshape.1, hshape.2.1,
    hshape.2.2, ⟨hfields.2.1, hfields.2.2.1, hfields.2.2.2, by simpa using hverified⟩, rfl⟩

theorem hide_ok {id : String} {fact : Fact} (h : Hidrarelay.hide b.toEnv id s = .ok fact) :
    isId id ∧ s ≠ "" ∧ b.isOne s = false ∧ ∃ v pk sig t, Hidrarelay.parse b.toEnv s = some v ∧
      SignedBy b v pk sig t (.arr [.str "hide", .str id, .int t]) ∧ fact = .hide pk := by
  unfold Hidrarelay.hide at h
  simp only [bind, Except.bind, pure, Except.pure, throw, throwThe, MonadExceptOf.throw] at h
  repeat' split at h
  all_goals cases h
  rename_i hid hempty _ v hv _ pk sig t hfields _ hverified
  simp only [Prod.mk.injEq] at hfields
  simp only [Bool.or_eq_true, not_or, Bool.not_eq_true] at hempty
  have hid : isId id := by
    rw [Bool.not_eq_true, Bool.not_eq_false'] at hid
    exact hid
  exact ⟨hid, ne_empty_of_isEmpty hempty.1, hempty.2, v, pk, sig, t, hv,
    ⟨hfields.1, hfields.2.1, hfields.2.2, by simpa using hverified⟩, rfl⟩

theorem postFields_ok {id : String} {tid : Option String} {nick : String}
    (h : postFields id tid v nick t = .ok fields) :
    units nick ≤ 24 ∧ ∃ body, v.s "body" = some body ∧ units body ≤ 20000 ∧ match tid with
      | none => ∃ cat title, v.s "cat" = some cat ∧ v.s "title" = some title ∧ units cat ≤ 40 ∧ units title ≤ 140 ∧
        fields = .arr [.str "t", .str id, .str cat, .str title, .str body, .str nick, .int t]
      | some tid => v.s "topicId" = some tid ∧
        fields = .arr [.str "r", .str id, .str tid, .str body, .str nick, .int t] := by
  unfold postFields at h
  simp only [bind, Except.bind, pure, Except.pure, throw, throwThe, MonadExceptOf.throw] at h
  cases tid with
  | none =>
    simp only at h
    repeat' split at h
    all_goals cases h
    rename_i cat title body hfields hlimits
    simp only [Prod.mk.injEq] at hfields
    simp only [not_or, not_lt] at hlimits
    exact ⟨hlimits.2.2.2, body, hfields.2.2, hlimits.2.2.1, cat, title, hfields.1, hfields.2.1, hlimits.1, hlimits.2.1, rfl⟩
  | some tid =>
    simp only at h
    repeat' split at h
    all_goals cases h
    rename_i body hbody hlimits
    simp only [not_or, not_lt, not_not] at hlimits
    exact ⟨hlimits.2.2, body, hbody, hlimits.2.1, hlimits.1, rfl⟩

theorem post_ok {kind : Char} {id : String} {tid : Option String} {fact : Fact}
    (h : post b.toEnv kind id tid s = .ok fact) :
    isPostId id kind ∧ (∀ thread, tid = some thread → isPostId thread 't') ∧ s ≠ "" ∧
      ∃ v pk sig t, Hidrarelay.parse b.toEnv s = some v ∧
        (((v.get "del").isSome ∧ SignedBy b v pk sig t (.arr [.str "del", .str id, .int t]) ∧ fact = .tombstone pk) ∨
          v.get "del" = none ∧ v.s "id" = some id ∧ ∃ nick fields, v.s "nick" = some nick ∧
            postFields id tid v nick t = .ok fields ∧ SignedBy b v pk sig t fields ∧
            fact = .post id pk (normalizeName b.toEnv nick)) := by
  unfold post at h
  simp only [bind, Except.bind, pure, Except.pure, throw, throwThe, MonadExceptOf.throw] at h
  split at h
  · cases h
  rename_i hid
  simp only [not_or, Option.any_eq_true, not_exists, not_and, Bool.not_eq_true'] at hid
  split at h
  · cases h
  rename_i hempty
  split at h
  swap
  · cases h
  rename_i v hv
  split at h
  swap
  · cases h
  rename_i pk sig t hfields
  simp only [Prod.mk.injEq] at hfields
  refine ⟨by simpa using hid.1, fun thread hthread => by simpa using hid.2 thread hthread,
    ne_empty_of_isEmpty (by simpa using hempty), v, pk, sig, t, hv, ?_⟩
  split at h
  · rename_i hdel
    split at h
    · cases h
    rename_i hverified
    cases h
    exact .inl ⟨hdel, ⟨hfields.1, hfields.2.1, hfields.2.2, by simpa using hverified⟩, rfl⟩
  · rename_i hdel
    repeat' split at h
    all_goals cases h
    rename_i hself _ nick hnick _ fields hfields' hverified
    exact .inr ⟨by simpa using hdel, not_not.1 hself, nick, fields, hnick, hfields',
      ⟨hfields.1, hfields.2.1, hfields.2.2, by simpa using hverified⟩, rfl⟩

/-! ### What the page takes -/

/-- A registrar that has settled, does not know the name, has room for it and no burst. -/
structure Registrar.Ready (r : Registrar) (now : Nat) (norm : String) : Prop where
  settled : ¬ (r.bootstrapping ∧ ¬ r.adoptExisting)
  fresh : r.state.names.get? norm = none
  room : r.state.names.size < MAX_NAMES
  rate : ¬ r.rateLimited now

/-- A page that holds nothing yet, and a registrar, take from a payload what the relay took. -/
def Taken (b : Node) (topic : List String) (s : String) : Fact → Prop
  | .claim norm pk =>
    ∃ c, (onMessage b.toBrowser Page.empty topic s).vault.claims.get? norm = some c ∧ c.pk = pk ∧
      ∀ (r : Registrar) (now : Nat), r.Ready now norm →
        (r.onClaim b now norm s).state.names.get? norm = some ⟨c.name, pk, c.ts, now⟩
  | .post id pk nickNorm => ∃ post, (onMessage b.toBrowser Page.empty topic s).shown id = some post ∧ post.id = id ∧
      post.pk = some pk ∧ normalizeName b.toEnv post.nick = nickNorm
  | .tombstone pk => ∃ id tid, target topic = some (id, tid) ∧
      pk ∈ (onMessage b.toBrowser Page.empty topic s).pending id
  | .hide pk => ∃ id, topic = ["hforum", "mod", id] ∧
      (onMessage b.toBrowser Page.empty topic s).hidden.get? id = some (.keys [pk])
  | .registry seq =>
    (onMessage b.toBrowser Page.empty topic s).registrySeq = seq ∧
      ∃ facts, Hidrarelay.readRegistry b.toEnv b.REGISTRY_PUBKEY s = some facts ∧
        (∀ norm, ((onMessage b.toBrowser Page.empty topic s).vault.claims.get? norm).map Claim.pk = facts.names.get? norm) ∧
        (onMessage b.toBrowser Page.empty topic s).vault.adminPk = facts.admin
  | _ => False

def entryName : Json → Option (String × String)
  | .arr (.str norm :: .str name :: _) => some (norm, name)
  | _ => none

/-- A list in the order and the form in which the registrar writes it. -/
structure Tidy (b : Browser) (o : Json) : Prop where
  sorted : ∀ l, (o.get "names").bind Json.asArray = some l → (l.filterMap entryName).Pairwise (·.1 < ·.1)
  names : ∀ l, (o.get "names").bind Json.asArray = some l → ∀ e ∈ l.filterMap entryName,
    isName e.1 ∧ normalizeName b.toEnv e.2 = e.1
  admin : ∀ admin, o.s "admin" = some admin → b.canonicalPub admin
  hides : ∀ l, (o.get "hides").bind Json.asArray = some l →
    ∃ ids : List String, l = ids.map Json.str ∧ ids.Pairwise (· < ·) ∧ ∀ id ∈ ids, isId id

/-- What the page reads as the relay does: a claim on another name than "constructor", of a length that the registrar takes;
a tombstone whose mark counts as set; a post not under a category's old name; a list as the registrar writes it. -/
def Alike (b : Node) (topic : List String) (s : String) : Prop :=
  match topic with
  | ["hforum", "u", norm] => norm ≠ "constructor" ∧ units s ≤ 4096
  | ["hforum", "t", _] => ∀ o, parse b.toBrowser s = some o →
      (∀ mark, o.get "del" = some mark → truthy b.toBrowser mark) ∧
        (o.get "del" = none → ∀ cat, o.s "cat" = some cat → normCat cat = cat)
  | ["hforum", "r", _, _] => ∀ o, parse b.toBrowser s = some o → ∀ mark, o.get "del" = some mark → truthy b.toBrowser mark
  | ["hforum", "registry"] => ∀ o, parse b.toBrowser s = some o → Tidy b.toBrowser o
  | _ => True

/-! ### Claims -/

theorem readClaim_ok (hb : Specified b) {norm : String} {name : String} (hname : isName norm) (hs : s ≠ "")
    (hread : Hidrarelay.parse b.toEnv s = some v) (hfield : v.s "name" = some name)
    (hv : (v.get "v").bind Json.asI64 = some 2) (hnorm : normalizeName b.toEnv name = norm) (hunits : units name ≤ 24)
    (h : SignedBy b v pk sig t (.arr [.str "claim", .str norm, .str name, .str pk, .int t])) :
    readClaim b norm s = some ⟨name, pk, t⟩ := by
  obtain ⟨hpk, hsig, hpkne, hsigne⟩ := h.read hb
  have hguard := (validName_iff hb norm).2 hname
  have hnum : num b (v.get "ts") = t := num_of_ts h.time
  have htwo : (v.get "v").bind (number b) = some 2 := by
    rw [get_of_asI64 hv]
    exact number_small (by decide) (by decide)
  have hprinted : b.printed (t : ℚ) = .int t := by
    rw [← hnum]
    exact printed_of_ts h.time
  unfold readClaim
  rw [(parse_of_relay hread).1]
  simp [hs, hguard.1, ← hguard.2, htwo, str_of_s hfield hunits, hpk, hsig, hpkne, hsigne, hnum, hprinted, hnorm, h.verified,
    ne_empty_of_normalizeName hb hname hnorm, guard]

theorem registrar_readClaim_ok {b : Node} (hb : Specified b.toBrowser) {norm : String} {name : String} (hname : isName norm)
    (hs : s ≠ "") (hlength : units s ≤ 4096) (hread : Hidrarelay.parse b.toEnv s = some v) (hfield : v.s "name" = some name)
    (hv : (v.get "v").bind Json.asI64 = some 2) (hnorm : normalizeName b.toEnv name = norm) (hunits : units name ≤ 24)
    (h : SignedBy b.toBrowser v pk sig t (.arr [.str "claim", .str norm, .str name, .str pk, .int t])) :
    Registrar.readClaim b norm s = some ⟨name, pk, t⟩ := by
  obtain ⟨hcanonical, hsigunits⟩ := hb.signed pk _ sig h.verified
  have hpk : slice 200 pk = pk := slice_all (by rw [hb.canonical pk hcanonical]; omega)
  have hsig : slice 200 sig = sig := slice_all (by omega)
  have hguard := (validName_iff hb norm).2 hname
  obtain ⟨hts, hlow, hhigh⟩ := range_of_ts h.time
  have hnum : (v.get "ts").bind (Number b) = some (t : ℚ) := by
    rw [hts]
    exact number_small hlow hhigh
  have htwo : (v.get "v").bind (number b.toBrowser) = some 2 := by
    rw [get_of_asI64 hv]
    exact number_small (by decide) (by decide)
  have hsafe : isSafe (t : ℚ) := by
    unfold isSafe
    simpa using ⟨hlow, by exact_mod_cast hhigh⟩
  have hprinted : b.printed (t : ℚ) = .int t := b.printed_eq t hlow hhigh
  unfold Registrar.readClaim
  rw [(parse_of_relay hread).2]
  simp [hs, hlength, hguard.1, ← hguard.2, htwo, hfield, slice_all hunits, h.key, hpk, h.signature, hsig, hnum, hsafe,
    hprinted, hnorm, hcanonical, h.verified, guard]

theorem claim_iff {b : Node} (hb : Specified b.toBrowser) {norm : String} {fact : Fact}
    (h : claim b.toEnv norm s = .ok fact) :
    Taken b ["hforum", "u", norm] s fact ↔ norm ≠ "constructor" ∧ units s ≤ 4096 := by
  obtain ⟨hname, hs, v, name, pk, sig, t, hread, hfield, hv, hnorm, hunits, hsigned, rfl⟩ := claim_ok h
  have hpage : onMessage b.toBrowser Page.empty ["hforum", "u", norm] s = if Vault.empty.known norm then Page.empty
      else Page.persist { Page.empty with vault.claims := Map.empty.set norm ⟨name, pk, t⟩ } := by
    show onClaim b.toBrowser Page.empty norm s = _
    unfold onClaim
    rw [readClaim_ok hb hname hs hread hfield hv hnorm hunits hsigned]
    rfl
  have hknown : Vault.empty.known norm ↔ norm ∈ inherited := by
    unfold Vault.known Map.contains
    simp [Vault.empty]
  constructor
  · rintro ⟨c, hc, -, hregistrar⟩
    constructor
    · rintro rfl
      rw [hpage, if_pos (hknown.2 (by decide))] at hc
      cases hc
    · by_contra hlong
      have hrecorded := hregistrar (.new emptyState true) 0 ⟨by simp [Registrar.new], rfl, by decide, by decide⟩
      have hnone : Registrar.readClaim b norm s = none := by
        unfold Registrar.readClaim
        simp [hlong, guard]
      unfold Registrar.onClaim at hrecorded
      rw [hnone] at hrecorded
      cases hrecorded
  · rintro ⟨hother, hlength⟩
    have hunknown : norm ∉ inherited := fun hmem => hother (constructor_of_inherited hname hmem)
    refine ⟨⟨name, pk, t⟩, ?_, rfl, ?_⟩
    · rw [hpage, if_neg (fun hmem => hunknown (hknown.1 hmem))]
      exact Map.get?_set_self _ _ _
    · intro r now hready
      have hrecord := registrar_readClaim_ok hb hname hs hlength hread hfield hv hnorm hunits hsigned
      refine Registrar.onClaim_records hrecord ?_ hready.settled hready.room hready.rate
      unfold Record.knows Map.contains
      rw [hready.fresh]
      simpa using hunknown

/-! ### Posts -/

theorem store_empty (kind : Char) : Page.empty.store kind = Map.empty := by
  unfold Page.store
  split_ifs
  · rfl
  · rfl

theorem takePost_empty (kind : Char) (id : String) (post : Post) :
    takePost Page.empty kind id post = Page.empty.setStore kind (Map.empty.set id post) := by
  have hshow : showPost Page.empty kind id post = Page.empty.setStore kind (Map.empty.set id post) := by
    unfold showPost
    rw [store_empty]
    rfl
  have hpending : Page.empty.pending id = [] := rfl
  unfold takePost
  rw [hpending]
  cases post.pk with
  | none => exact hshow
  | some pk => exact hshow

theorem onPost_empty {kind : Char} {id : String} {tid : Option String} (hs : s ≠ "") (hread : parse b s = some v) :
    onPost b Page.empty kind id tid s =
      if (v.get "del").any (truthy b) then
        match tombstoneKey b id v with
        | none => Page.empty
        | some pk => { Page.empty with pendingDel := Map.empty.set id [pk] }
      else if str (v.get "id") 20 ≠ id then Page.empty
      else if kind ≠ 't' ∧ some (str (v.get "topicId") 20) ≠ tid then Page.empty
      else match signedPost b (readPost b kind id tid v) v with
        | none => Page.empty
        | some post => Page.empty.setStore kind (Map.empty.set id post) := by
  have hdeleted : Page.empty.vault.deleted.contains id = false := rfl
  unfold onPost onTombstone
  rw [if_neg hs, hread]
  simp only [store_empty, hdeleted, takePost_empty, Bool.false_eq_true, if_false]
  rfl

theorem tombstoneKey_ok (hb : Specified b) {id : String} (h : SignedBy b v pk sig t (.arr [.str "del", .str id, .int t])) :
    tombstoneKey b id v = some pk := by
  obtain ⟨hpk, hsig, hpkne, -⟩ := h.read hb
  unfold tombstoneKey
  rw [hpk, hsig, printed_of_ts h.time]
  exact if_pos ⟨hpkne, h.verified⟩

theorem signedPost_none (hb : Specified b) {post : Post} (h : SignedBy b v pk sig t fields) (hne : fields ≠ post.fields b) :
    signedPost b post v = none := by
  obtain ⟨hpk, hsig, -⟩ := h.read hb
  have htext : isText (v.get "pk") := by
    rw [get_of_s h.key]
    rfl
  unfold signedPost
  rw [htext, hpk, hsig]
  simp only [Bool.true_or, if_true]
  rw [if_neg]
  rintro ⟨-, -, hverified⟩
  exact hne (hb.one pk _ _ sig h.verified hverified)

theorem signedPost_ok (hb : Specified b) {post : Post} (h : SignedBy b v pk sig t fields) (heq : fields = post.fields b) :
    signedPost b post v = some { post with pk := some pk, tag := b.fingerprint pk } := by
  obtain ⟨hpk, hsig, hpkne, hsigne⟩ := h.read hb
  have htext : isText (v.get "pk") := by
    rw [get_of_s h.key]
    rfl
  unfold signedPost
  rw [htext, hpk, hsig]
  simp only [Bool.true_or, if_true]
  exact if_pos ⟨hpkne, hsigne, heq ▸ h.verified⟩

theorem fields_readPost (b : Browser) {kind : Char} (id : String) {tid : Option String} {nick : String}
    (hkind : kind = 't' ↔ tid = none)
    (htime : v.ts "ts" = some t) (hnick : v.s "nick" = some nick) (hfields : postFields id tid v nick t = .ok fields) :
    fields = (readPost b kind id tid v).fields b ↔
      (tid = none → ∀ cat, v.s "cat" = some cat → normCat cat = cat) := by
  obtain ⟨hnickunits, body, hbody, hbodyunits, hrest⟩ := postFields_ok hfields
  have hstrnick := str_of_s hnick hnickunits
  have hstrbody : str (v.get "body") MAX_TEXT = body := str_of_s hbody hbodyunits
  cases tid with
  | none =>
    obtain rfl : kind = 't' := hkind.2 rfl
    obtain ⟨cat, title, hcat, htitle, hcatunits, htitleunits, rfl⟩ := hrest
    unfold readPost Post.fields
    simp only [if_true, str_of_s hcat hcatunits, str_of_s htitle htitleunits, hstrnick, hstrbody, printed_of_ts htime]
    constructor
    · intro heq _ cat' hcat'
      rw [hcat] at hcat'
      cases hcat'
      simp only [Json.arr.injEq, List.cons.injEq, Json.str.injEq] at heq
      exact heq.2.2.1.symm
    · intro hnorm
      rw [hnorm trivial cat hcat]
  | some tid =>
    obtain ⟨-, rfl⟩ := hrest
    have hother : kind ≠ 't' := fun h => nomatch hkind.1 h
    unfold readPost Post.fields
    simp only [if_neg hother, hstrnick, hstrbody, printed_of_ts htime]
    exact ⟨fun _ h => absurd h nofun, fun _ => trivial⟩

theorem post_iff {b : Node} (hb : Specified b.toBrowser) {kind : Char} {id : String} {tid : Option String}
    {topic : List String} {fact : Fact} (hkind : kind = 't' ↔ tid = none) (hkindOf : kindOf id = kind)
    (htarget : target topic = some (id, tid)) (hunits : units id ≤ 20)
    (htidunits : ∀ thread, tid = some thread → units thread ≤ 20)
    (htopic : onMessage b.toBrowser Page.empty topic s = onPost b.toBrowser Page.empty kind id tid s)
    (h : post b.toEnv kind id tid s = .ok fact) :
    Taken b topic s fact ↔ ∀ o, parse b.toBrowser s = some o →
      (∀ mark, o.get "del" = some mark → truthy b.toBrowser mark) ∧
        (o.get "del" = none → tid = none → ∀ cat, o.s "cat" = some cat → normCat cat = cat) := by
  obtain ⟨-, -, hs, v, pk, sig, t, hread, hcases⟩ := post_ok h
  have hparse := (parse_of_relay hread).1
  have hpage := htopic.trans (onPost_empty hs hparse)
  have hforall : ∀ p : Json → Prop, (∀ o, parse b.toBrowser s = some o → p o) ↔ p v := by
    intro p
    rw [hparse]
    constructor
    · intro hall
      exact hall v rfl
    · rintro hp o ho
      cases ho
      exact hp
  rw [hforall]
  obtain ⟨hdel, hsigned, rfl⟩ | ⟨hdel, hself, nick, fields, hnick, hfields, hsigned, rfl⟩ := hcases
  · obtain ⟨mark, hmark⟩ := Option.isSome_iff_exists.1 hdel
    by_cases hset : truthy b.toBrowser mark
    · have hpending : onMessage b.toBrowser Page.empty topic s =
          { Page.empty with pendingDel := Map.empty.set id [pk] } := by
        rw [hpage, hmark, tombstoneKey_ok hb hsigned]
        exact if_pos hset
      constructor
      · intro _
        refine ⟨?_, fun hnone => by rw [hmark] at hnone; cases hnone⟩
        intro mark' hmark'
        rw [hmark] at hmark'
        cases hmark'
        exact hset
      · intro _
        refine ⟨id, tid, htarget, ?_⟩
        rw [hpending]
        unfold Page.pending
        rw [Map.get?_set_self]
        exact List.mem_singleton_self pk
    · have hempty : onMessage b.toBrowser Page.empty topic s = Page.empty := by
        have hne : .arr [.str "del", .str id, .int t] ≠ (readPost b.toBrowser kind id tid v).fields b.toBrowser := by
          unfold Post.fields
          split
          · simp
          · simp
        rw [hpage, hmark, signedPost_none hb hsigned hne]
        simp [hset]
      constructor
      · rintro ⟨id', tid', -, hmem⟩
        rw [hempty] at hmem
        cases hmem
      · rintro ⟨hall, -⟩
        exact absurd (hall mark hmark) hset
  · have hid : str (v.get "id") 20 = id := str_of_s hself hunits
    have hthread : ¬ (kind ≠ 't' ∧ some (str (v.get "topicId") 20) ≠ tid) := by
      rintro ⟨hother, hne⟩
      cases tid with
      | none => exact hother (hkind.2 rfl)
      | some thread =>
        obtain ⟨-, -, -, -, htopicId, -⟩ := postFields_ok hfields
        rw [str_of_s htopicId (htidunits thread rfl)] at hne
        exact hne rfl
    have hshown : (onMessage b.toBrowser Page.empty topic s).shown id =
        signedPost b.toBrowser (readPost b.toBrowser kind id tid v) v := by
      rw [hpage, hdel]
      simp only [Option.any_none, Bool.false_eq_true, if_false, hid, ne_eq, not_true_eq_false]
      rw [if_neg hthread]
      cases signedPost b.toBrowser (readPost b.toBrowser kind id tid v) v with
      | none =>
        unfold Page.shown
        rw [store_empty]
        rfl
      | some post =>
        rw [← hkindOf, shown_setStore_self, Map.get?_set_self]
    have hiff := fields_readPost b.toBrowser id hkind hsigned.time hnick hfields
    rw [hdel]
    constructor
    · rintro ⟨post, hpost, -⟩
      refine ⟨fun mark hmark => (by cases hmark), fun _ => hiff.1 ?_⟩
      by_contra hne
      rw [hshown, signedPost_none hb hsigned hne] at hpost
      cases hpost
    · rintro ⟨-, hcat⟩
      have hequal := hiff.2 (hcat rfl)
      have hnickunits := (postFields_ok hfields).1
      refine ⟨_, hshown.trans (signedPost_ok hb hsigned hequal), rfl, rfl, ?_⟩
      show normalizeName b.toEnv (str (v.get "nick") 24) = _
      rw [str_of_s hnick hnickunits]

theorem hide_taken {b : Node} (hb : Specified b.toBrowser) {id : String} {fact : Fact}
    (h : Hidrarelay.hide b.toEnv id s = .ok fact) : Taken b ["hforum", "mod", id] s fact := by
  obtain ⟨hid, hs, hone, v, pk, sig, t, hread, hsigned, rfl⟩ := hide_ok h
  obtain ⟨hpk, hsig, hpkne, hsigne⟩ := hsigned.read hb
  have hother : s ≠ "1" := by
    intro hs
    rw [(hb.isOne s).2 hs] at hone
    cases hone
  have hkey : readHide b.toBrowser id s = some pk := by
    unfold readHide
    rw [(parse_of_relay hread).1]
    simp [hpk, hsig, hpkne, hsigne, printed_of_ts hsigned.time, hsigned.verified, guard]
  refine ⟨id, rfl, ?_⟩
  have hpage : onMessage b.toBrowser Page.empty ["hforum", "mod", id] s =
      { Page.empty with hidden := Map.empty.set id (.keys [pk]) } := by
    show (if isId id then onHide b.toBrowser Page.empty id s else Page.empty) = _
    unfold onHide
    rw [if_pos hid, if_neg hs, if_neg hother, hkey]
    rfl
  rw [hpage]
  exact Map.get?_set_self _ _ _

/-! ### Lists -/

theorem registry_ok {pol : ForumPolicy} {key : String} (hkey : pol.registrar = some key) {fact : Fact}
    (h : registry b.toEnv pol s = .ok fact) :
    s ≠ "" ∧ ∃ v fields sig seq, Hidrarelay.parse b.toEnv s = some v ∧ registryFields b.toEnv v = some (fields, sig) ∧
      b.verifyFields key fields sig ∧ (v.get "seq").bind Json.asI64 = some seq ∧ fact = .registry seq := by
  unfold registry at h
  rw [hkey] at h
  simp only [bind, Except.bind, pure, Except.pure, throw, throwThe, MonadExceptOf.throw] at h
  repeat' split at h
  all_goals cases h
  rename_i hempty _ v hv _ fields sig hfields hverified
  obtain ⟨seq, hseq⟩ : ∃ seq, (v.get "seq").bind Json.asI64 = some seq := by
    unfold registryFields at hfields
    rw [Option.bind_eq_bind, Option.bind_eq_some_iff] at hfields
    obtain ⟨seq, hseq, -⟩ := hfields
    exact ⟨seq, hseq⟩
  refine ⟨ne_empty_of_isEmpty (by simpa using hempty), v, fields, sig, seq, hv, hfields, by simpa using hverified, hseq, ?_⟩
  rw [hseq]
  rfl

/-- What the relay reads of a list. -/
structure ListRead (b : Browser) (v fields : Json) (sig : String) (seq ts : Int) (names : List Json) (admin : Option String)
    (hides : Option (List Json)) : Prop where
  version : v.get "v" = some (.int 1)
  seq_eq : v.get "seq" = some (.int seq)
  seq_range : 0 ≤ seq ∧ seq ≤ Json.maxSafeInteger
  ts_eq : v.ts "ts" = some ts
  names_eq : v.get "names" = some (.arr names)
  entries : ∀ e ∈ names, isRegistryEntry b.toEnv e
  sig_eq : v.s "sig" = some sig
  admin_eq : admin = v.s "admin" ∧ (v.get "admin" = none ∨ v.get "admin" = some .null ∨ (v.s "admin").isSome)
  hides_eq : v.get "hides" = hides.map Json.arr
  fields_eq : fields = .arr ([.str "registry", .int seq, .int ts, .arr names, .str (admin.getD "")] ++
    (hides.map Json.arr).toList)

theorem registryFields_ok {fields : Json} {sig : String} (h : registryFields b.toEnv v = some (fields, sig)) :
    ∃ seq ts names admin hides, ListRead b v fields sig seq ts names admin hides := by
  unfold registryFields at h
  simp only [Option.bind_eq_bind, Option.bind_eq_some_iff, Option.guard_eq_some'] at h
  obtain ⟨seq, hseq, ts, hts, names, hnames, sig', hsig, _, ⟨hversion, hlow, hhigh⟩, l, hl, _, hall, hrest⟩ := h
  have hversion := get_of_asI64 (Option.bind_eq_some_iff.2 hversion)
  have hseq := get_of_asI64 (Option.bind_eq_some_iff.2 hseq)
  have heq : names = .arr l := by
    cases names with
    | arr l' => exact congrArg Json.arr (Option.some.inj hl)
    | _ => cases hl
  subst heq
  have hread : ∀ (admin : Option String) (hides : Option (List Json)), (admin = v.s "admin" ∧
      (v.get "admin" = none ∨ v.get "admin" = some .null ∨ (v.s "admin").isSome)) →
      v.get "hides" = hides.map Json.arr →
      (Json.arr ([.str "registry", .int seq, .int ts, .arr l, .str (admin.getD "")] ++ (hides.map Json.arr).toList), sig') =
        (fields, sig) →
      ∃ seq ts names admin hides, ListRead b v fields sig seq ts names admin hides := by
    intro admin hides hadmin hhides heq
    cases heq
    exact ⟨seq, ts, l, admin, hides, hversion, hseq, ⟨hlow, hhigh⟩, hts, hnames,
      List.all_eq_true.1 hall, hsig, hadmin, hhides, rfl⟩
  split at hrest
  · rename_i hadmin
    have hnone : none = v.s "admin" := by simp [Json.s, hadmin]
    split at hrest
    · rename_i hhides
      exact hread none none ⟨hnone, .inl hadmin⟩ hhides (Option.some.inj hrest)
    · rename_i hides hhides
      exact hread none (some hides) ⟨hnone, .inl hadmin⟩ hhides (Option.some.inj hrest)
    · cases hrest
  · rename_i hadmin
    have hnone : none = v.s "admin" := by simp [Json.s, hadmin, Json.asStr]
    split at hrest
    · rename_i hhides
      exact hread none none ⟨hnone, .inr (.inl hadmin)⟩ hhides (Option.some.inj hrest)
    · rename_i hides hhides
      exact hread none (some hides) ⟨hnone, .inr (.inl hadmin)⟩ hhides (Option.some.inj hrest)
    · cases hrest
  · rename_i a hadmin
    have hsome : some a = v.s "admin" := by simp [Json.s, hadmin, Json.asStr]
    have hkind : (v.s "admin").isSome := by rw [← hsome]; rfl
    split at hrest
    · rename_i hhides
      exact hread (some a) none ⟨hsome, .inr (.inr hkind)⟩ hhides (Option.some.inj hrest)
    · rename_i hides hhides
      exact hread (some a) (some hides) ⟨hsome, .inr (.inr hkind)⟩ hhides (Option.some.inj hrest)
    · cases hrest
  · cases hrest

theorem lt_of_isName {norm : String} (h : isName norm) : "" < norm := by
  obtain ⟨hne, -⟩ := chars_of_isName h
  rw [String.lt_iff_toList_lt]
  cases hlist : norm.toList with
  | nil => exact absurd hlist hne
  | cons c l => exact List.nil_lt_cons c l

theorem lt_of_isId {id : String} (h : isId id) : "" < id := by
  rw [String.lt_iff_toList_lt]
  cases hlist : id.toList with
  | nil =>
    unfold isId isPostId at h
    rw [hlist] at h
    cases h
  | cons c l => exact List.nil_lt_cons c l

theorem readEntries_iff (hb : Specified b) {l : List Json} (hl : ∀ e ∈ l, isRegistryEntry b.toEnv e) (last : String) :
    (∃ entries, readEntries b last l = some entries) ↔
      (∀ e ∈ l.filterMap entryName, last < e.1) ∧ (l.filterMap entryName).Pairwise (·.1 < ·.1) ∧
        ∀ e ∈ l.filterMap entryName, isName e.1 ∧ normalizeName b.toEnv e.2 = e.1 := by
  induction l generalizing last with
  | nil => exact ⟨fun _ => ⟨nofun, .nil, nofun⟩, fun _ => ⟨[], rfl⟩⟩
  | cons e l ih =>
    have hentry := hl e List.mem_cons_self
    unfold isRegistryEntry at hentry
    split at hentry
    · rename_i norm name pk t
      simp only [Bool.and_eq_true, decide_eq_true_eq] at hentry
      have hrest := ih (fun e' he' => hl e' (List.mem_cons_of_mem _ he')) norm
      have hnumber : number b (.int t) = some (t : ℚ) := number_small hentry.1.2 hentry.2
      have hinteger : (t : ℚ).den = 1 ∧ 0 ≤ (t : ℚ) ∧ (t : ℚ) ≤ Json.maxSafeInteger :=
        ⟨rfl, by exact_mod_cast hentry.1.2, by exact_mod_cast hentry.2⟩
      have hcons : ((.arr [.str norm, .str name, .str pk, .int t] :: l).filterMap entryName) =
          (norm, name) :: l.filterMap entryName := rfl
      rw [hcons, List.forall_mem_cons, List.forall_mem_cons, List.pairwise_cons]
      simp only [readEntries, Option.bind_eq_bind, Option.bind_eq_some_iff, Option.guard_eq_some', hnumber]
      constructor
      · rintro ⟨entries, _, ⟨hvalid, hnorm, hname, -⟩, q, -, _, ⟨-, -, -, hlast⟩, rest, hread, -⟩
        obtain ⟨hafter, hsorted, hnames⟩ := hrest.1 ⟨rest, hread⟩
        refine ⟨⟨hlast, fun e' he' => hlast.trans (hafter e' he')⟩, ⟨hafter, hsorted⟩,
          ⟨(validName_iff hb norm).1 ⟨hvalid, hnorm⟩, hname⟩, hnames⟩
      · rintro ⟨⟨hlast, -⟩, ⟨hafter, hsorted⟩, ⟨hisName, hname⟩, hnames⟩
        obtain ⟨rest, hread⟩ := hrest.2 ⟨hafter, hsorted, hnames⟩
        obtain ⟨hvalid, hnorm⟩ := (validName_iff hb norm).2 hisName
        exact ⟨_, (), ⟨hvalid, hnorm, hname, hentry.1.1⟩, t, rfl, (), ⟨hinteger.1, hinteger.2.1, hinteger.2.2, hlast⟩,
          rest, hread, rfl⟩
    · cases hentry

theorem readHides_iff {l : List Json} (last : String) :
    (∃ ids, readHides last l = some ids) ↔
      ∃ ids : List String, l = ids.map Json.str ∧ (∀ id ∈ ids, last < id) ∧ ids.Pairwise (· < ·) ∧ ∀ id ∈ ids, isId id := by
  induction l generalizing last with
  | nil => exact ⟨fun _ => ⟨[], rfl, nofun, .nil, nofun⟩, fun _ => ⟨[], rfl⟩⟩
  | cons e l ih =>
    constructor
    · rintro ⟨ids, h⟩
      cases e with
      | str id =>
        simp only [readHides, Option.bind_eq_bind, Option.bind_eq_some_iff, Option.guard_eq_some'] at h
        obtain ⟨_, ⟨hid, hlast⟩, rest, hread, -⟩ := h
        obtain ⟨ids', rfl, hafter, hsorted, hall⟩ := (ih id).1 ⟨rest, hread⟩
        refine ⟨id :: ids', rfl, ?_, List.pairwise_cons.2 ⟨hafter, hsorted⟩, List.forall_mem_cons.2 ⟨hid, hall⟩⟩
        exact List.forall_mem_cons.2 ⟨hlast, fun id' hid' => hlast.trans (hafter id' hid')⟩
      | _ => cases h
    · rintro ⟨ids, heq, hafter, hsorted, hall⟩
      cases ids with
      | nil => cases heq
      | cons id ids =>
        cases heq
        obtain ⟨hafter', hsorted'⟩ := List.pairwise_cons.1 hsorted
        obtain ⟨hid, hall'⟩ := List.forall_mem_cons.1 hall
        obtain ⟨rest, hread⟩ := (ih id).2 ⟨ids, rfl, hafter', hsorted', hall'⟩
        refine ⟨id :: rest, ?_⟩
        simp only [readHides, hread, hid, hafter id List.mem_cons_self, Option.bind_eq_bind]
        rfl

theorem readHides_ok {l : List Json} {last : String} {ids : List String} (h : readHides last l = some ids) :
    l = ids.map Json.str := by
  induction l generalizing last ids with
  | nil =>
    cases h
    rfl
  | cons e l ih =>
    cases e with
    | str id =>
      simp only [readHides, Option.bind_eq_bind, Option.bind_eq_some_iff, Option.guard_eq_some'] at h
      obtain ⟨_, -, rest, hrest, hids⟩ := h
      cases hids
      rw [List.map_cons, ← ih hrest]
    | _ => cases h

theorem readEntries_ok {l : List Json} (hl : ∀ e ∈ l, isRegistryEntry b.toEnv e) {last : String} {entries : List Entry}
    (h : readEntries b last l = some entries) :
    entries.map (Entry.json b) = l ∧ entries.map (fun e => (e.norm, e.pk)) = l.filterMap nameOfEntry := by
  induction l generalizing last entries with
  | nil =>
    cases h
    exact ⟨rfl, rfl⟩
  | cons e l ih =>
    have hentry := hl e List.mem_cons_self
    unfold isRegistryEntry at hentry
    split at hentry
    · rename_i norm name pk t
      simp only [Bool.and_eq_true, decide_eq_true_eq] at hentry
      simp only [readEntries, Option.bind_eq_bind, Option.bind_eq_some_iff, Option.guard_eq_some'] at h
      obtain ⟨_, hname, q, hq, _, hlast, rest, hrest, hentries⟩ := h
      cases hentries
      rw [number_small hentry.1.2 hentry.2] at hq
      cases hq
      obtain ⟨hjson, hpairs⟩ := ih (fun e' he' => hl e' (List.mem_cons_of_mem _ he')) hrest
      rw [List.map_cons, List.map_cons, hjson, hpairs]
      refine ⟨?_, rfl⟩
      unfold Entry.json
      rw [b.printed_eq t hentry.1.2 hentry.2]
    · cases hentry

variable {sig : String} {seq ts : Int} {names : List Json} {admin : Option String} {hides : Option (List Json)}

theorem readRegistry_eq (h : ListRead b v fields sig seq ts names admin hides) :
    readRegistry b v = if admin.all b.canonicalPub then
        (readEntries b "" names).bind fun entries =>
          (match hides with | none => some none | some l => (readHides "" l).map some).bind fun hides =>
            some ⟨seq, ts, entries, admin, hides⟩
      else none := by
  obtain ⟨hts, hlow, hhigh⟩ := range_of_ts h.ts_eq
  have hversion : (v.get "v").bind (number b) = some 1 := by
    rw [h.version]
    exact number_small (by decide) (by decide)
  have hseq : (v.get "seq").bind (number b) = some (seq : ℚ) := by
    rw [h.seq_eq]
    exact number_small h.seq_range.1 h.seq_range.2
  have htime : (v.get "ts").bind (number b) = some (ts : ℚ) := by
    rw [hts]
    exact number_small hlow hhigh
  have hnames : (v.get "names").bind Json.asArray = some names := by
    rw [h.names_eq]
    rfl
  have hinteger : (seq : ℚ).den = 1 ∧ 0 ≤ (seq : ℚ) := ⟨rfl, by exact_mod_cast h.seq_range.1⟩
  unfold readRegistry
  rw [hversion, hseq, htime, hnames, h.hides_eq]
  obtain ⟨hadmin, hnone | hnull | hsome⟩ := h.admin_eq
  · have hadmin : admin = none := by
      rw [hadmin]
      simp [Json.s, hnone]
    rw [hnone, hadmin]
    cases hides with
    | none => simp [hinteger, guard]
    | some l => simp [hinteger, guard]
  · have hadmin : admin = none := by
      rw [hadmin]
      simp [Json.s, hnull, Json.asStr]
    rw [hnull, hadmin]
    cases hides with
    | none => simp [hinteger, guard]
    | some l => simp [hinteger, guard]
  · obtain ⟨a, ha⟩ := Option.isSome_iff_exists.1 hsome
    rw [hadmin, ha, get_of_s ha]
    by_cases hcanonical : b.canonicalPub a
    · cases hides with
      | none => simp [hinteger, hcanonical, guard]
      | some l => simp [hinteger, hcanonical, guard]
    · cases hides with
      | none => simp [hcanonical, guard]
      | some l => simp [hcanonical, guard]

theorem readRegistry_iff (hb : Specified b) (h : ListRead b v fields sig seq ts names admin hides) :
    (∃ reg, readRegistry b v = some reg) ↔ Tidy b v := by
  have hnames : (v.get "names").bind Json.asArray = some names := by
    rw [h.names_eq]
    rfl
  have hhides : (v.get "hides").bind Json.asArray = hides := by
    rw [h.hides_eq]
    cases hides with
    | none => rfl
    | some l => rfl
  have hentries := readEntries_iff hb h.entries ""
  rw [readRegistry_eq h]
  constructor
  · rintro ⟨reg, hreg⟩
    split_ifs at hreg with hadmin
    obtain ⟨entries, hread, hreg⟩ := Option.bind_eq_some_iff.1 hreg
    obtain ⟨-, hsorted, hall⟩ := hentries.1 ⟨entries, hread⟩
    refine ⟨?_, ?_, ?_, ?_⟩
    · intro l hl
      rw [hnames] at hl
      cases hl
      exact hsorted
    · intro l hl
      rw [hnames] at hl
      cases hl
      exact hall
    · intro a ha
      rw [h.admin_eq.1, ha] at hadmin
      exact hadmin
    · intro l hl
      rw [hhides] at hl
      cases hl
      obtain ⟨ids, hids, -⟩ := Option.bind_eq_some_iff.1 hreg
      obtain ⟨ids, hids, -⟩ := Option.map_eq_some_iff.1 hids
      obtain ⟨ids, hl, -, hsorted, hall⟩ := (readHides_iff "").1 ⟨ids, hids⟩
      exact ⟨ids, hl, hsorted, hall⟩
  · intro htidy
    have hadmin : admin.all b.canonicalPub := by
      rw [h.admin_eq.1]
      cases ha : v.s "admin" with
      | none => rfl
      | some a => exact htidy.admin a ha
    have hall := htidy.names names hnames
    obtain ⟨entries, hread⟩ := hentries.2 ⟨fun e he => lt_of_isName (hall e he).1, htidy.sorted names hnames, hall⟩
    rw [if_pos hadmin, hread, Option.bind_some]
    cases hides with
    | none => exact ⟨_, rfl⟩
    | some l =>
      obtain ⟨ids, hl, hsorted, hids⟩ := htidy.hides l hhides
      obtain ⟨ids', hread'⟩ := (readHides_iff "").2 ⟨ids, hl, fun id hid => lt_of_isId (hids id hid), hsorted, hids⟩
      simp only [hread']
      exact ⟨_, rfl⟩

theorem readRegistry_ok (h : ListRead b v fields sig seq ts names admin hides) {reg : Registry}
    (hreg : readRegistry b v = some reg) :
    reg.seq = seq ∧ reg.admin = admin ∧ reg.fields b = fields ∧
      reg.names.map (fun e => (e.norm, e.pk)) = names.filterMap nameOfEntry := by
  rw [readRegistry_eq h] at hreg
  split_ifs at hreg
  obtain ⟨entries, hread, hreg⟩ := Option.bind_eq_some_iff.1 hreg
  obtain ⟨hjson, hpairs⟩ := readEntries_ok h.entries hread
  obtain ⟨ids, hids, hreg⟩ := Option.bind_eq_some_iff.1 hreg
  cases hreg
  obtain ⟨hts, hlow, hhigh⟩ := range_of_ts h.ts_eq
  refine ⟨rfl, rfl, ?_, hpairs⟩
  unfold Registry.fields
  rw [h.fields_eq, hjson, b.printed_eq seq h.seq_range.1 h.seq_range.2, b.printed_eq ts hlow hhigh]
  cases hides with
  | none =>
    cases hids
    rfl
  | some l =>
    obtain ⟨read, hread, rfl⟩ := Option.map_eq_some_iff.1 hids
    rw [readHides_ok hread]
    rfl

theorem markHiddenBy_fields (p : Page) (ids : List String) (pk : String) :
    (ids.foldl (fun p id => p.markHiddenBy id pk) p).registrySeq = p.registrySeq ∧
      (ids.foldl (fun p id => p.markHiddenBy id pk) p).vault = p.vault := by
  induction ids generalizing p with
  | nil => exact ⟨rfl, rfl⟩
  | cons id ids ih =>
    have hone : (p.markHiddenBy id pk).registrySeq = p.registrySeq ∧ (p.markHiddenBy id pk).vault = p.vault := by
      unfold Page.markHiddenBy
      split
      · exact ⟨rfl, rfl⟩
      · exact ⟨rfl, rfl⟩
    obtain ⟨hseq, hvault⟩ := ih (p.markHiddenBy id pk)
    exact ⟨hseq.trans hone.1, hvault.trans hone.2⟩

theorem applyRegistry_fields (p : Page) (reg : Registry) :
    (applyRegistry p reg).registrySeq = reg.seq ∧
      (applyRegistry p reg).vault.claims = reg.names.foldl (fun m e => m.set e.norm ⟨e.name, e.pk, e.ts⟩) p.vault.claims ∧
      (applyRegistry p reg).vault.adminPk = reg.admin.or p.vault.adminPk := by
  unfold applyRegistry
  cases reg.admin with
  | none => exact ⟨rfl, rfl, rfl⟩
  | some admin =>
    simp only
    rw [(markHiddenBy_fields _ _ _).1, (markHiddenBy_fields _ _ _).2]
    exact ⟨rfl, rfl, rfl⟩

theorem keys_foldl (entries : List Entry) {m : Map String Claim} {m' : Map String String}
    (h : ∀ k, (m.get? k).map Claim.pk = m'.get? k) (k : String) :
    ((entries.foldl (fun m e => m.set e.norm ⟨e.name, e.pk, e.ts⟩) m).get? k).map Claim.pk =
      ((entries.map fun e => (e.norm, e.pk)).foldl (fun m e => m.set e.1 e.2) m').get? k := by
  induction entries generalizing m m' with
  | nil => exact h k
  | cons e entries ih =>
    rw [List.map_cons, List.foldl_cons, List.foldl_cons]
    apply ih
    intro k'
    rw [Map.get?_set, Map.get?_set]
    split_ifs
    · rfl
    · exact h k'

theorem registry_iff {b : Node} (hb : Specified b.toBrowser) {moderator : Option String} {fact : Fact}
    (h : registry b.toEnv ⟨some b.REGISTRY_PUBKEY, moderator⟩ s = .ok fact) :
    Taken b ["hforum", "registry"] s fact ↔ ∀ o, parse b.toBrowser s = some o → Tidy b.toBrowser o := by
  obtain ⟨hs, v, fields, sig, seq', hread, hfields, hverified, hseq', rfl⟩ := registry_ok rfl h
  obtain ⟨seq, ts, names, admin, hides, hlist⟩ := registryFields_ok hfields
  have hparse := (parse_of_relay hread).1
  have hseq : seq' = seq := by
    have hget := get_of_asI64 hseq'
    rw [hlist.seq_eq] at hget
    cases hget
    rfl
  have hkey : b.REGISTRY_PUBKEY ≠ "" :=
    ne_empty_of_units (hb.canonical _ (hb.signed _ _ _ hverified).1)
  have hpage : onMessage b.toBrowser Page.empty ["hforum", "registry"] s =
      (verifyRegistry b.toBrowser v).elim Page.empty fun reg => if reg.seq ≤ Page.empty.registrySeq then Page.empty
        else applyRegistry (Page.persist { Page.empty with vault.registry := some reg }) reg := by
    show onRegistry b.toBrowser Page.empty s = _
    unfold onRegistry
    rw [if_neg (by simp [hkey, hs]), hparse, Option.bind_some]
    cases verifyRegistry b.toBrowser v <;> rfl
  have hiff := readRegistry_iff hb hlist
  rw [hparse]
  constructor
  · rintro ⟨hpageSeq, -⟩ o ho
    cases ho
    by_contra hnot
    have hnone : readRegistry b.toBrowser v = none := by
      by_contra hsome
      obtain ⟨reg, hreg⟩ := Option.ne_none_iff_exists'.1 hsome
      exact hnot (hiff.1 ⟨reg, hreg⟩)
    have hverify : verifyRegistry b.toBrowser v = none := by
      unfold verifyRegistry
      rw [hlist.sig_eq, hnone]
      rfl
    rw [hpage, hverify, hseq] at hpageSeq
    have hpos := hlist.seq_range.1
    have hminus : (-1 : ℚ) = seq := hpageSeq
    have : (-1 : ℤ) = seq := by exact_mod_cast hminus
    omega
  · intro htidy
    obtain ⟨reg, hreg⟩ := hiff.2 (htidy v rfl)
    obtain ⟨hregSeq, hregAdmin, hregFields, hregNames⟩ := readRegistry_ok hlist hreg
    have hverify : verifyRegistry b.toBrowser v = some reg := by
      unfold verifyRegistry
      rw [hlist.sig_eq, hreg]
      simp [hregFields, hverified, guard]
    have hafter : ¬ reg.seq ≤ Page.empty.registrySeq := by
      rw [hregSeq, not_le]
      have hpos : (0 : ℚ) ≤ seq := by exact_mod_cast hlist.seq_range.1
      exact lt_of_lt_of_le (by decide : (-1 : ℚ) < 0) hpos
    obtain ⟨hpageSeq, hclaims, hadminPk⟩ :=
      applyRegistry_fields (Page.persist { Page.empty with vault.registry := some reg }) reg
    rw [hverify, Option.elim_some, if_neg hafter] at hpage
    refine ⟨?_, ⟨admin, (names.filterMap nameOfEntry).foldl (fun m e => m.set e.1 e.2) .empty⟩, ?_, ?_, ?_⟩
    · rw [hpage, hpageSeq, hregSeq, hseq]
    · have hfilter : (v.s "admin").filter (· ≠ "") = admin := by
        rw [← hlist.admin_eq.1]
        cases hadmin : admin with
        | none => rfl
        | some a =>
          have ha : v.s "admin" = some a := hlist.admin_eq.1.symm.trans hadmin
          have hne := ne_empty_of_units (hb.canonical a ((htidy v rfl).admin a ha))
          simp [hne]
      unfold Hidrarelay.readRegistry
      rw [hread]
      simp only [Option.bind_eq_bind, Option.bind_some, hfields, hlist.names_eq, Json.asArray, hfilter]
      simp [hverified, guard]
    · intro norm
      rw [hpage, hclaims, ← hregNames]
      exact keys_foldl reg.names (fun k => rfl) norm
    · rw [hpage, hadminPk, hregAdmin]
      cases admin with
      | none => rfl
      | some a => rfl

/-! ### Every payload -/

/-- A page that holds nothing takes from a payload that the relay accepted what the relay took, exactly if the page reads the
payload as the relay does. -/
theorem readers_iff (b : Node) (hb : Specified b.toBrowser) (moderator : Option String) (kind : String) (levels : List String)
    (hkind : kind ∈ ["u", "t", "r", "mod", "registry"]) (s : String) (fact : Fact)
    (h : check b.toEnv ⟨some b.REGISTRY_PUBKEY, moderator⟩ ("hforum" :: kind :: levels) s true = .ok fact) :
    Taken b ("hforum" :: kind :: levels) s fact ↔ Alike b ("hforum" :: kind :: levels) s := by
  unfold check at h
  simp only [Bool.not_true, Bool.false_eq_true, if_false] at h
  split at h
  · rename_i norm heq
    cases heq
    exact claim_iff hb h
  · rename_i id heq
    cases heq
    obtain ⟨hid, -⟩ := post_ok h
    have hkindOf : kindOf id = 't' := if_pos hid
    have htarget : target ["hforum", "t", id] = some (id, none) := if_pos hid
    have hpage : onMessage b.toBrowser Page.empty ["hforum", "t", id] s = onPost b.toBrowser Page.empty 't' id none s :=
      if_pos hid
    have hunits : units id ≤ 20 := by rw [units_postId hid (by decide)]; omega
    rw [post_iff hb (by simp) hkindOf htarget hunits (by simp) hpage h]
    simp only [Alike, true_imp_iff]
  · rename_i tid id heq
    cases heq
    obtain ⟨hid, hthread, -⟩ := post_ok h
    have htid := hthread tid rfl
    have htarget : target ["hforum", "r", tid, id] = some (id, some tid) := if_pos ⟨htid, hid⟩
    have hpage : onMessage b.toBrowser Page.empty ["hforum", "r", tid, id] s =
        onPost b.toBrowser Page.empty 'r' id (some tid) s := if_pos ⟨htid, hid⟩
    have hunits : units id ≤ 20 := by rw [units_postId hid (by decide)]; omega
    have htidunits : ∀ thread, some tid = some thread → units thread ≤ 20 := by
      rintro thread heq
      cases heq
      rw [units_postId htid (by decide)]
      omega
    rw [post_iff hb (by simp) (kindOf_of_r hid) htarget hunits htidunits hpage h]
    simp [Alike]
  · rename_i id heq
    cases heq
    exact ⟨fun _ => trivial, fun _ => hide_taken hb h⟩
  · rename_i heq
    cases heq
    simp at hkind
  · rename_i heq
    cases heq
    exact registry_iff hb h
  · rename_i heq
    cases heq
    simp at hkind
  · cases h

private def base64Text : String := String.ofList (List.replicate 88 'A')

/-- Libraries that know of one claim: on a name, by any key. -/
private def claiming (norm : String) : Node where
  fromSlice s :=
    if s = "claim" then
      some (.obj [("v", .int 2), ("name", .str norm), ("pk", .str base64Text), ("sig", .str base64Text), ("ts", .int 5)])
    else none
  isOne s := s = "1"
  verifyFields pk fields sig := match fields with
    | .arr [.str kind, .str norm', .str name, .str pk', .int t] =>
      kind = "claim" ∧ norm' = norm ∧ name = norm ∧ pk' = pk ∧ t = 5 ∧ units pk = 88 ∧ units sig = 88
    | _ => false
  canonicalPub pk := units pk = 88
  toLowercase s := s
  ofInt n := n
  ofInt_eq := integer_kept
  ofText _ := none
  printed q := .int q.num
  printed_eq := integer_printed
  fingerprint pk := pk
  REGISTRY_PUBKEY := base64Text
  ofDigits _ := none
  length _ := 0

private theorem verified_claiming {norm pk sig : String} {fields : Json}
    (h : (claiming norm).verifyFields pk fields sig) :
    fields = .arr [.str "claim", .str norm, .str norm, .str pk, .int 5] ∧ units pk = 88 ∧ units sig = 88 := by
  unfold claiming at h
  simp only at h
  split at h
  · simp only [decide_eq_true_eq] at h
    obtain ⟨rfl, rfl, rfl, rfl, rfl, hpk, hsig⟩ := h
    exact ⟨rfl, hpk, hsig⟩
  · cases h

private theorem specified_claiming (norm : String) : Specified (claiming norm).toBrowser where
  isOne s := decide_eq_true_iff
  lower _ _ := rfl
  canonical pk h := of_decide_eq_true h
  signed pk fields sig h := by
    obtain ⟨-, hpk, hsig⟩ := verified_claiming h
    exact ⟨decide_eq_true hpk, hsig⟩
  one pk fields fields' sig h h' := (verified_claiming h).1.trans (verified_claiming h').1.symm

/-- A claim on a common name is taken. -/
theorem readers_iff_alice : Taken (claiming "alice") ["hforum", "u", "alice"] "claim" (.claim "alice" base64Text) ↔
    Alike (claiming "alice") ["hforum", "u", "alice"] "claim" :=
  readers_iff _ (specified_claiming _) none "u" ["alice"] (by decide) _ _ rfl

/-- The relay keeps a claim on "constructor"; no page takes it. -/
theorem constructor_unread : ¬ ∀ (b : Node) (moderator : Option String) (kind : String) (levels : List String) (s : String)
    (fact : Fact), Specified b.toBrowser → kind ∈ ["u", "t", "r", "mod", "registry"] →
    check b.toEnv ⟨some b.REGISTRY_PUBKEY, moderator⟩ ("hforum" :: kind :: levels) s true = .ok fact →
    Taken b ("hforum" :: kind :: levels) s fact := by
  intro h
  obtain ⟨c, hc, -⟩ := h (claiming "constructor") none "u" ["constructor"] "claim" (.claim "constructor" base64Text)
    (specified_claiming _) (by decide) rfl
  have hpage :
      onMessage (claiming "constructor").toBrowser Page.empty ["hforum", "u", "constructor"] "claim" = Page.empty := by
    show onClaim (claiming "constructor").toBrowser Page.empty "constructor" "claim" = _
    unfold onClaim
    split
    · rfl
    · exact if_pos (by decide)
  rw [hpage] at hc
  cases hc

end HidraNet.Forum
