import HidraNet.Hidrarelay.Fill

/-!
# Pages

The payloads the pages publish are texts of flat JSON objects.  Names, ids and keys are numbers written in the letters
and digits that all of them may hold (`code`).  A signature is ideal: it is the key with the text that it signs.
-/

namespace HidraNet.Hidrarelay

open Text

/-! ### Texts of flat objects -/

inductive Scalar where
  | str (s : String)
  | int (n : Int)
deriving DecidableEq

def withCommas : List (List Char) → List Char
  | [] => []
  | [l] => l
  | l :: ls => l ++ ',' :: withCommas ls

def escape (c : Char) : List Char := if c = '"' ∨ c = '\\' then ['\\', c] else [c]

def Scalar.text : Scalar → List Char
  | .str s => '"' :: (s.toList.flatMap escape ++ ['"'])
  | .int n => (Int.repr n).toList

def Scalar.json : Scalar → Json
  | .str s => .str s
  | .int n => .int n

inductive Page where
  | one
  | object (fields : List (String × Scalar))
deriving DecidableEq

def fieldText (e : String × Scalar) : List Char := '"' :: (e.1.toList ++ '"' :: ':' :: e.2.text)

def Page.text : Page → List Char
  | .one => ['1']
  | .object fields => '{' :: (withCommas (fields.map fieldText) ++ ['}'])

def Page.json : Page → Json
  | .one => .int 1
  | .object fields => .obj (fields.map fun e => (e.1, e.2.json))

instance : Payload Page := ⟨fun p => String.utf8Len p.text⟩

def scalarText : Json → List Char
  | .str s => Scalar.text (.str s)
  | .int n => Scalar.text (.int n)
  | _ => []

def signedText : Json → List Char
  | .arr l => '[' :: (withCommas (l.map scalarText) ++ [']'])
  | _ => []

def sign (pk : String) (fields : Json) : String := String.ofList (pk.toList ++ ':' :: signedText fields)

/-- Keys are of 88 characters. -/
def pageEnv : Env Page where
  fromSlice p := some p.json
  isOne p := p = .one
  verifyFields pk fields sig := pk.toList.length = 88 && sig = sign pk fields
  canonicalPub pk := pk.toList.length = 88
  toLowercase s := String.ofList (s.toList.map Char.toLower)

/-! ### Numbers as texts -/

def digit (d : Nat) : Char := if d < 26 then Char.ofNat (97 + d) else Char.ofNat (24 + d)

/-- The number in `w` digits, the lowest first. -/
def code : (w i : Nat) → List Char
  | 0, _ => []
  | w + 1, i => digit (i % 32) :: code w (i / 32)

theorem length_code (w i : Nat) : (code w i).length = w := by
  induction w generalizing i with
  | zero => rfl
  | succ w ih => simp [code, ih]

theorem digit_of_mem_code {w i : Nat} {c : Char} (h : c ∈ code w i) : ∃ d < 32, c = digit d := by
  induction w generalizing i with
  | zero => cases h
  | succ w ih =>
    rcases List.mem_cons.1 h with rfl | h
    · exact ⟨i % 32, Nat.mod_lt _ (by omega), rfl⟩
    · exact ih h

theorem digit_inj : ∀ d < 32, ∀ d' < 32, digit d = digit d' → d = d' := by decide

theorem code_inj {w i j : Nat} (hi : i < 32 ^ w) (hj : j < 32 ^ w) (h : code w i = code w j) : i = j := by
  induction w generalizing i j with
  | zero =>
    simp only [pow_zero] at hi hj
    omega
  | succ w ih =>
    unfold code at h
    rw [List.cons.injEq] at h
    rw [pow_succ] at hi hj
    have hlow := digit_inj _ (Nat.mod_lt i (by omega)) _ (Nat.mod_lt j (by omega)) h.1
    have hhigh := ih (i := i / 32) (j := j / 32) (by omega) (by omega) h.2
    omega

theorem all_code {p : Char → Bool} (hp : ∀ d < 32, p (digit d) = true) (w i : Nat) : (code w i).all p = true := by
  rw [List.all_eq_true]
  intro c hc
  obtain ⟨d, hd, rfl⟩ := digit_of_mem_code hc
  exact hp d hd

@[simp] theorem utf8Len_code (w i : Nat) : String.utf8Len (code w i) = w := by
  have hone : ∀ d < 32, (digit d).utf8Size = 1 := by decide
  induction w generalizing i with
  | zero => rfl
  | succ w ih =>
    unfold code
    rw [String.utf8Len_cons, ih, hone _ (Nat.mod_lt _ (by omega))]

@[simp] theorem escape_code (w i : Nat) : (code w i).flatMap escape = code w i := by
  have hplain : ∀ d < 32, escape (digit d) = [digit d] := by decide
  induction w generalizing i with
  | zero => rfl
  | succ w ih =>
    unfold code
    rw [List.flatMap_cons, ih, hplain _ (Nat.mod_lt _ (by omega))]
    rfl

/-! ### Names, ids and keys -/

def nameOf (k : Nat) : String := String.ofList (code 10 k)

def postIdOf (kind : Char) (i : Nat) : String := String.ofList (kind :: code 10 i)

def keyOf (k : Nat) : String := String.ofList (code 88 k)

def padding (n : Nat) : String := String.ofList (List.replicate n 'a')

theorem nameOf_inj {i j : Nat} (hi : i < 32 ^ 10) (hj : j < 32 ^ 10) (h : nameOf i = nameOf j) : i = j :=
  code_inj hi hj (String.ofList_injective h)

theorem postIdOf_inj {c : Char} {i j : Nat} (hi : i < 32 ^ 10) (hj : j < 32 ^ 10) (h : postIdOf c i = postIdOf c j) :
    i = j := code_inj hi hj (List.cons.inj (String.ofList_injective h)).2

theorem keyOf_inj {i j : Nat} (hi : i < 32 ^ 10) (hj : j < 32 ^ 10) (h : keyOf i = keyOf j) : i = j :=
  code_inj (hi.trans (by norm_num)) (hj.trans (by norm_num)) (String.ofList_injective h)

theorem isName_nameOf (k : Nat) : isName (nameOf k) = true := by
  have hchars : (code 10 k).all (fun c => isLowerAlnum c || c ∈ ['.', '_', '-']) = true := all_code (by decide) 10 k
  have hfirst : ∀ d < 32, (digit d).isAlphanum = true := by decide
  have hhead : (code 10 k).head?.any Char.isAlphanum = true := by
    simp only [code, List.head?_cons, Option.any_some]
    exact hfirst _ (Nat.mod_lt _ (by omega))
  unfold isName nameOf
  rw [String.utf8ByteSize_ofList, utf8Len_code, String.toList_ofList, hchars, hhead]
  decide

theorem isPostId_postIdOf (kind : Char) (i : Nat) : isPostId (postIdOf kind i) kind = true := by
  have hchars : (code 10 i).all isLowerBase32 = true := all_code (by decide) 10 i
  unfold isPostId postIdOf
  simp [length_code, hchars]

theorem trimJs_nameOf (k : Nat) : trimJs (nameOf k) = nameOf k := by
  have hplain : ∀ c ∈ code 10 k, jsWhitespace c = false := by
    intro c hc
    have hall := all_code (p := fun c => !jsWhitespace c) (by decide) 10 k
    simpa using List.all_eq_true.1 hall c hc
  have hdrop : ∀ l : List Char, (∀ c ∈ l, jsWhitespace c = false) → l.dropWhile jsWhitespace = l := by
    intro l hl
    cases l with
    | nil => rfl
    | cons c l => simp [hl c List.mem_cons_self]
  unfold trimJs nameOf
  rw [String.toList_ofList, hdrop _ hplain, hdrop _ (by simpa using hplain), List.reverse_reverse]

theorem normalizeName_nameOf (k : Nat) : normalizeName pageEnv (nameOf k) = nameOf k := by
  have hlower : ∀ d < 32, (digit d).toLower = digit d := by decide
  have hsame : (code 10 k).map Char.toLower = code 10 k := by
    have hsame : ∀ c ∈ code 10 k, c.toLower = id c := by
      intro c hc
      obtain ⟨d, hd, rfl⟩ := digit_of_mem_code hc
      exact hlower d hd
    rw [List.map_congr_left hsame, List.map_id]
  unfold normalizeName
  rw [trimJs_nameOf]
  unfold nameOf pageEnv
  dsimp only
  rw [String.toList_ofList, hsame]

theorem units_nameOf (k : Nat) : units (nameOf k) = 10 := by
  have hone : ∀ d < 32, (if 0x10000 ≤ (digit d).val then 2 else 1) = 1 := by decide
  have hall : ∀ w i, ((code w i).map fun c => if 0x10000 ≤ c.val then 2 else 1).sum = w := by
    intro w
    induction w with
    | zero => exact fun _ => rfl
    | succ w ih =>
      intro i
      unfold code
      rw [List.map_cons, List.sum_cons, ih, hone _ (Nat.mod_lt _ (by omega)), Nat.add_comm]
  unfold units nameOf
  rw [String.toList_ofList, hall]

/-! ### The forum's pages -/

def signedBy (k : Nat) (fields : List Json) : List (String × Scalar) :=
  [("pk", .str (keyOf k)), ("sig", .str (sign (keyOf k) (.arr fields))), ("ts", .int 0)]

/-- The key `k` claims the name `k`. -/
def claimPage (k pad : Nat) : Page :=
  .object ([("v", .int 2), ("name", .str (nameOf k)), ("x", .str (padding pad))] ++
    signedBy k [.str "claim", .str (nameOf k), .str (nameOf k), .str (keyOf k), .int 0])

/-- The key `k` opens the thread `i` under its name. -/
def threadPage (i k pad : Nat) : Page :=
  .object ([("id", .str (postIdOf 't' i)), ("cat", .str ""), ("title", .str ""), ("body", .str ""),
      ("nick", .str (nameOf k)), ("x", .str (padding pad))] ++
    signedBy k [.str "t", .str (postIdOf 't' i), .str "", .str "", .str "", .str (nameOf k), .int 0])

/-- The key `k` deletes the thread `i`. -/
def tombstonePage (i k : Nat) : Page :=
  .object ([("del", .int 1)] ++ signedBy k [.str "del", .str (postIdOf 't' i), .int 0])

def hidePage (i k : Nat) : Page :=
  .object ([("id", .str (postIdOf 't' i))] ++ signedBy k [.str "hide", .str (postIdOf 't' i), .int 0])

def adminPage (k : Nat) : Page :=
  .object ([("v", .int 2)] ++ signedBy k [.str "admin", .str (keyOf k), .int 0])

def threadTopic (i : Nat) : Topic := ["hforum", "t", postIdOf 't' i]

def hideTopic (i : Nat) : Topic := ["hforum", "mod", postIdOf 't' i]

def reportTopic (i : Nat) : Topic := ["hforum", "rep", postIdOf 't' i, "a"]

theorem parse_object (fields : List (String × Scalar)) :
    parse pageEnv (.object fields) = some (.obj (fields.map fun e => (e.1, e.2.json))) := rfl

theorem isEmpty_page (p : Page) : isEmpty p = false := by
  unfold isEmpty
  have hpos : len p ≠ 0 := by
    change String.utf8Len p.text ≠ 0
    cases p with
    | one => decide
    | object fields =>
      rw [Page.text, String.utf8Len_cons]
      exact Nat.ne_of_gt (Nat.add_pos_right _ (by decide))
  exact decide_eq_false hpos

theorem verifies (k : Nat) (fields : Json) :
    pageEnv.verifyFields (keyOf k) fields (sign (keyOf k) fields) = true := by
  simp [pageEnv, keyOf, length_code]

theorem check_claimPage (pol : ForumPolicy) (k pad : Nat) :
    check pageEnv pol (claimTopic (nameOf k)) (claimPage k pad) true = .ok (.claim (nameOf k) (keyOf k)) := by
  change claim pageEnv (nameOf k) (claimPage k pad) = _
  unfold claim
  rw [isName_nameOf, isEmpty_page]
  simp [claimPage, signedBy, parse_object, Json.s, Json.ts, Json.get, Json.asStr, Json.asI64, Scalar.json, Option.filter,
    normalizeName_nameOf, units_nameOf, verifies, Json.maxSafeInteger, pure, Except.pure]

theorem check_threadPage (pol : ForumPolicy) (i k pad : Nat) :
    check pageEnv pol (threadTopic i) (threadPage i k pad) true =
      .ok (.post (postIdOf 't' i) (keyOf k) (nameOf k)) := by
  change post pageEnv 't' (postIdOf 't' i) none (threadPage i k pad) = _
  have hempty : units "" = 0 := by decide
  unfold post
  rw [isPostId_postIdOf, isEmpty_page]
  simp [threadPage, signedBy, parse_object, Json.s, Json.ts, Json.get, Json.asStr, Json.asI64, Scalar.json,
    Option.filter, postFields, hempty, units_nameOf, normalizeName_nameOf, verifies, Json.maxSafeInteger, bind,
    Except.bind, pure, Except.pure]

theorem check_tombstonePage (pol : ForumPolicy) (i k : Nat) :
    check pageEnv pol (threadTopic i) (tombstonePage i k) true = .ok (.tombstone (keyOf k)) := by
  change post pageEnv 't' (postIdOf 't' i) none (tombstonePage i k) = _
  unfold post
  rw [isPostId_postIdOf, isEmpty_page]
  simp [tombstonePage, signedBy, parse_object, Json.s, Json.ts, Json.get, Json.asStr, Json.asI64, Scalar.json,
    Option.filter, verifies, Json.maxSafeInteger, pure, Except.pure]

theorem check_hidePage (pol : ForumPolicy) (i k : Nat) :
    check pageEnv pol (hideTopic i) (hidePage i k) true = .ok (.hide (keyOf k)) := by
  change hide pageEnv (postIdOf 't' i) (hidePage i k) = _
  have hone : pageEnv.isOne (hidePage i k) = false := rfl
  unfold hide
  rw [isPostId_postIdOf, isEmpty_page, hone]
  simp [hidePage, signedBy, parse_object, Json.s, Json.ts, Json.get, Json.asStr, Json.asI64, Scalar.json,
    Option.filter, verifies, Json.maxSafeInteger, pure, Except.pure]

theorem check_adminPage (pol : ForumPolicy) (k : Nat) :
    check pageEnv pol adminTopic (adminPage k) true = .ok (.admin (keyOf k)) := by
  change admin pageEnv (adminPage k) = _
  unfold admin
  rw [isEmpty_page]
  simp [adminPage, signedBy, parse_object, Json.s, Json.ts, Json.get, Json.asStr, Json.asI64, Scalar.json,
    Option.filter, verifies, Json.maxSafeInteger, pure, Except.pure]

theorem check_report (pol : ForumPolicy) (i : Nat) :
    check pageEnv pol (reportTopic i) .one true = .ok .report := by
  change report pageEnv (postIdOf 't' i) "a" .one = _
  unfold report
  rw [if_pos ⟨by decide, by decide, by decide, Or.inl (isPostId_postIdOf 't' i), Or.inr rfl⟩]

/-! ### What is remembered beside them -/

theorem metaFor_claimPage (k pad : Nat) :
    metaFor pageEnv (claimTopic (nameOf k)) (claimPage k pad) = ⟨some (keyOf k), false, none⟩ := rfl

theorem metaFor_threadPage (i k pad : Nat) :
    metaFor pageEnv (threadTopic i) (threadPage i k pad) = ⟨some (keyOf k), false, none⟩ := rfl

theorem metaFor_tombstonePage (i k : Nat) :
    metaFor pageEnv (threadTopic i) (tombstonePage i k) = ⟨some (keyOf k), true, none⟩ := rfl

theorem metaFor_adminPage (k : Nat) : metaFor pageEnv adminTopic (adminPage k) = ⟨some (keyOf k), false, none⟩ := rfl

/-! ### Their lengths -/

@[simp] theorem toList_nameOf (k : Nat) : (nameOf k).toList = code 10 k := String.toList_ofList

@[simp] theorem toList_postIdOf (c : Char) (i : Nat) : (postIdOf c i).toList = c :: code 10 i := String.toList_ofList

@[simp] theorem toList_keyOf (k : Nat) : (keyOf k).toList = code 88 k := String.toList_ofList

@[simp] theorem escape_padding (n : Nat) : (padding n).toList.flatMap escape = List.replicate n 'a' := by
  have hplain : escape 'a' = ['a'] := by decide
  unfold padding
  rw [String.toList_ofList]
  induction n with
  | zero => rfl
  | succ n ih =>
    rw [List.replicate_succ, List.flatMap_cons, ih, hplain]
    rfl

@[simp] theorem utf8Len_replicate (n : Nat) : String.utf8Len (List.replicate n 'a') = n := by
  induction n with
  | zero => rfl
  | succ n ih =>
    rw [List.replicate_succ, String.utf8Len_cons, ih]
    rfl

@[simp] theorem repr_zero : Int.repr 0 = "0" := by decide

@[simp] theorem repr_two : Int.repr 2 = "2" := by decide

@[simp] theorem repr_one : Int.repr 1 = "1" := by decide

theorem len_claimPage (k pad : Nat) : len (claimPage k pad) = 371 + pad := by
  change String.utf8Len (claimPage k pad).text = _
  simp [claimPage, signedBy, Page.text, withCommas, fieldText, Scalar.text, sign, signedText, scalarText, escape,
    Char.utf8Size]
  omega

theorem len_threadPage (i k pad : Nat) : len (threadPage i k pad) = 333 + pad := by
  change String.utf8Len (threadPage i k pad).text = _
  simp [threadPage, signedBy, Page.text, withCommas, fieldText, Scalar.text, sign, signedText, scalarText, escape,
    Char.utf8Size]
  omega

theorem len_tombstonePage (i k : Nat) : len (tombstonePage i k) = 237 := by
  change String.utf8Len (tombstonePage i k).text = _
  simp [tombstonePage, signedBy, Page.text, withCommas, fieldText, Scalar.text, sign, signedText, scalarText, escape,
    Char.utf8Size]

theorem len_hidePage (i k : Nat) : len (hidePage i k) = 249 := by
  change String.utf8Len (hidePage i k).text = _
  simp [hidePage, signedBy, Page.text, withCommas, fieldText, Scalar.text, sign, signedText, scalarText, escape,
    Char.utf8Size]

theorem len_adminPage (k : Nat) : len (adminPage k) = 314 := by
  change String.utf8Len (adminPage k).text = _
  simp [adminPage, signedBy, Page.text, withCommas, fieldText, Scalar.text, sign, signedText, scalarText, escape,
    Char.utf8Size]

/-! ### Their topics -/

theorem allowed_of {kind : String} {rest : List String} (hlen : textLen ("hforum" :: kind :: rest) ≤ maxTopicBytes)
    (hplain : (kind :: rest).any (hasAny ['#', '+', '\x00']) = false) :
    allowedTopic ("hforum" :: kind :: rest) = true := by
  have hfirst : hasAny ['#', '+', '\x00'] "hforum" = false := by decide
  have hpos : textLen ("hforum" :: kind :: rest) ≠ 0 := by
    unfold textLen
    simp only [List.map_cons, List.sum_cons]
    have hsix : "hforum".utf8ByteSize = 6 := by decide
    omega
  unfold allowedTopic
  rw [List.any_cons, hfirst, Bool.false_or, hplain]
  simp [hpos, hlen, allowedPrefixes]

theorem hasAny_code {cs : List Char} (hcs : ∀ d < 32, digit d ∉ cs) (w i : Nat) :
    (code w i).any (· ∈ cs) = false := by
  rw [List.any_eq_false]
  intro c hc
  obtain ⟨d, hd, rfl⟩ := digit_of_mem_code hc
  simpa using hcs d hd

theorem hasAny_nameOf (k : Nat) : hasAny ['#', '+', '\x00'] (nameOf k) = false := by
  unfold hasAny
  rw [toList_nameOf]
  exact hasAny_code (by decide) 10 k

theorem hasAny_postIdOf (i : Nat) : hasAny ['#', '+', '\x00'] (postIdOf 't' i) = false := by
  unfold hasAny
  rw [toList_postIdOf, List.any_cons, hasAny_code (by decide)]
  decide

theorem utf8ByteSize_nameOf (k : Nat) : (nameOf k).utf8ByteSize = 10 := by
  unfold nameOf
  rw [String.utf8ByteSize_ofList, utf8Len_code]

theorem utf8ByteSize_postIdOf (i : Nat) : (postIdOf 't' i).utf8ByteSize = 11 := by
  unfold postIdOf
  rw [String.utf8ByteSize_ofList, String.utf8Len_cons, utf8Len_code]
  decide

theorem allowed_claimTopic (k : Nat) : allowedTopic (claimTopic (nameOf k)) = true := by
  apply allowed_of
  · simp [textLen, utf8ByteSize_nameOf, maxTopicBytes]
    decide
  · simp [hasAny_nameOf]
    decide

theorem allowed_threadTopic (i : Nat) : allowedTopic (threadTopic i) = true := by
  apply allowed_of
  · simp [textLen, utf8ByteSize_postIdOf, maxTopicBytes]
    decide
  · simp [hasAny_postIdOf]
    decide

theorem allowed_hideTopic (i : Nat) : allowedTopic (hideTopic i) = true := by
  apply allowed_of
  · simp [textLen, utf8ByteSize_postIdOf, maxTopicBytes]
    decide
  · simp [hasAny_postIdOf]
    decide

theorem allowed_reportTopic (i : Nat) : allowedTopic (reportTopic i) = true := by
  apply allowed_of
  · simp [textLen, utf8ByteSize_postIdOf, maxTopicBytes]
    decide
  · simp [hasAny_postIdOf]
    decide

/-! ### What is admitted without a registrar -/

def noKeys : ForumPolicy := ⟨none, none⟩

section

variable {ps : List (Topic × Page)} (h : (ps.map Prod.fst).Nodup)
include h

theorem metaOf_fill_new {topic : Topic} (hnew : topic ∉ ps.map Prod.fst) :
    (fill pageEnv ps).metaOf topic = none := by
  rw [metaOf_eq_none, Option.eq_none_iff_forall_ne_some]
  intro e he
  obtain ⟨p, hp, rfl, -⟩ := (get?_fill h).1 he
  exact hnew (List.mem_map_of_mem hp)

theorem keptKey_fill_new {topic : Topic} (hnew : topic ∉ ps.map Prod.fst) : keptKey (fill pageEnv ps) topic = none := by
  unfold keptKey
  rw [metaOf_fill_new h hnew]
  rfl

theorem admits_claim {k : Nat} (hnew : claimTopic (nameOf k) ∉ ps.map Prod.fst)
    (hcount : ps.countP (fun p => topicClass p.1 = ["hforum", "u"]) < maxClaims)
    (hkey : ∀ p ∈ ps, topicClass p.1 = ["hforum", "u"] → (metaFor pageEnv p.1 p.2).pk ≠ some (keyOf k)) :
    Admits pageEnv noKeys true (fill pageEnv ps) (claimTopic (nameOf k)) (.claim (nameOf k) (keyOf k)) := by
  refine Or.inr ⟨rfl, Or.inr ⟨keptKey_fill_new h hnew, ?_, ?_, rfl⟩⟩
  · rw [count_fill h]
    exact hcount
  · rw [claimsOf_fill h, List.countP_eq_zero]
    intro p hp hpk
    simp only [Bool.and_eq_true, decide_eq_true_eq] at hpk
    exact hkey p hp hpk.1 hpk.2

theorem admits_thread {i k pad : Nat} (hnew : ∀ p ∈ ps, postId p.1 ≠ some (postIdOf 't' i))
    (hcount : ps.countP (fun p => topicClass p.1 = ["hforum", "t"]) +
      ps.countP (fun p => topicClass p.1 = ["hforum", "r"]) < maxPosts)
    (hname : (claimTopic (nameOf k), claimPage k pad) ∈ ps) :
    Admits pageEnv noKeys true (fill pageEnv ps) (threadTopic i) (.post (postIdOf 't' i) (keyOf k) (nameOf k)) := by
  have htopic : threadTopic i ∉ ps.map Prod.fst := by
    intro hmem
    obtain ⟨p, hp, hpt⟩ := List.mem_map.1 hmem
    exact hnew p hp (by rw [hpt]; rfl)
  have hmeta := metaOf_fill_new h htopic
  refine ⟨fun m hm => ?_, fun owner ho => ?_, fun other ho => ?_, fun _ => ?_, ?_⟩
  · rw [hmeta] at hm
    cases hm
  · rw [keptKey_fill_new h htopic] at ho
    cases ho
  · obtain ⟨hcontains, hid⟩ := (exact_fill ps).topicOfId _ _ ho
    obtain ⟨e, he⟩ := Retained.contains_iff.1 hcontains
    obtain ⟨p, hp, rfl, -⟩ := (get?_fill h).1 he
    exact absurd hid (hnew p hp)
  · rw [count_fill h, count_fill h]
    exact hcount
  · have hkey : keptKey (fill pageEnv ps) (claimTopic (nameOf k)) =
        (metaFor pageEnv (claimTopic (nameOf k)) (claimPage k pad)).pk := keptKey_fill h hname
    rw [metaFor_claimPage] at hkey
    exact hkey

theorem admits_hide {i k : Nat} (hadmin : (adminTopic, adminPage k) ∈ ps)
    (hcount : ps.countP (fun p => topicClass p.1 = ["hforum", "mod"]) < maxHides) :
    Admits pageEnv noKeys true (fill pageEnv ps) (hideTopic i) (.hide (keyOf k)) := by
  refine ⟨?_, fun _ => ?_⟩
  · have hkey : keptKey (fill pageEnv ps) adminTopic = (metaFor pageEnv adminTopic (adminPage k)).pk :=
      keptKey_fill h hadmin
    rw [metaFor_adminPage] at hkey
    exact hkey
  · rw [count_fill h]
    exact hcount

theorem admits_report {i : Nat} (hcount : ps.countP (fun p => topicClass p.1 = ["hforum", "rep"]) < maxReports) :
    Admits pageEnv noKeys true (fill pageEnv ps) (reportTopic i) .report := by
  intro _
  rw [count_fill h]
  exact hcount

end

/-! ### Families -/

def nameAt (start pad i : Nat) : Topic × Page := (claimTopic (nameOf (start + i)), claimPage (start + i) pad)

/-- Threads of which each key opens `d`. -/
def threadAt (d pad i : Nat) : Topic × Page := (threadTopic i, threadPage i (i / d) pad)

def hideAt (k i : Nat) : Topic × Page := (hideTopic i, hidePage i k)

def reportAt (i : Nat) : Topic × Page := (reportTopic i, .one)

theorem class_nameAt (start pad i : Nat) : topicClass (nameAt start pad i).1 = ["hforum", "u"] := rfl

theorem class_threadAt (d pad i : Nat) : topicClass (threadAt d pad i).1 = ["hforum", "t"] := rfl

theorem class_hideAt (k i : Nat) : topicClass (hideAt k i).1 = ["hforum", "mod"] := rfl

theorem class_reportAt (i : Nat) : topicClass (reportAt i).1 = ["hforum", "rep"] := rfl

theorem byteLimitFor_of_class {topic c : Topic} (h : topicClass topic = c) (hc : topicClass c = c) :
    byteLimitFor topic = byteLimitFor c := by
  unfold byteLimitFor
  rw [h, hc]

section

variable {base : List (Topic × Page)} {bytes author start pad d k n : Nat}

private theorem nodup_before {qs rest : List (Topic × Page)} {p : Topic × Page}
    (h : ((base ++ (qs ++ p :: rest)).map Prod.fst).Nodup) :
    ((base ++ qs).map Prod.fst).Nodup ∧ p.1 ∉ (base ++ qs).map Prod.fst := by
  rw [← List.append_assoc, List.map_append, List.map_cons, List.nodup_append] at h
  exact ⟨h.1, fun hmem => h.2.2 _ hmem _ List.mem_cons_self rfl⟩

/-- A family of pages of one class fits when each of them is admitted after those before it. -/
private theorem fits_family {g : Nat → Topic × Page} {c : Topic} (hclass : ∀ i, topicClass (g i).1 = c)
    (hc : topicClass c = c) (h : Budget pageEnv (base ++ family g n) bytes author)
    (hmessages : (base ++ family g n).length ≤ maxRetainedMessages) (hauthor : author ≤ maxBytesPerAuthor)
    (hbytes : bytes ≤ byteLimitFor c) (hallowed : ∀ i, allowedTopic (g i).1 = true ∧ len (g i).2 ≤ payloadLimit (g i).1)
    (hadmits : ∀ m < n, ((base ++ family g m).map Prod.fst).Nodup → (g m).1 ∉ (base ++ family g m).map Prod.fst →
      ∃ fact, check pageEnv noKeys (g m).1 (g m).2 true = .ok fact ∧
        Admits pageEnv noKeys true (fill pageEnv (base ++ family g m)) (g m).1 fact) :
    Fits pageEnv noKeys base (family g n) := by
  refine h.fits hmessages hauthor (fun p hp => ?_) (fun p hp => ?_) fun qs p rest hsplit => ?_
  · obtain ⟨i, hi, rfl⟩ := mem_family.1 hp
    rw [byteLimitFor_of_class (hclass i) hc]
    exact hbytes
  · obtain ⟨i, hi, rfl⟩ := mem_family.1 hp
    exact ⟨(hallowed i).1, (hallowed i).2, isEmpty_page _⟩
  · have hnodup := h.nodup
    rw [hsplit] at hnodup
    obtain ⟨hbefore, hnew⟩ := nodup_before hnodup
    obtain ⟨hlt, hqs, rfl⟩ := family_split hsplit
    obtain ⟨m, hm⟩ : ∃ m, m = qs.length := ⟨_, rfl⟩
    rw [← hm] at hlt hqs hnew ⊢
    subst hqs
    exact hadmits m hlt hbefore hnew

theorem fits_names (h : Budget pageEnv (base ++ family (nameAt start pad) n) bytes author)
    (hmessages : (base ++ family (nameAt start pad) n).length ≤ maxRetainedMessages)
    (hauthor : author ≤ maxBytesPerAuthor) (hbytes : bytes ≤ maxRetainedBytes - retainedReserveBytes)
    (hstart : start + n ≤ 32 ^ 10) (hpad : 371 + pad ≤ maxPayload)
    (hcount : base.countP (fun p => topicClass p.1 = ["hforum", "u"]) + n ≤ maxClaims)
    (hkey : ∀ p ∈ base, topicClass p.1 = ["hforum", "u"] →
      ∃ j < start, (metaFor pageEnv p.1 p.2).pk = some (keyOf j)) :
    Fits pageEnv noKeys base (family (nameAt start pad) n) := by
  refine fits_family (class_nameAt start pad) rfl h hmessages hauthor hbytes (fun i => ⟨allowed_claimTopic _, ?_⟩)
    fun m hlt hbefore hnew => ⟨_, check_claimPage noKeys _ pad, admits_claim hbefore hnew ?_ fun q hq hclass => ?_⟩
  · change len (claimPage (start + i) pad) ≤ maxPayload
    rw [len_claimPage]
    exact hpad
  · rw [List.countP_append, countP_family (class_nameAt start pad), if_pos rfl]
    omega
  · rcases List.mem_append.1 hq with hq | hq
    · obtain ⟨j, hj, hpk⟩ := hkey q hq hclass
      rw [hpk]
      intro heq
      have hj' := keyOf_inj (by omega) (by omega) (Option.some.inj heq)
      omega
    · obtain ⟨j, hj, rfl⟩ := mem_family.1 hq
      intro heq
      have hj' := keyOf_inj (i := start + j) (j := start + m) (by omega) (by omega) (Option.some.inj heq)
      omega

theorem fits_threads (h : Budget pageEnv (base ++ family (threadAt d pad) n) bytes author)
    (hmessages : (base ++ family (threadAt d pad) n).length ≤ maxRetainedMessages)
    (hauthor : author ≤ maxBytesPerAuthor) (hbytes : bytes ≤ maxRetainedBytes - 2 * retainedReserveBytes)
    (hn : n ≤ maxPosts) (hpad : 333 + pad ≤ maxPayload)
    (hcount : base.countP (fun p => topicClass p.1 = ["hforum", "t"]) +
      base.countP (fun p => topicClass p.1 = ["hforum", "r"]) = 0)
    (hnames : ∀ i < n, nameAt 0 0 (i / d) ∈ base) : Fits pageEnv noKeys base (family (threadAt d pad) n) := by
  have hposts : n ≤ 32 ^ 10 := hn.trans (by decide)
  refine fits_family (class_threadAt d pad) rfl h hmessages hauthor hbytes (fun i => ⟨allowed_threadTopic i, ?_⟩)
    fun m hlt hbefore _ => ?_
  · change len (threadPage i (i / d) pad) ≤ maxPayload
    rw [len_threadPage]
    exact hpad
  · have hname := List.mem_append_left (family (threadAt d pad) m) (hnames m hlt)
    unfold nameAt at hname
    rw [Nat.zero_add] at hname
    refine ⟨_, check_threadPage noKeys _ _ pad, admits_thread hbefore (fun q hq hid => ?_) ?_ hname⟩
    · rcases List.mem_append.1 hq with hq | hq
      · rcases postId_cases hid with htopic | ⟨tid, htopic⟩
        · have hpos : 0 < base.countP fun p => topicClass p.1 = ["hforum", "t"] :=
            List.countP_pos_iff.2 ⟨q, hq, by rw [htopic]; rfl⟩
          omega
        · have hpos : 0 < base.countP fun p => topicClass p.1 = ["hforum", "r"] :=
            List.countP_pos_iff.2 ⟨q, hq, by rw [htopic]; rfl⟩
          omega
      · obtain ⟨j, hj, rfl⟩ := mem_family.1 hq
        have hj' := postIdOf_inj (by omega) (by omega) (Option.some.inj hid)
        omega
    · rw [List.countP_append, List.countP_append, countP_family (class_threadAt d pad),
        countP_family (class_threadAt d pad), if_pos rfl, if_neg (by decide)]
      omega

theorem fits_reports (h : Budget pageEnv (base ++ family reportAt n) bytes author)
    (hmessages : (base ++ family reportAt n).length ≤ maxRetainedMessages)
    (hauthor : author ≤ maxBytesPerAuthor) (hbytes : bytes ≤ maxRetainedBytes - 2 * retainedReserveBytes)
    (hcount : base.countP (fun p => topicClass p.1 = ["hforum", "rep"]) + n ≤ maxReports) :
    Fits pageEnv noKeys base (family reportAt n) := by
  refine fits_family class_reportAt rfl h hmessages hauthor hbytes
    (fun i => ⟨allowed_reportTopic i, (by decide : len Page.one ≤ maxPayload)⟩)
    fun m hlt hbefore _ => ⟨_, check_report noKeys _, admits_report hbefore ?_⟩
  rw [List.countP_append, countP_family class_reportAt, if_pos rfl]
  omega

theorem fits_hides (h : Budget pageEnv (base ++ family (hideAt k) n) bytes author)
    (hmessages : (base ++ family (hideAt k) n).length ≤ maxRetainedMessages)
    (hauthor : author ≤ maxBytesPerAuthor) (hbytes : bytes ≤ maxRetainedBytes)
    (hcount : base.countP (fun p => topicClass p.1 = ["hforum", "mod"]) + n ≤ maxHides)
    (hadmin : (adminTopic, adminPage k) ∈ base) : Fits pageEnv noKeys base (family (hideAt k) n) := by
  refine fits_family (class_hideAt k) rfl h hmessages hauthor hbytes (fun i => ⟨allowed_hideTopic i, ?_⟩)
    fun m hlt hbefore _ => ⟨_, check_hidePage noKeys _ k, admits_hide hbefore (List.mem_append_left _ hadmin) ?_⟩
  · change len (hidePage i k) ≤ maxPayload
    rw [len_hidePage]
    decide
  · rw [List.countP_append, countP_family (class_hideAt k), if_pos rfl]
    omega

theorem fits_admin (k : Nat) : Fits pageEnv noKeys [] [(adminTopic, adminPage k)] := by
  have hlen := len_adminPage k
  refine ⟨by simp, ?_, fun p hp => ?_, fun pk => ?_, fun p hp => ?_, fun qs p rest hsplit => ?_⟩
  · rw [List.nil_append, List.length_singleton]
    decide
  · rw [List.mem_singleton.1 hp]
    simp only [List.nil_append, List.map_cons, List.map_nil, List.sum_cons, List.sum_nil, hlen]
    decide
  · rw [List.nil_append, Lists.tally_singleton]
    split
    · rw [hlen]
      decide
    · exact Nat.zero_le _
  · rw [List.mem_singleton.1 hp]
    refine ⟨(by decide : allowedTopic adminTopic = true), ?_, isEmpty_page _⟩
    rw [hlen]
    exact (by decide : 314 ≤ payloadLimit adminTopic)
  · have hqs : qs = [] := by
      have hlength := congrArg List.length hsplit
      simp only [List.length_nil, List.length_append, List.length_cons] at hlength
      exact List.eq_nil_of_length_eq_zero (by omega)
    subst hqs
    cases hsplit
    exact ⟨_, check_adminPage noKeys k, Or.inr ⟨rfl, fun owner ho => by cases ho⟩⟩

/-! ### What the families take -/

theorem budget_names (h : Budget pageEnv base bytes author)
    (hnew : ∀ p ∈ base, ∀ i < n, p.1 ≠ (nameAt start pad i).1) (hstart : start + n ≤ 32 ^ 10) :
    Budget pageEnv (base ++ family (nameAt start pad) n) (bytes + n * (371 + pad)) (author + 1 * (371 + pad)) := by
  refine h.append_family Nat.one_pos hnew (fun i hi j hj htopic => ?_) (fun i _ => len_claimPage _ pad)
    fun i hi j hj pk hpk hpk' => ?_
  · simp only [nameAt, claimTopic, List.cons.injEq, and_true, true_and] at htopic
    have hsame := nameOf_inj (by omega) (by omega) htopic
    omega
  · rw [nameAt, metaFor_claimPage] at hpk hpk'
    have hsame := keyOf_inj (by omega) (by omega) (Option.some.inj (hpk.trans hpk'.symm))
    rw [Nat.div_one, Nat.div_one]
    omega

theorem budget_threads (h : Budget pageEnv base bytes author)
    (hnew : base.countP (fun p => topicClass p.1 = ["hforum", "t"]) = 0) (hd : 0 < d) (hn : n ≤ 32 ^ 10) :
    Budget pageEnv (base ++ family (threadAt d pad) n) (bytes + n * (333 + pad)) (author + d * (333 + pad)) := by
  refine h.append_family hd (fun p hp i _ => ne_of_class hnew (class_threadAt d pad i) p hp)
    (fun i hi j hj htopic => ?_) (fun i _ => len_threadPage i _ pad) fun i hi j hj pk hpk hpk' => ?_
  · simp only [threadAt, threadTopic, List.cons.injEq, and_true, true_and] at htopic
    exact postIdOf_inj (by omega) (by omega) htopic
  · rw [threadAt, metaFor_threadPage] at hpk hpk'
    have hi' := Nat.div_le_self i d
    have hj' := Nat.div_le_self j d
    exact keyOf_inj (by omega) (by omega) (Option.some.inj (hpk.trans hpk'.symm))

theorem budget_reports (h : Budget pageEnv base bytes author)
    (hnew : base.countP (fun p => topicClass p.1 = ["hforum", "rep"]) = 0) (hn : n ≤ 32 ^ 10) :
    Budget pageEnv (base ++ family reportAt n) (bytes + n * 1) (author + 1 * 1) := by
  refine h.append_family Nat.one_pos (fun p hp i _ => ne_of_class hnew (class_reportAt i) p hp)
    (fun i hi j hj htopic => ?_) (fun i _ => (by decide : len Page.one = 1)) fun i hi j hj pk hpk hpk' => ?_
  · simp only [reportAt, reportTopic, List.cons.injEq, and_true, true_and] at htopic
    exact postIdOf_inj (by omega) (by omega) htopic
  · cases hpk

theorem budget_hides (h : Budget pageEnv base bytes author)
    (hnew : base.countP (fun p => topicClass p.1 = ["hforum", "mod"]) = 0) (hpos : 0 < n) (hn : n ≤ 32 ^ 10) :
    Budget pageEnv (base ++ family (hideAt k) n) (bytes + n * 249) (author + n * 249) := by
  refine h.append_family hpos (fun p hp i _ => ne_of_class hnew (class_hideAt k i) p hp)
    (fun i hi j hj htopic => ?_) (fun i _ => len_hidePage i k) fun i hi j hj pk hpk hpk' => ?_
  · simp only [hideAt, hideTopic, List.cons.injEq, and_true, true_and] at htopic
    exact postIdOf_inj (by omega) (by omega) htopic
  · rw [Nat.div_eq_of_lt hi, Nat.div_eq_of_lt hj]

end

end HidraNet.Hidrarelay
