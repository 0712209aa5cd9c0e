import HidraNet.Core.Pass
import HidraNet.Lib.Base64
import HidraNet.Lib.Json
import HidraNet.Lib.Maps
import HidraNet.Lib.Runs

/-!
# The chat's envelopes

What a page sends over the relay is encrypted under the room's key and signed with a key that the session made for
itself; a session's id is its key's hash.  A page that opens an envelope remembers which key each id spoke with
(`TrustStore`) and the last nonces of each (`ReplayGuard`).

Two things break the law that an envelope is shown once and that a refused one leaves nothing.  The nonces remembered
are the last 512 of a session, whatever their age, so one that is older is new again; and the key is bound before the
time and the nonce are looked at.  A run keeps to the law just as long as neither comes up (`InOrder`, `envelopes_run`).
-/

namespace HidraNet.Hidrachat.Page

open HidraNet.Core Json Maps Runs

abbrev Text := List Char

def REPLAY_WINDOW_MS : Nat := 10 * 60 * 1000
def SEEN_PER_SESSION : Nat := 512

/-- The browser's part, for wires `Wire`, with what was signed with each key. -/
structure Crypto (Wire : Type*) where
  decrypt : Wire → Option Text
  /-- `JSON.parse`. -/
  parse : Text → Option Value
  /-- A number as it is written, unless it is too large for one. -/
  toNumber : Text → Option ℚ
  printed : ℚ → Text
  sha256 : List UInt8 → List UInt8
  sha256_length : ∀ bytes, (sha256 bytes).length = 32
  /-- ECDSA under a key, of a text, with the signature in base64. -/
  verify : List UInt8 → Text → Text → Bool
  signed : List UInt8 → Set Text
  signed_of_verify : ∀ key text sig, verify key text sig = true → text ∈ signed key

variable {Wire : Type*} (c : Crypto Wire)

/-! ### Keys and ids -/

/-- `atob` forgives stray bits, but the text is compared with what is written for the bytes. -/
def canonicalPub (pub : Text) : Option (List UInt8) :=
  if pub.length = 88 then (Base64.decode pub).filter fun raw => raw.length = 65 ∧ raw.head? = some 4 else none

def cidFor (raw : List UInt8) : Text := (hexEncode ((c.sha256 raw).take 8)).toList

/-! ### Messages -/

/-- A message has its fields' types right; the fields that are not looked at are as they came. -/
structure Message where
  k : Text
  cid : Text
  pk : Text
  sig : Text
  n : Text
  t : Text
  body : Value

def readMessage (v : Value) : Option Message := do
  let k ← (v.get "k").bind Value.asStr
  let cid ← (v.get "cid").bind Value.asStr
  let pk ← (v.get "pk").bind Value.asStr
  let sig ← (v.get "sig").bind Value.asStr
  let n ← (v.get "n").bind Value.asStr
  match v.get "t" with
  | some (.number t) => some ⟨k, cid, pk, sig, n, t, v⟩
  | _ => none

def truthy : Value → Bool
  | .null => false
  | .bool b => b
  | .number t => c.toNumber t ≠ some 0
  | .string s => s ≠ []
  | .array _ | .object _ => true

/-- `String(number)`. -/
def numberText (t : Text) : Text :=
  match c.toNumber t with
  | some q => c.printed q
  | none => (if t.head? = some '-' then "-Infinity" else "Infinity").toList

mutual

/-- `String(v)`, unless it throws: an object with a `toString` of its own has none that can be called. -/
def string : Value → Option Text
  | .null => some "null".toList
  | .bool b => some (Json.bool b)
  | .number t => some (numberText c t)
  | .string s => some s
  | .array items => (strings items).map [','].intercalate
  | .object fields => if fields.any (·.1 = "toString".toList) then none else some "[object Object]".toList

/-- The items of an array that is joined: `null` is written as nothing. -/
def strings : List Value → Option (List Text)
  | [] => some []
  | .null :: items => (strings items).map ([] :: ·)
  | v :: items => do return (← string v) :: (← strings items)

end

/-- `String(o[name] || '')`. -/
def Message.text (m : Message) (name : String) : Option Text :=
  match m.body.get name with
  | some v => if truthy c v then string c v else some []
  | none => some []

/-- What a signature covers. -/
def canonical (m : Message) : Option Text := do
  let nick ← m.text c "nick"
  let color ← m.text c "color"
  let text ← m.text c "text"
  let t := match c.toNumber m.t with
    | some q => c.printed q
    | none => "null".toList
  let state := match m.body.get "state" with
    | some (.bool b) => b
    | _ => false
  return Json.array [quoted m.k, quoted m.cid, quoted nick, quoted color, quoted text, t, quoted m.n, Json.bool state]

def verify (raw : List UInt8) (m : Message) : Bool := (canonical c m).any fun text => c.verify raw text m.sig

/-! ### What a page remembers -/

/-- Which key each session id spoke with first. -/
structure TrustStore where
  keys : Map Text Text

def TrustStore.bind (trust : TrustStore) (cid pub : Text) : Bool × TrustStore :=
  if cid = [] ∨ pub = [] then (false, trust)
  else match trust.keys.get? cid with
    | none => (true, ⟨trust.keys.set cid pub⟩)
    | some key => (key = pub, trust)

structure ReplayGuard where
  window : Nat
  seen : Map Text (List Text)

def InWindow (window now : Nat) (t : Option ℚ) : Prop := ∃ q, t = some q ∧ |(now : ℚ) - q| ≤ window

instance (window now : Nat) (t : Option ℚ) : Decidable (InWindow window now t) :=
  match t with
  | none => isFalse fun ⟨_, h, _⟩ => nomatch h
  | some q => decidable_of_iff (|(now : ℚ) - q| ≤ window)
      ⟨fun h => ⟨q, rfl, h⟩, fun ⟨_, hq, h⟩ => Option.some.inj hq ▸ h⟩

def push (list : List Text) (nonce : Text) : List Text :=
  let list := list ++ [nonce]
  if SEEN_PER_SESSION < list.length then list.drop (list.length - SEEN_PER_SESSION) else list

/-- The ids are hex digits, so that none is a name that every object has. -/
def ReplayGuard.accept (guard : ReplayGuard) (now : Nat) (cid nonce : Text) (t : Option ℚ) : Bool × ReplayGuard :=
  if cid = [] ∨ nonce = [] then (false, guard)
  else if ¬ InWindow guard.window now t then (false, guard)
  else
    let list := (guard.seen.get? cid).getD []
    if nonce ∈ list then (false, guard)
    else (true, { guard with seen := guard.seen.set cid (push list nonce) })

/-! ### Opening -/

inductive Reason where
  | foreign
  | malformed
  | identity
  | signature
  | replay
deriving DecidableEq

inductive Result where
  | ok (m : Message)
  | refused (reason : Reason)

structure Memory where
  trust : TrustStore
  guard : ReplayGuard

/-- `open`. -/
def openWire (mem : Memory) (now : Nat) (wire : Wire) : Result × Memory :=
  match c.decrypt wire with
  | none => (.refused .foreign, mem)
  | some plain =>
    match (c.parse plain).bind readMessage with
    | none => (.refused .malformed, mem)
    | some m =>
      match canonicalPub m.pk with
      | none => (.refused .identity, mem)
      | some raw =>
        if m.cid ≠ cidFor c raw then (.refused .identity, mem)
        else if ¬ verify c raw m then (.refused .signature, mem)
        else
          let bound := mem.trust.bind m.cid m.pk
          if ¬ bound.1 then (.refused .identity, { mem with trust := bound.2 })
          else
            let accepted := mem.guard.accept now m.cid m.n (c.toNumber m.t)
            if accepted.1 then (.ok m, ⟨bound.2, accepted.2⟩) else (.refused .replay, ⟨bound.2, accepted.2⟩)

/-! ### A page, wire after wire -/

/-- A page, and the session and nonce of every message it was ever shown, the last at the end. -/
structure World extends Memory where
  clock : Nat
  accepted : List (Text × Text)

def start (window : Nat) : World := ⟨⟨⟨.empty⟩, ⟨window, .empty⟩⟩, 0, []⟩

abbrev Input (Wire : Type*) := Nat × Wire

def World.opening (w : World) (i : Input Wire) : Result × Memory := openWire c w.toMemory (w.clock + i.1) i.2

def World.step (w : World) (i : Input Wire) : World :=
  let opening := w.opening c i
  { toMemory := opening.2
    clock := w.clock + i.1
    accepted := match opening.1 with
      | .ok m => w.accepted ++ [(m.cid, m.n)]
      | .refused _ => w.accepted }

def World.nonces (w : World) (cid : Text) : List Text := (w.accepted.filter (·.1 = cid)).map Prod.snd

/-! ### What is to hold -/

def Signed (m : Message) : Prop :=
  ∃ raw text, canonicalPub m.pk = some raw ∧ m.cid = cidFor c raw ∧ canonical c m = some text ∧ text ∈ c.signed raw

structure Holds (w : World) (i : Input Wire) : Prop where
  once : ∀ m, (w.opening c i).1 = .ok m → (m.cid, m.n) ∉ w.accepted
  signed : ∀ m, (w.opening c i).1 = .ok m → Signed c m ∧ InWindow w.guard.window (w.clock + i.1) (c.toNumber m.t)
  clean : ∀ reason, (w.opening c i).1 = .refused reason → (w.opening c i).2 = w.toMemory

def carried (wire : Wire) : Option Message := do
  let plain ← c.decrypt wire
  let m ← (c.parse plain).bind readMessage
  let raw ← canonicalPub m.pk
  if m.cid = cidFor c raw ∧ verify c raw m then some m else none

/-- The first message of a session has a nonce and is not out of the window, and no message of a session is given again
within the window when 512 others of that session were accepted since. -/
def InOrder (w : World) (i : Input Wire) : Prop :=
  ∀ m, carried c i.2 = some m →
    match w.trust.keys.get? m.cid with
    | none => m.n ≠ [] ∧ InWindow w.guard.window (w.clock + i.1) (c.toNumber m.t)
    | some pub => pub = m.pk → InWindow w.guard.window (w.clock + i.1) (c.toNumber m.t) → m.n ∈ w.nonces m.cid →
        m.n ∈ (w.nonces m.cid).rtake SEEN_PER_SESSION

/-! ### What the page keeps -/

variable {c} {w : World} {i : Input Wire} {m : Message}

theorem rtake_rtake_concat {α : Type*} (n : Nat) (l : List α) (x : α) : (l.rtake n ++ [x]).rtake n = (l ++ [x]).rtake n := by
  cases n with
  | zero => rw [List.rtake_zero, List.rtake_zero]
  | succ n =>
    rw [List.rtake_concat_succ, List.rtake_concat_succ, List.append_left_inj, List.rtake_eq_reverse_take_reverse,
      List.rtake_eq_reverse_take_reverse, List.rtake_eq_reverse_take_reverse, List.reverse_reverse, List.take_take,
      Nat.min_eq_left (Nat.le_succ n)]

theorem push_rtake (l : List Text) (nonce : Text) :
    push (l.rtake SEEN_PER_SESSION) nonce = (l ++ [nonce]).rtake SEEN_PER_SESSION := by
  rw [← rtake_rtake_concat]
  generalize l.rtake SEEN_PER_SESSION = list
  unfold push List.rtake
  dsimp only
  split_ifs with hlength
  · rfl
  · rw [Nat.sub_eq_zero_of_le (by omega), List.drop_zero]

theorem cidFor_ne_nil (raw : List UInt8) : cidFor c raw ≠ [] := by
  intro h
  have hbytes : ((c.sha256 raw).take 8).length = 8 := by
    rw [List.length_take, c.sha256_length]
    rfl
  unfold cidFor hexEncode at h
  rw [String.toList_ofList, List.flatMap_eq_nil_iff] at h
  cases htake : (c.sha256 raw).take 8 with
  | nil => simp [htake] at hbytes
  | cons b rest =>
    have hnil := h b (by simp [htake])
    cases hnil

theorem ne_nil_of_canonicalPub {pub : Text} {raw : List UInt8} (h : canonicalPub pub = some raw) : pub ≠ [] := by
  rintro rfl
  cases h

theorem carried_iff {wire : Wire} : carried c wire = some m ↔
    ∃ plain raw, c.decrypt wire = some plain ∧ (c.parse plain).bind readMessage = some m ∧
      canonicalPub m.pk = some raw ∧ m.cid = cidFor c raw ∧ verify c raw m := by
  unfold carried
  simp only [bind, Option.bind_eq_some_iff, Option.ite_none_right_eq_some, Option.some.injEq]
  constructor
  · rintro ⟨plain, hplain, m', hm', raw, hraw, ⟨hcid, hverify⟩, rfl⟩
    exact ⟨plain, raw, hplain, hm', hraw, hcid, hverify⟩
  · rintro ⟨plain, raw, hplain, hm, hraw, hcid, hverify⟩
    exact ⟨plain, hplain, m, hm, raw, hraw, ⟨hcid, hverify⟩, rfl⟩

theorem signed_of_carried {wire : Wire} (h : carried c wire = some m) : Signed c m := by
  obtain ⟨-, raw, -, -, hraw, hcid, hverify⟩ := carried_iff.1 h
  obtain ⟨text, htext, hholds⟩ := Option.any_eq_true _ _ |>.1 hverify
  exact ⟨raw, text, hraw, hcid, htext, c.signed_of_verify _ _ _ hholds⟩

theorem openWire_silent (mem : Memory) (now : Nat) {wire : Wire} (h : carried c wire = none) :
    ∃ reason, openWire c mem now wire = (.refused reason, mem) := by
  unfold openWire
  split
  · exact ⟨_, rfl⟩
  · rename_i plain hplain
    split
    · exact ⟨_, rfl⟩
    · rename_i m hm
      split
      · exact ⟨_, rfl⟩
      · rename_i raw hraw
        by_cases hcid : m.cid = cidFor c raw
        · by_cases hverify : verify c raw m
          · have hcarried := carried_iff.2 ⟨plain, raw, hplain, hm, hraw, hcid, hverify⟩
            rw [h] at hcarried
            cases hcarried
          · rw [if_neg (not_not.2 hcid), if_pos hverify]
            exact ⟨_, rfl⟩
        · rw [if_pos hcid]
          exact ⟨_, rfl⟩

theorem openWire_carried {mem : Memory} {now : Nat} {wire : Wire} (h : carried c wire = some m) :
    openWire c mem now wire =
      let bound := mem.trust.bind m.cid m.pk
      if ¬ bound.1 then (.refused .identity, { mem with trust := bound.2 })
      else
        let accepted := mem.guard.accept now m.cid m.n (c.toNumber m.t)
        if accepted.1 then (.ok m, ⟨bound.2, accepted.2⟩) else (.refused .replay, ⟨bound.2, accepted.2⟩) := by
  obtain ⟨plain, raw, hplain, hm, hraw, hcid, hverify⟩ := carried_iff.1 h
  unfold openWire
  simp only [hplain, hm, hraw, hverify, not_true_eq_false, if_false]
  rw [if_neg (not_not.2 hcid)]

/-- The nonces remembered of a session are the last that were accepted, and its key is bound. -/
structure Kept (w : World) : Prop where
  seen : ∀ cid, (w.guard.seen.get? cid).getD [] = (w.nonces cid).rtake SEEN_PER_SESSION
  bound : ∀ cid, w.trust.keys.get? cid = none → w.nonces cid = []
  named : ∀ cid, [] ∉ w.nonces cid

theorem kept_start (window : Nat) : Kept (start window) := by
  refine ⟨fun cid => ?_, fun _ _ => rfl, fun _ h => nomatch h⟩
  change ((Map.empty : Map Text (List Text)).get? cid).getD [] = List.rtake [] _
  rw [Map.get?_empty, List.rtake_nil]
  rfl

theorem bind_of_unbound {trust : TrustStore} {cid pub : Text} (hcid : cid ≠ []) (hpub : pub ≠ [])
    (h : trust.keys.get? cid = none) : trust.bind cid pub = (true, ⟨trust.keys.set cid pub⟩) := by
  unfold TrustStore.bind
  rw [if_neg (by simp [hcid, hpub]), h]

theorem bind_of_bound {trust : TrustStore} {cid pub key : Text} (hcid : cid ≠ []) (hpub : pub ≠ [])
    (h : trust.keys.get? cid = some key) : trust.bind cid pub = (decide (key = pub), trust) := by
  unfold TrustStore.bind
  rw [if_neg (by simp [hcid, hpub]), h]

theorem accept_new {guard : ReplayGuard} {now : Nat} {cid nonce : Text} {t : Option ℚ} (hcid : cid ≠ [])
    (hnonce : nonce ≠ []) (hwindow : InWindow guard.window now t) (hnew : nonce ∉ (guard.seen.get? cid).getD []) :
    guard.accept now cid nonce t =
      (true, { guard with seen := guard.seen.set cid (push ((guard.seen.get? cid).getD []) nonce) }) := by
  unfold ReplayGuard.accept
  rw [if_neg (by simp [hcid, hnonce]), if_neg (not_not.2 hwindow)]
  exact if_neg hnew

theorem accept_refused {guard : ReplayGuard} {now : Nat} {cid nonce : Text} {t : Option ℚ}
    (h : ¬ (nonce ≠ [] ∧ InWindow guard.window now t ∧ nonce ∉ (guard.seen.get? cid).getD [])) :
    guard.accept now cid nonce t = (false, guard) := by
  unfold ReplayGuard.accept
  split_ifs with hempty hwindow
  · rfl
  · refine if_pos ?_
    by_contra hnew
    exact h ⟨fun hnonce => hempty (.inr hnonce), hwindow, hnew⟩
  · rfl

variable (c) in
def Taken (w : World) (i : Input Wire) (m : Message) : Prop :=
  m.n ≠ [] ∧ InWindow w.guard.window (w.clock + i.1) (c.toNumber m.t) ∧
    m.n ∉ (w.nonces m.cid).rtake SEEN_PER_SESSION

variable (c) in
/-- What comes of a message: it is taken, or refused with nothing left but the key of a session that had none. -/
inductive Opens (w : World) (i : Input Wire) (m : Message) : Result × Memory → Prop where
  | other {key : Text} : w.trust.keys.get? m.cid = some key → key ≠ m.pk → Opens w i m (.refused .identity, w.toMemory)
  | first : w.trust.keys.get? m.cid = none → ¬ Taken c w i m →
      Opens w i m (.refused .replay, { w.toMemory with trust := ⟨w.trust.keys.set m.cid m.pk⟩ })
  | again : w.trust.keys.get? m.cid = some m.pk → ¬ Taken c w i m → Opens w i m (.refused .replay, w.toMemory)
  | taken {trust : TrustStore} : Taken c w i m →
      (w.trust.keys.get? m.cid = none ∧ trust = ⟨w.trust.keys.set m.cid m.pk⟩ ∨
        w.trust.keys.get? m.cid = some m.pk ∧ trust = w.trust) →
      Opens w i m (.ok m, ⟨trust, { w.guard with
        seen := w.guard.seen.set m.cid (push ((w.nonces m.cid).rtake SEEN_PER_SESSION) m.n) }⟩)

theorem Kept.opens (hw : Kept w) (h : carried c i.2 = some m) : Opens c w i m (w.opening c i) := by
  obtain ⟨-, raw, -, -, hraw, hcid, -⟩ := carried_iff.1 h
  have hcid' : m.cid ≠ [] := by
    rw [hcid]
    exact cidFor_ne_nil raw
  have hpk := ne_nil_of_canonicalPub hraw
  have htaken (htaken : Taken c w i m) := accept_new hcid' htaken.1 htaken.2.1 (by rw [hw.seen]; exact htaken.2.2)
  have hrefused (htaken : ¬ Taken c w i m) : w.guard.accept (w.clock + i.1) m.cid m.n (c.toNumber m.t) = (false, w.guard) :=
    accept_refused (by rw [hw.seen]; exact htaken)
  rw [hw.seen] at htaken
  unfold World.opening
  rw [openWire_carried h]
  cases hkey : w.trust.keys.get? m.cid with
  | none =>
    rw [bind_of_unbound hcid' hpk hkey]
    by_cases ht : Taken c w i m
    · rw [htaken ht]
      exact .taken ht (.inl ⟨hkey, rfl⟩)
    · rw [hrefused ht]
      exact .first hkey ht
  | some key =>
    rw [bind_of_bound hcid' hpk hkey]
    by_cases hpub : key = m.pk
    · subst hpub
      by_cases ht : Taken c w i m
      · rw [htaken ht, decide_eq_true rfl]
        exact .taken ht (.inr ⟨hkey, rfl⟩)
      · rw [hrefused ht, decide_eq_true rfl]
        exact .again hkey ht
    · rw [decide_eq_false hpub]
      exact .other hkey hpub

/-! ### Runs -/

theorem step_refused {reason : Reason} {mem : Memory} (h : w.opening c i = (.refused reason, mem)) :
    w.step c i = ⟨mem, w.clock + i.1, w.accepted⟩ := by
  unfold World.step
  rw [h]

theorem step_ok {mem : Memory} (h : w.opening c i = (.ok m, mem)) :
    w.step c i = ⟨mem, w.clock + i.1, w.accepted ++ [(m.cid, m.n)]⟩ := by
  unfold World.step
  rw [h]

theorem nonces_concat (mem : Memory) (clock : Nat) (accepted : List (Text × Text)) (cid cid' nonce : Text) :
    (World.mk mem clock (accepted ++ [(cid, nonce)])).nonces cid' =
      (World.mk mem clock accepted).nonces cid' ++ if cid = cid' then [nonce] else [] := by
  unfold World.nonces
  rw [List.filter_append, List.map_append]
  by_cases h : cid = cid' <;> simp [h]

theorem mem_nonces {cid nonce : Text} : nonce ∈ w.nonces cid ↔ (cid, nonce) ∈ w.accepted := by
  simp [World.nonces]

theorem Kept.refused (hw : Kept w) {reason : Reason} {trust : TrustStore}
    (hopening : w.opening c i = (.refused reason, { w.toMemory with trust := trust }))
    (htrust : ∀ cid, trust.keys.get? cid = none → w.trust.keys.get? cid = none) : Kept (w.step c i) := by
  rw [step_refused hopening]
  exact ⟨hw.seen, fun cid hcid => hw.bound cid (htrust cid hcid), hw.named⟩

theorem Kept.step (hw : Kept w) (i : Input Wire) : Kept (w.step c i) := by
  cases hm : carried c i.2 with
  | none =>
    obtain ⟨reason, hopening⟩ := openWire_silent w.toMemory (w.clock + i.1) hm
    exact hw.refused hopening fun _ h => h
  | some m =>
    have hopens := hw.opens hm
    generalize hopening : w.opening c i = opening at hopens
    have hset (cid : Text) : (w.trust.keys.set m.cid m.pk).get? cid = none → w.trust.keys.get? cid = none := by
      rw [Map.get?_set]
      split_ifs
      · nofun
      · exact id
    cases hopens with
    | other => exact hw.refused hopening fun _ h => h
    | first => exact hw.refused hopening hset
    | again => exact hw.refused hopening fun _ h => h
    | taken htaken htrust =>
      rw [step_ok hopening]
      constructor
      · intro cid
        rw [nonces_concat, Map.get?_set]
        by_cases hcid : cid = m.cid
        · subst hcid
          rw [if_pos rfl, if_pos rfl, Option.getD_some, push_rtake]
          rfl
        · rw [if_neg hcid, if_neg (Ne.symm hcid), List.append_nil]
          exact hw.seen cid
      · intro cid hcid
        have hne : m.cid ≠ cid := by
          rintro rfl
          obtain ⟨-, rfl⟩ | ⟨hkey, rfl⟩ := htrust
          · rw [Map.get?_set, if_pos rfl] at hcid
            cases hcid
          · rw [hkey] at hcid
            cases hcid
        rw [nonces_concat, if_neg hne, List.append_nil]
        obtain ⟨-, rfl⟩ | ⟨-, rfl⟩ := htrust
        · exact hw.bound cid (hset cid hcid)
        · exact hw.bound cid hcid
      · intro cid
        rw [nonces_concat, List.mem_append, not_or]
        refine ⟨hw.named cid, ?_⟩
        split_ifs
        · exact fun h => htaken.1 (List.mem_singleton.1 h).symm
        · exact fun h => nomatch h

theorem Kept.holds_iff (hw : Kept w) (i : Input Wire) : Holds c w i ↔ InOrder c w i := by
  cases hm : carried c i.2 with
  | none =>
    obtain ⟨reason, hopening⟩ := openWire_silent w.toMemory (w.clock + i.1) hm
    have hopening' : w.opening c i = (.refused reason, w.toMemory) := hopening
    refine ⟨fun _ m h => ?_, fun _ => ⟨?_, ?_, ?_⟩⟩
    · rw [hm] at h
      cases h
    · intro m h
      rw [hopening'] at h
      cases h
    · intro m h
      rw [hopening'] at h
      cases h
    · intro _ _
      rw [hopening']
  | some m =>
    have hsigned := signed_of_carried hm
    have hopens := hw.opens hm
    unfold InOrder
    simp only [hm, Option.some.injEq, forall_eq']
    generalize hopening : w.opening c i = opening at hopens
    cases hopens with
    | other hkey hne =>
      rw [hkey]
      refine ⟨fun _ heq => absurd heq hne, fun _ => ⟨?_, ?_, ?_⟩⟩
      all_goals
        rw [hopening]
        simp
    | first hkey htaken =>
      rw [hkey]
      constructor
      · intro h
        have hclean := h.clean .replay (by rw [hopening])
        rw [hopening] at hclean
        have hkeys := congrArg (fun mem : Memory => mem.trust.keys.get? m.cid) hclean
        simp only [Map.get?_set, if_true, hkey] at hkeys
        cases hkeys
      · rintro ⟨hn, hwindow⟩
        refine absurd ⟨hn, hwindow, ?_⟩ htaken
        rw [hw.bound _ hkey]
        simp
    | again hkey htaken =>
      rw [hkey]
      refine ⟨fun _ _ hwindow hmem => ?_, fun _ => ⟨?_, ?_, ?_⟩⟩
      · by_contra hnew
        exact htaken ⟨fun hn => hw.named m.cid (hn ▸ hmem), hwindow, hnew⟩
      all_goals
        rw [hopening]
        simp
    | taken htaken htrust =>
      have honce : Holds c w i ↔ m.n ∉ w.nonces m.cid := by
        rw [mem_nonces]
        constructor
        · intro h
          exact h.once m (by rw [hopening])
        · intro h
          refine ⟨?_, ?_, ?_⟩ <;> rw [hopening]
          · rintro m' ⟨⟩
            exact h
          · rintro m' ⟨⟩
            exact ⟨hsigned, htaken.2.1⟩
          · rintro reason ⟨⟩
      rw [honce]
      obtain ⟨hkey, -⟩ | ⟨hkey, -⟩ := htrust
      · rw [hkey, hw.bound _ hkey]
        exact ⟨fun _ => ⟨htaken.1, htaken.2.1⟩, fun _ => List.not_mem_nil⟩
      · rw [hkey]
        exact ⟨fun hnew _ _ hmem => absurd hmem hnew, fun h hmem => htaken.2.2 (h rfl htaken.2.1 hmem)⟩

/-- A run keeps to the law just as long as its wires are in order. -/
theorem envelopes_run (c : Crypto Wire) (window : Nat) (is : List (Input Wire)) :
    Along (World.step c) (Holds c) (start window) is ↔ Along (World.step c) (InOrder c) (start window) is := by
  have hstep (w : World) (i : Input Wire) (hw : Kept w) : Kept (w.step c i) := hw.step i
  constructor
  · intro h
    refine Along.of_invariant (fun w i hw _ => hstep w i hw) ?_ h (kept_start window)
    exact fun w i hw hi => (hw.holds_iff i).1 hi
  · intro h
    refine Along.of_invariant (fun w i hw _ => hstep w i hw) ?_ h (kept_start window)
    exact fun w i hw hi => (hw.holds_iff i).2 hi

private def point : List UInt8 := 4 :: List.replicate 64 0

/-- A session that sealed one message at the time 0. -/
private def sealing : Crypto Unit where
  decrypt _ := some []
  parse _ := some (.object [("k".toList, .string "msg".toList), ("cid".toList, .string "0000000000000000".toList),
    ("pk".toList, .string (Base64.encode point)), ("sig".toList, .string []), ("n".toList, .string "00".toList),
    ("t".toList, .number "0".toList)])
  toNumber _ := some 0
  printed _ := "0".toList
  sha256 _ := List.replicate 32 0
  sha256_length _ := rfl
  verify _ _ _ := true
  signed _ := Set.univ
  signed_of_verify _ _ _ _ := trivial

/-- The first message of a session comes late: it is refused, and the key is bound. -/
theorem late_bound : ¬ ∀ (Wire : Type) (c : Crypto Wire) (is : List (Input Wire)),
    Along (World.step c) (Holds c) (start REPLAY_WINDOW_MS) is := by
  intro h
  have hholds := (h Unit sealing [(REPLAY_WINDOW_MS + 1, ())]).1
  have hcanonical : canonicalPub (Base64.encode point) = some point := by decide
  have hcarried : carried sealing () = some
      ⟨"msg".toList, "0000000000000000".toList, Base64.encode point, [], "00".toList, "0".toList, _⟩ :=
    carried_iff.2 ⟨[], point, rfl, rfl, hcanonical, by decide, by decide⟩
  have hlate : ¬ InWindow REPLAY_WINDOW_MS (REPLAY_WINDOW_MS + 1) (some 0) := by
    rintro ⟨q, hq, hle⟩
    obtain rfl := Option.some.inj hq
    norm_num [REPLAY_WINDOW_MS, abs_of_nonneg] at hle
  exact hlate ((((kept_start _).holds_iff _).1 hholds) _ hcarried).2

end HidraNet.Hidrachat.Page
