import HidraNet.Core.Pass
import HidraNet.Lib.Base64
import HidraNet.Lib.Utf8

/-!
# One pass, one tag

`verify` reads a pass from the bytes its fields decode to, and `spentTag` hashes what the fields say, without a sign
between them.  A key id of eight bytes is sixteen hex digits, in either case, so its end is known, and the nonce has one
text only; so two passes that are taken have one tag just where they decode to one key id and one nonce
(`Redemption.spentTag_eq_iff`).
-/

namespace HidraNet.Core

open Text

/-! ### Hex -/

private theorem hexVal_toLower_small : ∀ n < 128, hexVal (Char.ofNat n).toLower = hexVal (Char.ofNat n) := by
  decide

private theorem toLower_large {c : Char} (h : 128 ≤ c.toNat) : c.toLower = c := by
  unfold Char.toLower
  rw [dif_neg]
  rintro ⟨-, hle⟩
  have hle' : c.toNat ≤ 'Z'.toNat := hle
  have hz : 'Z'.toNat = 90 := rfl
  omega

theorem hexVal_toLower (c : Char) : hexVal c.toLower = hexVal c := by
  by_cases h : c.toNat < 128
  · have hsmall := hexVal_toLower_small c.toNat h
    rwa [Char.ofNat_toNat] at hsmall
  · rw [toLower_large (by omega)]

theorem lt_of_hexVal {c : Char} {n : Nat} (h : hexVal c = some n) : c.toNat < 128 := by
  have hle {a : Char} (hca : c ≤ a) : c.toNat ≤ a.toNat := hca
  have hcodes : 'f'.toNat = 102 ∧ 'F'.toNat = 70 ∧ '9'.toNat = 57 := ⟨rfl, rfl, rfl⟩
  unfold hexVal at h
  split_ifs at h with hdigit hlower hupper
  · have hnine := (Char.isDigit_iff_toNat.1 hdigit).2
    omega
  · have hf := hle (of_decide_eq_true (Bool.and_eq_true _ _ ▸ hlower).2)
    omega
  · have hf := hle (of_decide_eq_true (Bool.and_eq_true _ _ ▸ hupper).2)
    omega

private theorem of_hexVal_small : ∀ a < 128, ∀ n ∈ hexVal (Char.ofNat a),
    n < 16 ∧ (Char.ofNat a).toLower = hexDigit n := by
  decide

theorem hexVal_lt {c : Char} {n : Nat} (h : hexVal c = some n) : n < 16 := by
  have hsmall := of_hexVal_small c.toNat (lt_of_hexVal h) n
  rw [Char.ofNat_toNat] at hsmall
  exact (hsmall h).1

theorem toLower_of_hexVal {c : Char} {n : Nat} (h : hexVal c = some n) : c.toLower = hexDigit n := by
  have hsmall := of_hexVal_small c.toNat (lt_of_hexVal h) n
  rw [Char.ofNat_toNat] at hsmall
  exact (hsmall h).2

theorem hexDecode_toLower (l : List Char) : hexDecode (l.map Char.toLower) = hexDecode l := by
  fun_induction hexDecode l with
  | case1 => rfl
  | case2 a => rfl
  | case3 a b rest x y bytes hx hy hbytes ih =>
    simp only [List.map_cons]
    unfold hexDecode
    rw [hexVal_toLower, hexVal_toLower, ih, hx, hy, hbytes]
  | case4 a b rest hnone ih =>
    simp only [List.map_cons]
    unfold hexDecode
    rw [hexVal_toLower, hexVal_toLower, ih]
    split
    · rename_i x y bytes hx hy hbytes
      exact absurd hbytes (hnone x y bytes hx hy)
    · rfl

example : hexDecode "486964726156504E".toList = hexDecode "486964726156504e".toList := by decide

theorem hexDecode_nil {l : List Char} (h : hexDecode l = some []) : l = [] := by
  match l with
  | [] => rfl
  | [_] => cases h
  | a :: b :: rest =>
    unfold hexDecode at h
    split at h <;> cases h

theorem hexDecode_cons {l : List Char} {x : UInt8} {bytes : Bytes} (h : hexDecode l = some (x :: bytes)) :
    ∃ a b rest m n, l = a :: b :: rest ∧ hexVal a = some m ∧ hexVal b = some n ∧ x.toNat = 16 * m + n ∧
      hexDecode rest = some bytes := by
  match l with
  | [] => cases h
  | [_] => cases h
  | a :: b :: rest =>
    unfold hexDecode at h
    split at h
    · rename_i m n rest' hm hn hrest
      obtain ⟨rfl, rfl⟩ := List.cons.inj (Option.some.inj h)
      have hm' := hexVal_lt hm
      have hn' := hexVal_lt hn
      refine ⟨a, b, rest, m, n, rfl, hm, hn, ?_, hrest⟩
      rw [UInt8.toNat_ofNat']
      exact Nat.mod_eq_of_lt (by omega)
    · cases h

theorem texts_of_hexDecode {l l' : List Char} {bytes : Bytes} (h : hexDecode l = some bytes)
    (h' : hexDecode l' = some bytes) : l.length = 2 * bytes.length ∧ l.map Char.toLower = l'.map Char.toLower := by
  induction bytes generalizing l l' with
  | nil =>
    rw [hexDecode_nil h, hexDecode_nil h']
    exact ⟨rfl, rfl⟩
  | cons x bytes ih =>
    obtain ⟨a, b, rest, m, n, rfl, ha, hb, hx, hrest⟩ := hexDecode_cons h
    obtain ⟨a', b', rest', m', n', rfl, ha', hb', hx', hrest'⟩ := hexDecode_cons h'
    have hm := hexVal_lt ha
    have hn := hexVal_lt hb
    have hm' := hexVal_lt ha'
    have hn' := hexVal_lt hb'
    obtain rfl : m = m' := by omega
    obtain rfl : n = n' := by omega
    obtain ⟨hlength, hlower⟩ := ih hrest hrest'
    constructor
    · simp only [List.length_cons]
      omega
    · simp only [List.map_cons, toLower_of_hexVal ha, toLower_of_hexVal ha', toLower_of_hexVal hb,
        toLower_of_hexVal hb', hlower]

private theorem hexDigit_inj : ∀ a < 16, ∀ b < 16, hexDigit a = hexDigit b → a = b := by decide

theorem hexEncode_injective : Function.Injective hexEncode := by
  intro a b h
  have hlist := String.ofList_injective h
  clear h
  induction a generalizing b with
  | nil =>
    cases b with
    | nil => rfl
    | cons y b => cases hlist
  | cons x a ih =>
    cases b with
    | nil => cases hlist
    | cons y b =>
      simp only [List.flatMap_cons, List.cons_append, List.nil_append, List.cons.injEq] at hlist
      obtain ⟨hhigh, hlow, hrest⟩ := hlist
      have hx := x.toNat_lt
      have hy := y.toNat_lt
      have hdiv := hexDigit_inj _ (by omega) _ (by omega) hhigh
      have hmod := hexDigit_inj _ (by omega) _ (by omega) hlow
      obtain rfl : x = y := UInt8.toNat.inj (by omega)
      rw [ih hrest]

/-! ### The tag -/

def Canonical (decode : String → Option Bytes) : Prop := ∀ s s' b, decode s = some b → decode s' = some b → s = s'

namespace Redemption

variable {Pk : Type} {c : Crypto Pk} {a b r : Redemption}

def spentInput (r : Redemption) : Bytes :=
  SPENT_DOMAIN ++ asBytes (toAsciiLowercase (trim r.keyId)) ++ asBytes (trim r.nonce)

theorem spentTag_eq (c : Crypto Pk) (r : Redemption) : r.spentTag c = hexEncode (c.sha256 r.spentInput) := rfl

theorem spentInput_eq_iff (hlength : (trim a.keyId).toList.length = (trim b.keyId).toList.length) :
    a.spentInput = b.spentInput ↔
      (trim a.keyId).toList.map Char.toLower = (trim b.keyId).toList.map Char.toLower ∧ trim a.nonce = trim b.nonce := by
  have hinput (r : Redemption) : r.spentInput =
      SPENT_DOMAIN ++ Utf8.encode ((trim r.keyId).toList.map Char.toLower ++ (trim r.nonce).toList) := by
    rw [Utf8.encode_append, ← List.append_assoc]
    unfold spentInput toAsciiLowercase asBytes Utf8.encode
    rw [String.toList_ofList]
  rw [hinput, hinput, List.append_cancel_left_eq]
  constructor
  · intro h
    have htext := Utf8.encode_injective h
    obtain ⟨hid, hnonce⟩ := List.append_inj htext (by simpa using hlength)
    exact ⟨hid, String.toList_injective hnonce⟩
  · rintro ⟨hid, hnonce⟩
    rw [hid, hnonce]

theorem verify_decodes {keys : List PassKeyRecord} {thisNode : String} {now : Int}
    (h : r.verify c keys thisNode now = .ok ()) :
    ∃ id nonce, decodeId r.keyId = .ok id ∧ decodeFixed c 32 "nonce" r.nonce = .ok nonce := by
  unfold verify at h
  obtain ⟨id, hid, h⟩ := ok_of_bind h
  obtain ⟨record, -, h⟩ := ok_of_bind h
  obtain ⟨_, -, h⟩ := ok_of_bind h
  obtain ⟨issuer, -, h⟩ := ok_of_bind h
  obtain ⟨_, -, h⟩ := ok_of_bind h
  obtain ⟨node, -, h⟩ := ok_of_bind h
  obtain ⟨client, -, h⟩ := ok_of_bind h
  obtain ⟨nonce, hnonce, -⟩ := ok_of_bind h
  exact ⟨id, nonce, hid, hnonce⟩

theorem of_decodeId {s : String} {id : Bytes} (h : decodeId s = .ok id) :
    hexDecode (trim s).toList = some id ∧ id.length = 8 := by
  unfold decodeId at h
  split at h
  · cases h
  · rename_i bytes hbytes
    split_ifs at h with hlength
    obtain rfl := Except.ok.inj h
    exact ⟨hbytes, hlength⟩

theorem of_decodeFixed {n : Nat} {what s : String} {bytes : Bytes} (h : decodeFixed c n what s = .ok bytes) :
    c.base64 (trim s) = some bytes := by
  unfold decodeFixed at h
  split at h
  · cases h
  · rename_i bytes' hbytes
    split_ifs at h
    obtain rfl := Except.ok.inj h
    exact hbytes

/-- Two passes that are taken have one tag just where they decode to one key id and one nonce. -/
theorem spentTag_eq_iff {keys : List PassKeyRecord} {thisNode : String} {now now' : Int}
    (hcanonical : Canonical c.base64)
    (hfree : c.sha256 a.spentInput = c.sha256 b.spentInput → a.spentInput = b.spentInput)
    (ha : a.verify c keys thisNode now = .ok ()) (hb : b.verify c keys thisNode now' = .ok ()) :
    a.spentTag c = b.spentTag c ↔
      decodeId a.keyId = decodeId b.keyId ∧ decodeFixed c 32 "nonce" a.nonce = decodeFixed c 32 "nonce" b.nonce := by
  obtain ⟨ida, noncea, hida, hnoncea⟩ := verify_decodes ha
  obtain ⟨idb, nonceb, hidb, hnonceb⟩ := verify_decodes hb
  obtain ⟨hhexa, hlengtha⟩ := of_decodeId hida
  obtain ⟨hhexb, hlengthb⟩ := of_decodeId hidb
  have hlength : (trim a.keyId).toList.length = (trim b.keyId).toList.length := by
    rw [(texts_of_hexDecode hhexa hhexa).1, (texts_of_hexDecode hhexb hhexb).1, hlengtha, hlengthb]
  have htag : a.spentTag c = b.spentTag c ↔ a.spentInput = b.spentInput :=
    ⟨fun h => hfree (hexEncode_injective h), fun h => by rw [spentTag_eq, spentTag_eq, h]⟩
  rw [htag, spentInput_eq_iff hlength, hida, hidb, hnoncea, hnonceb]
  constructor
  · rintro ⟨hid, hnonce⟩
    have hids : some ida = some idb := by
      rw [← hhexa, ← hhexb, ← hexDecode_toLower, hid, hexDecode_toLower]
    have hnonces : some noncea = some nonceb := by
      rw [← of_decodeFixed hnoncea, ← of_decodeFixed hnonceb, hnonce]
    rw [Option.some.inj hids, Option.some.inj hnonces]
    exact ⟨rfl, rfl⟩
  · rintro ⟨hid, hnonce⟩
    obtain rfl := Except.ok.inj hid
    obtain rfl := Except.ok.inj hnonce
    exact ⟨(texts_of_hexDecode hhexa hhexb).2, hcanonical _ _ _ (of_decodeFixed hnoncea) (of_decodeFixed hnonceb)⟩

theorem verify_of {keys : List PassKeyRecord} {thisNode : String} {now : Int} {record : PassKeyRecord}
    {issuer : IssuerKey Pk} {id node client nonce randomizer sig : Bytes} (hid : decodeId r.keyId = .ok id)
    (hfind : findKey keys r.keyId = some record) (hcurrent : record.isCurrent now = true)
    (hissuer : record.issuerKey c = .ok issuer) (hnode : trim r.nodePublicKey = trim thisNode)
    (hnodeKey : publicKeyFromBase64 c r.nodePublicKey = .ok node)
    (hclient : publicKeyFromBase64 c r.clientPublicKey = .ok client) (hnonce : decodeFixed c 32 "nonce" r.nonce = .ok nonce)
    (hrandomizer : decodeFixed c 32 "randomizer" r.randomizer = .ok randomizer)
    (hsig : c.base64 (trim r.signature) = some sig) (hlength : sig.length = KEY_BITS / 8)
    (hholds : c.verify issuer.pk sig randomizer (message id node client nonce) = true) :
    r.verify c keys thisNode now = .ok () := by
  have hok {α β : Type} (a : α) (f : α → Except String β) : (Except.ok a >>= f) = f a := rfl
  unfold verify ensure
  simp only [hid, hfind, hcurrent, hissuer, hnode, hnodeKey, hclient, hnonce, hrandomizer, hsig, hlength, hholds, hok,
    Option.elim, if_true]

end Redemption

open Redemption

private def strict : Crypto Unit :=
  ⟨fun s => Base64.decode s.toList, id, fun _ => .ok (), fun _ => List.replicate 256 1, fun _ _ _ _ => true⟩

private def zeros (n : Nat) : String := String.ofList (Base64.encode (List.replicate n 0))

private theorem canonical_strict : Canonical strict.base64 := fun _ _ _ h h' =>
  String.toList_injective ((Base64.encode_of_decode h).symm.trans (Base64.encode_of_decode h'))

private theorem base64_zeros {s : String} {n : Nat} (h : trim s = zeros n) :
    strict.base64 (trim s) = some (List.replicate n 0) := by
  rw [h]
  change Base64.decode (zeros n).toList = _
  unfold zeros
  rw [String.toList_ofList, Base64.decode_encode]

private theorem key_zeros {s : String} (h : trim s = zeros 32) :
    publicKeyFromBase64 strict s = .ok (List.replicate 32 0) := by
  unfold publicKeyFromBase64
  rw [base64_zeros h]
  rfl

private theorem fixed_zeros {s what : String} (h : trim s = zeros 32) :
    decodeFixed strict 32 what s = .ok (List.replicate 32 0) := by
  unfold decodeFixed
  rw [base64_zeros h]
  rfl

private def takenKey : PassKeyRecord := ⟨"486964726156504e", "AAAA", "1970-01-01T00:00:02Z"⟩

private def spellPass (keyId nonce : String) : Redemption := ⟨keyId, zeros 32, zeros 32, nonce, zeros 32, zeros 256⟩

private theorem plain_small : ∀ n < 128, Base64.written (Char.ofNat n) → isWhitespace (Char.ofNat n) = false := by
  decide

private theorem plain_of_written {c : Char} (h : Base64.written c) : isWhitespace c = false := by
  have hc : c.toNat < 128 := by
    have hcodes : 'Z'.toNat = 90 ∧ 'z'.toNat = 122 ∧ '9'.toNat = 57 := ⟨rfl, rfl, rfl⟩
    simp only [Base64.written, Char.isAlphanum, Char.isAlpha, Char.isUpper, Char.isLower, Bool.or_eq_true,
      Bool.and_eq_true, decide_eq_true_eq, Char.isDigit_iff_toNat, beq_iff_eq, ge_iff_le, UInt32.le_iff_toNat_le,
      Char.toNat_val] at h
    rcases h with ((((h | h) | h) | rfl) | rfl) | rfl
    · omega
    · omega
    · omega
    · decide
    · decide
    · decide
  have hplain := plain_small c.toNat hc
  rw [Char.ofNat_toNat] at hplain
  exact hplain h

private theorem trim_zeros (n : Nat) : trim (zeros n) = zeros n := by
  have hdrop {l : List Char} (h : ∀ c ∈ l, isWhitespace c = false) : l.dropWhile isWhitespace = l :=
    List.dropWhile_eq_self_iff.2 fun hl => by simp [h _ (List.getElem_mem hl)]
  have hplain : ∀ c ∈ Base64.encode (List.replicate n 0), isWhitespace c = false := fun c hc =>
    plain_of_written (Base64.mem_encode hc)
  unfold trim zeros
  rw [String.toList_ofList, hdrop hplain, hdrop (by simpa using hplain), List.reverse_reverse]

private theorem issuer_takenKey : takenKey.issuerKey strict = .ok ⟨(), [0, 0, 0], keyId strict [0, 0, 0]⟩ := by
  have hkey : strict.base64 (trim takenKey.key) = some [0, 0, 0] := by decide
  have hbits : ((strict.modulus ()).dropWhile (· == 0)).length = KEY_BITS / 8 := by decide +kernel
  have hid : hexEncode (keyId strict [0, 0, 0]) = trim takenKey.id := by decide
  have hspki : IssuerKey.fromSpkiBase64 strict takenKey.key = .ok ⟨(), [0, 0, 0], keyId strict [0, 0, 0]⟩ := by
    unfold IssuerKey.fromSpkiBase64
    rw [hkey]
    exact if_neg (not_not.2 hbits)
  unfold PassKeyRecord.issuerKey
  rw [hspki]
  exact if_neg (not_not.2 hid)

private theorem verify_spellPass (id : String) {nonce : String} (hid : decodeId id = .ok [72, 105, 100, 114, 97, 86, 80, 78])
    (hfind : findKey [takenKey] id = some takenKey) (hnonce : trim nonce = zeros 32) :
    (spellPass id nonce).verify strict [takenKey] (zeros 32) 1 = .ok () :=
  verify_of hid hfind (by decide) issuer_takenKey rfl (key_zeros (trim_zeros 32)) (key_zeros (trim_zeros 32))
    (fixed_zeros hnonce) (fixed_zeros (trim_zeros 32)) (base64_zeros (trim_zeros 256)) (by decide +kernel) rfl

/-- A pass that is spelled another way is taken, and has the same tag. -/
theorem spentTag_spelled :
    (spellPass "486964726156504e" (zeros 32)).spentTag strict =
      (spellPass " 486964726156504E" (zeros 32 ++ "\t")).spentTag strict := by
  have hnonce : trim (zeros 32 ++ "\t") = zeros 32 := by decide
  have hpass := verify_spellPass "486964726156504e" (by decide) (by decide) (trim_zeros 32)
  have hspelled := verify_spellPass " 486964726156504E" (by decide) (by decide) hnonce
  have hfree (a b : Redemption) (h : strict.sha256 a.spentInput = strict.sha256 b.spentInput) :
      a.spentInput = b.spentInput := h
  refine (spentTag_eq_iff canonical_strict (hfree _ _) hpass hspelled).2 ⟨by decide, ?_⟩
  unfold spellPass
  dsimp only
  rw [fixed_zeros (trim_zeros 32), fixed_zeros hnonce]

end HidraNet.Core
