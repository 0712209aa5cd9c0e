import HidraNet.Core.Pass
import HidraNet.Lib.Symbolic

/-!
# The symmetric state of a handshake

A chaining key that all shared secrets go into, a hash that everything said goes into, and a cipher under a key of the
chaining key, with the hash as its associated data.  In the end the chaining key gives two ciphers, one for each
direction.

The state is a function of what was said and of the secrets (`SymmetricState.after`), and no two of these give the same
hash or the same chaining key (`hashed_inj`, `chained_inj`).
-/

namespace HidraNet.Crypto

open HidraNet.Core (asBytes)
open Symbolic
open Symbolic.Term (opened opened_aead opened_iff)

def PROTOCOL_NAME : Term := .raw (asBytes "Noise_XXhfs_25519+MLKEM1024_ChaChaPoly_BLAKE3")

def U64_MAX : Nat := 2 ^ 64 - 1

def nothing : Term := .raw []

/-! ### Ciphers -/

structure CipherState where
  key : Option Term
  nonce : Nat
deriving DecidableEq

namespace CipherState

def empty : CipherState := ⟨none, 0⟩

def fromKey (key : Term) : CipherState := ⟨some key, 0⟩

def hasKey (c : CipherState) : Bool := c.key.isSome

def encrypt (c : CipherState) (ad plaintext : Term) : Except String (Term × CipherState) :=
  match c.key with
  | none => .error "cipher not keyed"
  | some key =>
    if c.nonce = U64_MAX then .error "nonce exhaustion"
    else .ok (.aead key c.nonce ad plaintext, { c with nonce := c.nonce + 1 })

def decrypt (c : CipherState) (ad ciphertext : Term) : Except String (Term × CipherState) :=
  match c.key with
  | none => .error "cipher not keyed"
  | some key =>
    if c.nonce = U64_MAX then .error "nonce exhaustion"
    else
      match opened key c.nonce ad ciphertext with
      | none => .error "AEAD decryption failed"
      | some plaintext => .ok (plaintext, { c with nonce := c.nonce + 1 })

variable {key ad plaintext ciphertext : Term} {n : Nat} {c : CipherState}

theorem encrypt_eq (hn : n ≠ U64_MAX) (ad plaintext : Term) :
    encrypt ⟨some key, n⟩ ad plaintext = .ok (.aead key n ad plaintext, ⟨some key, n + 1⟩) := if_neg hn

theorem decrypt_iff (hn : n ≠ U64_MAX) :
    decrypt ⟨some key, n⟩ ad ciphertext = .ok (plaintext, c) ↔
      ciphertext = .aead key n ad plaintext ∧ c = ⟨some key, n + 1⟩ := by
  unfold decrypt
  simp only [if_neg hn]
  constructor
  · intro h
    cases hopen : opened key n ad ciphertext with
    | none => simp [hopen] at h
    | some p =>
      simp only [hopen, Except.ok.injEq, Prod.mk.injEq] at h
      obtain ⟨rfl, rfl⟩ := h
      exact ⟨opened_iff.1 hopen, rfl⟩
  · rintro ⟨rfl, rfl⟩
    simp only [opened_aead]

end CipherState

/-! ### The chaining key and the hash -/

def hkdf (ck ikm : Term) : Term × Term :=
  let tempKey := .keyedHash ck ikm
  let output1 := .keyedHash tempKey (.raw [1])
  (output1, .keyedHash tempKey (.pair output1 (.raw [2])))

theorem hkdf_fst_inj {ck ck' ikm ikm' : Term} : (hkdf ck ikm).1 = (hkdf ck' ikm').1 ↔ ck = ck' ∧ ikm = ikm' := by
  simp [hkdf]

theorem hkdf_snd_inj {ck ck' ikm ikm' : Term} : (hkdf ck ikm).2 = (hkdf ck' ikm').2 ↔ ck = ck' ∧ ikm = ikm' := by
  simp [hkdf]

structure SymmetricState where
  h : Term
  ck : Term
  cipher : CipherState
deriving DecidableEq

namespace SymmetricState

/-- `SymmetricState::initialize`. -/
def initialized : SymmetricState :=
  let h := .hash PROTOCOL_NAME
  ⟨h, h, .empty⟩

def mixKey (s : SymmetricState) (ikm : Term) : SymmetricState :=
  let (ck, tempK) := hkdf s.ck ikm
  { s with ck, cipher := .fromKey tempK }

def mixHash (s : SymmetricState) (data : Term) : SymmetricState := { s with h := .hash (.pair s.h data) }

def encryptAndHash (s : SymmetricState) (plaintext : Term) : Except String (Term × SymmetricState) := do
  let (ciphertext, cipher) ←
    if s.cipher.hasKey then s.cipher.encrypt s.h plaintext else .ok (plaintext, s.cipher)
  return (ciphertext, { s with cipher }.mixHash ciphertext)

def decryptAndHash (s : SymmetricState) (ciphertext : Term) : Except String (Term × SymmetricState) := do
  let (plaintext, cipher) ←
    if s.cipher.hasKey then s.cipher.decrypt s.h ciphertext else .ok (ciphertext, s.cipher)
  return (plaintext, { s with cipher }.mixHash ciphertext)

end SymmetricState

/-! The hash and the keys, of what was said and of the secrets, the latest first. -/

def hashed : List Term → Term
  | [] => .hash PROTOCOL_NAME
  | data :: said => .hash (.pair (hashed said) data)

def chained : List Term → Term
  | [] => .hash PROTOCOL_NAME
  | ikm :: secrets => (hkdf (chained secrets) ikm).1

def tempKey : List Term → Option Term
  | [] => none
  | ikm :: secrets => some (hkdf (chained secrets) ikm).2

theorem hashed_inj {said said' : List Term} (h : hashed said = hashed said') : said = said' := by
  induction said generalizing said' with
  | nil =>
    cases said' with
    | nil => rfl
    | cons => simp [hashed, PROTOCOL_NAME] at h
  | cons data said ih =>
    cases said' with
    | nil => simp [hashed, PROTOCOL_NAME] at h
    | cons data' said' =>
      simp only [hashed, Term.hash.injEq, Term.pair.injEq] at h
      rw [ih h.1, h.2]

theorem chained_inj {secrets secrets' : List Term} (h : chained secrets = chained secrets') : secrets = secrets' := by
  induction secrets generalizing secrets' with
  | nil =>
    cases secrets' with
    | nil => rfl
    | cons => simp [chained, hkdf] at h
  | cons ikm secrets ih =>
    cases secrets' with
    | nil => simp [chained, hkdf] at h
    | cons ikm' secrets' =>
      obtain ⟨hck, hikm⟩ := hkdf_fst_inj.1 h
      rw [ih hck, hikm]

namespace SymmetricState

def after (said secrets : List Term) (n : Nat) : SymmetricState := ⟨hashed said, chained secrets, ⟨tempKey secrets, n⟩⟩

variable {said secrets : List Term} {n : Nat} {ikm p c : Term} {s : SymmetricState}

@[simp] theorem after_h : (after said secrets n).h = hashed said := rfl

@[simp] theorem after_ck : (after said secrets n).ck = chained secrets := rfl

@[simp] theorem mixHash_after (data : Term) : (after said secrets n).mixHash data = after (data :: said) secrets n := rfl

@[simp] theorem mixKey_after (ikm : Term) : (after said secrets n).mixKey ikm = after said (ikm :: secrets) 0 := rfl

/-- The cell that says `p` next. -/
def cell (said secrets : List Term) (ikm : Term) (n : Nat) (p : Term) : Term :=
  .aead (hkdf (chained secrets) ikm).2 n (hashed said) p

theorem encryptAndHash_keyed (hn : n ≠ U64_MAX) (p : Term) :
    (after said (ikm :: secrets) n).encryptAndHash p =
      .ok (cell said secrets ikm n p, after (cell said secrets ikm n p :: said) (ikm :: secrets) (n + 1)) := by
  have hseal : CipherState.encrypt ⟨some (hkdf (chained secrets) ikm).2, n⟩ (hashed said) p =
      .ok (cell said secrets ikm n p, ⟨some (hkdf (chained secrets) ikm).2, n + 1⟩) := CipherState.encrypt_eq hn _ _
  show (CipherState.encrypt ⟨some (hkdf (chained secrets) ikm).2, n⟩ (hashed said) p >>= _) = _
  rw [hseal]
  rfl

theorem decryptAndHash_keyed (hn : n ≠ U64_MAX) :
    (after said (ikm :: secrets) n).decryptAndHash c = .ok (p, s) ↔
      c = cell said secrets ikm n p ∧ s = after (c :: said) (ikm :: secrets) (n + 1) := by
  show (CipherState.decrypt ⟨some (hkdf (chained secrets) ikm).2, n⟩ (hashed said) c >>= _) = _ ↔ _
  constructor
  · intro h
    cases hopen : CipherState.decrypt ⟨some (hkdf (chained secrets) ikm).2, n⟩ (hashed said) c with
    | error m => simp [hopen] at h
    | ok r =>
      obtain ⟨plaintext, cipher⟩ := r
      obtain ⟨hc, rfl⟩ := (CipherState.decrypt_iff hn).1 hopen
      rw [hopen] at h
      cases h
      exact ⟨hc, rfl⟩
  · rintro ⟨rfl, rfl⟩
    have hopen : CipherState.decrypt ⟨some (hkdf (chained secrets) ikm).2, n⟩ (hashed said) (cell said secrets ikm n p) =
        .ok (p, ⟨some (hkdf (chained secrets) ikm).2, n + 1⟩) := (CipherState.decrypt_iff hn).2 ⟨rfl, rfl⟩
    rw [hopen]
    rfl

end SymmetricState

/-! ### After the handshake -/

structure TransportCipher where
  cipher : CipherState
deriving DecidableEq

namespace TransportCipher

def encrypt (t : TransportCipher) (plaintext : Term) : Except String (Term × TransportCipher) :=
  (t.cipher.encrypt nothing plaintext).map fun r => (r.1, ⟨r.2⟩)

def decrypt (t : TransportCipher) (ciphertext : Term) : Except String (Term × TransportCipher) :=
  (t.cipher.decrypt nothing ciphertext).map fun r => (r.1, ⟨r.2⟩)

/-- Plaintexts that are sealed by one and opened by the other, one after another. -/
def carry : TransportCipher → TransportCipher → List Term → List (Except String Term)
  | _, _, [] => []
  | send, recv, p :: ps =>
    match send.encrypt p with
    | .error m => .error m :: carry send recv ps
    | .ok (ciphertext, send) =>
      match recv.decrypt ciphertext with
      | .error m => .error m :: carry send recv ps
      | .ok (plaintext, recv) => .ok plaintext :: carry send recv ps

def InOrder (send recv : TransportCipher) : Prop :=
  ∀ ps, carry send recv ps =
    (ps.take U64_MAX).map .ok ++ List.replicate (ps.length - U64_MAX) (.error "nonce exhaustion")

def Strangers (send recv : TransportCipher) : Prop :=
  ∀ m n plaintext ciphertext send', encrypt ⟨{ send.cipher with nonce := m }⟩ plaintext = .ok (ciphertext, send') →
    ∃ e, decrypt ⟨{ recv.cipher with nonce := n }⟩ ciphertext = .error e

variable {key c p : Term} {n : Nat} {t : TransportCipher}

theorem encrypt_eq (hn : n ≠ U64_MAX) (p : Term) :
    encrypt ⟨⟨some key, n⟩⟩ p = .ok (.aead key n nothing p, ⟨⟨some key, n + 1⟩⟩) := by
  unfold encrypt
  rw [CipherState.encrypt_eq hn]
  rfl

theorem decrypt_iff (hn : n ≠ U64_MAX) :
    decrypt ⟨⟨some key, n⟩⟩ c = .ok (p, t) ↔ c = .aead key n nothing p ∧ t = ⟨⟨some key, n + 1⟩⟩ := by
  unfold decrypt
  constructor
  · intro h
    cases hopen : CipherState.decrypt ⟨some key, n⟩ nothing c with
    | error m => simp [hopen, Except.map] at h
    | ok r =>
      rw [hopen] at h
      cases h
      obtain ⟨hc, hcipher⟩ := (CipherState.decrypt_iff hn).1 hopen
      exact ⟨hc, congrArg _ hcipher⟩
  · rintro ⟨hc, rfl⟩
    rw [(CipherState.decrypt_iff hn).2 ⟨hc, rfl⟩]
    rfl

theorem carry_exhausted (key : Term) (recv : TransportCipher) (ps : List Term) :
    carry ⟨⟨some key, U64_MAX⟩⟩ recv ps = List.replicate ps.length (.error "nonce exhaustion") := by
  induction ps with
  | nil => rfl
  | cons p ps ih =>
    have hrefused : encrypt ⟨⟨some key, U64_MAX⟩⟩ p = .error "nonce exhaustion" := rfl
    simp only [carry, hrefused, ih, List.length_cons, List.replicate_succ]

theorem carry_sameKey (key : Term) {n : Nat} (hn : n ≤ U64_MAX) (ps : List Term) :
    carry ⟨⟨some key, n⟩⟩ ⟨⟨some key, n⟩⟩ ps =
      (ps.take (U64_MAX - n)).map .ok ++ List.replicate (ps.length - (U64_MAX - n)) (.error "nonce exhaustion") := by
  induction ps generalizing n with
  | nil => simp [carry]
  | cons p ps ih =>
    by_cases hlast : n = U64_MAX
    · subst hlast
      rw [carry_exhausted]
      simp
    · have hroom : U64_MAX - n = (U64_MAX - (n + 1)) + 1 := by omega
      have hopen : decrypt ⟨⟨some key, n⟩⟩ (.aead key n nothing p) = .ok (p, ⟨⟨some key, n + 1⟩⟩) :=
        (decrypt_iff hlast).2 ⟨rfl, rfl⟩
      have hrest := ih (n := n + 1) (by omega)
      simp only [carry, encrypt_eq hlast, hopen, hrest, hroom, List.take_succ_cons, List.map_cons, List.cons_append,
        List.length_cons, Nat.add_sub_add_right]

theorem inOrder_fromKey (key : Term) : InOrder ⟨.fromKey key⟩ ⟨.fromKey key⟩ := fun ps =>
  carry_sameKey key (Nat.zero_le _) ps

theorem strangers_fromKey {key key' : Term} (hne : key ≠ key') : Strangers ⟨.fromKey key⟩ ⟨.fromKey key'⟩ := by
  intro m n plaintext ciphertext send' hseal
  by_cases hm : m = U64_MAX
  · subst hm
    cases hseal
  · have hct : Term.aead key m nothing plaintext = ciphertext := by
      have heq := (encrypt_eq hm plaintext).symm.trans hseal
      simp only [Except.ok.injEq, Prod.mk.injEq] at heq
      exact heq.1
    cases hopen : decrypt ⟨⟨some key', n⟩⟩ ciphertext with
    | error e => exact ⟨e, hopen⟩
    | ok r =>
      by_cases hn : n = U64_MAX
      · subst hn
        cases hopen
      · have hother := ((decrypt_iff hn).1 hopen).1
        rw [← hct, Term.aead.injEq] at hother
        exact absurd hother.1 hne

end TransportCipher

def SymmetricState.split (s : SymmetricState) : TransportCipher × TransportCipher :=
  let (k1, k2) := hkdf s.ck nothing
  (⟨.fromKey k1⟩, ⟨.fromKey k2⟩)

end HidraNet.Crypto
