import Mathlib

/-!
# Symbolic messages

Messages as terms: what a cipher, a hash, a key exchange or an encapsulation gives is written down and not computed, so
that two terms are the same bytes only when they are made the same way.  An attacker makes new terms of those it has
(`Derives`).

To show that something cannot be made, a class of terms is closed under all an attacker does.  The one here is for the
secret of an encapsulation (`Clean`): it is never seen, nor anything that is made with it, but for the ciphertexts of a
given list (`derives_clean`).
-/

namespace HidraNet.Symbolic

inductive Term where
  | raw (bytes : List UInt8)
  | pair (a b : Term)
  | hash (data : Term)
  | keyedHash (key data : Term)
  | scalar (a : Nat)
  | generator
  | lowOrder
  | power (base : Term) (scalars : Multiset Nat)
  | twin (point : Term)
  | decapKey (k : Nat)
  | encapKey (k : Nat)
  | coins (r : Nat)
  | kemCiphertext (k r : Nat)
  | kemSecret (k r : Nat)
  /-- What a ciphertext that is none of the key's is answered with. -/
  | kemReject (k : Nat) (ciphertext : Term)
  | aead (key : Term) (nonce : Nat) (ad plaintext : Term)
deriving DecidableEq

namespace Term

def diffieHellman (a : Nat) : Term → Term
  | .lowOrder => .lowOrder
  | .twin point => diffieHellman a point
  | .power base scalars => .power base (a ::ₘ scalars)
  | point => .power point {a}

def publicKey (a : Nat) : Term := diffieHellman a .generator

def encapsulate (k r : Nat) : Term × Term := (.kemCiphertext k r, .kemSecret k r)

def decapsulate (k : Nat) : Term → Term
  | .kemCiphertext k' r => if k' = k then .kemSecret k r else .kemReject k (.kemCiphertext k' r)
  | ciphertext => .kemReject k ciphertext

def opened (key : Term) (nonce : Nat) (ad : Term) : Term → Option Term
  | .aead key' nonce' ad' plaintext => if key' = key ∧ nonce' = nonce ∧ ad' = ad then some plaintext else none
  | _ => none

variable {a b k r nonce : Nat} {t key ad plaintext : Term}

theorem diffieHellman_comm (a b : Nat) (t : Term) :
    diffieHellman a (diffieHellman b t) = diffieHellman b (diffieHellman a t) := by
  induction t with
  | lowOrder => rfl
  | power base scalars _ => exact congrArg _ (Multiset.cons_swap a b scalars)
  | twin point ih => exact ih
  | raw | pair | hash | keyedHash | scalar | generator | decapKey | encapKey | coins | kemCiphertext | kemSecret
  | kemReject | aead => exact congrArg _ (Multiset.cons_swap a b 0)

theorem decapsulate_encapsulate (k r : Nat) : decapsulate k (encapsulate k r).1 = (encapsulate k r).2 := if_pos rfl

theorem decapsulate_eq_kemSecret {k' : Nat} (h : decapsulate k t = .kemSecret k' r) :
    k' = k ∧ t = .kemCiphertext k r := by
  cases t with
  | kemCiphertext k₁ r₁ =>
    by_cases hk : k₁ = k
    · simp only [decapsulate, if_pos hk] at h
      cases h
      exact ⟨rfl, by rw [hk]⟩
    · simp only [decapsulate, if_neg hk] at h
      cases h
  | raw | pair | hash | keyedHash | scalar | generator | lowOrder | power | twin | decapKey | encapKey | coins
  | kemSecret | kemReject | aead => cases h

theorem opened_iff : opened key nonce ad t = some plaintext ↔ t = .aead key nonce ad plaintext := by
  constructor
  · intro h
    cases t with
    | aead key' nonce' ad' plaintext' =>
      by_cases hsame : key' = key ∧ nonce' = nonce ∧ ad' = ad
      · simp only [opened, if_pos hsame, Option.some.injEq] at h
        obtain ⟨rfl, rfl, rfl⟩ := hsame
        rw [h]
      · simp only [opened, if_neg hsame] at h
        cases h
    | raw | pair | hash | keyedHash | scalar | generator | lowOrder | power | twin | decapKey | encapKey | coins
    | kemCiphertext | kemSecret | kemReject => cases h
  · rintro rfl
    exact if_pos ⟨rfl, rfl, rfl⟩

theorem opened_aead (key : Term) (nonce : Nat) (ad plaintext : Term) :
    opened key nonce ad (.aead key nonce ad plaintext) = some plaintext := opened_iff.2 rfl

end Term

open Term

/-! ### The attacker -/

/-- Who has `K` can make the term. -/
inductive Derives (K : Set Term) : Term → Prop where
  | known {t} : t ∈ K → Derives K t
  | raw (bytes) : Derives K (.raw bytes)
  | generator : Derives K .generator
  | lowOrder : Derives K .lowOrder
  | encapKey (k) : Derives K (.encapKey k)
  | pair {a b} : Derives K a → Derives K b → Derives K (.pair a b)
  | left {a b} : Derives K (.pair a b) → Derives K a
  | right {a b} : Derives K (.pair a b) → Derives K b
  | hash {data} : Derives K data → Derives K (.hash data)
  | keyedHash {key data} : Derives K key → Derives K data → Derives K (.keyedHash key data)
  | diffieHellman {a point} : Derives K (.scalar a) → Derives K point → Derives K (Term.diffieHellman a point)
  | twin {point} : Derives K point → Derives K (.twin point)
  | encapsulate {r} (k) : Derives K (.coins r) → Derives K (Term.encapsulate k r).1
  | encapsulated {r} (k) : Derives K (.coins r) → Derives K (Term.encapsulate k r).2
  | decapsulate {k ciphertext} : Derives K (.decapKey k) → Derives K ciphertext → Derives K (Term.decapsulate k ciphertext)
  | aead {key ad plaintext} (nonce) : Derives K key → Derives K ad → Derives K plaintext →
      Derives K (.aead key nonce ad plaintext)
  | opened {key nonce ad plaintext} : Derives K (.aead key nonce ad plaintext) → Derives K key → Derives K plaintext

variable {k r : Nat} {sent : List Term} {K : Set Term} {t : Term}

/-- The secret of an encapsulation under the key `k`, with the coins `r`, is not to be seen, but in a ciphertext that was
sent. -/
def Clean (k r : Nat) (sent : List Term) : Term → Prop
  | .raw _ | .scalar _ | .generator | .lowOrder | .encapKey _ | .kemCiphertext _ _ => True
  | .pair a b => Clean k r sent a ∧ Clean k r sent b
  | .hash data => Clean k r sent data
  | .keyedHash key data => Clean k r sent key ∧ Clean k r sent data
  | .power base _ => Clean k r sent base
  | .twin point => Clean k r sent point
  | .decapKey k' => k' ≠ k
  | .coins r' => r' ≠ r
  | .kemSecret k' r' => ¬ (k' = k ∧ r' = r)
  | .kemReject k' _ => k' ≠ k
  | .aead key nonce ad plaintext =>
    (Clean k r sent key ∧ Clean k r sent ad ∧ Clean k r sent plaintext) ∨ .aead key nonce ad plaintext ∈ sent

instance decidableClean (k r : Nat) (sent : List Term) : DecidablePred (Clean k r sent)
  | .raw _ | .scalar _ | .generator | .lowOrder | .encapKey _ | .kemCiphertext _ _ => isTrue trivial
  | .pair a b =>
    have := decidableClean k r sent a
    have := decidableClean k r sent b
    inferInstanceAs (Decidable (Clean k r sent a ∧ Clean k r sent b))
  | .hash data => decidableClean k r sent data
  | .keyedHash key data =>
    have := decidableClean k r sent key
    have := decidableClean k r sent data
    inferInstanceAs (Decidable (Clean k r sent key ∧ Clean k r sent data))
  | .power base _ => decidableClean k r sent base
  | .twin point => decidableClean k r sent point
  | .decapKey k' => inferInstanceAs (Decidable (k' ≠ k))
  | .coins r' => inferInstanceAs (Decidable (r' ≠ r))
  | .kemSecret k' r' => inferInstanceAs (Decidable (¬ (k' = k ∧ r' = r)))
  | .kemReject k' _ => inferInstanceAs (Decidable (k' ≠ k))
  | .aead key nonce ad plaintext =>
    have := decidableClean k r sent key
    have := decidableClean k r sent ad
    have := decidableClean k r sent plaintext
    inferInstanceAs (Decidable ((Clean k r sent key ∧ Clean k r sent ad ∧ Clean k r sent plaintext) ∨
      .aead key nonce ad plaintext ∈ sent))

theorem Clean.mono (h : Clean k r [] t) (sent : List Term) : Clean k r sent t := by
  induction t with
  | raw | scalar | generator | lowOrder | encapKey | kemCiphertext => trivial
  | pair a b iha ihb => exact ⟨iha h.1, ihb h.2⟩
  | hash data ih => exact ih h
  | keyedHash key data ihk ihd => exact ⟨ihk h.1, ihd h.2⟩
  | power base scalars ih => exact ih h
  | twin point ih => exact ih h
  | decapKey | coins | kemSecret | kemReject => exact h
  | aead key nonce ad plaintext ihk iha ihp =>
    rcases h with ⟨hk, ha, hp⟩ | hnil
    · exact Or.inl ⟨ihk hk, iha ha, ihp hp⟩
    · simp at hnil

theorem clean_diffieHellman (a : Nat) (h : Clean k r sent t) : Clean k r sent (diffieHellman a t) := by
  induction t with
  | lowOrder => trivial
  | twin point ih => exact ih h
  | power base scalars _ => exact h
  | raw | pair | hash | keyedHash | scalar | generator | decapKey | encapKey | coins | kemCiphertext | kemSecret
  | kemReject | aead => exact h

theorem clean_decapsulate {k' : Nat} (hk : k' ≠ k) (t : Term) : Clean k r sent (decapsulate k' t) := by
  cases t with
  | kemCiphertext k₁ r₁ =>
    by_cases hk' : k₁ = k'
    · simp only [decapsulate, if_pos hk']
      exact fun h => hk h.1
    · simp only [decapsulate, if_neg hk']
      exact hk
  | raw | pair | hash | keyedHash | scalar | generator | lowOrder | power | twin | decapKey | encapKey | coins
  | kemSecret | kemReject | aead => exact hk

/-- Who has nothing of the secret, and sees the ciphertexts that are sent, gets nothing of it. -/
theorem derives_clean (hK : ∀ t ∈ K, Clean k r sent t)
    (hsent : ∀ key nonce ad plaintext, .aead key nonce ad plaintext ∈ sent → Clean k r sent plaintext)
    (h : Derives K t) : Clean k r sent t := by
  induction h with
  | known ht => exact hK _ ht
  | raw | generator | lowOrder | encapKey => trivial
  | pair _ _ iha ihb => exact ⟨iha, ihb⟩
  | left _ ih => exact ih.1
  | right _ ih => exact ih.2
  | hash _ ih => exact ih
  | keyedHash _ _ ihk ihd => exact ⟨ihk, ihd⟩
  | diffieHellman _ _ _ ih => exact clean_diffieHellman _ ih
  | twin _ ih => exact ih
  | encapsulate => trivial
  | encapsulated _ _ ih => exact fun hboth => ih hboth.2
  | decapsulate _ _ ih _ => exact clean_decapsulate ih _
  | aead _ _ _ _ ihk iha ihp => exact Or.inl ⟨ihk, iha, ihp⟩
  | opened _ _ ih _ =>
    rcases ih with ⟨-, -, hp⟩ | hmem
    · exact hp
    · exact hsent _ _ _ _ hmem

end HidraNet.Symbolic
