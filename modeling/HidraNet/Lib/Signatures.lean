import HidraNet.Lib.Symbolic

/-!
# Signatures and exchanges

A signer has a pair of keys that it uses for nothing else.  A signature is a keyed hash under the secret one, which no one
else makes and everyone checks with the other.

What an attacker may see (`Shown`) has no secret of the parties that keep theirs: of their scalars no point has more than
one, of their signatures over messages of a given kind it has those of a list, and of what hangs on two of their scalars it
has the ciphertexts of a list.  All that is made of such terms is such a term (`derives_shown`), so a key that hangs on two
of the scalars is not made (`not_shown_keyed`), and a signature of the kind is one of the list (`mem_of_shown`).
-/

namespace HidraNet.Symbolic

open Term

namespace Term

def verifyingKey (k : Nat) : Term := .encapKey k

def signature (k : Nat) (message : Term) : Term := .keyedHash (.decapKey k) message

theorem publicKey_eq (a : Nat) : publicKey a = .power .generator {a} := rfl

theorem publicKey_inj {a b : Nat} : publicKey a = publicKey b ↔ a = b := by
  rw [publicKey_eq, publicKey_eq, Term.power.injEq]
  simp

theorem diffieHellman_publicKey (a b : Nat) : diffieHellman a (publicKey b) = .power .generator {a, b} := rfl

end Term

/-- Who keeps what to itself, and what it made of it that is seen all the same. -/
structure Kept where
  scalar : Nat → Bool
  signer : Nat → Prop
  /-- The messages that signers sign for one purpose only. -/
  kind : Term → Prop
  signed : List (Nat × Term)
  sent : List Term

/-- What an attacker may see. -/
def Shown (s : Kept) : Term → Prop
  | .raw _ | .generator | .lowOrder | .encapKey _ | .coins _ | .kemCiphertext _ _ | .kemSecret _ _ => True
  | .pair a b => Shown s a ∧ Shown s b
  | .hash data => Shown s data
  | .keyedHash key data =>
    (Shown s key ∧ Shown s data) ∨ ∃ k, key = .decapKey k ∧ (s.kind data → (k, data) ∈ s.signed)
  | .scalar a => s.scalar a = false
  | .power base scalars => Shown s base ∧ scalars.countP (s.scalar ·) ≤ 1
  | .twin point => Shown s point
  | .decapKey k => ¬ s.signer k
  | .kemReject k _ => ¬ s.signer k
  | .aead key nonce ad plaintext =>
    (Shown s key ∧ Shown s ad ∧ Shown s plaintext) ∨ .aead key nonce ad plaintext ∈ s.sent

variable {s s' : Kept} {K : Set Term} {t : Term}

theorem Shown.mono (h : Shown s t) (hscalar : s'.scalar = s.scalar) (hsigner : s'.signer = s.signer)
    (hkind : s'.kind = s.kind) (hsigned : s.signed ⊆ s'.signed) (hsent : s.sent ⊆ s'.sent) : Shown s' t := by
  induction t with
  | raw | generator | lowOrder | encapKey | coins | kemCiphertext | kemSecret => trivial
  | pair a b iha ihb => exact ⟨iha h.1, ihb h.2⟩
  | hash data ih => exact ih h
  | keyedHash key data ihk ihd =>
    obtain ⟨hk, hd⟩ | ⟨k, hk, hd⟩ := h
    · exact .inl ⟨ihk hk, ihd hd⟩
    · refine .inr ⟨k, hk, fun hdata => hsigned (hd ?_)⟩
      rwa [hkind] at hdata
  | scalar a =>
    unfold Shown at h ⊢
    rw [hscalar]
    exact h
  | power base scalars ih =>
    refine ⟨ih h.1, ?_⟩
    rw [hscalar]
    exact h.2
  | twin point ih => exact ih h
  | decapKey k =>
    unfold Shown at h ⊢
    rw [hsigner]
    exact h
  | kemReject k ciphertext =>
    unfold Shown at h ⊢
    rw [hsigner]
    exact h
  | aead key nonce ad plaintext ihk iha ihp =>
    obtain ⟨hk, ha, hp⟩ | hmem := h
    · exact .inl ⟨ihk hk, iha ha, ihp hp⟩
    · exact .inr (hsent hmem)

theorem shown_diffieHellman {a : Nat} (ha : s.scalar a = false) (h : Shown s t) : Shown s (diffieHellman a t) := by
  induction t with
  | lowOrder => trivial
  | twin point ih => exact ih h
  | power base scalars _ =>
    refine ⟨h.1, ?_⟩
    rw [Multiset.countP_cons_of_neg _ (by simp [ha])]
    exact h.2
  | raw | pair | hash | keyedHash | scalar | generator | decapKey | encapKey | coins | kemCiphertext | kemSecret
  | kemReject | aead =>
    refine ⟨h, ?_⟩
    rw [← Multiset.cons_zero, Multiset.countP_cons_of_neg _ (by simp [ha])]
    simp

theorem shown_decapsulate {k : Nat} (hk : ¬ s.signer k) (t : Term) : Shown s (decapsulate k t) := by
  cases t with
  | kemCiphertext k₁ r₁ =>
    by_cases hk' : k₁ = k
    · simp only [decapsulate, if_pos hk']
      trivial
    · simp only [decapsulate, if_neg hk']
      exact hk
  | raw | pair | hash | keyedHash | scalar | generator | lowOrder | power | twin | decapKey | encapKey | coins
  | kemSecret | kemReject | aead => exact hk

/-- What is made of shown terms is shown. -/
theorem derives_shown (hK : ∀ t ∈ K, Shown s t)
    (hsent : ∀ key nonce ad plaintext, .aead key nonce ad plaintext ∈ s.sent → Shown s plaintext)
    (h : Derives K t) : Shown s t := by
  induction h with
  | known ht => exact hK _ ht
  | raw | generator | lowOrder | encapKey => trivial
  | pair _ _ iha ihb => exact ⟨iha, ihb⟩
  | left _ ih => exact ih.1
  | right _ ih => exact ih.2
  | hash _ ih => exact ih
  | keyedHash _ _ ihk ihd => exact .inl ⟨ihk, ihd⟩
  | diffieHellman _ _ iha ih => exact shown_diffieHellman iha ih
  | twin _ ih => exact ih
  | encapsulate | encapsulated => trivial
  | decapsulate _ _ ih _ => exact shown_decapsulate ih _
  | aead _ _ _ _ ihk iha ihp => exact .inl ⟨ihk, iha, ihp⟩
  | opened _ _ ih _ =>
    obtain ⟨-, -, hp⟩ | hmem := ih
    · exact hp
    · exact hsent _ _ _ _ hmem

theorem shown_publicKey (s : Kept) (a : Nat) : Shown s (publicKey a) := by
  refine ⟨trivial, ?_⟩
  rw [← Multiset.cons_zero]
  exact le_trans (Multiset.countP_le_card _ _) (by simp)

/-- A key that hangs on two of the scalars is not shown. -/
theorem not_shown_keyed {a b : Nat} (ha : s.scalar a) (hb : s.scalar b) (label : List UInt8) (data : Term) :
    ¬ Shown s (.keyedHash (.raw label) (.pair (diffieHellman a (publicKey b)) data)) := by
  rw [diffieHellman_publicKey]
  rintro (⟨-, ⟨-, hcount⟩, -⟩ | ⟨k, hk, -⟩)
  · rw [Multiset.insert_eq_cons, Multiset.countP_cons_of_pos (p := fun x => s.scalar x = true) _ ha, ← Multiset.cons_zero,
      Multiset.countP_cons_of_pos (p := fun x => s.scalar x = true) _ hb] at hcount
    omega
  · cases hk

/-- A signature of the kind that is shown is one of the list, if its signer keeps its secret. -/
theorem mem_of_shown {k : Nat} {message : Term} (h : Shown s (signature k message)) (hk : s.signer k)
    (hkind : s.kind message) : (k, message) ∈ s.signed := by
  obtain ⟨hkey, -⟩ | ⟨k', heq, hmem⟩ := h
  · exact absurd hk hkey
  · cases heq
    exact hmem hkind

theorem mem_of_shown_aead {key ad plaintext : Term} {nonce : Nat} (h : Shown s (.aead key nonce ad plaintext))
    (hkey : ¬ Shown s key) : .aead key nonce ad plaintext ∈ s.sent := by
  obtain ⟨hshown, -⟩ | hmem := h
  · exact absurd hshown hkey
  · exact hmem

end HidraNet.Symbolic
