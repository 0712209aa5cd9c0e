import Mathlib

/-!
# An ideal cipher

An authenticated cipher that is ideal: a ciphertext opens under a key and a nonce when it was sealed under them, and to
what was sealed (`opened`).  `log` is all that was ever sealed, in order.

Who seals under a key with the nonces of a counter (`Counted`) is opened in that order only: what opens as the `i`-th
is what was sealed as the `i`-th (`opened_iff`).
-/

namespace HidraNet.Aead

structure Sealed (κ ν β : Type*) where
  key : κ
  nonce : ν
  plaintext : β
  ciphertext : β
deriving DecidableEq

variable {κ ν β : Type*} [DecidableEq κ] {log log' : List (Sealed κ ν β)} {key : κ} {nonce : Nat → ν}

def under (log : List (Sealed κ ν β)) (key : κ) : List (Sealed κ ν β) := log.filter fun e => e.key = key

theorem mem_under {e : Sealed κ ν β} : e ∈ under log key ↔ e ∈ log ∧ e.key = key := by simp [under]

theorem under_append (log log' : List (Sealed κ ν β)) (key : κ) :
    under (log ++ log') key = under log key ++ under log' key := List.filter_append ..

theorem under_eq_nil (h : ∀ e ∈ log, e.key ≠ key) : under log key = [] := by
  unfold under
  rw [List.filter_eq_nil_iff]
  simpa using h

theorem under_eq_singleton {i : Nat} {e : Sealed κ ν β} (he : log[i]? = some e) (hkey : e.key = key)
    (honly : ∀ j e', log[j]? = some e' → e'.key = key → j = i) : under log key = [e] := by
  induction log generalizing i with
  | nil => simp at he
  | cons e' log ih =>
    unfold under at ih ⊢
    cases i with
    | zero =>
      cases he
      have hrest : under log key = [] := by
        refine under_eq_nil fun e' he' hkey' => ?_
        obtain ⟨j, hj⟩ := List.mem_iff_getElem?.1 he'
        have := honly (j + 1) e' (by simpa using hj) hkey'
        omega
      rw [List.filter_cons_of_pos (by simpa using hkey)]
      exact congrArg _ hrest
    | succ i =>
      have hne : e'.key ≠ key := by
        intro hkey'
        have := honly 0 e' rfl hkey'
        omega
      rw [List.filter_cons_of_neg (by simpa using hne)]
      refine ih (by simpa using he) fun j e'' hj hkey' => ?_
      have := honly (j + 1) e'' (by simpa using hj) hkey'
      omega

def Counted (nonce : Nat → ν) (log : List (Sealed κ ν β)) (key : κ) : Prop :=
  ∀ i e, (under log key)[i]? = some e → e.nonce = nonce i

theorem counted_nil (h : under log key = []) : Counted nonce log key := by
  intro i e he
  simp [h] at he

theorem Counted.congr (h : Counted nonce log key) (heq : under log' key = under log key) :
    Counted nonce log' key := by
  unfold Counted
  rwa [heq]

theorem Counted.seal (h : Counted nonce log key) {e : Sealed κ ν β} (hlog : under log' key = under log key ++ [e])
    (he : e.nonce = nonce (under log key).length) : Counted nonce log' key := by
  intro i e' hi
  rw [hlog, List.getElem?_append] at hi
  split at hi
  · exact h i e' hi
  · rename_i hlen
    obtain ⟨hi', rfl⟩ := List.getElem?_eq_some_iff.1 hi
    rw [List.length_singleton] at hi'
    obtain rfl : i = (under log key).length := by omega
    simpa using he

variable [DecidableEq ν] [DecidableEq β] {n : ν} {c p : β}

def opened (log : List (Sealed κ ν β)) (key : κ) (n : ν) (c : β) : Option β :=
  (log.find? fun e => e.key = key ∧ e.nonce = n ∧ e.ciphertext = c).map Sealed.plaintext

theorem mem_of_opened (h : opened log key n c = some p) : ⟨key, n, p, c⟩ ∈ log := by
  obtain ⟨e, he, rfl⟩ := Option.map_eq_some_iff.1 h
  have hp := List.find?_some he
  simp only [decide_eq_true_eq] at hp
  obtain ⟨rfl, rfl, rfl⟩ := hp
  exact List.mem_of_find?_eq_some he

theorem opened_of_mem {e : Sealed κ ν β} (h : e ∈ log) : ∃ p, opened log e.key e.nonce e.ciphertext = some p := by
  rw [← Option.isSome_iff_exists, opened, Option.isSome_map, List.find?_isSome]
  exact ⟨e, h, by simp⟩

/-- What opens as the `i`-th under a counted key is what was sealed as the `i`-th. -/
theorem opened_iff (h : Counted nonce log key) {i : Nat}
    (hinj : ∀ j < (under log key).length, nonce j = nonce i → j = i) :
    opened log key (nonce i) c = some p ↔
      ∃ e, (under log key)[i]? = some e ∧ e.ciphertext = c ∧ e.plaintext = p := by
  have hfirst : ∀ p, opened log key (nonce i) c = some p →
      ∃ e, (under log key)[i]? = some e ∧ e.ciphertext = c ∧ e.plaintext = p := by
    intro p hp
    obtain ⟨j, hj, he⟩ := List.mem_iff_getElem.1 (mem_under.2 ⟨mem_of_opened hp, rfl⟩)
    have hnonce := h j _ (List.getElem?_eq_getElem hj)
    rw [he] at hnonce
    obtain rfl := hinj j hj hnonce.symm
    exact ⟨_, by rw [List.getElem?_eq_getElem hj, he], rfl, rfl⟩
  refine ⟨hfirst p, ?_⟩
  rintro ⟨e, he, rfl, rfl⟩
  have hmem := mem_under.1 (List.mem_of_getElem? he)
  obtain ⟨p', hp'⟩ := opened_of_mem hmem.1
  rw [hmem.2, h i e he] at hp'
  obtain ⟨e', he', -, rfl⟩ := hfirst p' hp'
  rw [he, Option.some.injEq] at he'
  rw [hp', he']

end HidraNet.Aead
