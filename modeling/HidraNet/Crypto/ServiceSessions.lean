import HidraNet.Crypto.ServiceAuth
import HidraNet.Lib.Maps

/-!
# Who is at the other end

A client that finishes with a key that its owner keeps has met that owner (`Met`): a service answered this very hello with
that key, and both have the same two keys (`Agreed`).  No one else has these, so what opens was sealed by the other end,
as the message of that number (`Sound.opened`).

An opening that fails takes a number all the same.  The next message opens then, after a gap; the streams are prefixes
where no end that has failed is given the message of its number (`InTurn`, `session_run`).
-/

namespace HidraNet.ServiceAuth

open HidraNet.Core (asBytes)
open Maps Symbolic Runs
open Symbolic.Term (publicKey diffieHellman opened verifyingKey signature publicKey_inj diffieHellman_publicKey
  diffieHellman_comm opened_iff)

variable {own : Nat → Bool} {keep : Nat → Prop} {K : Set Term} {w : World}

/-! ### What is to hold -/

/-- A client and the service that answered its hello, with one key for each direction. -/
structure Met (w : World) (k i j : Nat) (p q : Party) : Prop where
  hello : ∃ c a, w.clients i = some c ∧ w.services j = some a ∧ c.servicePubkey = verifyingKey k ∧ a.key = k ∧
    a.hello = c.handshake.hello
  client : w.ends (.client i) = some p
  service : w.ends (.service j) = some q
  c2s : p.channel.send.key = q.channel.recv.key
  s2c : p.channel.recv.key = q.channel.send.key
  apart : p.channel.send.key ≠ p.channel.recv.key

def Agreed (keep : Nat → Prop) (w : World) : Prop :=
  ∀ k i c p, keep k → w.clients i = some c → c.servicePubkey = verifyingKey k → w.ends (.client i) = some p →
    ∃ j q, Met w k i j p q

def Stream (sealings : List (Option Bytes)) (openings : List (Option Term)) : Prop :=
  ∃ plaintexts failed, openings = plaintexts.map (fun b => some (.raw b)) ++ List.replicate failed none ∧
    plaintexts <+: sealings.filterMap id

def Streams (keep : Nat → Prop) (w : World) : Prop :=
  ∀ k i j p q, keep k → Met w k i j p q → Stream p.sealings q.openings ∧ Stream q.sealings p.openings

/-! ### What may happen -/

def IsTranscript (t : Term) : Prop := ∃ hash clientEph nonce serviceEph, t = transcript hash clientEph nonce serviceEph

def World.kept (own : Nat → Bool) (keep : Nat → Prop) (w : World) : Kept := ⟨own, keep, IsTranscript, w.signed, w.sent⟩

def World.seen (K : Set Term) (w : World) : Set Term := K ∪ {t | t ∈ w.network}

/-- Scalars are drawn anew, and the relay gives each what it can make. -/
def Possible (own : Nat → Bool) (K : Set Term) (w : World) : Event → Prop
  | .start _ eph _ _ => own eph ∧ eph ∉ w.drawn
  | .answer _ _ eph hello => (own eph ∧ eph ∉ w.drawn) ∧ Derives (w.seen K) hello
  | .finish _ answer => Derives (w.seen K) answer
  | .sealing _ _ => True
  | .opening _ ciphertext => Derives (w.seen K) ciphertext

def numbered (key : Term) (n : Nat) : Term → Bool
  | .aead k m _ _ => decide (k = key ∧ m = n)
  | _ => false

/-- An end that failed to open a message is not given the one that was sealed with the number of its call. -/
def InTurn (w : World) : Event → Prop
  | .opening e ciphertext =>
    match w.ends e with
    | some p => none ∈ p.openings → ciphertext ∈ w.sent →
      numbered p.channel.recv.key p.channel.recv.counter ciphertext = false
    | none => True
  | _ => True

instance (w : World) (e : Event) : Decidable (InTurn w e) := by
  unfold InTurn
  split
  · split <;> infer_instance
  · infer_instance

/-! ### Transcripts -/

theorem transcript_inj {h h' c c' n n' s s' : Term} :
    transcript h c n s = transcript h' c' n' s' ↔ h = h' ∧ c = c' ∧ n = n' ∧ s = s' := by
  simp [transcript]

theorem labels_ne : KDF_C2S ≠ KDF_S2C := by decide

def Secret (own : Nat → Bool) (key : Term) : Prop :=
  ∃ a b label data, own a ∧ own b ∧ key = .keyedHash (.raw label) (.pair (diffieHellman a (publicKey b)) data)

theorem Secret.not_shown {key : Term} (h : Secret own key) : ¬ Shown (w.kept own keep) key := by
  obtain ⟨a, b, label, data, ha, hb, rfl⟩ := h
  exact not_shown_keyed ha hb label data

/-! ### What holds of all runs -/

structure Sound (own : Nat → Bool) (keep : Nat → Prop) (w : World) : Prop where
  network : ∀ t ∈ w.network, Shown (w.kept own keep) t
  client (i : Nat) (c : Client) : w.clients i = some c → own c.handshake.eph ∧ c.handshake.eph ∈ w.drawn ∧
    c.handshake.ephPub = publicKey c.handshake.eph
  service (j : Nat) (a : Answered) : w.services j = some a → own a.eph ∧ a.eph ∈ w.drawn ∧
    ∃ x n, a.hello = .pair HELLO_MAGIC (.pair x n)
  clientApart (i i' : Nat) (c c' : Client) : w.clients i = some c → w.clients i' = some c' →
    c.handshake.eph = c'.handshake.eph → i = i'
  serviceApart (j j' : Nat) (a a' : Answered) : w.services j = some a → w.services j' = some a' → a.eph = a'.eph → j = j'
  signed (k : Nat) (t : Term) : (k, t) ∈ w.signed →
    ∃ j a, w.services j = some a ∧ a.key = k ∧ t = answerTranscript k a.eph a.hello
  serviceEnd (j : Nat) (q : Party) : w.ends (.service j) = some q → ∃ a, w.services j = some a
  serviceKeys (j : Nat) (a : Answered) : w.services j = some a → ∃ q x n, w.ends (.service j) = some q ∧
    a.hello = .pair HELLO_MAGIC (.pair x n) ∧ (q.channel.recv.key, q.channel.send.key) =
      sessionKeys (diffieHellman a.eph x) (answerTranscript a.key a.eph a.hello)
  clientKeys (i : Nat) (p : Party) : w.ends (.client i) = some p → ∃ c y k, w.clients i = some c ∧ c.answered ∧
    c.servicePubkey = verifyingKey k ∧ (p.channel.send.key, p.channel.recv.key) =
      sessionKeys (diffieHellman c.handshake.eph y)
        (transcript (serviceHashOf c.servicePubkey) c.handshake.ephPub c.handshake.nonce y) ∧
    (keep k → ∃ j a, w.services j = some a ∧ a.key = k ∧ a.hello = c.handshake.hello ∧ y = publicKey a.eph)
  counts (e : End) (p : Party) : w.ends e = some p → p.channel.send.counter = min p.sealings.length U64_MAX ∧
    p.channel.recv.counter = min p.openings.length U64_MAX
  origin : ∀ t ∈ w.sent, ∃ e p n b, w.ends e = some p ∧ t = .aead p.channel.send.key n nothing (.raw b) ∧
    p.sealings[n]? = some (some b)
  opened (e : End) (p : Party) : w.ends e = some p → Secret own p.channel.recv.key → ∀ (n : Nat) (t : Term),
    p.openings[n]? = some (some t) → ∃ e' p' b, w.ends e' = some p' ∧ p'.channel.send.key = p.channel.recv.key ∧
      t = Term.raw b ∧ p'.sealings[n]? = some (some b)

theorem Sound.shown (h : Sound own keep w) (hK : ∀ t ∈ K, Shown (World.new.kept own keep) t) {t : Term}
    (ht : Derives (w.seen K) t) : Shown (w.kept own keep) t := by
  refine derives_shown (fun t ht => ?_) (fun key nonce ad plaintext hmem => ?_) ht
  · obtain ht | ht := ht
    · exact (hK t ht).mono rfl rfl rfl (List.nil_subset _) (List.nil_subset _)
    · exact h.network t ht
  · obtain ⟨e, p, n, b, -, heq, -⟩ := h.origin _ hmem
    rw [(Term.aead.inj heq).2.2.2]
    trivial

theorem answerTranscript_eq (k eph : Nat) (m x n : Term) :
    answerTranscript k eph (.pair m (.pair x n)) =
      transcript (serviceHashOf (verifyingKey k)) x n (publicKey eph) := rfl

theorem Sound.send_inj (h : Sound own keep w) {e e' : End} {p p' : Party} (he : w.ends e = some p)
    (he' : w.ends e' = some p') (hkey : p.channel.send.key = p'.channel.send.key) : e = e' := by
  have hservice {j : Nat} {q : Party} (hj : w.ends (.service j) = some q) : ∃ a x n, w.services j = some a ∧
      q.channel.send.key = .keyedHash KDF_S2C (.pair (diffieHellman a.eph x)
        (transcript (serviceHashOf (verifyingKey a.key)) x n (publicKey a.eph))) := by
    obtain ⟨a, ha⟩ := h.serviceEnd j q hj
    obtain ⟨q', x, n, hq', hhello, hkeys⟩ := h.serviceKeys j a ha
    obtain rfl := Option.some.inj (hj.symm.trans hq')
    rw [hhello] at hkeys
    exact ⟨a, x, n, ha, (Prod.mk.inj hkeys).2⟩
  have hclient {i : Nat} {q : Party} (hi : w.ends (.client i) = some q) : ∃ c y n hash, w.clients i = some c ∧
      q.channel.send.key = .keyedHash KDF_C2S (.pair (diffieHellman c.handshake.eph y)
        (transcript hash (publicKey c.handshake.eph) n y)) := by
    obtain ⟨c, y, k, hc, -, -, hkeys, -⟩ := h.clientKeys i q hi
    rw [(h.client i c hc).2.2] at hkeys
    exact ⟨c, y, _, _, hc, (Prod.mk.inj hkeys).1⟩
  cases e with
  | client i =>
    obtain ⟨c, y, n, hash, hc, hsend⟩ := hclient he
    cases e' with
    | client i' =>
      obtain ⟨c', y', n', hash', hc', hsend'⟩ := hclient he'
      rw [hsend, hsend', Term.keyedHash.injEq, Term.pair.injEq, transcript_inj, publicKey_inj] at hkey
      rw [h.clientApart i i' c c' hc hc' hkey.2.2.2.1]
    | service j' =>
      obtain ⟨a, x, m, -, hsend'⟩ := hservice he'
      rw [hsend, hsend', Term.keyedHash.injEq] at hkey
      exact absurd hkey.1 labels_ne
  | service j =>
    obtain ⟨a, x, n, ha, hsend⟩ := hservice he
    cases e' with
    | client i' =>
      obtain ⟨c', y', n', hash', -, hsend'⟩ := hclient he'
      rw [hsend, hsend', Term.keyedHash.injEq] at hkey
      exact absurd hkey.1.symm labels_ne
    | service j' =>
      obtain ⟨a', x', n', ha', hsend'⟩ := hservice he'
      rw [hsend, hsend', Term.keyedHash.injEq, Term.pair.injEq, transcript_inj, publicKey_inj] at hkey
      rw [h.serviceApart j j' a a' ha ha' hkey.2.2.2.2.2]

theorem Sound.start (h : Sound own keep w) {i eph : Nat} {nonce : Bytes} {servicePubkey : Term}
    (hown : own eph) (hnew : eph ∉ w.drawn) : Sound own keep (w.step (.start i eph nonce servicePubkey)) := by
  unfold World.step
  dsimp only
  split
  · exact h
  · rename_i hfree
    rw [Option.not_isSome_iff_eq_none] at hfree
    constructor <;> dsimp only
    · intro t ht
      obtain ht | ht := List.mem_append.1 ht
      · exact h.network t ht
      · rw [List.mem_singleton.1 ht]
        exact ⟨trivial, shown_publicKey _ _, trivial⟩
    · have hclient := h.client
      simp only [Function.update_apply]
      grind [ClientHandshake.start]
    · have hservice := h.service
      grind
    · have hclient := h.client
      have hapart := h.clientApart
      simp only [Function.update_apply]
      grind [ClientHandshake.start]
    · exact h.serviceApart
    · exact h.signed
    · exact h.serviceEnd
    · exact h.serviceKeys
    · intro i' p hp
      obtain ⟨c, y, k, hc, hrest⟩ := h.clientKeys i' p hp
      exact ⟨c, y, k, update_new hfree hc, hrest⟩
    · exact h.counts
    · exact h.origin
    · exact h.opened

/-! ### The calls -/

theorem answerHello_ok {k eph : Nat} {hello answer : Term} {ch : SealedChannel}
    (h : answerHello k eph hello = .ok (ch, answer)) : ∃ x n, hello = .pair HELLO_MAGIC (.pair x n) ∧
      (ch.recv.key, ch.send.key) = sessionKeys (diffieHellman eph x) (answerTranscript k eph hello) ∧
      ch.send.counter = 0 ∧ ch.recv.counter = 0 ∧
      answer = .pair ANSWER_MAGIC (.pair (publicKey eph) (signature k (answerTranscript k eph hello))) := by
  unfold answerHello at h
  split at h
  · rename_i magic x n
    split_ifs at h with hmagic
    rw [not_not] at hmagic
    dsimp only at h
    split_ifs at h with hlow
    cases h
    exact ⟨x, n, by rw [hmagic], rfl, rfl, rfl, rfl⟩
  · cases h

theorem finish_ok {c : ClientHandshake} {pk answer : Term} {ch : SealedChannel} (h : c.finish pk answer = .ok ch) :
    ∃ y k, pk = verifyingKey k ∧
      answer = .pair ANSWER_MAGIC (.pair y (signature k (transcript (serviceHashOf pk) c.ephPub c.nonce y))) ∧
      (ch.send.key, ch.recv.key) =
        sessionKeys (diffieHellman c.eph y) (transcript (serviceHashOf pk) c.ephPub c.nonce y) ∧
      ch.send.counter = 0 ∧ ch.recv.counter = 0 := by
  unfold ClientHandshake.finish at h
  split at h
  · rename_i magic y sig
    split_ifs at h with hmagic
    rw [not_not] at hmagic
    dsimp only at h
    split at h
    · rename_i k
      split_ifs at h with hsig hlow
      rw [not_not] at hsig
      cases h
      exact ⟨y, k, rfl, by rw [hmagic, hsig], rfl, rfl, rfl⟩
    · cases h
  · cases h

theorem Sound.answer (h : Sound own keep w) {j k eph : Nat} {hello : Term} (hown : own eph) (hnew : eph ∉ w.drawn) :
    Sound own keep (w.step (.answer j k eph hello)) := by
  unfold World.step
  dsimp only
  split
  · exact h
  · rename_i hfree
    rw [Option.not_isSome_iff_eq_none] at hfree
    split
    · have hclient := h.client
      have hservice := h.service
      exact ⟨h.network, by grind, by grind, h.clientApart, h.serviceApart, h.signed, h.serviceEnd, h.serviceKeys,
        h.clientKeys, h.counts, h.origin, h.opened⟩
    · rename_i ch answer hanswer
      obtain ⟨x, n, hhello, hkeys, hsend, hrecv, rfl⟩ := answerHello_ok hanswer
      have hnone : w.ends (.service j) = none := by
        rw [Option.eq_none_iff_forall_ne_some]
        intro q hq
        obtain ⟨a, ha⟩ := h.serviceEnd j q hq
        rw [hfree] at ha
        cases ha
      constructor <;> dsimp only
      · intro t ht
        obtain ht | ht := List.mem_append.1 ht
        · exact (h.network t ht).mono rfl rfl rfl (List.subset_append_left _ _) (List.Subset.refl _)
        · rw [List.mem_singleton.1 ht]
          exact ⟨trivial, shown_publicKey _ _, .inr ⟨k, rfl, fun _ => List.mem_append_right _ (List.mem_singleton_self _)⟩⟩
      · have hclient := h.client
        grind
      · have hservice := h.service
        simp only [Function.update_apply]
        grind
      · exact h.clientApart
      · have hservice := h.service
        have hapart := h.serviceApart
        simp only [Function.update_apply]
        grind
      · intro k' t ht
        obtain ht | ht := List.mem_append.1 ht
        · obtain ⟨j', a, ha, hrest⟩ := h.signed k' t ht
          exact ⟨j', a, update_new hfree ha, hrest⟩
        · obtain ⟨rfl, rfl⟩ := Prod.mk.inj (List.mem_singleton.1 ht)
          exact ⟨j, ⟨k', hello, eph⟩, Function.update_self .., rfl, rfl⟩
      · intro j' q hq
        obtain ⟨heq, -⟩ | ⟨-, hq⟩ := update_some.1 hq
        · exact ⟨_, by rw [End.service.inj heq, Function.update_self]⟩
        · obtain ⟨a, ha⟩ := h.serviceEnd j' q hq
          exact ⟨a, update_new hfree ha⟩
      · intro j' a ha
        obtain ⟨rfl, rfl⟩ | ⟨-, ha⟩ := update_some.1 ha
        · exact ⟨_, x, n, Function.update_self .., hhello, hkeys⟩
        · obtain ⟨q, x', n', hq, hrest⟩ := h.serviceKeys j' a ha
          exact ⟨q, x', n', update_new hnone hq, hrest⟩
      · intro i p hp
        rw [Function.update_of_ne (by nofun)] at hp
        obtain ⟨c, y, k', hc, hanswered, hpk, hkeys', hmet⟩ := h.clientKeys i p hp
        refine ⟨c, y, k', hc, hanswered, hpk, hkeys', fun hk => ?_⟩
        obtain ⟨j', a, ha, hrest⟩ := hmet hk
        exact ⟨j', a, update_new hfree ha, hrest⟩
      · have hcounts := h.counts
        simp only [Function.update_apply]
        grind [World.party]
      · intro t ht
        obtain ⟨e, p, m, b, he, hrest⟩ := h.origin t ht
        exact ⟨e, p, m, b, update_new hnone he, hrest⟩
      · intro e p he hsecret m t ht
        obtain ⟨-, rfl⟩ | ⟨-, he⟩ := update_some.1 he
        · cases ht
        · obtain ⟨e', p', b, he', hrest⟩ := h.opened e p he hsecret m t ht
          exact ⟨e', p', b, update_new hnone he', hrest⟩

theorem Sound.finish (h : Sound own keep w) (hK : ∀ t ∈ K, Shown (World.new.kept own keep) t) {i : Nat} {answer : Term}
    (hderives : Derives (w.seen K) answer) : Sound own keep (w.step (.finish i answer)) := by
  unfold World.step
  dsimp only
  split
  · exact h
  · rename_i c hc
    split
    · exact h
    · rename_i hwaiting
      have hnone : w.ends (.client i) = none := by
        rw [Option.eq_none_iff_forall_ne_some]
        intro p hp
        obtain ⟨c', y, k, hc', hanswered, -⟩ := h.clientKeys i p hp
        obtain rfl := Option.some.inj (hc.symm.trans hc')
        exact hwaiting hanswered
      have hanswered : Sound own keep
          { w with clients := Function.update w.clients i (some { c with answered := true }) } := by
        constructor <;> dsimp only
        · exact h.network
        · have hclient := h.client
          simp only [Function.update_apply]
          grind
        · exact h.service
        · have hapart := h.clientApart
          simp only [Function.update_apply]
          grind
        · exact h.serviceApart
        · exact h.signed
        · exact h.serviceEnd
        · exact h.serviceKeys
        · intro i' p hp
          obtain ⟨c', y, k, hc', hrest⟩ := h.clientKeys i' p hp
          refine ⟨c', y, k, ?_, hrest⟩
          rw [Function.update_of_ne]
          · exact hc'
          · rintro rfl
            rw [hnone] at hp
            cases hp
        · exact h.counts
        · exact h.origin
        · exact h.opened
      split
      · exact hanswered
      · rename_i ch hfinish
        obtain ⟨y, k, hpk, rfl, hkeys, hsend, hrecv⟩ := finish_ok hfinish
        constructor <;> dsimp only
        · exact hanswered.network
        · exact hanswered.client
        · exact hanswered.service
        · exact hanswered.clientApart
        · exact hanswered.serviceApart
        · exact hanswered.signed
        · intro j q hq
          rw [Function.update_of_ne (by nofun)] at hq
          exact h.serviceEnd j q hq
        · intro j a ha
          rw [Function.update_of_ne (by nofun)]
          exact h.serviceKeys j a ha
        · intro i' p hp
          obtain ⟨heq, rfl⟩ | ⟨-, hp⟩ := update_some.1 hp
          · obtain rfl := End.client.inj heq
            refine ⟨{ c with answered := true }, y, k, Function.update_self .., rfl, hpk, hkeys, fun hk => ?_⟩
            -- the signature was not made but by a service that answered
            have hsig := (h.shown hK hderives).2.2
            obtain ⟨j, a, ha, rfl, htranscript⟩ := h.signed k _ (mem_of_shown hsig hk ⟨_, _, _, _, rfl⟩)
            obtain ⟨-, -, x, n, hhello⟩ := h.service j a ha
            rw [hhello, answerTranscript_eq, transcript_inj] at htranscript
            obtain ⟨-, hx, hn, hy⟩ := htranscript
            exact ⟨j, a, ha, rfl, by rw [hhello, ClientHandshake.hello, hx, hn], hy⟩
          · exact hanswered.clientKeys i' p hp
        · have hcounts := h.counts
          simp only [Function.update_apply]
          grind [World.party]
        · intro t ht
          obtain ⟨e, p, m, b, he, hrest⟩ := h.origin t ht
          exact ⟨e, p, m, b, update_new hnone he, hrest⟩
        · intro e p he hsecret m t ht
          obtain ⟨-, rfl⟩ | ⟨-, he⟩ := update_some.1 he
          · cases ht
          · obtain ⟨e', p', b, he', hrest⟩ := h.opened e p he hsecret m t ht
            exact ⟨e', p', b, update_new hnone he', hrest⟩

theorem Sound.origin_update (h : Sound own keep w) {e : End} {p p' : Party} (he : w.ends e = some p)
    (hsend : p'.channel.send.key = p.channel.send.key)
    (hlog : ∀ (n : Nat) (b : Bytes), p.sealings[n]? = some (some b) → p'.sealings[n]? = some (some b)) {t : Term}
    (ht : t ∈ w.sent) : ∃ e' q n b, Function.update w.ends e (some p') e' = some q ∧
      t = .aead q.channel.send.key n nothing (.raw b) ∧ q.sealings[n]? = some (some b) := by
  obtain ⟨e', q, n, b, he', heq, hq⟩ := h.origin t ht
  by_cases hsame : e' = e
  · subst hsame
    obtain rfl := Option.some.inj (he.symm.trans he')
    exact ⟨e', p', n, b, Function.update_self .., by rw [hsend]; exact heq, hlog n b hq⟩
  · exact ⟨e', q, n, b, by rw [Function.update_of_ne hsame]; exact he', heq, hq⟩

theorem Sound.opened_update (h : Sound own keep w) {e : End} {p p' : Party} (he : w.ends e = some p)
    (hsend : p'.channel.send.key = p.channel.send.key)
    (hlog : ∀ (n : Nat) (b : Bytes), p.sealings[n]? = some (some b) → p'.sealings[n]? = some (some b))
    {e' : End} {q : Party} (he' : w.ends e' = some q) (hsecret : Secret own q.channel.recv.key) {n : Nat} {t : Term}
    (ht : q.openings[n]? = some (some t)) : ∃ e'' q' b, Function.update w.ends e (some p') e'' = some q' ∧
      q'.channel.send.key = q.channel.recv.key ∧ t = .raw b ∧ q'.sealings[n]? = some (some b) := by
  obtain ⟨e'', q', b, he'', hkey, heq, hq'⟩ := h.opened e' q he' hsecret n t ht
  by_cases hsame : e'' = e
  · subst hsame
    obtain rfl := Option.some.inj (he.symm.trans he'')
    exact ⟨e'', p', b, Function.update_self .., by rw [hsend]; exact hkey, heq, hlog n b hq'⟩
  · exact ⟨e'', q', b, by rw [Function.update_of_ne hsame]; exact he'', hkey, heq, hq'⟩

theorem Sound.update (h : Sound own keep w) {e : End} {p p' : Party} {network sent : List Term} (he : w.ends e = some p)
    (hsend : p'.channel.send.key = p.channel.send.key) (hrecv : p'.channel.recv.key = p.channel.recv.key)
    (hnetwork : ∀ t ∈ network, t ∈ w.network ∨ t ∈ sent) (hsent : w.sent ⊆ sent)
    (hcounts : p'.channel.send.counter = min p'.sealings.length U64_MAX ∧
      p'.channel.recv.counter = min p'.openings.length U64_MAX)
    (horigin : ∀ t ∈ sent, ∃ e' q n b, Function.update w.ends e (some p') e' = some q ∧
      t = .aead q.channel.send.key n nothing (.raw b) ∧ q.sealings[n]? = some (some b))
    (hopened : ∀ e' q, Function.update w.ends e (some p') e' = some q → Secret own q.channel.recv.key →
      ∀ (n : Nat) (t : Term), q.openings[n]? = some (some t) → ∃ e'' q' b,
        Function.update w.ends e (some p') e'' = some q' ∧ q'.channel.send.key = q.channel.recv.key ∧ t = .raw b ∧
        q'.sealings[n]? = some (some b)) :
    Sound own keep
      { w with ends := Function.update w.ends e (some p'), network := network, sent := sent } := by
  constructor <;> dsimp only
  · intro t ht
    obtain ht | ht := hnetwork t ht
    · exact (h.network t ht).mono rfl rfl rfl (List.Subset.refl _) hsent
    · obtain ⟨e', q, n, b, -, rfl, -⟩ := horigin t ht
      exact .inr ht
  · exact h.client
  · exact h.service
  · exact h.clientApart
  · exact h.serviceApart
  · exact h.signed
  · intro j q hq
    obtain ⟨rfl, -⟩ | ⟨-, hq⟩ := update_some.1 hq
    · exact h.serviceEnd j p he
    · exact h.serviceEnd j q hq
  · intro j a ha
    obtain ⟨q, x, n, hq, hhello, hkeys⟩ := h.serviceKeys j a ha
    by_cases hj : End.service j = e
    · subst hj
      obtain rfl := Option.some.inj (he.symm.trans hq)
      exact ⟨p', x, n, Function.update_self .., hhello, by rw [hsend, hrecv]; exact hkeys⟩
    · exact ⟨q, x, n, by rw [Function.update_of_ne hj]; exact hq, hhello, hkeys⟩
  · intro i q hq
    obtain ⟨rfl, rfl⟩ | ⟨-, hq⟩ := update_some.1 hq
    · rw [hsend, hrecv]
      exact h.clientKeys i p he
    · exact h.clientKeys i q hq
  · intro e' q hq
    obtain ⟨-, rfl⟩ | ⟨-, hq⟩ := update_some.1 hq
    · exact hcounts
    · exact h.counts e' q hq
  · exact horigin
  · exact hopened

/-- The counter moves with each message and stays at its end, where nothing more is sealed. -/
theorem sealNext_spec {ch ch' : SealedChannel} {plaintext : Bytes} {result : Except String Term}
    (h : ch.sealNext plaintext = (result, ch')) (hle : ch.send.counter ≤ U64_MAX) :
    ch'.recv = ch.recv ∧ ch'.send.key = ch.send.key ∧ ch'.send.counter = min (ch.send.counter + 1) U64_MAX ∧
      ∀ ciphertext, result = .ok ciphertext → ch.send.counter < U64_MAX ∧
        ciphertext = .aead ch.send.key ch.send.counter nothing (.raw plaintext) := by
  unfold SealedChannel.sealNext Direction.nonce at h
  by_cases hfull : ch.send.counter = U64_MAX
  · rw [if_pos hfull] at h
    obtain ⟨rfl, rfl⟩ := Prod.mk.inj h
    exact ⟨rfl, rfl, by omega, by nofun⟩
  · rw [if_neg hfull] at h
    obtain ⟨hresult, rfl⟩ := Prod.mk.inj h
    refine ⟨rfl, rfl, by dsimp only; omega, fun ciphertext hok => ⟨by omega, ?_⟩⟩
    rw [hok] at hresult
    split_ifs at hresult
    exact (Except.ok.inj hresult).symm

theorem openNext_spec {ch ch' : SealedChannel} {ciphertext : Term} {result : Except String Term}
    (h : ch.openNext ciphertext = (result, ch')) (hle : ch.recv.counter ≤ U64_MAX) :
    ch'.send = ch.send ∧ ch'.recv.key = ch.recv.key ∧ ch'.recv.counter = min (ch.recv.counter + 1) U64_MAX ∧
      ∀ plaintext, result = .ok plaintext → ch.recv.counter < U64_MAX ∧
        ciphertext = .aead ch.recv.key ch.recv.counter nothing plaintext := by
  unfold SealedChannel.openNext Direction.nonce at h
  by_cases hfull : ch.recv.counter = U64_MAX
  · rw [if_pos hfull] at h
    obtain ⟨rfl, rfl⟩ := Prod.mk.inj h
    exact ⟨rfl, rfl, by omega, by nofun⟩
  · rw [if_neg hfull] at h
    obtain ⟨hresult, rfl⟩ := Prod.mk.inj h
    refine ⟨rfl, rfl, by dsimp only; omega, fun plaintext hok => ⟨by omega, ?_⟩⟩
    rw [hok] at hresult
    split at hresult
    · rename_i plaintext' hopen
      obtain rfl := Except.ok.inj hresult
      exact opened_iff.1 hopen
    · cases hresult

theorem getElem?_concat {α : Type*} {l : List α} {a b : α} {n : Nat} (h : l[n]? = some b) : (l ++ [a])[n]? = some b := by
  obtain ⟨hn, -⟩ := List.getElem?_eq_some_iff.1 h
  rw [List.getElem?_append_left hn, h]

theorem Sound.sealed (h : Sound own keep w) {e : End} {p : Party} (he : w.ends e = some p) {ch : SealedChannel}
    {sealed : Option Bytes} {out : List Term} (hrecv : ch.recv = p.channel.recv)
    (hkey : ch.send.key = p.channel.send.key) (hcounter : ch.send.counter = min (p.channel.send.counter + 1) U64_MAX)
    (hout : ∀ t ∈ out, ∃ b, sealed = some b ∧ p.channel.send.counter < U64_MAX ∧
      t = .aead p.channel.send.key p.channel.send.counter nothing (.raw b)) :
    Sound own keep
      { w with
        ends := Function.update w.ends e (some { p with channel := ch, sealings := p.sealings ++ [sealed] })
        network := w.network ++ out
        sent := w.sent ++ out } := by
  obtain ⟨hsends, hrecvs⟩ := h.counts e p he
  apply h.update he hkey
  · rw [hrecv]
  · intro t ht
    rw [List.mem_append] at ht ⊢
    exact ht.imp_right .inr
  · exact List.subset_append_left _ _
  · rw [hrecv, hcounter, List.length_append, List.length_singleton]
    exact ⟨by omega, hrecvs⟩
  · intro t ht
    obtain ht | ht := List.mem_append.1 ht
    · exact h.origin_update he hkey (fun n b hn => getElem?_concat hn) ht
    · obtain ⟨b, rfl, hlt, rfl⟩ := hout t ht
      refine ⟨e, _, p.channel.send.counter, b, Function.update_self .., by rw [hkey], ?_⟩
      have hlength : p.channel.send.counter = p.sealings.length := by omega
      rw [hlength, List.getElem?_concat_length]
  · intro e' q hq hsecret n t ht
    obtain ⟨-, rfl⟩ | ⟨-, hq⟩ := update_some.1 hq
    · dsimp only at hsecret ht ⊢
      rw [hrecv] at hsecret ⊢
      exact h.opened_update he hkey (fun n b hn => getElem?_concat hn) he hsecret ht
    · exact h.opened_update he hkey (fun n b hn => getElem?_concat hn) hq hsecret ht

theorem Sound.sealing (h : Sound own keep w) (e : End) (plaintext : Bytes) :
    Sound own keep (w.step (.sealing e plaintext)) := by
  unfold World.step
  dsimp only
  cases he : w.ends e with
  | none => exact h
  | some p =>
    obtain ⟨hsends, -⟩ := h.counts e p he
    dsimp only
    cases hseal : p.channel.sealNext plaintext with
    | mk result ch =>
      obtain ⟨hrecv, hkey, hcounter, hok⟩ := sealNext_spec hseal (by omega)
      cases result with
      | error m =>
        have hsealed := @Sound.sealed own keep w h e p he ch none [] hrecv hkey hcounter (by nofun)
        simpa only [List.append_nil] using hsealed
      | ok ciphertext =>
        obtain ⟨hlt, heq⟩ := hok ciphertext rfl
        refine h.sealed he hrecv hkey hcounter fun t ht => ⟨plaintext, rfl, hlt, ?_⟩
        rw [List.mem_singleton.1 ht, heq]

theorem Sound.opening (h : Sound own keep w) (hK : ∀ t ∈ K, Shown (World.new.kept own keep) t) {e : End}
    {ciphertext : Term} (hderives : Derives (w.seen K) ciphertext) :
    Sound own keep (w.step (.opening e ciphertext)) := by
  unfold World.step
  dsimp only
  cases he : w.ends e with
  | none => exact h
  | some p =>
    obtain ⟨hsends, hrecvs⟩ := h.counts e p he
    dsimp only
    cases hopen : p.channel.openNext ciphertext with
    | mk result ch =>
      obtain ⟨hsend, hkey, hcounter, hok⟩ := openNext_spec hopen (by omega)
      have hsendKey : ch.send.key = p.channel.send.key := by rw [hsend]
      let p' : Party := { p with channel := ch, openings := p.openings ++ [result.toOption] }
      dsimp only
      apply @Sound.update own keep w h e p p' _ _ he hsendKey hkey (fun t ht => .inl ht) (List.Subset.refl _)
      · change ch.send.counter = _ ∧ ch.recv.counter = min (p.openings ++ [result.toOption]).length U64_MAX
        rw [hsend, hcounter, List.length_append, List.length_singleton]
        exact ⟨hsends, by omega⟩
      · exact fun t ht => @Sound.origin_update own keep w h e p p' he hsendKey (fun _ _ hn => hn) t ht
      · intro e' q hq hsecret n t ht
        by_cases hsame : e' = e
        · rw [hsame, Function.update_self] at hq
          obtain rfl := Option.some.inj hq
          change Secret own ch.recv.key at hsecret
          change (p.openings ++ [result.toOption])[n]? = _ at ht
          change ∃ e'' q' b, _ ∧ _ = ch.recv.key ∧ _
          rw [hkey] at hsecret ⊢
          rw [List.getElem?_append] at ht
          split at ht
          · exact @Sound.opened_update own keep w h e p p' he hsendKey (fun _ _ hn => hn) e p he hsecret n t ht
          · -- what opens now was sent, by the end that seals under the key
            rename_i hlast
            obtain ⟨hn, hresult⟩ := List.getElem?_eq_some_iff.1 ht
            rw [List.length_singleton] at hn
            rw [List.getElem_singleton] at hresult
            cases result with
            | error m => cases hresult
            | ok plaintext =>
              obtain rfl := Option.some.inj hresult
              obtain ⟨hlt, heq⟩ := hok plaintext rfl
              have hshown := h.shown hK hderives
              rw [heq] at hshown
              obtain ⟨e'', q', m, b, he'', hsame', hb⟩ := h.origin _ (mem_of_shown_aead hshown hsecret.not_shown)
              obtain ⟨hkey', hm, -, hplain⟩ := Term.aead.inj hsame'
              have hnumber : n = m := by omega
              by_cases hend : e'' = e
              · subst hend
                obtain rfl := Option.some.inj (he.symm.trans he'')
                exact ⟨e'', _, b, Function.update_self .., by rw [hsendKey, hkey'], hplain, by rw [hnumber]; exact hb⟩
              · exact ⟨e'', q', b, by rw [Function.update_of_ne hend]; exact he'', hkey'.symm, hplain,
                  by rw [hnumber]; exact hb⟩
        · rw [Function.update_of_ne hsame] at hq
          exact @Sound.opened_update own keep w h e p p' he hsendKey (fun _ _ hn => hn) e' q hq hsecret n t ht

theorem Sound.step (h : Sound own keep w) (hK : ∀ t ∈ K, Shown (World.new.kept own keep) t) {e : Event}
    (he : Possible own K w e) : Sound own keep (w.step e) := by
  cases e with
  | start i eph nonce servicePubkey => exact h.start he.1 he.2
  | answer j k eph hello => exact h.answer he.1.1 he.1.2
  | finish i answer => exact h.finish hK he
  | sealing e plaintext => exact h.sealing e plaintext
  | opening e ciphertext => exact h.opening hK he

theorem sound_new : Sound own keep .new := by
  constructor <;> simp [World.new]

/-! ### Sessions -/

theorem stream_of {sealings : List (Option Bytes)} {openings : List (Option Term)}
    (hopened : ∀ (n : Nat) (t : Term), openings[n]? = some (some t) →
      ∃ b, t = .raw b ∧ sealings[n]? = some (some b))
    (hfailed : openings.Pairwise fun first later => first = none → later = none) : Stream sealings openings := by
  induction openings generalizing sealings with
  | nil => exact ⟨[], 0, rfl, List.nil_prefix⟩
  | cons first openings ih =>
    obtain ⟨hlater, hrest⟩ := List.pairwise_cons.1 hfailed
    cases first with
    | none =>
      refine ⟨[], openings.length + 1, ?_, List.nil_prefix⟩
      rw [List.map_nil, List.nil_append, List.replicate_succ, List.eq_replicate_of_mem fun o ho => hlater o ho rfl,
        List.length_replicate]
    | some t =>
      obtain ⟨b, rfl, hb⟩ := hopened 0 t rfl
      cases sealings with
      | nil => cases hb
      | cons sealed sealings =>
        obtain rfl := Option.some.inj hb
        obtain ⟨plaintexts, failed, heq, hpre⟩ := ih (fun n t hn => hopened (n + 1) t hn) hrest
        refine ⟨b :: plaintexts, failed, by rw [heq]; rfl, ?_⟩
        change b :: plaintexts <+: b :: sealings.filterMap id
        exact List.cons_prefix_cons.2 ⟨rfl, hpre⟩

theorem Sound.secret (h : Sound own keep w) {k i : Nat} {c : Client} {p : Party} (hk : keep k)
    (hc : w.clients i = some c) (hpk : c.servicePubkey = verifyingKey k) (hp : w.ends (.client i) = some p) :
    Secret own p.channel.send.key ∧ Secret own p.channel.recv.key := by
  obtain ⟨c', y, k', hc', -, hpk', hkeys, hmet⟩ := h.clientKeys i p hp
  obtain rfl := Option.some.inj (hc.symm.trans hc')
  obtain rfl := Term.encapKey.inj (hpk.symm.trans hpk')
  obtain ⟨j, a, ha, -, -, rfl⟩ := hmet hk
  have hown := (h.client i c hc).1
  have hown' := (h.service j a ha).1
  obtain ⟨hsend, hrecv⟩ := Prod.mk.inj hkeys
  exact ⟨⟨_, _, _, _, hown, hown', hsend⟩, ⟨_, _, _, _, hown, hown', hrecv⟩⟩

theorem Sound.agreed (h : Sound own keep w) : Agreed keep w := by
  intro k i c p hk hc hpk hp
  obtain ⟨c', y, k', hc', -, hpk', hkeys, hmet⟩ := h.clientKeys i p hp
  obtain rfl := Option.some.inj (hc.symm.trans hc')
  obtain rfl := Term.encapKey.inj (hpk.symm.trans hpk')
  obtain ⟨j, a, ha, hkey, hhello, rfl⟩ := hmet hk
  obtain ⟨q, x, n, hq, hhello', hkeys'⟩ := h.serviceKeys j a ha
  -- both derive the same secret and have the same transcript
  have hsame : diffieHellman c.handshake.eph (publicKey a.eph) = diffieHellman a.eph x ∧
      transcript (serviceHashOf c.servicePubkey) c.handshake.ephPub c.handshake.nonce (publicKey a.eph) =
        answerTranscript a.key a.eph a.hello := by
    have hboth := hhello'.symm.trans hhello
    unfold ClientHandshake.hello at hboth
    obtain ⟨-, hboth⟩ := Term.pair.inj hboth
    obtain ⟨rfl, rfl⟩ := Term.pair.inj hboth
    rw [hhello', answerTranscript_eq, hkey, hpk, (h.client i c hc).2.2]
    exact ⟨diffieHellman_comm .., rfl⟩
  rw [hsame.1, hsame.2, ← hkeys'] at hkeys
  obtain ⟨hsend, hrecv⟩ := Prod.mk.inj hkeys
  refine ⟨j, q, ⟨c, a, hc, ha, hpk, hkey, hhello⟩, hp, hq, hsend, hrecv, ?_⟩
  intro heq
  rw [hsend, hrecv, (Prod.mk.inj hkeys').1, (Prod.mk.inj hkeys').2, Term.keyedHash.injEq] at heq
  exact labels_ne heq.1

def Orderly (own : Nat → Bool) (w : World) : Prop :=
  ∀ e p, w.ends e = some p → Secret own p.channel.recv.key →
    p.openings.Pairwise fun first later => first = none → later = none

theorem Sound.streams (h : Sound own keep w) (horderly : Orderly own w) : Streams keep w := by
  intro k i j p q hk hmet
  obtain ⟨c, a, hc, ha, hpk, hkey, hhello⟩ := hmet.hello
  obtain ⟨hsend, hrecv⟩ := h.secret hk hc hpk hmet.client
  constructor
  · rw [hmet.c2s] at hsend
    refine stream_of (fun n t ht => ?_) (horderly _ q hmet.service hsend)
    obtain ⟨e', p', b, he', hsame, rfl, hb⟩ := h.opened _ q hmet.service hsend n t ht
    obtain rfl := h.send_inj he' hmet.client (hsame.trans hmet.c2s.symm)
    obtain rfl := Option.some.inj (he'.symm.trans hmet.client)
    exact ⟨b, rfl, hb⟩
  · refine stream_of (fun n t ht => ?_) (horderly _ p hmet.client hrecv)
    obtain ⟨e', p', b, he', hsame, rfl, hb⟩ := h.opened _ p hmet.client hrecv n t ht
    obtain rfl := h.send_inj he' hmet.service (hsame.trans hmet.s2c)
    obtain rfl := Option.some.inj (he'.symm.trans hmet.service)
    exact ⟨b, rfl, hb⟩

theorem openings_step (w : World) (ev : Event) {e : End} {p : Party} (he : (w.step ev).ends e = some p) :
    p.openings = [] ∨ (∃ q, w.ends e = some q ∧ p.channel.recv.key = q.channel.recv.key ∧ p.openings = q.openings) ∨
      ∃ q ciphertext result ch, ev = .opening e ciphertext ∧ w.ends e = some q ∧
        q.channel.openNext ciphertext = (result, ch) ∧ p.channel.recv.key = ch.recv.key ∧
        p.openings = q.openings ++ [result.toOption] := by
  have hother {e' : End} {p' : Party} (hends : Function.update w.ends e' (some p') e = some p) (hne : e ≠ e') :
      ∃ q, w.ends e = some q ∧ p.channel.recv.key = q.channel.recv.key ∧ p.openings = q.openings := by
    rw [Function.update_of_ne hne] at hends
    exact ⟨p, hends, rfl, rfl⟩
  unfold World.step at he
  cases ev with
  | start i eph nonce servicePubkey =>
    dsimp only at he
    split_ifs at he <;> exact .inr (.inl ⟨p, he, rfl, rfl⟩)
  | answer j k eph hello =>
    dsimp only at he
    split_ifs at he
    · exact .inr (.inl ⟨p, he, rfl, rfl⟩)
    · split at he
      · exact .inr (.inl ⟨p, he, rfl, rfl⟩)
      · obtain ⟨-, rfl⟩ | ⟨-, he⟩ := update_some.1 he
        · exact .inl rfl
        · exact .inr (.inl ⟨p, he, rfl, rfl⟩)
  | finish i answer =>
    dsimp only at he
    split at he
    · exact .inr (.inl ⟨p, he, rfl, rfl⟩)
    · split_ifs at he
      · exact .inr (.inl ⟨p, he, rfl, rfl⟩)
      · split at he
        · exact .inr (.inl ⟨p, he, rfl, rfl⟩)
        · obtain ⟨-, rfl⟩ | ⟨-, he⟩ := update_some.1 he
          · exact .inl rfl
          · exact .inr (.inl ⟨p, he, rfl, rfl⟩)
  | sealing e' plaintext =>
    dsimp only at he
    split at he
    · exact .inr (.inl ⟨p, he, rfl, rfl⟩)
    · rename_i q hq
      by_cases hne : e = e'
      · subst hne
        refine .inr (.inl ⟨q, hq, ?_⟩)
        have hrecv : (q.channel.sealNext plaintext).2.recv = q.channel.recv := by
          unfold SealedChannel.sealNext
          split <;> rfl
        split at he <;> rename_i hseal <;> rw [hseal] at hrecv <;> dsimp only at he hrecv <;>
          rw [Function.update_self] at he <;> obtain rfl := Option.some.inj he <;>
          exact ⟨congrArg Direction.key hrecv, rfl⟩
      · split at he <;> exact .inr (.inl (hother he hne))
  | opening e' ciphertext =>
    dsimp only at he
    split at he
    · exact .inr (.inl ⟨p, he, rfl, rfl⟩)
    · rename_i q hq
      by_cases hne : e = e'
      · subst hne
        dsimp only at he
        rw [Function.update_self] at he
        obtain rfl := Option.some.inj he
        exact .inr (.inr ⟨q, ciphertext, _, _, rfl, hq, rfl, rfl, rfl⟩)
      · exact .inr (.inl (hother he hne))

theorem Orderly.step (h : Orderly own w) (hsound : Sound own keep w)
    (hK : ∀ t ∈ K, Shown (World.new.kept own keep) t) {ev : Event} (hpossible : Possible own K w ev)
    (hturn : InTurn w ev) : Orderly own (w.step ev) := by
  intro e p he hsecret
  obtain hnew | ⟨q, hq, hkey, hsame⟩ | ⟨q, ciphertext, result, ch, rfl, hq, hopen, hkey, hmore⟩ := openings_step w ev he
  · rw [hnew]
    exact .nil
  · rw [hkey] at hsecret
    rw [hsame]
    exact h e q hq hsecret
  · obtain ⟨-, hrecvs⟩ := hsound.counts e q hq
    obtain ⟨-, hkey', -, hok⟩ := openNext_spec hopen (by omega)
    rw [hkey, hkey'] at hsecret
    rw [hmore, List.pairwise_append]
    refine ⟨h e q hq hsecret, List.pairwise_singleton _ _, fun first hfirst later hlater hnone => ?_⟩
    rw [List.mem_singleton.1 hlater]
    cases result with
    | error m => rfl
    | ok plaintext =>
      obtain ⟨-, heq⟩ := hok plaintext rfl
      have hshown := hsound.shown hK hpossible
      rw [heq] at hshown
      have hsent := mem_of_shown_aead hshown hsecret.not_shown
      unfold InTurn at hturn
      dsimp only at hturn
      rw [hq] at hturn
      dsimp only at hturn
      rw [hnone] at hfirst
      have hturn := hturn hfirst (heq ▸ hsent)
      rw [heq] at hturn
      simp [numbered] at hturn

/-- Any run meets the owner of the key; the streams are prefixes where no end that failed is given the message of its
number. -/
theorem session_run (own : Nat → Bool) (keep : Nat → Prop) (K : Set Term)
    (hK : ∀ t ∈ K, Shown (World.new.kept own keep) t) (events : List Event)
    (hpossible : Along World.step (Possible own K) .new events) :
    Agreed keep (run World.step .new events) ∧
      (Along World.step InTurn .new events → Streams keep (run World.step .new events)) := by
  have hsound : Sound own keep (run World.step .new events) :=
    run_invariant (P := Sound own keep) (fun w e h he => h.step hK he) hpossible sound_new
  refine ⟨hsound.agreed, fun hturn => ?_⟩
  have hboth : Sound own keep (run World.step .new events) ∧ Orderly own (run World.step .new events) :=
    run_invariant (P := fun w => Sound own keep w ∧ Orderly own w)
      (fun w e h he => ⟨h.1.step hK he.1, h.2.step h.1 hK he.1 he.2⟩) (hpossible.and hturn)
      ⟨sound_new, by simp [Orderly, World.new]⟩
  exact hboth.1.streams hboth.2

private def hello : Term := (ClientHandshake.start 1 (List.replicate 32 0)).hello

private def meeting : List Event :=
  [.start 0 1 (List.replicate 32 0) (verifyingKey 7), .answer 0 7 2 hello,
    .finish 0 (.pair ANSWER_MAGIC (.pair (publicKey 2) (signature 7 (answerTranscript 7 2 hello)))),
    .sealing (.client 0) (asBytes "one"), .sealing (.client 0) (asBytes "two")]

private def keys (a b : Nat) : Term × Term := sessionKeys (diffieHellman a (publicKey b)) (answerTranscript 7 2 hello)

private theorem keys_comm : keys 2 1 = keys 1 2 := by
  have hshared : diffieHellman 2 (publicKey 1) = diffieHellman 1 (publicKey 2) := diffieHellman_comm ..
  rw [keys, hshared, keys]

private def first : Term := .aead (keys 2 1).1 0 nothing (.raw (asBytes "one"))

private def second : Term := .aead (keys 2 1).1 1 nothing (.raw (asBytes "two"))

private theorem possible_meeting : Along World.step (Possible (fun _ => true) ∅) .new meeting := by
  refine ⟨⟨rfl, by decide⟩, ⟨⟨rfl, by decide⟩, .known (.inr ?_)⟩, .known (.inr ?_), trivial, trivial, trivial⟩
  · show hello ∈ _
    decide
  · show _ ∈ (World.step _ _).network
    decide

/-- Both messages open. -/
theorem session_run_genuine :
    Streams (· = 7) (run World.step .new
      (meeting ++ [.opening (.service 0) first, .opening (.service 0) second])) := by
  refine (session_run (fun _ => true) (· = 7) ∅ (by simp) _ ?_).2 (by decide)
  refine (along_append _ _ _).2 ⟨possible_meeting, .known (.inr ?_), .known (.inr ?_), trivial⟩
  · show first ∈ (run World.step .new meeting).network
    rw [first, keys_comm]
    decide
  · show second ∈ (World.step (run World.step .new meeting) _).network
    rw [second, keys_comm]
    decide

private def altered : List Event :=
  meeting ++ [.opening (.service 0) (.raw []), .opening (.service 0) second]

private def sender : Party := ⟨⟨⟨(keys 1 2).1, 2⟩, ⟨(keys 1 2).2, 0⟩⟩, [some (asBytes "one"), some (asBytes "two")], []⟩

private def receiver : Party := ⟨⟨⟨(keys 2 1).2, 0⟩, ⟨(keys 2 1).1, 2⟩⟩, [], [none, some (.raw (asBytes "two"))]⟩

private theorem met_altered : Met (run World.step .new altered) 7 0 0 sender receiver where
  hello := ⟨⟨.start 1 (List.replicate 32 0), verifyingKey 7, true⟩, ⟨7, hello, 2⟩, by decide, by decide, rfl,
    rfl, rfl⟩
  client := by decide
  service := by decide
  c2s := by
    show (keys 1 2).1 = (keys 2 1).1
    rw [keys_comm]
  s2c := by
    show (keys 1 2).2 = (keys 2 1).2
    rw [keys_comm]
  apart := by decide

/-- The second message opens at the service, which has failed to open the first. -/
theorem opened_after_gap : ¬ ∀ (own : Nat → Bool) (keep : Nat → Prop) (K : Set Term),
    (∀ t ∈ K, Shown (World.new.kept own keep) t) → ∀ events, Along World.step (Possible own K) .new events →
      Agreed keep (run World.step .new events) ∧ Streams keep (run World.step .new events) := by
  intro h
  have hpossible : Along World.step (Possible (fun _ => true) ∅) .new altered := by
    refine (along_append _ _ _).2 ⟨possible_meeting, .raw _, .known (.inr ?_), trivial⟩
    show second ∈ (World.step (run World.step .new meeting) _).network
    rw [second, keys_comm]
    decide
  obtain ⟨⟨plaintexts, failed, heq, -⟩, -⟩ := (h _ (· = 7) ∅ (by simp) altered hpossible).2 7 0 0 _ _ rfl met_altered
  unfold receiver at heq
  dsimp only at heq
  cases plaintexts with
  | nil =>
    rw [List.map_nil, List.nil_append] at heq
    have hmem : some (Term.raw (asBytes "two")) ∈ List.replicate failed none := by
      rw [← heq]
      exact List.mem_cons_of_mem _ (List.mem_singleton_self _)
    cases List.eq_of_mem_replicate hmem
  | cons b plaintexts => cases heq

end HidraNet.ServiceAuth
