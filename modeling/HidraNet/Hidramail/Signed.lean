import HidraNet.Hidramail.Server

/-!
# What a mail's signature fixes

A mail's id and addresses are signed one after another with nothing between them, so the bytes do not say where one
ends.  Where the lengths are the same too, a signature is of one mail, and what the reader is shown as verified is what
one call of the send path put together (`fixes_iff`); or else a letter moves from one field to the next
(`sender_shortened`).
-/

namespace HidraNet.Hidramail

open Ints Json Utf8 Wire

variable {δ : Type*} (pk : Packages) (s : ServerState δ)

abbrev Call := SendRequest × Key × World

def Call.content (call : Call) : MailContent := ⟨call.1.subject, call.1.body⟩

def Call.delivered (call : Call) : Bool :=
  match call.2.2.delivered with
  | .ok resp => (readDeliveryAnswer resp).isOk
  | .error _ => false

def Call.signs (call : Call) : List MailEnvelope :=
  let envelope := makeEnvelope pk s call.1 call.2.1 call.2.2
  envelope :: if call.delivered then [makeSenderCopy pk s envelope (encode call.content.json) call.2.2] else []

def Verifies (e : MailEnvelope) (sig : List UInt8) : Prop :=
  verifySig pk (pk.verifyingKey s.signingKey).1 e.signingData sig = true

instance (e : MailEnvelope) (sig : List UInt8) : Decidable (Verifies pk s e sig) := instDecidableEqBool _ _

/-- Nobody else signs with the server's key, nor two texts alike; what opens was sealed for the key that opens it, and
what was sealed is one text; and a content is read as it was written. -/
structure Ideal (calls : List Call) : Prop where
  verifies : ∀ data sig, verifySig pk (pk.verifyingKey s.signingKey).1 data sig = true →
    ∃ call ∈ calls, ∃ e ∈ call.signs pk s, e.signingData = data ∧ e.signature = sig
  apart : ∀ call ∈ calls, ∀ e ∈ call.signs pk s, ∀ call' ∈ calls, ∀ e' ∈ call'.signs pk s,
    e.signature = e'.signature → e.signingData = e'.signingData
  opens : ∀ secret eph (nonce : Nonce) body text, pk.decrypt secret eph nonce.1 body = some text →
    ∃ k, body = pk.encrypt (pk.publicKey secret) k nonce.1 text
  seals : ∀ r k (n : Nonce) text r' k' (n' : Nonce) text', pk.encrypt r k n.1 text = pk.encrypt r' k' n'.1 text' →
    text = text'
  reads : ∀ call ∈ calls, pk.readContent (encode call.content.json) = .ok call.content

structure SameMail (e e' : MailEnvelope) : Prop where
  id : e.id = e'.id
  sender : e.fromAddr = e'.fromAddr
  recipient : e.toAddr = e'.toAddr
  timestamp : e.timestamp = e'.timestamp
  body : e.sealedBody = e'.sealedBody

/-- The fields that have no length of their own are as long. -/
structure SameLengths (e e' : MailEnvelope) : Prop where
  id : (encode e.id).length = (encode e'.id).length
  sender : (encode e.fromAddr).length = (encode e'.fromAddr).length
  recipient : (encode e.toAddr).length = (encode e'.toAddr).length

/-- The envelope says what the call put together, and whoever opens it reads that. -/
structure AsPut (call : Call) (e : MailEnvelope) : Prop where
  id : e.id = call.2.2.uuid.1
  sender : e.fromAddr = s.mailAddr
  recipient : e.toAddr = call.1.mailTo
  timestamp : e.timestamp = wrap64 call.2.2.now
  content : ∀ secret text, openMessage pk secret e.ephemeralPubkey e.sealedBody = .ok text →
    pk.readContent text = .ok call.content

section

variable {pk s} {calls : List Call} {call : Call} {e e' : MailEnvelope}

theorem SameMail.lengths (h : SameMail e e') : SameLengths e e' := by
  constructor
  · rw [h.id]
  · rw [h.sender]
  · rw [h.recipient]

theorem sameMail_of_data (hdata : e.signingData = e'.signingData) (h : SameLengths e e') (ht : e.timestamp < 2 ^ 64)
    (ht' : e'.timestamp < 2 ^ 64) : SameMail e e' := by
  unfold MailEnvelope.signingData at hdata
  have hsender : (encode e.id ++ encode e.fromAddr).length = (encode e'.id ++ encode e'.fromAddr).length := by
    rw [List.length_append, List.length_append, h.id, h.sender]
  have hrecipient : (encode e.id ++ encode e.fromAddr ++ encode e.toAddr).length =
      (encode e'.id ++ encode e'.fromAddr ++ encode e'.toAddr).length := by
    rw [List.length_append, hsender, h.recipient, ← List.length_append]
  have htimes : (encode e.id ++ encode e.fromAddr ++ encode e.toAddr ++ leBytes 8 e.timestamp).length =
      (encode e'.id ++ encode e'.fromAddr ++ encode e'.toAddr ++ leBytes 8 e'.timestamp).length := by
    rw [List.length_append, hrecipient]
    simp only [List.length_append, length_leBytes]
  obtain ⟨hfront, hbody⟩ := List.append_inj hdata htimes
  obtain ⟨hfront, htime⟩ := List.append_inj hfront hrecipient
  obtain ⟨hfront, hto⟩ := List.append_inj hfront hsender
  obtain ⟨hid, hfrom⟩ := List.append_inj hfront h.id
  refine ⟨encode_injective hid, encode_injective hfrom, encode_injective hto, ?_, hbody⟩
  rw [← ofLe_leBytes (show e.timestamp < 256 ^ 8 by omega), htime, ofLe_leBytes (show e'.timestamp < 256 ^ 8 by omega)]

private theorem of_mem_signs (h : e ∈ call.signs pk s) :
    e.id = call.2.2.uuid.1 ∧ e.fromAddr = s.mailAddr ∧ e.toAddr = call.1.mailTo ∧
      e.timestamp = wrap64 call.2.2.now ∧ ∃ (recipient ephemeral : Key) (nonce : Nonce),
        e.sealedBody = nonce.1 ++ pk.encrypt recipient ephemeral nonce.1 (encode call.content.json) := by
  unfold Call.signs at h
  rcases List.mem_cons.1 h with rfl | h
  · exact ⟨rfl, rfl, rfl, rfl, _, _, _, rfl⟩
  · split at h
    · obtain rfl := List.mem_singleton.1 h
      exact ⟨rfl, rfl, rfl, rfl, _, _, _, rfl⟩
    · cases h

theorem content_of_sealed (h : Ideal pk s calls) (hcall : call ∈ calls) {recipient ephemeral : Key} {nonce : Nonce}
    (hbody : e.sealedBody = nonce.1 ++ pk.encrypt recipient ephemeral nonce.1 (encode call.content.json))
    {secret : Key} {text : List UInt8} (hopen : openMessage pk secret e.ephemeralPubkey e.sealedBody = .ok text) :
    pk.readContent text = .ok call.content := by
  unfold openMessage at hopen
  split at hopen
  · split at hopen
    · cases hopen
    · rename_i hlength
      have hnonce : (e.sealedBody.take 12).length = 12 := by
        rw [List.length_take]
        omega
      split at hopen
      · cases hopen
      · rename_i plaintext hdecrypt
        obtain rfl := Except.ok.inj hopen
        obtain ⟨k, hk⟩ := h.opens _ _ ⟨e.sealedBody.take 12, hnonce⟩ _ _ hdecrypt
        have hsealed : e.sealedBody.drop 12 = pk.encrypt recipient ephemeral nonce.1 (encode call.content.json) := by
          rw [hbody, List.drop_left' nonce.2]
        rw [← h.seals _ _ _ _ _ _ _ _ (hsealed.symm.trans hk)]
        exact h.reads call hcall
  · cases hopen

/-- A signature of the server's that is of two envelopes is of one mail just when their lengths are the same, and what
is verified has the bytes of an envelope that a call signed, and is what the call put together just when it has the
lengths. -/
theorem fixes_iff (h : Ideal pk s calls) (ht : e.timestamp < 2 ^ 64) (ht' : e'.timestamp < 2 ^ 64) :
    ((∀ sig, Verifies pk s e sig → Verifies pk s e' sig → SameMail e e') ↔
        ((∃ sig, Verifies pk s e sig ∧ Verifies pk s e' sig) → SameLengths e e')) ∧
      (∀ sig, Verifies pk s e sig → ∃ call ∈ calls, ∃ m ∈ call.signs pk s, e.signingData = m.signingData ∧
        (AsPut pk s call e ↔ SameLengths e m)) := by
  constructor
  · constructor
    · rintro hsame ⟨sig, hsig, hsig'⟩
      exact (hsame sig hsig hsig').lengths
    · intro hlengths sig hsig hsig'
      obtain ⟨call, hcall, m, hm, hdata, hmsig⟩ := h.verifies _ _ hsig
      obtain ⟨call', hcall', m', hm', hdata', hmsig'⟩ := h.verifies _ _ hsig'
      have heq := h.apart call hcall m hm call' hcall' m' hm' (hmsig.trans hmsig'.symm)
      exact sameMail_of_data (hdata.symm.trans (heq.trans hdata')) (hlengths ⟨sig, hsig, hsig'⟩) ht ht'
  · intro sig hsig
    obtain ⟨call, hcall, m, hm, hdata, -⟩ := h.verifies _ _ hsig
    obtain ⟨hid, hfrom, hto, htime, recipient, ephemeral, nonce, hbody⟩ := of_mem_signs hm
    refine ⟨call, hcall, m, hm, hdata.symm, fun hput => ?_, fun hlengths => ?_⟩
    · constructor
      · rw [hput.id, hid]
      · rw [hput.sender, hfrom]
      · rw [hput.recipient, hto]
    · have hbound : m.timestamp < 2 ^ 64 := by
        rw [htime]
        exact Nat.mod_lt _ (by decide)
      have hsame := sameMail_of_data hdata.symm hlengths ht hbound
      exact ⟨hsame.id.trans hid, hsame.sender.trans hfrom, hsame.recipient.trans hto, hsame.timestamp.trans htime,
        fun secret text hopen => content_of_sealed h hcall (hsame.body.trans hbody) hopen⟩

end

/-! ### A letter moved -/

namespace Sample

def call : Call := (⟨"c@z.hidra".toList, "s".toList, "b".toList, some "z".toList⟩, key, world)

/-- A sealed body names the key it is for, the sender's, and the nonce. -/
def sealing : Packages where
  publicKey := id
  encrypt := fun recipient ephemeral nonce text => recipient.1 ++ (ephemeral.1 ++ (nonce ++ text))
  decrypt := fun secret eph nonce body =>
    if body.take 32 = secret.1 ∧ (body.drop 32).take 32 = eph.1 ∧ ((body.drop 32).drop 32).take 12 = nonce then
      some (((body.drop 32).drop 32).drop 12)
    else none
  verifyingKey := id
  sign := fun _ _ => List.replicate 64 0
  verify := fun _ _ _ => false
  readEnvelope := fun _ => .error []
  readContent := fun text => if text = encode call.content.json then .ok call.content else .error []
  readSendRequest := fun _ => .error []
  readPubkey := fun _ => .error []

def sent : MailEnvelope := makeEnvelope sealing server call.1 call.2.1 call.2.2

def signing : Packages :=
  { sealing with
    verify := fun vk data sig => vk = key.1 && data = sent.signingData && sig = List.replicate 64 0 }

def rekeyed : MailEnvelope := { sent with ephemeralPubkey := [7] }

def moved : MailEnvelope := { sent with id := sent.id ++ ['b'], fromAddr := "@x.hidra".toList }

private theorem ideal_signing : Ideal signing server [call] := by
  have hsigns : call.signs signing server = [sent] := rfl
  refine ⟨fun data sig hsig => ?_, ?_, ?_, ?_, ?_⟩
  · unfold verifySig at hsig
    split at hsig
    · cases hsig
    · have hsig : (_ && _ && _) = true := hsig
      simp only [Bool.and_eq_true, decide_eq_true_eq] at hsig
      refine ⟨call, List.mem_singleton_self _, sent, ?_, hsig.1.2.symm, hsig.2.symm⟩
      rw [hsigns]
      exact List.mem_singleton_self _
  · intro c hc e he c' hc' e' he' _
    obtain rfl := List.mem_singleton.1 hc
    obtain rfl := List.mem_singleton.1 hc'
    rw [hsigns] at he he'
    rw [List.mem_singleton.1 he, List.mem_singleton.1 he']
  · intro secret eph nonce body text hopen
    have hopen : (if _ ∧ _ ∧ _ then some _ else none) = some text := hopen
    split at hopen
    · rename_i hparts
      refine ⟨eph, ?_⟩
      show body = secret.1 ++ (eph.1 ++ (nonce.1 ++ text))
      rw [← Option.some.inj hopen, ← hparts.2.2, List.take_append_drop, ← hparts.2.1, List.take_append_drop, ← hparts.1,
        List.take_append_drop]
    · cases hopen
  · intro r k n text r' k' n' text' heq
    have heq : r.1 ++ (k.1 ++ (n.1 ++ text)) = r'.1 ++ (k'.1 ++ (n'.1 ++ text')) := heq
    have hrest := (List.append_inj heq (r.2.trans r'.2.symm)).2
    have hrest := (List.append_inj hrest (k.2.trans k'.2.symm)).2
    exact (List.append_inj hrest (n.2.trans n'.2.symm)).2
  · intro c hc
    obtain rfl := List.mem_singleton.1 hc
    show (if encode call.content.json = encode call.content.json then .ok call.content else .error ([] : Text)) =
      (.ok call.content : Except Text MailContent)
    rw [if_pos rfl]

end Sample

open Sample in
/-- The mail that was sent and one with another key to open it by, as long and under the same signature. -/
theorem fixes_sent : Verifies signing server sent sent.signature ∧ Verifies signing server rekeyed sent.signature ∧
    sent ≠ rekeyed ∧
    (∀ sig, Verifies signing server sent sig → Verifies signing server rekeyed sig → SameMail sent rekeyed) ∧
    ∃ c ∈ [call], ∃ m ∈ c.signs signing server, rekeyed.signingData = m.signingData ∧
      (AsPut signing server c rekeyed ↔ SameLengths rekeyed m) := by
  have htime : sent.timestamp < 2 ^ 64 := by decide
  have htime' : rekeyed.timestamp < 2 ^ 64 := by decide
  have hsent : Verifies signing server sent sent.signature := by decide +kernel
  have hrekeyed : Verifies signing server rekeyed sent.signature := by decide +kernel
  refine ⟨hsent, hrekeyed, by decide, ?_, (fixes_iff ideal_signing htime' htime).2 _ hrekeyed⟩
  exact (fixes_iff ideal_signing htime htime').1.2 fun _ => ⟨rfl, rfl, rfl⟩

open Sample in
/-- One signature of the server's is of the mail it sent, and of one from another sender. -/
theorem sender_shortened : Ideal signing server [call] ∧ Verifies signing server sent sent.signature ∧
    Verifies signing server moved sent.signature ∧ moved.fromAddr ≠ sent.fromAddr ∧ moved.timestamp < 2 ^ 64 :=
  ⟨ideal_signing, by decide +kernel⟩

end HidraNet.Hidramail
