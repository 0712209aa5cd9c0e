import HidraNet.Crypto.Handshake

/-!
# What both sides agree on

An initiator and a responder, and between them whoever has the network.  The attacker gives each of them any message
that can be made of what it has and of what was said; it may have every secret but the decapsulation key and the coins
of this handshake.

Both sides end with one chaining key only when they have the same secrets, and so that of the encapsulation.  Then the
last cell that the responder opens is one that the initiator sealed, under the initiator's hash, and nothing was changed
(`Finished.unchanged`).
-/

namespace HidraNet.Crypto

open HidraNet.Core (ok_of_bind)
open Symbolic
open Symbolic.Term (publicKey diffieHellman diffieHellman_comm decapsulate decapsulate_eq_kemSecret)
open SymmetricState (after cell)
open TransportCipher (InOrder Strangers inOrder_fromKey strangers_fromKey)

/-- The keys and the randomness of both sides. -/
structure Draw where
  si : Nat
  sr : Nat
  ei : Nat
  er : Nat
  e1 : Nat
  coins : Nat

/-- The handshake, where the messages `a'`, `b'` and `c'` are delivered: what was said, and how both sides end. -/
def handshake (k : Draw) (a' b' c' : Term) : Except String ((Term × Term × Term) × HandshakeState × HandshakeState) := do
  let (a, i) ← (HandshakeState.new .initiator k.si).writeMessageA k.ei k.e1
  let r ← (HandshakeState.new .responder k.sr).readMessageA a'
  let (b, r) ← r.writeMessageB k.er k.coins
  let i ← i.readMessageB b'
  let (c, i) ← i.writeMessageC
  let r ← r.readMessageC c'
  return ((a, b, c), i, r)

/-! ### How it goes -/

def Draw.initiatorA (k : Draw) : HandshakeState :=
  { HandshakeState.new .initiator k.si with
    e := some k.ei, e1 := some k.e1, symmetric := some (after [nothing, .encapKey k.e1, publicKey k.ei] [] 0) }

/-- The fields of the messages, as they were said and as they were read. -/
structure Fields where
  x : Term
  k : Nat
  p : Term
  c₁ : Term
  c₂ : Term
  c₃ : Term
  y : Term
  d₁ : Term
  d₂ : Term
  d₃ : Term
  kemCt : Term
  rs : Term
  q : Term
  u₁ : Term
  u₂ : Term
  w₁ : Term
  w₂ : Term
  is : Term
  o : Term

namespace Fields

variable (k : Draw) (f : Fields)

def saidI : List Term := [f.d₃, f.d₂, f.d₁, f.y, nothing, .encapKey k.e1, publicKey k.ei]

def saidR : List Term := [f.c₃, f.c₂, f.c₁, publicKey k.er, f.p, .encapKey f.k, f.x]

def secretsI : List Term :=
  [diffieHellman k.si f.y, diffieHellman k.ei f.rs, decapsulate k.e1 f.kemCt, diffieHellman k.ei f.y]

def secretsR : List Term :=
  [diffieHellman k.er f.is, diffieHellman k.sr f.x, .kemSecret f.k k.coins, diffieHellman k.er f.x]

def initiatorB : HandshakeState :=
  { k.initiatorA with re := some f.y, rs := some f.rs, symmetric := some (after (f.saidI k) (f.secretsI k).tail 1) }

def initiatorC : HandshakeState :=
  { f.initiatorB k with symmetric := some (after (f.u₂ :: f.u₁ :: f.saidI k) (f.secretsI k) 1) }

def responderA : HandshakeState :=
  { HandshakeState.new .responder k.sr with
    re := some f.x, re1 := some f.k, symmetric := some (after [f.p, .encapKey f.k, f.x] [] 0) }

def responderB : HandshakeState :=
  { f.responderA k with e := some k.er, symmetric := some (after (f.saidR k) (f.secretsR k).tail 1) }

def responderC : HandshakeState :=
  { f.responderB k with rs := some f.is, symmetric := some (after (f.w₂ :: f.w₁ :: f.saidR k) (f.secretsR k) 1) }

end Fields

/-- Both sides finish. -/
structure Finished (k : Draw) (f : Fields) (a' b' c' a b c : Term) (i r : HandshakeState) : Prop where
  a : a = .pair (publicKey k.ei) (.pair (.encapKey k.e1) nothing)
  a' : a' = .pair f.x (.pair (.encapKey f.k) f.p)
  b : b = .pair (publicKey k.er) (.pair f.c₁ (.pair f.c₂ f.c₃))
  sealsB : SaysB [f.p, .encapKey f.k, f.x] (publicKey k.er) (diffieHellman k.er f.x) (.kemSecret f.k k.coins)
    (diffieHellman k.sr f.x) (.kemCiphertext f.k k.coins) (publicKey k.sr) nothing f.c₁ f.c₂ f.c₃
  b' : b' = .pair f.y (.pair f.d₁ (.pair f.d₂ f.d₃))
  opensB : SaysB [nothing, .encapKey k.e1, publicKey k.ei] f.y (diffieHellman k.ei f.y) (decapsulate k.e1 f.kemCt)
    (diffieHellman k.ei f.rs) f.kemCt f.rs f.q f.d₁ f.d₂ f.d₃
  c : c = .pair f.u₁ f.u₂
  sealsC : SaysC (f.saidI k) (diffieHellman k.ei f.y) (decapsulate k.e1 f.kemCt) (diffieHellman k.ei f.rs)
    (diffieHellman k.si f.y) (publicKey k.si) nothing f.u₁ f.u₂
  c' : c' = .pair f.w₁ f.w₂
  opensC : SaysC (f.saidR k) (diffieHellman k.er f.x) (.kemSecret f.k k.coins) (diffieHellman k.sr f.x)
    (diffieHellman k.er f.is) f.is f.o f.w₁ f.w₂
  i : i = f.initiatorC k
  r : r = f.responderC k

variable {k : Draw} {f : Fields} {a' b' c' a b c : Term} {i r : HandshakeState}

theorem handshake_iff : handshake k a' b' c' = .ok ((a, b, c), i, r) ↔ ∃ f, Finished k f a' b' c' a b c i r := by
  constructor
  · intro h
    unfold handshake at h
    rw [HandshakeState.writeMessageA_eq] at h
    obtain ⟨_, hA, h⟩ := ok_of_bind h
    cases hA
    obtain ⟨_, hreadA, h⟩ := ok_of_bind h
    obtain ⟨x, ek, p, ha', rfl⟩ := (HandshakeState.readMessageA_iff k.sr).1 hreadA
    rw [HandshakeState.writeMessageB_eq rfl rfl rfl rfl ⟨rfl, rfl, rfl⟩] at h
    obtain ⟨_, hB, h⟩ := ok_of_bind h
    cases hB
    obtain ⟨_, hreadB, h⟩ := ok_of_bind h
    obtain ⟨y, kemCt, rs, q, d₁, d₂, d₃, hb', hopensB, rfl⟩ := (HandshakeState.readMessageB_iff rfl rfl rfl rfl).1 hreadB
    rw [HandshakeState.writeMessageC_eq rfl rfl rfl ⟨rfl, rfl⟩] at h
    obtain ⟨_, hC, h⟩ := ok_of_bind h
    cases hC
    obtain ⟨_, hreadC, h⟩ := ok_of_bind h
    obtain ⟨rsC, o, w₁, w₂, hc', hopensC, rfl⟩ := (HandshakeState.readMessageC_iff rfl rfl rfl).1 hreadC
    cases h
    exact ⟨⟨x, ek, p, _, _, _, y, d₁, d₂, d₃, kemCt, rs, q, _, _, w₁, w₂, rsC, o⟩, rfl, ha', rfl, ⟨rfl, rfl, rfl⟩, hb',
      hopensB, rfl, ⟨rfl, rfl⟩, hc', hopensC, rfl, rfl⟩
  · rintro ⟨f, rfl, ha', rfl, hsealsB, hb', hopensB, rfl, hsealsC, hc', hopensC, rfl, rfl⟩
    have hwriteA : (HandshakeState.new .initiator k.si).writeMessageA k.ei k.e1 =
        .ok (.pair (publicKey k.ei) (.pair (.encapKey k.e1) nothing), k.initiatorA) :=
      HandshakeState.writeMessageA_eq k.si k.ei k.e1
    have hreadA : (HandshakeState.new .responder k.sr).readMessageA a' = .ok (f.responderA k) :=
      (HandshakeState.readMessageA_iff k.sr).2 ⟨_, _, _, ha', rfl⟩
    have hwriteB : (f.responderA k).writeMessageB k.er k.coins =
        .ok (.pair (publicKey k.er) (.pair f.c₁ (.pair f.c₂ f.c₃)), f.responderB k) :=
      HandshakeState.writeMessageB_eq rfl rfl rfl rfl hsealsB
    have hreadB : k.initiatorA.readMessageB b' = .ok (f.initiatorB k) :=
      (HandshakeState.readMessageB_iff rfl rfl rfl rfl).2 ⟨_, _, _, _, _, _, _, hb', hopensB, rfl⟩
    have hwriteC : (f.initiatorB k).writeMessageC = .ok (.pair f.u₁ f.u₂, f.initiatorC k) :=
      HandshakeState.writeMessageC_eq rfl rfl rfl hsealsC
    have hreadC : (f.responderB k).readMessageC c' = .ok (f.responderC k) :=
      (HandshakeState.readMessageC_iff rfl rfl rfl).2 ⟨_, _, _, _, hc', hopensC, rfl⟩
    simp only [handshake, bind, Except.bind, hwriteA, hreadA, hwriteB, hreadB, hwriteC, hreadC, pure, Except.pure]

/-! ### What the attacker does not see -/

theorem clean_chained {e1 coins : Nat} {sent secrets : List Term} (h : Clean e1 coins sent (chained secrets)) :
    ∀ t ∈ secrets, Clean e1 coins sent t := by
  induction secrets with
  | nil => simp
  | cons ikm secrets ih =>
    obtain ⟨⟨hck, hikm⟩, -⟩ := h
    intro t ht
    rcases List.mem_cons.1 ht with rfl | ht
    · exact hikm
    · exact ih hck t ht

theorem mem_of_clean_cell {e1 coins n : Nat} {sent said secrets : List Term} {ikm p : Term}
    (h : Clean e1 coins sent (cell said secrets ikm n p)) (hsecret : .kemSecret e1 coins ∈ secrets) :
    cell said secrets ikm n p ∈ sent := by
  rcases h with ⟨⟨⟨hck, -⟩, -⟩, -⟩ | hmem
  · exact absurd ⟨rfl, rfl⟩ (clean_chained hck _ hsecret)
  · exact hmem

theorem cell_inj {said said' secrets secrets' : List Term} {ikm ikm' p p' : Term} {n n' : Nat}
    (h : cell said secrets ikm n p = cell said' secrets' ikm' n' p') :
    said = said' ∧ secrets = secrets' ∧ ikm = ikm' ∧ n = n' ∧ p = p' := by
  obtain ⟨hkey, hn, had, hp⟩ := Term.aead.inj h
  obtain ⟨hck, hikm⟩ := hkdf_snd_inj.1 hkey
  exact ⟨hashed_inj had, chained_inj hck, hikm, hn, hp⟩

variable (k f) in
def Fields.sent : List Term := [f.c₁, f.c₂, f.c₃, f.u₁, f.u₂]

theorem Finished.clean (h : Finished k f a' b' c' a b c i r) {K : Set Term} {t : Term}
    (hK : ∀ t ∈ K, Clean k.e1 k.coins [] t) (ht : Derives (K ∪ {a, b, c}) t) : Clean k.e1 k.coins f.sent t := by
  have hcell : ∀ {said secrets : List Term} {ikm p : Term} {n : Nat}, cell said secrets ikm n p ∈ f.sent →
      Clean k.e1 k.coins f.sent (cell said secrets ikm n p) := fun hmem => Or.inr hmem
  refine derives_clean (fun t ht => ?_) (fun key nonce ad plaintext hmem => ?_) ht
  · rcases ht with ht | rfl | rfl | rfl
    · exact (hK t ht).mono _
    · rw [h.a]
      exact ⟨trivial, trivial, trivial⟩
    · rw [h.b]
      refine ⟨trivial, ?_, ?_, ?_⟩
      · have hmem : f.c₁ ∈ f.sent := by simp [Fields.sent]
        rw [h.sealsB.kem] at hmem ⊢
        exact hcell hmem
      · have hmem : f.c₂ ∈ f.sent := by simp [Fields.sent]
        rw [h.sealsB.static] at hmem ⊢
        exact hcell hmem
      · have hmem : f.c₃ ∈ f.sent := by simp [Fields.sent]
        rw [h.sealsB.payload] at hmem ⊢
        exact hcell hmem
    · rw [h.c]
      refine ⟨?_, ?_⟩
      · have hmem : f.u₁ ∈ f.sent := by simp [Fields.sent]
        rw [h.sealsC.static] at hmem ⊢
        exact hcell hmem
      · have hmem : f.u₂ ∈ f.sent := by simp [Fields.sent]
        rw [h.sealsC.payload] at hmem ⊢
        exact hcell hmem
  · have hplain : ∀ c ∈ f.sent, ∃ key nonce ad p, c = .aead key nonce ad p ∧ Clean k.e1 k.coins f.sent p := by
      intro c hc
      simp only [Fields.sent, List.mem_cons, List.not_mem_nil, or_false] at hc
      rcases hc with rfl | rfl | rfl | rfl | rfl
      · exact ⟨_, _, _, _, h.sealsB.kem, trivial⟩
      · exact ⟨_, _, _, _, h.sealsB.static, trivial⟩
      · exact ⟨_, _, _, _, h.sealsB.payload, trivial⟩
      · exact ⟨_, _, _, _, h.sealsC.static, trivial⟩
      · exact ⟨_, _, _, _, h.sealsC.payload, trivial⟩
    obtain ⟨_, _, _, p, heq, hp⟩ := hplain _ hmem
    rw [(Term.aead.inj heq).2.2.2]
    exact hp

theorem Finished.unchanged (h : Finished k f a' b' c' a b c i r) {K : Set Term}
    (hK : ∀ t ∈ K, Clean k.e1 k.coins [] t) (hc' : Derives (K ∪ {a, b, c}) c')
    (hck : chained (f.secretsI k) = chained (f.secretsR k)) : (a', b', c') = (a, b, c) := by
  have hsecrets := chained_inj hck
  simp only [Fields.secretsI, Fields.secretsR, List.cons.injEq, and_true] at hsecrets
  obtain ⟨hse, hes, hss, hee⟩ := hsecrets
  obtain ⟨hk, -⟩ := decapsulate_eq_kemSecret hss
  -- the responder's last cell is under a key that hangs on the secret
  have hclean := h.clean hK hc'
  rw [h.c'] at hclean
  have hlast := hclean.2
  rw [h.opensC.payload] at hlast
  have hmem := mem_of_clean_cell hlast (by simp [hk])
  rw [← h.opensC.payload] at hmem
  -- so it is the initiator's, which is the only one under four secrets
  have hsame : f.w₂ = f.u₂ := by
    simp only [Fields.sent, List.mem_cons, List.not_mem_nil, or_false] at hmem
    have hother : ∀ {said secrets : List Term} {ikm p : Term} {n : Nat}, secrets.length < 3 →
        f.w₂ ≠ cell said secrets ikm n p := by
      intro said secrets ikm p n hlt heq
      rw [h.opensC.payload] at heq
      rw [← (cell_inj heq).2.1] at hlt
      simp at hlt
    rcases hmem with heq | heq | heq | heq | heq
    · exact absurd (heq.trans h.sealsB.kem) (hother (by simp))
    · exact absurd (heq.trans h.sealsB.static) (hother (by simp))
    · exact absurd (heq.trans h.sealsB.payload) (hother (by simp))
    · exact absurd (heq.trans h.sealsC.static) (hother (by simp))
    · exact heq
  have hcells := hsame
  rw [h.opensC.payload, h.sealsC.payload] at hcells
  have hsaid := (cell_inj hcells).1
  simp only [Fields.saidI, Fields.saidR, List.cons.injEq, and_true] at hsaid
  obtain ⟨hw₁, hc₃, hc₂, hc₁, hy, hp, hek, hx⟩ := hsaid
  rw [h.a', h.b', h.c', h.a, h.b, h.c, hsame, hw₁, hc₃, hc₂, hc₁, hy, hp, hek, hx]

/-! ### Left alone, and changed -/

/-- Both have the same hash and the same chaining key, and know each other's static key. -/
structure Agree (k : Draw) (i r : HandshakeState) : Prop where
  state : ∃ s s', i.symmetric = some s ∧ r.symmetric = some s' ∧ s.h = s'.h ∧ s.ck = s'.ck
  initiator : r.rs = some (publicKey k.si)
  responder : i.rs = some (publicKey k.sr)

/-- The fields where every message is read as it was said. -/
def Draw.fields (k : Draw) : Fields :=
  let ee := diffieHellman k.er (publicKey k.ei)
  let ss := Term.kemSecret k.e1 k.coins
  let es := diffieHellman k.sr (publicKey k.ei)
  let se := diffieHellman k.er (publicKey k.si)
  let kemCt := Term.kemCiphertext k.e1 k.coins
  let saidA := [nothing, .encapKey k.e1, publicKey k.ei]
  let c₁ := cell (publicKey k.er :: saidA) [] ee 0 kemCt
  let c₂ := cell (c₁ :: publicKey k.er :: saidA) [ee] ss 0 (publicKey k.sr)
  let c₃ := cell (c₂ :: c₁ :: publicKey k.er :: saidA) [ss, ee] es 0 nothing
  let saidB := c₃ :: c₂ :: c₁ :: publicKey k.er :: saidA
  let u₁ := cell saidB [ss, ee] es 1 (publicKey k.si)
  let u₂ := cell (u₁ :: saidB) [es, ss, ee] se 0 nothing
  ⟨publicKey k.ei, k.e1, nothing, c₁, c₂, c₃, publicKey k.er, c₁, c₂, c₃, kemCt, publicKey k.sr, nothing, u₁, u₂, u₁, u₂,
    publicKey k.si, nothing⟩

/-- What both sides compute alike. -/
theorem Draw.shared (k : Draw) : diffieHellman k.ei (publicKey k.er) = diffieHellman k.er (publicKey k.ei) ∧
    diffieHellman k.ei (publicKey k.sr) = diffieHellman k.sr (publicKey k.ei) ∧
    diffieHellman k.si (publicKey k.er) = diffieHellman k.er (publicKey k.si) ∧
    decapsulate k.e1 (.kemCiphertext k.e1 k.coins) = .kemSecret k.e1 k.coins :=
  ⟨diffieHellman_comm .., diffieHellman_comm .., diffieHellman_comm .., Term.decapsulate_encapsulate k.e1 k.coins⟩

theorem finished_fields (k : Draw) :
    ∃ a b c, Finished k k.fields a b c a b c (k.fields.initiatorC k) (k.fields.responderC k) := by
  obtain ⟨hee, hes, hse, hss⟩ := k.shared
  refine ⟨_, _, _, rfl, rfl, rfl, ⟨rfl, rfl, rfl⟩, rfl, ?_, rfl, ?_, rfl, ⟨rfl, rfl⟩, rfl, rfl⟩
  · simp only [Draw.fields, hee, hss, hes]
    exact ⟨rfl, rfl, rfl⟩
  · simp only [Draw.fields, Fields.saidI, hee, hss, hes, hse]
    exact ⟨rfl, rfl⟩

theorem Draw.secrets_fields (k : Draw) : k.fields.secretsI k = k.fields.secretsR k := by
  obtain ⟨hee, hes, hse, hss⟩ := k.shared
  simp only [Fields.secretsI, Fields.secretsR, Draw.fields, hee, hes, hse, hss]

/-- Both sides agree when the messages are left alone, and where one was changed they cannot open what the other sends. -/
theorem handshake_agreement (k : Draw) :
    (∃ a b c i r, handshake k a b c = .ok ((a, b, c), i, r) ∧ Agree k i r ∧
      ∃ iSend iRecv rSend rRecv, i.intoTransport = .ok (iSend, iRecv) ∧ r.intoTransport = .ok (rSend, rRecv) ∧
        InOrder iSend rRecv ∧ InOrder rSend iRecv) ∧
    ∀ (K : Set Term) (a' b' c' a b c : Term) (i r : HandshakeState), (∀ t ∈ K, Clean k.e1 k.coins [] t) →
      handshake k a' b' c' = .ok ((a, b, c), i, r) → (∀ t ∈ [a', b', c'], Derives (K ∪ {a, b, c}) t) →
      (a', b', c') ≠ (a, b, c) →
      ∃ iSend iRecv rSend rRecv, i.intoTransport = .ok (iSend, iRecv) ∧ r.intoTransport = .ok (rSend, rRecv) ∧
        Strangers iSend rRecv ∧ Strangers rSend iRecv := by
  refine ⟨?_, fun K a' b' c' a b c i r hK hrun hderives hchanged => ?_⟩
  · obtain ⟨a, b, c, hf⟩ := finished_fields k
    have hck := congrArg chained k.secrets_fields
    have hone : ∀ key key', key = key' → InOrder ⟨.fromKey key⟩ ⟨.fromKey key'⟩ := by
      rintro key _ rfl
      exact inOrder_fromKey key
    exact ⟨a, b, c, _, _, handshake_iff.2 ⟨_, hf⟩, ⟨⟨_, _, rfl, rfl, rfl, hck⟩, rfl, rfl⟩, _, _, _, _, rfl, rfl,
      hone _ _ (hkdf_fst_inj.2 ⟨hck, rfl⟩), hone _ _ (hkdf_snd_inj.2 ⟨hck.symm, rfl⟩)⟩
  · obtain ⟨f, hf⟩ := handshake_iff.1 hrun
    have hck : chained (f.secretsI k) ≠ chained (f.secretsR k) := fun hck =>
      hchanged (hf.unchanged hK (hderives c' (by simp)) hck)
    obtain rfl := hf.i
    obtain rfl := hf.r
    exact ⟨_, _, _, _, rfl, rfl, strangers_fromKey fun h => hck (hkdf_fst_inj.1 h).1,
      strangers_fromKey fun h => hck (hkdf_snd_inj.1 h).1.symm⟩

/-- Someone in the middle, who answers each side with keys of its own: both finish, and neither opens what the other
sends. -/
theorem handshake_inTheMiddle :
    let k : Draw := ⟨1, 2, 3, 4, 5, 6⟩
    let toInitiator := (⟨1, 11, 3, 15, 5, 14⟩ : Draw).fields
    let toResponder := (⟨11, 2, 12, 4, 13, 6⟩ : Draw).fields
    let a' := Term.pair toResponder.x (.pair (.encapKey 13) nothing)
    let b' := Term.pair toInitiator.y (.pair toInitiator.d₁ (.pair toInitiator.d₂ toInitiator.d₃))
    let c' := Term.pair toResponder.w₁ toResponder.w₂
    ∃ a b c i r iSend iRecv rSend rRecv, handshake k a' b' c' = .ok ((a, b, c), i, r) ∧ (a', b', c') ≠ (a, b, c) ∧
      i.intoTransport = .ok (iSend, iRecv) ∧ r.intoTransport = .ok (rSend, rRecv) ∧
      Strangers iSend rRecv ∧ Strangers rSend iRecv := by
  intro k toInitiator toResponder a' b' c'
  let f : Fields := { toResponder with
    y := toInitiator.y, d₁ := toInitiator.d₁, d₂ := toInitiator.d₂, d₃ := toInitiator.d₃, kemCt := toInitiator.kemCt
    rs := toInitiator.rs, q := toInitiator.q, u₁ := toInitiator.u₁, u₂ := toInitiator.u₂ }
  obtain ⟨_, _, _, hi⟩ := finished_fields ⟨1, 11, 3, 15, 5, 14⟩
  obtain ⟨_, _, _, hr⟩ := finished_fields ⟨11, 2, 12, 4, 13, 6⟩
  have hf : Finished k f a' b' c' _ _ _ (f.initiatorC k) (f.responderC k) :=
    ⟨rfl, rfl, rfl, hr.sealsB, rfl, hi.opensB, rfl, hi.sealsC, rfl, hr.opensC, rfl, rfl⟩
  have hrun := handshake_iff.2 ⟨f, hf⟩
  have hclean : ∀ t ∈ ({a', b', c'} : Set Term), Clean k.e1 k.coins [] t := by
    rintro t (rfl | rfl | rfl)
    · decide
    · decide
    · decide
  have hne : ∀ b c, (a', b', c') ≠ (.pair (publicKey k.ei) (.pair (.encapKey k.e1) nothing), b, c) := by
    intro b c h
    have hek := (Term.pair.inj (Term.pair.inj (Prod.mk.inj h).1).2).1
    simp [k] at hek
  obtain ⟨iSend, iRecv, rSend, rRecv, hi, hr, hstrangers⟩ := (handshake_agreement k).2 {a', b', c'} a' b' c' _ _ _ _ _ hclean
    hrun (fun t ht => .known (Or.inl (by simpa using ht))) (hne _ _)
  exact ⟨_, _, _, _, _, iSend, iRecv, rSend, rRecv, hrun, hne _ _, hi, hr, hstrangers⟩

end HidraNet.Crypto
