import HidraNet.Crypto.Symmetric

/-!
# The handshake

Three messages, as tuples of their fields; a message of fewer fields is too short.  The keys and the randomness that a
message draws are arguments of who writes it.

What a message says is the same for who writes it and who reads it (`SaysB`, `SaysC`): `readMessageB_iff` is what is read
of any message, and `writeMessageB_eq` is what is written.
-/

namespace HidraNet.Crypto

open HidraNet.Core (ok_of_bind)
open Symbolic
open Symbolic.Term (publicKey diffieHellman encapsulate decapsulate)

inductive Role where
  | initiator
  | responder
deriving DecidableEq

structure HandshakeState where
  symmetric : Option SymmetricState
  s : Nat
  e : Option Nat
  rs : Option Term
  re : Option Term
  role : Role
  e1 : Option Nat
  /-- The initiator's encapsulation key, at the responder. -/
  re1 : Option Nat
deriving DecidableEq

def required {α : Type} (o : Option α) (missing : String) : Except String α :=
  match o with
  | some a => .ok a
  | none => .error missing

/-- `EncapsulationKey::new_from_slice`. -/
def encapsulationKey : Term → Except String Nat
  | .encapKey k => .ok k
  | _ => .error "ML-KEM encapsulation key rejected in A"

namespace HandshakeState

def new (role : Role) (staticSecret : Nat) : HandshakeState :=
  ⟨some .initialized, staticSecret, none, none, none, role, none, none⟩

def sym (st : HandshakeState) : Except String SymmetricState := required st.symmetric "state already consumed"

/-! ### A: e, e1 -/

def writeMessageA (e e1 : Nat) (st : HandshakeState) : Except String (Term × HandshakeState) := do
  let st := { st with e := some e, e1 := some e1 }
  let sym ← st.sym
  let sym := (sym.mixHash (publicKey e)).mixHash (.encapKey e1)
  let (payload, sym) ← sym.encryptAndHash nothing
  return (.pair (publicKey e) (.pair (.encapKey e1) payload), { st with symmetric := some sym })

def readMessageA (st : HandshakeState) : Term → Except String HandshakeState
  | .pair re (.pair ek payload) => do
    let sym ← st.sym
    let sym := sym.mixHash re
    let re1 ← encapsulationKey ek
    let sym := sym.mixHash ek
    let (_, sym) ← sym.decryptAndHash payload
    return { st with re := some re, re1 := some re1, symmetric := some sym }
  | _ => .error "message A too short"

/-! ### B: e, ee, ekem1, s, es -/

/-- The responder's static key and the initiator's ephemeral one. -/
def es (st : HandshakeState) (re : Term) : Except String Term :=
  match st.role with
  | .responder => .ok (diffieHellman st.s re)
  | .initiator => do
    let rs ← required st.rs "missing remote static for es"
    let e ← required st.e "missing local ephemeral for es"
    return diffieHellman e rs

def writeMessageB (e coins : Nat) (st : HandshakeState) : Except String (Term × HandshakeState) := do
  let st := { st with e := some e }
  let sym ← st.sym
  let sym := sym.mixHash (publicKey e)
  let re ← required st.re "missing remote ephemeral for ee"
  let sym := sym.mixKey (diffieHellman e re)
  let re1 ← required st.re1 "missing remote ML-KEM key for ekem1"
  let (kemCt, kemSs) := encapsulate re1 coins
  let (encCt, sym) ← sym.encryptAndHash kemCt
  let sym := sym.mixKey kemSs
  let (encS, sym) ← sym.encryptAndHash (publicKey st.s)
  let esDh ← st.es re
  let sym := sym.mixKey esDh
  let (payload, sym) ← sym.encryptAndHash nothing
  return (.pair (publicKey e) (.pair encCt (.pair encS payload)), { st with symmetric := some sym })

def readMessageB (st : HandshakeState) : Term → Except String HandshakeState
  | .pair re (.pair encCt (.pair encS payload)) => do
    let st := { st with re := some re }
    let sym ← st.sym
    let sym := sym.mixHash re
    let e ← required st.e "missing local ephemeral for ee"
    let sym := sym.mixKey (diffieHellman e re)
    let (kemCt, sym) ← sym.decryptAndHash encCt
    let e1 ← required st.e1 "missing local ML-KEM key for ekem1"
    let sym := sym.mixKey (decapsulate e1 kemCt)
    let (rs, sym) ← sym.decryptAndHash encS
    let st := { st with rs := some rs }
    let esDh ← st.es re
    let sym := sym.mixKey esDh
    let (_, sym) ← sym.decryptAndHash payload
    return { st with symmetric := some sym }
  | _ => .error "message B too short"

/-! ### C: s, se -/

/-- The initiator's static key and the responder's ephemeral one. -/
def se (st : HandshakeState) : Except String Term :=
  match st.role with
  | .initiator => do
    let re ← required st.re "missing remote ephemeral for se"
    return diffieHellman st.s re
  | .responder => do
    let rs ← required st.rs "missing remote static for se"
    let e ← required st.e "missing local ephemeral for se"
    return diffieHellman e rs

def writeMessageC (st : HandshakeState) : Except String (Term × HandshakeState) := do
  let sym ← st.sym
  let (encS, sym) ← sym.encryptAndHash (publicKey st.s)
  let seDh ← st.se
  let sym := sym.mixKey seDh
  let (payload, sym) ← sym.encryptAndHash nothing
  return (.pair encS payload, { st with symmetric := some sym })

def readMessageC (st : HandshakeState) : Term → Except String HandshakeState
  | .pair encS payload => do
    let sym ← st.sym
    let (rs, sym) ← sym.decryptAndHash encS
    let st := { st with rs := some rs }
    let seDh ← st.se
    let sym := sym.mixKey seDh
    let (_, sym) ← sym.decryptAndHash payload
    return { st with symmetric := some sym }
  | _ => .error "message C too short"

/-- What the state sends with and receives with. -/
def intoTransport (st : HandshakeState) : Except String (TransportCipher × TransportCipher) := do
  let symmetric ← st.sym
  let (c1, c2) := symmetric.split
  match st.role with
  | .initiator => return (c1, c2)
  | .responder => return (c2, c1)

end HandshakeState

/-! ### What the messages say -/

open SymmetricState (after cell)

/-- The ciphertexts of a message B, after what was said: `y` is the ephemeral key, and what is in them the ciphertext of
the encapsulation, the static key and a payload. -/
structure SaysB (said : List Term) (y ee ss es kemCt s p c₁ c₂ c₃ : Term) : Prop where
  kem : c₁ = cell (y :: said) [] ee 0 kemCt
  static : c₂ = cell (c₁ :: y :: said) [ee] ss 0 s
  payload : c₃ = cell (c₂ :: c₁ :: y :: said) [ss, ee] es 0 p

/-- Those of a message C. -/
structure SaysC (said : List Term) (ee ss es se s p c₁ c₂ : Term) : Prop where
  static : c₁ = cell said [ss, ee] es 1 s
  payload : c₂ = cell (c₁ :: said) [es, ss, ee] se 0 p

namespace HandshakeState

variable {st st' : HandshakeState} {said : List Term} {m : Term}

theorem writeMessageA_eq (s e e1 : Nat) :
    (new .initiator s).writeMessageA e e1 =
      .ok (.pair (publicKey e) (.pair (.encapKey e1) nothing),
        { new .initiator s with
          e := some e, e1 := some e1, symmetric := some (after [nothing, .encapKey e1, publicKey e] [] 0) }) := rfl

theorem readMessageA_iff (s : Nat) :
    (new .responder s).readMessageA m = .ok st' ↔
      ∃ x k p, m = .pair x (.pair (.encapKey k) p) ∧
        st' = { new .responder s with
          re := some x, re1 := some k, symmetric := some (after [p, .encapKey k, x] [] 0) } := by
  constructor
  · intro h
    unfold readMessageA at h
    split at h
    · rename_i x ek p
      cases ek with
      | encapKey k =>
        cases h
        exact ⟨x, k, p, rfl, rfl⟩
      | _ => cases h
    · cases h
  · rintro ⟨x, k, p, rfl, rfl⟩
    rfl

theorem writeMessageB_eq {re c₁ c₂ c₃ : Term} {e coins k n : Nat} (hsym : st.symmetric = some (after said [] n))
    (hre : st.re = some re) (hre1 : st.re1 = some k) (hrole : st.role = .responder)
    (h : SaysB said (publicKey e) (diffieHellman e re) (.kemSecret k coins) (diffieHellman st.s re)
      (.kemCiphertext k coins) (publicKey st.s) nothing c₁ c₂ c₃) :
    st.writeMessageB e coins = .ok (.pair (publicKey e) (.pair c₁ (.pair c₂ c₃)),
      { st with
        e := some e
        symmetric := some (after (c₃ :: c₂ :: c₁ :: publicKey e :: said)
          [diffieHellman st.s re, .kemSecret k coins, diffieHellman e re] 1) }) := by
  have hzero : 0 ≠ U64_MAX := by decide
  obtain ⟨rfl, rfl, rfl⟩ := h
  simp only [writeMessageB, sym, es, required, hsym, hre, hre1, hrole, encapsulate, SymmetricState.mixHash_after,
    SymmetricState.mixKey_after, bind, Except.bind, SymmetricState.encryptAndHash_keyed hzero, pure, Except.pure]

theorem readMessageB_iff {e e1 n : Nat} (hsym : st.symmetric = some (after said [] n)) (he : st.e = some e)
    (he1 : st.e1 = some e1) (hrole : st.role = .initiator) :
    st.readMessageB m = .ok st' ↔
      ∃ y kemCt rs p c₁ c₂ c₃, m = .pair y (.pair c₁ (.pair c₂ c₃)) ∧
        SaysB said y (diffieHellman e y) (decapsulate e1 kemCt) (diffieHellman e rs) kemCt rs p c₁ c₂ c₃ ∧
        st' = { st with
          re := some y
          rs := some rs
          symmetric := some (after (c₃ :: c₂ :: c₁ :: y :: said)
            [diffieHellman e rs, decapsulate e1 kemCt, diffieHellman e y] 1) } := by
  have hzero : 0 ≠ U64_MAX := by decide
  constructor
  · intro h
    unfold readMessageB at h
    split at h
    · rename_i y c₁ c₂ c₃
      simp only [sym, required, hsym, he, he1] at h
      obtain ⟨_, hsym', h⟩ := ok_of_bind h
      cases hsym'
      obtain ⟨_, he', h⟩ := ok_of_bind h
      cases he'
      obtain ⟨⟨kemCt, _⟩, hopen, h⟩ := ok_of_bind h
      rw [SymmetricState.mixHash_after, SymmetricState.mixKey_after] at hopen
      obtain ⟨hkem, rfl⟩ := (SymmetricState.decryptAndHash_keyed hzero).1 hopen
      obtain ⟨_, he1', h⟩ := ok_of_bind h
      cases he1'
      obtain ⟨⟨rs, _⟩, hopen, h⟩ := ok_of_bind h
      rw [SymmetricState.mixKey_after] at hopen
      obtain ⟨hstatic, rfl⟩ := (SymmetricState.decryptAndHash_keyed hzero).1 hopen
      obtain ⟨_, hes, h⟩ := ok_of_bind h
      simp only [es, hrole, required] at hes
      cases hes
      obtain ⟨⟨p, _⟩, hopen, h⟩ := ok_of_bind h
      rw [SymmetricState.mixKey_after] at hopen
      obtain ⟨hpayload, rfl⟩ := (SymmetricState.decryptAndHash_keyed hzero).1 hopen
      cases h
      exact ⟨y, kemCt, rs, p, c₁, c₂, c₃, rfl, ⟨hkem, hstatic, hpayload⟩, by rw [he, he1]⟩
    · cases h
  · rintro ⟨y, kemCt, rs, p, c₁, c₂, c₃, rfl, ⟨hkem, hstatic, hpayload⟩, rfl⟩
    simp only [readMessageB, sym, es, required, hsym, he, he1, hrole, SymmetricState.mixHash_after,
      SymmetricState.mixKey_after, bind, Except.bind, (SymmetricState.decryptAndHash_keyed hzero).2 ⟨hkem, rfl⟩,
      (SymmetricState.decryptAndHash_keyed hzero).2 ⟨hstatic, rfl⟩,
      (SymmetricState.decryptAndHash_keyed hzero).2 ⟨hpayload, rfl⟩, pure, Except.pure]

theorem writeMessageC_eq {ee ss es re c₁ c₂ : Term} (hsym : st.symmetric = some (after said [es, ss, ee] 1))
    (hre : st.re = some re) (hrole : st.role = .initiator)
    (h : SaysC said ee ss es (diffieHellman st.s re) (publicKey st.s) nothing c₁ c₂) :
    st.writeMessageC = .ok (.pair c₁ c₂,
      { st with symmetric := some (after (c₂ :: c₁ :: said) [diffieHellman st.s re, es, ss, ee] 1) }) := by
  have hzero : 0 ≠ U64_MAX := by decide
  have hone : 1 ≠ U64_MAX := by decide
  obtain ⟨rfl, rfl⟩ := h
  simp only [writeMessageC, sym, se, required, hsym, hre, hrole, SymmetricState.mixKey_after, bind, Except.bind,
    SymmetricState.encryptAndHash_keyed hzero, SymmetricState.encryptAndHash_keyed hone, pure, Except.pure]

theorem readMessageC_iff {ee ss es : Term} {e : Nat} (hsym : st.symmetric = some (after said [es, ss, ee] 1))
    (he : st.e = some e) (hrole : st.role = .responder) :
    st.readMessageC m = .ok st' ↔
      ∃ rs p c₁ c₂, m = .pair c₁ c₂ ∧ SaysC said ee ss es (diffieHellman e rs) rs p c₁ c₂ ∧
        st' = { st with
          rs := some rs
          symmetric := some (after (c₂ :: c₁ :: said) [diffieHellman e rs, es, ss, ee] 1) } := by
  have hzero : 0 ≠ U64_MAX := by decide
  have hone : 1 ≠ U64_MAX := by decide
  constructor
  · intro h
    unfold readMessageC at h
    split at h
    · rename_i c₁ c₂
      simp only [sym, required, hsym] at h
      obtain ⟨_, hsym', h⟩ := ok_of_bind h
      cases hsym'
      obtain ⟨⟨rs, _⟩, hopen, h⟩ := ok_of_bind h
      obtain ⟨hstatic, rfl⟩ := (SymmetricState.decryptAndHash_keyed hone).1 hopen
      obtain ⟨_, hse, h⟩ := ok_of_bind h
      simp only [se, hrole, required, he] at hse
      cases hse
      obtain ⟨⟨p, _⟩, hopen, h⟩ := ok_of_bind h
      rw [SymmetricState.mixKey_after] at hopen
      obtain ⟨hpayload, rfl⟩ := (SymmetricState.decryptAndHash_keyed hzero).1 hopen
      cases h
      exact ⟨rs, p, c₁, c₂, rfl, ⟨hstatic, hpayload⟩, rfl⟩
    · cases h
  · rintro ⟨rs, p, c₁, c₂, rfl, ⟨hstatic, hpayload⟩, rfl⟩
    simp only [readMessageC, sym, se, required, hsym, he, hrole, SymmetricState.mixKey_after, bind, Except.bind,
      (SymmetricState.decryptAndHash_keyed hone).2 ⟨hstatic, rfl⟩,
      (SymmetricState.decryptAndHash_keyed hzero).2 ⟨hpayload, rfl⟩, pure, Except.pure]

end HandshakeState

end HidraNet.Crypto
