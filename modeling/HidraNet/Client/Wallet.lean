import HidraNet.Core.Invite

/-!
# Keys and passes of a client

The master key and the keys derived from it, the wallet of passes, and which key a tunnel shows its node.  X25519 and
the key derivation are the libraries' (`KeyLib`).

A pass taken out of the wallet is the first for its node, and the others stay (`takeFor_cases`).  The key of a pass is
shown only the way the pass was redeemed (`nodeKey_direct`, `nodeKey_behind`).
-/

namespace HidraNet.Client

open HidraNet.Core Text

/-- The libraries' part. -/
structure KeyLib (Key : Type) where
  /-- `StaticSecret::from`. -/
  ofBytes : Bytes → Key
  publicBase64 : Key → String
  /-- HKDF-SHA256 of a master key, with a salt, for a node's public key. -/
  hkdf : Bytes → Key → Bytes → Key

def PER_NODE_SALT : Bytes := asBytes "HidraVPN per-node key v1"
def BEHIND_SALT : Bytes := asBytes "HidraVPN key behind an entry v1"

/-- A pass, as the wallet keeps it. -/
structure Pass where
  keyId : String
  nodePublicKey : String
  clientSecret : String
  nonce : String
  randomizer : String
  signature : String
deriving DecidableEq

def Pass.key (p : Pass) : String := trim p.nodePublicKey

/-- Which key a tunnel shows its node. -/
inductive ShownKey (Key : Type) where
  /-- The key derived for a node reached from the client's own address. -/
  | direct
  /-- The key derived for an exit reached through an entry. -/
  | behind
  | exact (k : Key)

section

variable {Key Pk : Type} (c : Crypto Pk) (lib : KeyLib Key)

def clientKeyFromBase64 (s : String) : Except String Key :=
  match c.base64 (trim s) with
  | some b => if b.length = 32 then .ok (lib.ofBytes b) else .error "the client key is not a valid WireGuard key"
  | none => .error "the client key is not a valid WireGuard key"

def forNodeBase64 (key : Key) (nodePublic : String) : Except String Key := do
  let node ← publicKeyFromBase64 c nodePublic
  .ok (lib.hkdf PER_NODE_SALT key node)

def forNodeBehindBase64 (key : Key) (nodePublic : String) : Except String Key := do
  let node ← publicKeyFromBase64 c nodePublic
  .ok (lib.hkdf BEHIND_SALT key node)

/-- `ClientConfig::node_key`: the key a node is shown, never the master key itself. -/
def nodeKey (invite : Invite) (key : Key) (shown : ShownKey Key) : Except String Key :=
  match shown with
  | .exact k => .ok k
  | .direct =>
    match invite.pass with
    | some p =>
      if p.direct then
        context (clientKeyFromBase64 c lib p.clientSecret) "the key of the pass this invite was won with"
      else .error (invite.nodeName ++ ": the key of its last pass was admitted through an entry (or by an older " ++
        "version that did not write down how); it is never shown from this machine's own address, and a new pass " ++
        "is needed")
    | none => forNodeBase64 c lib key invite.nodePublicKey
  | .behind =>
    match invite.pass with
    | some p =>
      if p.behind = some true then
        context (clientKeyFromBase64 c lib p.clientSecret) "the key of the pass this invite was won with"
      else .error (invite.nodeName ++ ": the key of its last pass was admitted from this machine's own address (or " ++
        "by an older version that did not write down how); it is never shown behind an entry, and a new pass is " ++
        "needed")
    | none => forNodeBehindBase64 c lib key invite.nodePublicKey

variable {c lib} {invite : Invite} {key k : Key}

theorem nodeKey_direct (h : nodeKey c lib invite key .direct = .ok k) :
    (∃ p, invite.pass = some p ∧ p.behind = some false ∧ clientKeyFromBase64 c lib p.clientSecret = .ok k) ∨
    (invite.pass = none ∧ forNodeBase64 c lib key invite.nodePublicKey = .ok k) := by
  unfold nodeKey at h
  dsimp only at h
  split at h
  · rename_i p hp
    split at h
    · rename_i hdirect
      exact Or.inl ⟨p, hp, by simpa [PassBinding.direct] using hdirect, of_context h⟩
    · cases h
  · rename_i hp
    exact Or.inr ⟨hp, h⟩

theorem nodeKey_behind (h : nodeKey c lib invite key .behind = .ok k) :
    (∃ p, invite.pass = some p ∧ p.behind = some true ∧ clientKeyFromBase64 c lib p.clientSecret = .ok k) ∨
    (invite.pass = none ∧ forNodeBehindBase64 c lib key invite.nodePublicKey = .ok k) := by
  unfold nodeKey at h
  dsimp only at h
  split at h
  · rename_i p hp
    split at h
    · rename_i hbehind
      exact Or.inl ⟨p, hp, hbehind, of_context h⟩
    · cases h
  · rename_i hp
    exact Or.inr ⟨hp, h⟩

end

/-! ### The wallet -/

def countFor (wallet : List Pass) (nodePublic : String) : Nat := wallet.countP fun p => p.key = trim nodePublic

def takeFor (wallet : List Pass) (nodePublic : String) : Option (Pass × List Pass) :=
  match wallet.findIdx? fun p => p.key = trim nodePublic with
  | none => none
  | some i => wallet[i]?.map fun p => (p, wallet.eraseIdx i)

/-- The first pass for the node is taken out, if there is one. -/
theorem takeFor_cases (wallet : List Pass) (nodePublic : String) :
    (takeFor wallet nodePublic = none ∧ wallet.find? (fun p => p.key = trim nodePublic) = none) ∨
    ∃ p l₁ l₂, wallet = l₁ ++ p :: l₂ ∧ p.key = trim nodePublic ∧
      wallet.find? (fun p => p.key = trim nodePublic) = some p ∧
      takeFor wallet nodePublic = some (p, l₁ ++ l₂) := by
  unfold takeFor
  induction wallet with
  | nil => exact Or.inl ⟨rfl, rfl⟩
  | cons q wallet ih =>
    by_cases hq : q.key = trim nodePublic
    · refine Or.inr ⟨q, [], wallet, rfl, hq, ?_, ?_⟩
      · simp [hq]
      · simp [List.findIdx?_cons, hq]
    · rcases ih with ⟨hnone, hfind⟩ | ⟨p, l₁, l₂, hl, hp, hfind, hsome⟩
      · left
        have hidx : wallet.findIdx? (fun p => decide (p.key = trim nodePublic)) = none := by
          rw [List.findIdx?_eq_none_iff]
          simpa using hfind
        simp [List.findIdx?_cons, hq, hidx, hfind]
      · right
        refine ⟨p, q :: l₁, l₂, by rw [hl]; rfl, hp, by simp [hq, hfind], ?_⟩
        cases hidx : wallet.findIdx? fun p => decide (p.key = trim nodePublic) with
        | none =>
          rw [hidx] at hsome
          cases hsome
        | some i =>
          rw [hidx] at hsome
          simp only [Option.map_eq_some_iff, Prod.mk.injEq] at hsome
          obtain ⟨p', hget, rfl, herase⟩ := hsome
          simp [List.findIdx?_cons, hq, hidx, hget, herase]

end HidraNet.Client
