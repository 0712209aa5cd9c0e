import HidraNet.Client.Wallet

/-!
# Asking a node for admission

What a client sends a node to be admitted, with a key made for one connection or with a pass, and how it reads the
answer.  The world decides what becomes of each request (`World`): it is answered, it fails or it is cancelled, and a
node may have received a request that fails.

Asking leaves the passes alone (`purse_requestAdmission`, `purse_redeemPass`).
-/

namespace HidraNet.Client

open HidraNet.Core Net Text

def DEFAULT_BITS : Nat := 20
def MAX_BITS : Nat := 26
def CANCELLED : String := "stopped: the VPN was switched off while the connection was being made"

/-! ### The world -/

/-- A node's answer, as it is read. -/
structure Answer where
  status : Nat
  invite : Option Invite
  workBits : Option Nat
  /-- `refusal_text`. -/
  text : String

/-- What becomes of one request. -/
inductive Reply where
  | answered (a : Answer)
  | failed (why : String) (received : Bool)
  | cancelled (received : Bool)

def Reply.received : Reply → Bool
  | .answered _ => true
  | .failed _ received => received
  | .cancelled received => received

/-- What the world does at one moment. -/
structure Moment (Key : Type) where
  now : Int
  cancelSet : Bool
  hold : Except String Unit
  /-- Whether the interface to the entry, its hold and its socket come up. -/
  bridge : Except String Unit
  route : Except String Unit
  reply : Reply
  /-- What `ClientKey::generate` makes. -/
  generated : Except String Key

structure World (Key : Type) where
  moment : Nat → Moment Key
  oneAddressPerInterface : Bool

/-! ### What a connection touches -/

/-- How a node is reached: from this machine's own address, or through an entry. -/
inductive Way where
  | direct
  | behind
deriving DecidableEq

/-- A key that a node was shown. -/
structure Shown where
  node : String
  key : String
  way : Way
deriving DecidableEq

/-- The passes and the invites they win.  The last three record what the program does not keep: the passes taken out
of the wallet, those a node refused, and those put back although a node had received them. -/
structure Purse where
  wallet : List Pass
  won : List Invite
  taken : List Pass
  refused : List Pass
  returned : List (Pass × Way)

/-- The purse, the notes for the person, the moment, and what nodes were shown. -/
structure Desk extends Purse where
  notes : List String
  tick : Nat
  shown : List Shown

namespace Desk

def next (d : Desk) : Desk := { d with tick := d.tick + 1 }

def note (d : Desk) (s : String) : Desk := { d with notes := d.notes ++ [s] }

def show' (d : Desk) (node key : String) (way : Way) : Desk := { d with shown := d.shown ++ [⟨node, key, way⟩] }

def sent (d : Desk) (node key : String) (way : Way) (received : Bool) : Desk :=
  if received then d.next.show' node key way else d.next

end Desk

/-- An error; `refused` is what `PassRefused` says, and `received` what nobody sees: whether the node had the pass. -/
structure Failure where
  why : String
  refused : Bool
  received : Bool

def failure (why : String) : Failure := ⟨why, false, false⟩

def Failure.context (f : Failure) (how : String) : Failure := { f with why := how }

def lift {α : Type} (x : Except String α) : Except Failure α := x.mapError failure

variable {Key Pk : Type}

/-- `f`, unless the cancel is set already. -/
def cancelOr {α : Type} (w : World Key) (f : Desk → Except Failure α × Desk) (d : Desk) : Except Failure α × Desk :=
  if (w.moment d.tick).cancelSet then (.error (failure CANCELLED), d.next) else f d.next

/-! ### Requests -/

section

variable (c : Crypto Pk) (lib : KeyLib Key) (w : World Key)

/-- An invite from a node, held against the record the signed list carried. -/
def checkedInvite (record : NodeRecord) (a : Answer) : Except String Invite := do
  let endpoint ← (parseSocketAddr record.endpoint.toList).elim (.error "the node's endpoint is not ip:port") .ok
  let invite ← a.invite.elim (.error "the invite the node sent is not valid") .ok
  context (invite.validate c) "the invite the node sent is not valid"
  Redemption.ensure (invite.key = record.key) ("the invite names another key than the list does for " ++
    record.nodeName ++ ": not the node the list named; refusing it")
  let theirs ← invite.endpointAddr
  Redemption.ensure (theirs = endpoint) ("the invite names another endpoint than the list does for " ++
    record.nodeName ++ "; refusing it")
  -- what the list says of the node stands, and a node never chooses the key this client shows it
  .ok { invite with
    nodeName := record.nodeName
    operator := record.operator
    role := record.role
    country := record.country
    admission := record.admission
    admissionPort := record.admissionPort
    features := record.features
    pass := none
    behind := false }

/-- One admission request after another, each with more work, until the node wants no more. -/
def askAdmission (record : NodeRecord) (client : String) (session : Bool) (way : Way) :
    Nat → Nat → Desk → Except Failure Invite × Desk
  | more, bits, d =>
    let reply := (w.moment d.tick).reply
    let d := d.sent record.key client way reply.received
    match reply with
    | .cancelled _ => (.error (failure CANCELLED), d)
    | .failed why _ => (.error (failure why), d)
    | .answered a =>
      match more, a.workBits with
      | more + 1, some want =>
        if a.status = 428 ∧ session ∧ want > bits ∧ want ≤ MAX_BITS then
          askAdmission record client session way more want d
        else finish a d
      | _, _ => finish a d
where
  finish (a : Answer) (d : Desk) : Except Failure Invite × Desk :=
    if a.status ≠ 200 then
      (.error (failure (record.nodeName ++ " did not admit this machine (" ++ toString a.status ++ "): " ++ a.text)), d)
    else (lift (checkedInvite c record a), d)

/-- Asks the node to admit a key.  The work asked for grows with every request, so there are no more than the bits
between the least and the most. -/
def requestAdmission (record : NodeRecord) (client : String) (session : Bool) (way : Way) (d : Desk) :
    Except Failure Invite × Desk :=
  match parseSocketAddr record.endpoint.toList with
  | none => (.error (failure "the node's endpoint is not ip:port"), d)
  | some _ =>
    -- the proof of work is for the two keys
    match if session then (do
        let _ ← publicKeyFromBase64 c record.nodePublicKey
        let _ ← publicKeyFromBase64 c client
        .ok ()) else .ok () with
    | .error e => (.error (failure e), d)
    | .ok () => askAdmission c w record client session way (MAX_BITS - DEFAULT_BITS) DEFAULT_BITS d

/-- Redeems a pass on the node the record names; the invite remembers the pass's key and how it was redeemed. -/
def redeemPass (record : NodeRecord) (pass : Pass) (way : Way) (d : Desk) : Except Failure Invite × Desk :=
  if pass.key ≠ record.key then
    (.error (failure ("that pass was made for another node than " ++ record.nodeName)), d)
  else
    match parseSocketAddr record.endpoint.toList, clientKeyFromBase64 c lib pass.clientSecret with
    | none, _ => (.error (failure "the node's endpoint is not ip:port"), d)
    | some _, .error e => (.error (failure e), d)
    | some _, .ok client =>
      let m := w.moment d.tick
      let d := d.sent record.key (lib.publicBase64 client) way m.reply.received
      match m.reply with
      | .cancelled received => (.error ⟨CANCELLED, false, received⟩, d)
      | .failed why received => (.error ⟨why, false, received⟩, d)
      | .answered a =>
        if a.status ≠ 200 then
          let why := record.nodeName ++ " did not take the pass (" ++ toString a.status ++ "): " ++ a.text
          -- 5xx says nothing about the pass itself
          (.error ⟨why, decide (¬ a.status ≥ 500), true⟩, d)
        else
          match checkedInvite c record a with
          | .error e => (.error ⟨e, true, true⟩, d)
          | .ok invite =>
            (.ok { invite with
              pass := some ⟨pass.clientSecret, record.admissionPort, m.now.toNat, 0, some (way = .behind)⟩ }, d)

end

/-! ### What asking leaves alone -/

@[simp] theorem Desk.toPurse_next (d : Desk) : d.next.toPurse = d.toPurse := rfl

@[simp] theorem Desk.toPurse_note (d : Desk) (s : String) : (d.note s).toPurse = d.toPurse := rfl

@[simp] theorem Desk.toPurse_sent (d : Desk) (node key : String) (way : Way) (received : Bool) :
    (d.sent node key way received).toPurse = d.toPurse := by
  unfold sent
  split <;> rfl

/-- Time passes and notes are written, and no more. -/
structure Desk.Waits (d d' : Desk) : Prop where
  purse : d'.toPurse = d.toPurse
  shown : d'.shown = d.shown
  tick : d.tick ≤ d'.tick

theorem Desk.Waits.refl (d : Desk) : d.Waits d := ⟨rfl, rfl, Nat.le_refl _⟩

theorem Desk.waits_next (d : Desk) : d.Waits d.next := ⟨rfl, rfl, Nat.le_succ _⟩

variable {c : Crypto Pk} {lib : KeyLib Key} {w : World Key}

theorem checkedInvite_ok {record : NodeRecord} {a : Answer} {invite : Invite}
    (h : checkedInvite c record a = .ok invite) : invite.pass = none := by
  unfold checkedInvite at h
  obtain ⟨_, -, h⟩ := ok_of_bind h
  obtain ⟨_, -, h⟩ := ok_of_bind h
  obtain ⟨_, -, h⟩ := ok_of_bind h
  obtain ⟨_, -, h⟩ := ok_of_bind h
  obtain ⟨_, -, h⟩ := ok_of_bind h
  obtain ⟨_, -, h⟩ := ok_of_bind h
  cases h
  rfl

theorem cancelOr_cases {α : Type} {f : Desk → Except Failure α × Desk} {r : Except Failure α} {d d' : Desk}
    (h : cancelOr w f d = (r, d')) : (r = .error (failure CANCELLED) ∧ d' = d.next) ∨ f d.next = (r, d') := by
  unfold cancelOr at h
  split at h
  · cases h
    exact Or.inl ⟨rfl, rfl⟩
  · exact Or.inr h

/-- Requests that carry a key, one after another, and whether the node received the last of them. -/
inductive Requested (w : World Key) (node client : String) (way : Way) : Desk → Bool → Desk → Prop where
  | last (d : Desk) : Requested w node client way d (w.moment d.tick).reply.received
      (d.sent node client way (w.moment d.tick).reply.received)
  | again {d d' : Desk} {received : Bool}
      (more : Requested w node client way (d.sent node client way (w.moment d.tick).reply.received) received d') :
      Requested w node client way d received d'

theorem Requested.purse {node client : String} {way : Way} {received : Bool} {d d' : Desk}
    (h : Requested w node client way d received d') : d'.toPurse = d.toPurse := by
  induction h with
  | last d => exact Desk.toPurse_sent _ _ _ _ _
  | again _ ih => rw [ih, Desk.toPurse_sent]

theorem finish_ok {record : NodeRecord} {a : Answer} {d d' : Desk} {r : Except Failure Invite}
    (h : askAdmission.finish c record a d = (r, d')) : d' = d ∧ ∀ invite, r = .ok invite → invite.pass = none := by
  unfold askAdmission.finish at h
  split at h
  · cases h
    refine ⟨rfl, ?_⟩
    intro invite hinvite
    cases hinvite
  · cases h
    refine ⟨rfl, ?_⟩
    intro invite hinvite
    cases hchecked : checkedInvite c record a with
    | error e =>
      rw [hchecked] at hinvite
      cases hinvite
    | ok invite' =>
      rw [hchecked] at hinvite
      cases hinvite
      exact checkedInvite_ok hchecked

theorem askAdmission_requested {record : NodeRecord} {client : String} {session : Bool} {way : Way} {more bits : Nat}
    {d d' : Desk} {r : Except Failure Invite}
    (h : askAdmission c w record client session way more bits d = (r, d')) :
    ∃ received, Requested w record.key client way d received d' ∧
      ∀ invite, r = .ok invite → received = true ∧ invite.pass = none := by
  -- an answer that is read ends the asking
  have hfinish : ∀ (a : Answer) (d : Desk), (w.moment d.tick).reply = .answered a →
      askAdmission.finish c record a (d.sent record.key client way (w.moment d.tick).reply.received) = (r, d') →
      ∃ received, Requested w record.key client way d received d' ∧
        ∀ invite, r = .ok invite → received = true ∧ invite.pass = none := by
    intro a d hreply h
    obtain ⟨rfl, hok⟩ := finish_ok h
    refine ⟨_, .last d, ?_⟩
    intro invite hinvite
    refine ⟨?_, hok invite hinvite⟩
    rw [hreply]
    rfl
  have hfailed : ∀ (why : String) (d : Desk),
      ((.error (failure why), d.sent record.key client way (w.moment d.tick).reply.received) :
        Except Failure Invite × Desk) = (r, d') →
      ∃ received, Requested w record.key client way d received d' ∧
        ∀ invite, r = .ok invite → received = true ∧ invite.pass = none := by
    intro why d h
    cases h
    refine ⟨_, .last d, ?_⟩
    intro invite hinvite
    cases hinvite
  induction more generalizing bits d with
  | zero =>
    unfold askAdmission at h
    dsimp only at h
    split at h
    · exact hfailed _ _ h
    · exact hfailed _ _ h
    · rename_i a hreply
      exact hfinish a d hreply h
  | succ more ih =>
    unfold askAdmission at h
    dsimp only at h
    split at h
    · exact hfailed _ _ h
    · exact hfailed _ _ h
    · rename_i a hreply
      split at h
      · rename_i more' want heq _
        cases heq
        split at h
        · obtain ⟨received, hmore, hok⟩ := ih h
          exact ⟨received, hmore.again, hok⟩
        · exact hfinish a d hreply h
      · exact hfinish a d hreply h

theorem requestAdmission_requested {record : NodeRecord} {client : String} {session : Bool} {way : Way} {d d' : Desk}
    {r : Except Failure Invite} (h : requestAdmission c w record client session way d = (r, d')) :
    ((∃ e, r = .error e) ∧ d' = d) ∨ ∃ received, Requested w record.key client way d received d' ∧
      ∀ invite, r = .ok invite → received = true ∧ invite.pass = none := by
  unfold requestAdmission at h
  split at h
  · cases h
    exact Or.inl ⟨⟨_, rfl⟩, rfl⟩
  · split at h
    · cases h
      exact Or.inl ⟨⟨_, rfl⟩, rfl⟩
    · exact Or.inr (askAdmission_requested h)

theorem purse_requestAdmission (record : NodeRecord) (client : String) (session : Bool) (way : Way) (d : Desk) :
    (requestAdmission c w record client session way d).2.toPurse = d.toPurse := by
  cases h : requestAdmission c w record client session way d with
  | mk r d' =>
    rcases requestAdmission_requested h with ⟨-, rfl⟩ | ⟨_, hrequested, -⟩
    · rfl
    · exact hrequested.purse

theorem requestAdmission_ok {record : NodeRecord} {client : String} {session : Bool} {way : Way} {d : Desk}
    {invite : Invite} (h : (requestAdmission c w record client session way d).1 = .ok invite) :
    invite.pass = none := by
  cases hrequest : requestAdmission c w record client session way d with
  | mk r d' =>
    rw [hrequest] at h
    rcases requestAdmission_requested hrequest with ⟨⟨e, rfl⟩, -⟩ | ⟨_, -, hok⟩
    · cases h
    · exact (hok invite h).2

/-- Either nothing was sent, or the pass was shown under its own key, and an invite is for that pass. -/
theorem redeemPass_cases {record : NodeRecord} {pass : Pass} {way : Way} {d d' : Desk} {r : Except Failure Invite}
    (h : redeemPass c lib w record pass way d = (r, d')) :
    ((∃ why, r = .error (failure why)) ∧ d' = d) ∨
    ∃ client received, clientKeyFromBase64 c lib pass.clientSecret = .ok client ∧
      d' = d.sent record.key (lib.publicBase64 client) way received ∧ (∀ e, r = .error e → e.received = received) ∧
      ∀ invite, r = .ok invite → received = true ∧ ∃ b, invite.pass = some b ∧ b.clientSecret = pass.clientSecret ∧
        b.behind = some (decide (way = .behind)) := by
  unfold redeemPass at h
  split at h
  · cases h
    exact Or.inl ⟨⟨_, rfl⟩, rfl⟩
  · split at h
    · cases h
      exact Or.inl ⟨⟨_, rfl⟩, rfl⟩
    · cases h
      exact Or.inl ⟨⟨_, rfl⟩, rfl⟩
    · rename_i client _ hclient
      right
      -- a failure says whether the request was received
      have hfailed : ∀ (e : Failure), e.received = (w.moment d.tick).reply.received →
          ((.error e, d.sent record.key (lib.publicBase64 client) way (w.moment d.tick).reply.received) :
            Except Failure Invite × Desk) = (r, d') →
          ∃ client received, clientKeyFromBase64 c lib pass.clientSecret = .ok client ∧
            d' = d.sent record.key (lib.publicBase64 client) way received ∧
            (∀ e, r = .error e → e.received = received) ∧
            ∀ invite, r = .ok invite → received = true ∧ ∃ b, invite.pass = some b ∧
              b.clientSecret = pass.clientSecret ∧ b.behind = some (decide (way = .behind)) := by
        intro e he h
        cases h
        refine ⟨client, _, hclient, rfl, ?_, ?_⟩
        · intro e' he'
          cases he'
          exact he
        · intro invite hinvite
          cases hinvite
      dsimp only at h
      split at h
      · rename_i received hreply
        exact hfailed ⟨CANCELLED, false, received⟩ (by rw [hreply]; rfl) h
      · rename_i why received hreply
        exact hfailed ⟨why, false, received⟩ (by rw [hreply]; rfl) h
      · rename_i a hreply
        split at h
        · exact hfailed ⟨_, _, true⟩ (by rw [hreply]; rfl) h
        · split at h
          · rename_i e _
            exact hfailed ⟨e, true, true⟩ (by rw [hreply]; rfl) h
          · cases h
            refine ⟨client, _, hclient, rfl, ?_, ?_⟩
            · intro e he
              cases he
            · intro invite hinvite
              cases hinvite
              rw [hreply]
              exact ⟨rfl, _, rfl, rfl, rfl⟩

theorem purse_redeemPass (record : NodeRecord) (pass : Pass) (way : Way) (d : Desk) :
    (redeemPass c lib w record pass way d).2.toPurse = d.toPurse := by
  cases h : redeemPass c lib w record pass way d with
  | mk r d' =>
    rcases redeemPass_cases h with ⟨-, rfl⟩ | ⟨client, received, -, rfl, -⟩
    · rfl
    · exact Desk.toPurse_sent _ _ _ _ _

theorem redeemPass_ok {record : NodeRecord} {pass : Pass} {way : Way} {d : Desk} {invite : Invite}
    (h : (redeemPass c lib w record pass way d).1 = .ok invite) :
    ∃ b, invite.pass = some b ∧ b.clientSecret = pass.clientSecret ∧ b.behind = some (decide (way = .behind)) := by
  cases hredeem : redeemPass c lib w record pass way d with
  | mk r d' =>
    rw [hredeem] at h
    rcases redeemPass_cases hredeem with ⟨⟨why, rfl⟩, -⟩ | ⟨_, _, -, -, -, hok⟩
    · cases h
    · exact (hok invite h).2

end HidraNet.Client
