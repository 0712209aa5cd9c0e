import HidraNet.Lib.Base64
import HidraNet.Node.RateLimiter
import HidraNet.Node.Shares

/-!
# The session window and the leases

The handlers of admission requests beside the node's main loop.  A handler counts its request, asks the main loop and
waits four seconds; a request for a session that took a place in the window and gets no invite gives it back.  The main
loop skips a request nobody waits for, saves the lease and answers, and its reaper gives back the places of keys that
never came.  Any number of requests are under way at once, also for one key.

The place and the lease can come apart in two ways: a handler gives back the place of a key whose lease is saved, and
the main loop makes the lease of a key whose place was given back meanwhile.  In every run without these a session
lease has its place (`sessionWindow_run`, `not_sessionWindow`).
-/

namespace HidraNet.Node

open Maps Runs Text

/-- How far the handler of a request is. -/
inductive Waits where
  | asking
  | waiting
  /-- The main loop's answer has reached it, an invite or not. -/
  | told (invited : Bool)
  | gaveUp
  | done
deriving DecidableEq

structure Handler (Key : Type) where
  req : Admit
  /-- A session's key, and what its admission did to the window. -/
  place : Option (Key × Recorded)
  waits : Waits
deriving DecidableEq

def Handler.isClosed {Key : Type} (h : Handler Key) : Bool := h.waits = .gaveUp || h.waits = .done

/-- What the main loop is doing. -/
inductive LoopState (Invite Key : Type) where
  | idle
  | taken (i : Nat)
  | answered (i : Nat) (answer : Except (Nat × String) Invite)
  | reaped (neverCame : List Key)

structure Admissions (Ip Key Invite : Type) where
  limiter : RateLimiter Ip Key
  node : NodeState
  clock : Nat
  handlers : List (Handler Key)
  queue : List Nat
  loop : LoopState Invite Key
  given : List String
  took : Map Key Nat

/-- What the reaper does to the leases under their lock. -/
def Leases.reaping (now : Nat) (ages : List (String × Option Nat)) (active : List String) (w : IdleWindows)
    (ls : Leases) (_ : Unit) : Leases × Unit × List Lease × Bool :=
  let (ls, shook) := ls.noteHandshakes now ages
  let (ls, sent) := ls.noteTraffic now active
  let (ls, gone) := ls.expireIdle now w
  (ls, (), gone, shook || sent || !gone.isEmpty)

namespace NodeState

def gone (s : NodeState) (now : Nat) (ages : List (String × Option Nat)) (active : List String) (w : IdleWindows)
    (read save : Option String) : List Lease :=
  match (s.leases.update read save () (Leases.reaping now ages active w)).2.2 with
  | .error _ => []
  | .ok gone => gone

end NodeState

/-! ### Places -/

section Places

variable {Ip Key : Type} [DecidableEq Key] {r : RateLimiter Ip Key} {took : Map Key Nat} {now : Nat}

/-- Every place of the window is where its key took it last. -/
structure Placed (r : RateLimiter Ip Key) (took : Map Key Nat) : Prop where
  window : SessionsOk r
  took : ∀ e ∈ r.sessions, took.get? e.2 = some e.1

private theorem placed_slide (h : Placed r took) {r' : RateLimiter Ip Key} (hok : SessionsOk r')
    (hsessions : r'.sessions = (r.slideAll now).sessions) : Placed r' took := by
  refine ⟨hok, fun e he => h.took e ?_⟩
  obtain ⟨hsub, -, -⟩ := slideSessions_spec now r.sessions r.sessionKeys h.window.nodup h.window.keys
  rw [hsessions] at he
  exact hsub.subset he

private theorem held_slide (h : Placed r took) {client : Key} (hmem : client ∈ r.sessionKeys) {t : Nat}
    (ht : took.get? client = some t) (hin : now ≤ t + GLOBAL_WINDOW) : client ∈ (r.slideAll now).sessionKeys := by
  obtain ⟨e, he, rfl⟩ := List.mem_map.1 ((h.window.keys client).1 hmem)
  have htook := h.took e he
  rw [ht] at htook
  cases htook
  exact RateLimiter.mem_slideAll h.window he hin

private theorem placed_forget (h : Placed r took) (client : Key) : Placed (r.forgetSession client) took := by
  refine ⟨RateLimiter.sessionsOk_forgetSession h.window client, fun e he => h.took e ?_⟩
  unfold RateLimiter.forgetSession at he
  split at he
  · exact List.mem_of_mem_filter he
  · exact he

private theorem mem_forget {client key : Key} (hne : key ≠ client) (hmem : key ∈ r.sessionKeys) :
    key ∈ (r.forgetSession client).sessionKeys := by
  unfold RateLimiter.forgetSession
  split
  · exact Finset.mem_erase.2 ⟨hne, hmem⟩
  · exact hmem

private theorem placed_forgetAll (neverCame : List Key) (h : Placed r took) :
    Placed (neverCame.foldl RateLimiter.forgetSession r) took ∧
      ∀ key ∈ r.sessionKeys, key ∉ neverCame → key ∈ (neverCame.foldl RateLimiter.forgetSession r).sessionKeys := by
  induction neverCame generalizing r with
  | nil => exact ⟨h, fun key hkey _ => hkey⟩
  | cons client rest ih =>
    obtain ⟨hplaced, hkept⟩ := ih (placed_forget h client)
    refine ⟨hplaced, fun key hkey hnot => ?_⟩
    rw [List.mem_cons, not_or] at hnot
    exact hkept key (mem_forget hnot.1 hkey) hnot.2

end Places

/-! ### Leases and their keys -/

section Keys

variable {ls ls' : Leases}

/-- The keys of the table are distinct, and have no blanks around them. -/
structure KeysOk (ls : Leases) : Prop where
  nodup : (ls.leases.map Lease.publicKey).Nodup
  trimmed : ∀ l ∈ ls.leases, trim l.publicKey = l.publicKey

def Lease.kind (l : Lease) : String × String := (l.publicKey, l.source)

private theorem keysOk_iff : KeysOk ls ↔
    ((ls.leases.map Lease.kind).map Prod.fst).Nodup ∧ ∀ k ∈ ls.leases.map Lease.kind, trim k.1 = k.1 := by
  rw [List.map_map]
  constructor
  · rintro ⟨hnodup, htrim⟩
    exact ⟨hnodup, fun k hk => by obtain ⟨l, hl, rfl⟩ := List.mem_map.1 hk; exact htrim l hl⟩
  · rintro ⟨hnodup, htrim⟩
    exact ⟨hnodup, fun l hl => htrim l.kind (List.mem_map_of_mem hl)⟩

private theorem keysOk_of_sublist (h : KeysOk ls)
    (hsub : (ls'.leases.map Lease.kind).Sublist (ls.leases.map Lease.kind)) : KeysOk ls' := by
  rw [keysOk_iff] at h ⊢
  exact ⟨h.1.sublist (hsub.map _), fun k hk => h.2 k (hsub.subset hk)⟩

private theorem keysOk_new (h : KeysOk ls) {publicKey : String} (hnew : ls.find publicKey = none) {l : Lease}
    (hl : l.publicKey = trim publicKey) (hsub : ls'.leases.Sublist (ls.leases ++ [l])) : KeysOk ls' := by
  have happend : KeysOk ⟨ls.leases ++ [l]⟩ := by
    constructor
    · dsimp only
      rw [List.map_append, List.map_singleton, List.nodup_append]
      refine ⟨h.nodup, List.nodup_singleton _, fun a ha b hb => ?_⟩
      obtain ⟨l', hl', rfl⟩ := List.mem_map.1 ha
      rw [List.mem_singleton.1 hb, hl]
      exact Leases.find_eq_none.1 hnew l' hl'
    · intro l' hl'
      rcases List.mem_append.1 hl' with hl' | hl'
      · exact h.trimmed l' hl'
      · rw [List.mem_singleton.1 hl', hl, trim_trim]
  exact keysOk_of_sublist happend (hsub.map _)

private theorem expire_kinds (s : NodeState) (now : Nat) (ages : List (String × Option Nat)) (active : List String)
    (w : IdleWindows) (read save : Option String) (stuck : List String) :
    (s.gone now ages active w read save = [] ∧
      (s.expire now ages active w read save stuck).leases = s.leases) ∨
    ∃ (noted : List Lease) (p : Lease → Bool), noted.map Lease.kind = s.leases.leases.map Lease.kind ∧
      s.gone now ages active w read save = noted.filter p ∧
      (s.expire now ages active w read save stuck).leases.leases = noted.filter fun l => !p l := by
  have hleases : (s.expire now ages active w read save stuck).leases =
      (s.leases.update read save () (Leases.reaping now ages active w)).1 := by
    unfold NodeState.expire Leases.reaping
    dsimp only
    split <;> rfl
  have hnotes : ((s.leases.noteHandshakes now ages).1.noteTraffic now active).1.leases.map Lease.kind =
      s.leases.leases.map Lease.kind :=
    (Leases.map_noteTraffic fun _ _ => rfl).trans (Leases.map_noteHandshakes fun _ _ => rfl)
  rw [hleases]
  unfold NodeState.gone Leases.update
  cases read with
  | some e => exact Or.inl ⟨rfl, rfl⟩
  | none =>
    cases hchanged : (Leases.reaping now ages active w s.leases ()).2.2.2 with
    | false =>
      left
      have hgone : (Leases.reaping now ages active w s.leases ()).2.2.1 = [] := by
        unfold Leases.reaping at hchanged ⊢
        simpa using (Bool.or_eq_false_iff.1 hchanged).2
      revert hchanged hgone
      obtain ⟨ls', u, gone, changed⟩ := Leases.reaping now ages active w s.leases ()
      rintro rfl rfl
      exact ⟨rfl, rfl⟩
    | true =>
      cases save with
      | some e =>
        left
        revert hchanged
        obtain ⟨ls', u, gone, changed⟩ := Leases.reaping now ages active w s.leases ()
        rintro rfl
        exact ⟨rfl, rfl⟩
      | none =>
        right
        unfold Leases.reaping at hchanged ⊢
        dsimp only at hchanged ⊢
        rw [hchanged]
        exact ⟨_, _, hnotes, rfl, rfl⟩

end Keys

/-! ### Handlers and the main loop -/

section Machine

variable {Ip Key Invite : Type} [DecidableEq Ip] [DecidableEq Key]

/-- The keys of the sessions among `gone` that never shook hands. -/
def neverCameSessions (keyOf : String → Option Key) (gone : List Lease) : List Key :=
  (gone.filter fun l => l.source == "session" && l.lastSeen == 0).filterMap fun l => keyOf (trim l.publicKey)

inductive AdmissionStep (Ip Key : Type) where
  | tick (now : Nat)
  | sessionRoom (key : Key) (addr : Option Ip) (now : Nat)
  | sessionBits (base now held maxClients : Nat)
  /-- A request is counted; `relay` says that its address is one of the listed relays. -/
  | ask (req : Admit) (ip : Ip) (relay : Bool) (now : Nat)
  /-- It is put in the main loop's queue, unless the node is stopping. -/
  | send (i : Nat) (stopping : Bool)
  | timeout (i : Nat)
  | hear (i : Nat)
  | giveBack (i : Nat)
  | take
  | answer (now : Nat) (f : ServeFaults)
  | reply (f : ServeFaults)
  | expire (now : Nat) (ages : List (String × Option Nat)) (active : List String) (w : IdleWindows)
    (read save : Option String) (stuck : List String)
  | forget
  | operatorAdmits (name publicKey : String) (now : Nat) (read save : Option String)
  | revoke (publicKey : String) (read save : Option String)
deriving DecidableEq

namespace Admissions

def start (node : NodeState) (clock : Nat) : Admissions Ip Key Invite :=
  ⟨.empty, node, clock, [], [], .idle, [], .empty⟩

def setWaits (s : Admissions Ip Key Invite) (i : Nat) (waits : Waits) : Admissions Ip Key Invite :=
  { s with handlers := s.handlers.modify i fun h => { h with waits } }

variable (keyOf : String → Option Key) (cfg : NodeConfig Invite)

/-- A request counted, and its handler under way, when it is let through. -/
def asked (s : Admissions Ip Key Invite) (req : Admit) (ip : Ip) (relay : Bool) (now : Nat) :
    Admissions Ip Key Invite :=
  if req.pass.isSome then { s with clock := now, handlers := s.handlers ++ [⟨req, none, .asking⟩] }
  else if req.session then
    match keyOf (trim req.publicKey) with
    | none => { s with clock := now }
    | some client =>
      match s.limiter.allowSession client (if relay then none else some ip) now with
      | (limiter, .error _) => { s with limiter, clock := now }
      | (limiter, .ok r) =>
        { s with
          limiter
          clock := now
          handlers := s.handlers ++ [⟨req, some (client, r), .asking⟩]
          took := if r = .new then s.took.set client now else s.took }
  else
    match s.limiter.allow ip now with
    | (limiter, false) => { s with limiter, clock := now }
    | (limiter, true) => { s with limiter, clock := now, handlers := s.handlers ++ [⟨req, none, .asking⟩] }

/-- The main loop answers the request it has taken. -/
def answer (s : Admissions Ip Key Invite) (now : Nat) (f : ServeFaults) : Admissions Ip Key Invite :=
  match s.loop with
  | .taken i =>
    match s.handlers[i]? with
    | none => s
    | some h =>
      let (node, r) := s.node.answer cfg h.req now f
      let isNew := (s.node.leases.find h.req.publicKey).isNone &&
        (node.leases.find h.req.publicKey).any (·.source == "session")
      { s with node, loop := .answered i r, given := if isNew then s.given ++ [trim h.req.publicKey] else s.given }
  | _ => s

/-- The answer is sent; what a pass won is undone when nobody waits for it. -/
def reply (s : Admissions Ip Key Invite) (f : ServeFaults) : Admissions Ip Key Invite :=
  match s.loop with
  | .answered i r =>
    match s.handlers[i]? with
    | none => s
    | some h =>
      if h.isClosed then
        match r with
        | .ok _ =>
          if h.req.pass.isSome then
            { s with
              node := (s.node.undoAdmission (.admitted h.req.publicKey "no one was waiting") h.req.pass f).1
              loop := .idle }
          else { s with loop := .idle }
        | .error _ => { s with loop := .idle }
      else { s.setWaits i (.told r.isOk) with loop := .idle }
  | _ => s

def step (s : Admissions Ip Key Invite) : AdmissionStep Ip Key → Admissions Ip Key Invite
  | .tick now => { s with clock := now }
  | .sessionRoom key addr now => { s with limiter := (s.limiter.sessionRoom key addr now).1, clock := now }
  | .sessionBits base now held maxClients =>
    { s with limiter := (s.limiter.sessionBits base now held maxClients).1, clock := now }
  | .ask req ip relay now => s.asked keyOf req ip relay now
  | .send i stopping =>
    match s.handlers[i]? with
    | some ⟨_, _, .asking⟩ =>
      if stopping then s.setWaits i .gaveUp else { s.setWaits i .waiting with queue := s.queue ++ [i] }
    | _ => s
  | .timeout i =>
    match s.handlers[i]? with
    | some ⟨_, _, .waiting⟩ | some ⟨_, _, .told _⟩ => s.setWaits i .gaveUp
    | _ => s
  | .hear i =>
    match s.handlers[i]? with
    | some ⟨_, _, .told invited⟩ => s.setWaits i (if invited then .done else .gaveUp)
    | _ => s
  | .giveBack i =>
    match s.handlers[i]? with
    | some ⟨_, some (client, .new), .gaveUp⟩ => { s.setWaits i .done with limiter := s.limiter.forgetSession client }
    | some ⟨_, _, .gaveUp⟩ => s.setWaits i .done
    | _ => s
  | .take =>
    match s.loop, s.queue with
    | .idle, i :: queue =>
      if (s.handlers[i]?).all Handler.isClosed then { s with queue } else { s with queue, loop := .taken i }
    | _, _ => s
  | .answer now f => s.answer cfg now f
  | .reply f => s.reply f
  | .expire now ages active w read save stuck =>
    match s.loop with
    | .idle =>
      { s with
        node := s.node.expire now ages active w read save stuck
        loop := .reaped (neverCameSessions keyOf (s.node.gone now ages active w read save)) }
    | _ => s
  | .forget =>
    match s.loop with
    | .reaped neverCame => { s with limiter := neverCame.foldl RateLimiter.forgetSession s.limiter, loop := .idle }
    | _ => s
  | .operatorAdmits name key now read save =>
    let leases := (s.node.leases.update read save () fun ls _ =>
      ((ls.admitKey cfg.isKey name key cfg.net now).1, (), (), (ls.admitKey cfg.isKey name key cfg.net now).2.isOk)).1
    { s with node := { s.node with leases } }
  | .revoke key read save => { s with node := s.node.revoke key read save }

/-- The clock does not go back. -/
def Allowed (s : Admissions Ip Key Invite) : AdmissionStep Ip Key → Prop
  | .tick now => s.clock ≤ now
  | .sessionRoom _ _ now => s.clock ≤ now
  | .sessionBits _ now _ _ => s.clock ≤ now
  | .ask _ _ _ now => s.clock ≤ now
  | _ => True

def Leased (s : Admissions Ip Key Invite) (client : Key) : Prop :=
  ∃ l ∈ s.node.leases.leases, l.source = "session" ∧ l.publicKey ∈ s.given ∧ keyOf l.publicKey = some client

def Recent (s : Admissions Ip Key Invite) (client : Key) : Prop :=
  ∃ t ∈ s.took.get? client, s.clock ≤ t + GLOBAL_WINDOW

def PlacesHeld (s : Admissions Ip Key Invite) : Prop :=
  ∀ client, s.Leased keyOf client → s.Recent client → client ∈ s.limiter.sessionKeys

/-- No handler gives back the place of a key that has a session lease, and the main loop takes up no session whose key
has no lease, when there is room, after the key's place was given back; places of more than ten minutes ago apart. -/
def KeepsPlaces (s : Admissions Ip Key Invite) : AdmissionStep Ip Key → Prop
  | .giveBack i =>
    match s.handlers[i]? with
    | some ⟨_, some (client, .new), .gaveUp⟩ => s.Leased keyOf client → ¬ s.Recent client
    | _ => True
  | .answer _ _ =>
    match s.loop with
    | .taken i => ∀ h ∈ s.handlers[i]?, h.req.source = "session" →
      s.node.leases.find h.req.publicKey = none →
      s.node.leases.refusalForRoom h.req.publicKey cfg.net cfg.maxClients none = none →
      ∀ client ∈ keyOf (trim h.req.publicKey), s.Recent client → client ∈ s.limiter.sessionKeys
    | _ => True
  | _ => True

instance (s : Admissions Ip Key Invite) (client : Key) : Decidable (s.Leased keyOf client) :=
  inferInstanceAs (Decidable (∃ l ∈ s.node.leases.leases, _))

instance (s : Admissions Ip Key Invite) (client : Key) : Decidable (s.Recent client) :=
  inferInstanceAs (Decidable (∃ t ∈ s.took.get? client, _))

instance (s : Admissions Ip Key Invite) (e : AdmissionStep Ip Key) : Decidable (s.Allowed e) := by
  cases e <;> unfold Allowed <;> infer_instance

instance (s : Admissions Ip Key Invite) (e : AdmissionStep Ip Key) : Decidable (s.KeepsPlaces keyOf cfg e) := by
  cases e <;> unfold KeepsPlaces <;> (repeat' split) <;> infer_instance

end Admissions

end Machine

/-! ### What holds at every step -/

section Invariant

variable {Ip Key Invite : Type} [DecidableEq Key] {keyOf : String → Option Key} {cfg : NodeConfig Invite}
  {s : Admissions Ip Key Invite} {now : Nat}

structure WindowInv (keyOf : String → Option Key) (s : Admissions Ip Key Invite) : Prop where
  placed : Placed s.limiter s.took
  keys : KeysOk s.node.leases
  held : s.PlacesHeld keyOf
  reaped : ∀ neverCame, s.loop = .reaped neverCame → ∀ client ∈ neverCame, ¬ s.Leased keyOf client

private theorem windowInv_start {node : NodeState} (hnode : KeysOk node.leases) (clock : Nat) :
    WindowInv keyOf (Admissions.start node clock : Admissions Ip Key Invite) := by
  refine ⟨⟨⟨List.nodup_nil, fun _ => by simp [Admissions.start, RateLimiter.empty], Nat.zero_le _⟩, ?_⟩, hnode, ?_, ?_⟩
  · intro e he
    cases he
  · rintro client ⟨l, -, -, hgiven, -⟩
    cases hgiven
  · intro neverCame h
    cases h

private theorem windowInv_wait (h : WindowInv keyOf s) (handlers : List (Handler Key)) (queue : List Nat)
    (loop : LoopState Invite Key) (hloop : ∀ neverCame, loop = .reaped neverCame → s.loop = .reaped neverCame) :
    WindowInv keyOf { s with handlers, queue, loop } :=
  ⟨h.placed, h.keys, h.held, fun neverCame heq => h.reaped neverCame (hloop neverCame heq)⟩

private theorem windowInv_later (h : WindowInv keyOf s) {limiter : RateLimiter Ip Key}
    (handlers : List (Handler Key)) (hclock : s.clock ≤ now) (hplaced : Placed limiter s.took)
    (hkept : ∀ client t, s.took.get? client = some t → now ≤ t + GLOBAL_WINDOW → client ∈ s.limiter.sessionKeys →
      client ∈ limiter.sessionKeys) : WindowInv keyOf { s with limiter, clock := now, handlers } := by
  refine ⟨hplaced, h.keys, ?_, h.reaped⟩
  rintro client hleased ⟨t, ht, hrecent⟩
  have hheld := h.held client hleased ⟨t, ht, hclock.trans hrecent⟩
  exact hkept client t ht hrecent hheld

private theorem windowInv_tick (h : WindowInv keyOf s) (handlers : List (Handler Key)) (hclock : s.clock ≤ now) :
    WindowInv keyOf { s with clock := now, handlers } :=
  windowInv_later h handlers hclock h.placed fun _ _ _ _ hmem => hmem

private theorem windowInv_leases (h : WindowInv keyOf s) {node : NodeState} (loop : LoopState Invite Key)
    (hkeys : KeysOk node.leases)
    (hkinds : ∀ l ∈ node.leases.leases, l.source = "session" → l.kind ∈ s.node.leases.leases.map Lease.kind)
    (hloop : ∀ neverCame, loop = .reaped neverCame → ∀ client ∈ neverCame,
      ¬ Admissions.Leased keyOf { s with node, loop } client) : WindowInv keyOf { s with node, loop } := by
  refine ⟨h.placed, hkeys, ?_, hloop⟩
  rintro client ⟨l, hl, hsource, hgiven, hkey⟩ hrecent
  obtain ⟨l', hl', hkind⟩ := List.mem_map.1 (hkinds l hl hsource)
  obtain ⟨hpublicKey, hsource'⟩ := Prod.mk.inj hkind
  refine h.held client ⟨l', hl', ?_, ?_, ?_⟩ hrecent
  · rw [hsource', hsource]
  · rw [hpublicKey]
    exact hgiven
  · rw [hpublicKey]
    exact hkey

private theorem windowInv_fewer (h : WindowInv keyOf s) {node : NodeState} {loop : LoopState Invite Key}
    (hsub : (node.leases.leases.map Lease.kind).Sublist (s.node.leases.leases.map Lease.kind))
    (hloop : ∀ neverCame, loop = .reaped neverCame → ∀ client ∈ neverCame,
      ¬ Admissions.Leased keyOf { s with node, loop } client) : WindowInv keyOf { s with node, loop } :=
  windowInv_leases h loop (keysOk_of_sublist h.keys hsub) (fun _ hl _ => hsub.subset (List.mem_map_of_mem hl)) hloop

private theorem windowInv_operator (h : WindowInv keyOf s) {leases : Leases} (hkeys : KeysOk leases)
    (hsessions : ∀ l ∈ leases.leases, l.source = "session" → l ∈ s.node.leases.leases) :
    WindowInv keyOf { s with node := { s.node with leases } } := by
  refine windowInv_leases h s.loop hkeys (fun l hl hsource => List.mem_map_of_mem (hsessions l hl hsource)) ?_
  rintro neverCame heq client hclient ⟨l, hl, hsource, hl'⟩
  exact h.reaped neverCame heq client hclient ⟨l, hsessions l hl hsource, hsource, hl'⟩

private theorem windowInv_answer (h : WindowInv keyOf s) (now : Nat) (f : ServeFaults)
    (hok : s.KeepsPlaces keyOf cfg (.answer now f)) : WindowInv keyOf (s.answer cfg now f) := by
  unfold Admissions.answer
  split
  · rename_i i hloop
    split
    · exact h
    · rename_i hdl hhandler
      unfold Admissions.KeepsPlaces at hok
      rw [hloop] at hok
      have hplace := hok hdl hhandler
      have hcases := answer_leases cfg s.node hdl.req now f
      revert hcases
      obtain ⟨node, r⟩ := s.node.answer cfg hdl.req now f
      intro hcases
      dsimp only at hcases ⊢
      refine ⟨h.placed, ?_, ?_, fun neverCame heq => by cases heq⟩
      · rcases hcases with hsub | ⟨l, hsub, hl⟩
        · exact keysOk_of_sublist h.keys (hsub.map _)
        · exact keysOk_new h.keys hl.absent hl.key hsub
      · rintro client ⟨l, hl, hsource, hgiven, hkey⟩ hrecent
        -- a lease that was there was not given now
        have hbefore : l ∈ s.node.leases.leases → client ∈ s.limiter.sessionKeys := by
          intro hmem
          refine h.held client ⟨l, hmem, hsource, ?_, hkey⟩ hrecent
          dsimp only at hgiven
          split at hgiven
          · rename_i hnew
            rw [Bool.and_eq_true, Option.isNone_iff_eq_none] at hnew
            rcases List.mem_append.1 hgiven with hgiven | hgiven
            · exact hgiven
            · exact absurd (List.mem_singleton.1 hgiven) (Leases.find_eq_none.1 hnew.1 l hmem)
          · exact hgiven
        rcases hcases with hsub | ⟨l', hsub, hl'⟩
        · exact hbefore (hsub.subset hl)
        · rcases List.mem_append.1 (hsub.subset hl) with hmem | hmem
          · exact hbefore hmem
          · rw [List.mem_singleton.1 hmem] at hsource hkey
            have hsession : hdl.req.source = "session" := hl'.source.symm.trans hsource
            have hroom := hl'.room
            rw [if_neg (by
              unfold Admit.source at hsession
              cases hpass : hdl.req.pass <;> cases hses : hdl.req.session <;> simp_all)] at hroom
            exact hplace hsession hl'.absent hroom client (by rw [← hl'.key]; exact hkey) hrecent
  · exact h

private theorem windowInv_reply (h : WindowInv keyOf s) (f : ServeFaults) : WindowInv keyOf (s.reply f) := by
  unfold Admissions.reply
  split
  · split
    · exact h
    · split
      · split
        · split
          · exact windowInv_fewer h ((sublist_undoAdmission s.node _ _ f).map _) fun _ heq => by cases heq
          · exact windowInv_wait h s.handlers s.queue .idle fun _ heq => by cases heq
        · exact windowInv_wait h s.handlers s.queue .idle fun _ heq => by cases heq
      · exact windowInv_wait h _ s.queue .idle fun _ heq => by cases heq
  · exact h

private theorem windowInv_expire (hkeyOf : ∀ a b client, keyOf a = some client → keyOf b = some client → a = b)
    (h : WindowInv keyOf s) (ages : List (String × Option Nat)) (active : List String) (w : IdleWindows)
    (read save : Option String) (stuck : List String) :
    WindowInv keyOf ({ s with
      node := s.node.expire now ages active w read save stuck
      loop := .reaped (neverCameSessions keyOf (s.node.gone now ages active w read save)) } :
        Admissions Ip Key Invite) := by
  rcases expire_kinds s.node now ages active w read save stuck with ⟨hgone, hleases⟩ |
    ⟨noted, p, hnoted, hgone, hleases⟩
  · refine windowInv_fewer h (by rw [hleases]) fun neverCame heq client hclient => ?_
    rw [hgone] at heq
    cases heq
    cases hclient
  · refine windowInv_fewer h ?_ fun neverCame heq client hclient => ?_
    · rw [hleases, ← hnoted]
      exact List.filter_sublist.map _
    · rw [hgone] at heq
      cases heq
      obtain ⟨l, hl, hkey⟩ := List.mem_filterMap.1 hclient
      obtain ⟨hl, hp⟩ := List.mem_filter.1 (List.mem_filter.1 hl).1
      rintro ⟨l', hl', -, -, hkey'⟩
      have hl' : l' ∈ noted.filter fun l => !p l := by
        rw [← hleases]
        exact hl'
      obtain ⟨hl', hp'⟩ := List.mem_filter.1 hl'
      obtain ⟨hnodup, htrim⟩ := keysOk_iff.1 h.keys
      rw [← hnoted] at hnodup htrim
      have hsame : l.publicKey = l'.publicKey :=
        (htrim l.kind (List.mem_map_of_mem hl)).symm.trans (hkeyOf _ _ client hkey hkey')
      rw [List.map_map] at hnodup
      have heq := List.inj_on_of_nodup_map hnodup hl hl' hsame
      rw [heq] at hp
      simp [hp] at hp'

variable [DecidableEq Ip]

private theorem windowInv_sessionRoom (h : WindowInv keyOf s) (handlers : List (Handler Key)) (client : Key)
    (addr : Option Ip) (hclock : s.clock ≤ now) :
    WindowInv keyOf { s with limiter := (s.limiter.sessionRoom client addr now).1, clock := now, handlers } := by
  have hok := RateLimiter.sessionsOk_sessionRoom h.placed.window client addr now
  obtain ⟨sessionPerIp, hr, -, -⟩ := s.limiter.sessionRoom_cases client addr now
  rw [hr] at hok ⊢
  exact windowInv_later h handlers hclock (placed_slide h.placed hok rfl) fun _ _ ht hin hmem =>
    held_slide h.placed hmem ht hin

private theorem windowInv_new (h : WindowInv keyOf s) (handlers : List (Handler Key)) (client : Key)
    (addr : Option Ip) (hclock : s.clock ≤ now) (hnew : (s.limiter.allowSession client addr now).2 = .ok .new) :
    WindowInv keyOf { s with
      limiter := (s.limiter.allowSession client addr now).1
      clock := now
      handlers
      took := s.took.set client now } := by
  have hok := RateLimiter.sessionsOk_allowSession h.placed.window client addr now
  rcases s.limiter.allowSession_cases client addr now with ⟨⟨e, hres⟩, -⟩ | ⟨-, hres, -⟩ |
    ⟨-, hfree, -, sessionPerIp, hr, -⟩
  · rw [hres] at hnew
    cases hnew
  · rw [hres] at hnew
    cases hnew
  · rw [hr] at hok ⊢
    have hslid := RateLimiter.sessionsOk_slideAll h.placed.window now
    obtain ⟨hsub, -, -⟩ := slideSessions_spec now s.limiter.sessions s.limiter.sessionKeys h.placed.window.nodup
      h.placed.window.keys
    refine ⟨⟨hok, fun e he => ?_⟩, h.keys, ?_, h.reaped⟩
    · rcases List.mem_append.1 he with he | he
      · have hmem : e.2 ∈ (s.limiter.slideAll now).sessionKeys := (hslid.keys e.2).2 (List.mem_map_of_mem he)
        have hother := Map.get?_set_other s.took now (ne_of_mem_of_not_mem hmem hfree)
        exact hother.trans (h.placed.took e (hsub.subset he))
      · rw [List.mem_singleton.1 he]
        exact Map.get?_set_self ..
    · rintro key hleased ⟨t, ht, hrecent⟩
      rw [Finset.mem_insert]
      by_cases hkey : key = client
      · exact Or.inl hkey
      · right
        have htook : s.took.get? key = some t := by
          rw [← Map.get?_set_other s.took now hkey]
          exact ht
        have hheld := h.held key hleased ⟨t, htook, hclock.trans hrecent⟩
        exact held_slide h.placed hheld htook hrecent

private theorem windowInv_asked (h : WindowInv keyOf s) (req : Admit) (ip : Ip) (relay : Bool)
    (hclock : s.clock ≤ now) : WindowInv keyOf (s.asked keyOf req ip relay now) := by
  unfold Admissions.asked
  split
  · exact windowInv_tick h _ hclock
  · split
    · cases hclient : keyOf (trim req.publicKey) with
      | none => exact windowInv_tick h _ hclock
      | some client =>
        dsimp only
        have hroom := fun handlers => windowInv_sessionRoom h handlers client (if relay then none else some ip) hclock
        have hnew := fun handlers => windowInv_new h handlers client (if relay then none else some ip) hclock
        rcases s.limiter.allowSession_cases client (if relay then none else some ip) now with ⟨⟨e, hres⟩, hr⟩ |
          ⟨-, hres, hr⟩ | ⟨-, -, hres, -⟩
        · have hrefused : s.limiter.allowSession client _ now = (_, .error e) := Prod.ext hr hres
          rw [hrefused]
          exact hroom _
        · have hagain : s.limiter.allowSession client _ now = (_, .ok .again) := Prod.ext hr hres
          rw [hagain]
          exact hroom _
        · have hnew := fun handlers => hnew handlers hres
          revert hnew hres
          obtain ⟨limiter, res⟩ := s.limiter.allowSession client (if relay then none else some ip) now
          rintro rfl hnew
          exact hnew _
    · have hallow : Placed (s.limiter.allow ip now).1 s.took ∧
          (s.limiter.allow ip now).1.sessionKeys = s.limiter.sessionKeys := by
        unfold RateLimiter.allow
        split
        · exact ⟨⟨⟨h.placed.window.nodup, h.placed.window.keys, h.placed.window.room⟩, h.placed.took⟩, rfl⟩
        · split
          · exact ⟨⟨⟨h.placed.window.nodup, h.placed.window.keys, h.placed.window.room⟩, h.placed.took⟩, rfl⟩
          · exact ⟨⟨⟨h.placed.window.nodup, h.placed.window.keys, h.placed.window.room⟩, h.placed.took⟩, rfl⟩
      obtain ⟨hplaced, hkeys⟩ := hallow
      revert hplaced hkeys
      obtain ⟨limiter, ok⟩ := s.limiter.allow ip now
      intro hplaced hkeys
      have hlater := fun handlers => windowInv_later h handlers hclock hplaced fun client _ _ _ hmem => by
        rw [hkeys]
        exact hmem
      cases ok
      · exact hlater _
      · exact hlater _

private theorem windowInv_giveBack (h : WindowInv keyOf s) (i : Nat)
    (hok : s.KeepsPlaces keyOf cfg (.giveBack i)) : WindowInv keyOf (s.step keyOf cfg (.giveBack i)) := by
  unfold Admissions.step
  unfold Admissions.KeepsPlaces at hok
  dsimp only
  split
  · rename_i req client hhandler
    dsimp only at hok
    rw [hhandler] at hok
    refine ⟨placed_forget h.placed client, h.keys, fun key hleased hrecent => ?_, h.reaped⟩
    have hne : key ≠ client := by
      rintro rfl
      exact hok hleased hrecent
    exact mem_forget hne (h.held key hleased hrecent)
  · exact windowInv_wait h _ s.queue s.loop fun _ heq => heq
  · exact h

private theorem windowInv_step (hkeyOf : ∀ a b client, keyOf a = some client → keyOf b = some client → a = b)
    (s : Admissions Ip Key Invite) (e : AdmissionStep Ip Key) (h : WindowInv keyOf s)
    (hok : s.Allowed e ∧ s.KeepsPlaces keyOf cfg e) : WindowInv keyOf (s.step keyOf cfg e) := by
  cases e with
  | tick now => exact windowInv_tick h s.handlers hok.1
  | sessionRoom key addr now => exact windowInv_sessionRoom h s.handlers key addr hok.1
  | sessionBits base now held maxClients =>
    exact windowInv_later h s.handlers hok.1
      (placed_slide h.placed (RateLimiter.sessionsOk_slideAll h.placed.window now) rfl) fun _ _ ht hin hmem =>
        held_slide h.placed hmem ht hin
  | ask req ip relay now => exact windowInv_asked h req ip relay hok.1
  | send i stopping =>
    unfold Admissions.step
    dsimp only
    split
    · split
      · exact windowInv_wait h _ s.queue s.loop fun _ heq => heq
      · exact windowInv_wait h _ _ s.loop fun _ heq => heq
    · exact h
  | timeout i =>
    unfold Admissions.step
    dsimp only
    split
    · exact windowInv_wait h _ s.queue s.loop fun _ heq => heq
    · exact windowInv_wait h _ s.queue s.loop fun _ heq => heq
    · exact h
  | hear i =>
    unfold Admissions.step
    dsimp only
    split
    · exact windowInv_wait h _ s.queue s.loop fun _ heq => heq
    · exact h
  | giveBack i => exact windowInv_giveBack h i hok.2
  | take =>
    unfold Admissions.step
    dsimp only
    split
    · split
      · exact windowInv_wait h s.handlers _ s.loop fun _ heq => heq
      · exact windowInv_wait h s.handlers _ _ fun _ heq => by cases heq
    · exact h
  | answer now f => exact windowInv_answer h now f hok.2
  | reply f => exact windowInv_reply h f
  | expire now ages active w read save stuck =>
    unfold Admissions.step
    dsimp only
    split
    · exact windowInv_expire hkeyOf h ages active w read save stuck
    · exact h
  | forget =>
    unfold Admissions.step
    dsimp only
    split
    · rename_i neverCame hloop
      obtain ⟨hplaced, hkept⟩ := placed_forgetAll neverCame h.placed
      refine ⟨hplaced, h.keys, fun key hleased hrecent => ?_, fun _ heq => by cases heq⟩
      have hnot : key ∉ neverCame := fun hmem => h.reaped neverCame hloop key hmem hleased
      exact hkept key (h.held key hleased hrecent) hnot
    · exact h
  | operatorAdmits name key now read save =>
    have hadmit : let r := s.node.leases.admitKey cfg.isKey name key cfg.net now
        KeysOk r.1 ∧ ∀ l ∈ r.1.leases, l.source = "session" → l ∈ s.node.leases.leases := by
      rcases s.node.leases.admitKey_cases cfg.isKey name key cfg.net now with ⟨e, hr⟩ | ⟨l, -, hr⟩ |
        ⟨ip, hnew, -, hr⟩ <;> rw [hr]
      · exact ⟨h.keys, fun _ hl _ => hl⟩
      · exact ⟨h.keys, fun _ hl _ => hl⟩
      · refine ⟨keysOk_new h.keys hnew rfl (List.Sublist.refl _), fun l hl hsource => ?_⟩
        rcases List.mem_append.1 hl with hl | hl
        · exact hl
        · rw [List.mem_singleton.1 hl] at hsource
          exact absurd hsource (show manual ≠ "session" by decide)
    obtain ⟨hkeys, hsessions⟩ : let ls := ((s.step keyOf cfg (.operatorAdmits name key now read save))).node.leases
        KeysOk ls ∧ ∀ l ∈ ls.leases, l.source = "session" → l ∈ s.node.leases.leases :=
      Leases.of_update (P := fun ls => KeysOk ls ∧ ∀ l ∈ ls.leases, l.source = "session" → l ∈ s.node.leases.leases)
        ⟨h.keys, fun _ hl _ => hl⟩ hadmit
    exact windowInv_operator h hkeys hsessions
  | revoke key read save =>
    have hsub : (s.node.revoke key read save).leases.leases.Sublist s.node.leases.leases :=
      Leases.of_update (P := fun ls => ls.leases.Sublist s.node.leases.leases) (List.Sublist.refl _)
        List.filter_sublist
    exact windowInv_operator h (keysOk_of_sublist h.keys (hsub.map _)) fun l hl _ => hsub.subset hl

/-- In every run in which no handler gives back the place of a key with a session lease, and the main loop makes none
for a key whose place was given back: every key that the main loop gave a session lease, and that has it, holds its
place for ten minutes from when it took it. -/
theorem sessionWindow_run (keyOf : String → Option Key)
    (hkeyOf : ∀ a b client, keyOf a = some client → keyOf b = some client → a = b) (cfg : NodeConfig Invite)
    (node : NodeState) (hnode : KeysOk node.leases) (clock : Nat) (es : List (AdmissionStep Ip Key))
    (h : Along (Admissions.step keyOf cfg) (fun s e => s.Allowed e ∧ s.KeepsPlaces keyOf cfg e)
      (Admissions.start node clock) es) :
    (run (Admissions.step keyOf cfg) (Admissions.start node clock) es).PlacesHeld keyOf :=
  (run_invariant (P := WindowInv keyOf) (windowInv_step hkeyOf) h (windowInv_start hnode clock)).held

end Invariant

/-- The 32 bytes of a key's text. -/
private def keyBytes (text : String) : Option (List UInt8) := (Base64.decode text.toList).filter fun b => b.length = 32

private theorem keyBytes_injective {a b : String} {client : List UInt8} (ha : keyBytes a = some client)
    (hb : keyBytes b = some client) : a = b := by
  have hread : ∀ {text : String}, keyBytes text = some client → Base64.encode client = text.toList := by
    intro text htext
    exact Base64.encode_of_decode (Option.filter_eq_some_iff.1 htext).1
  exact String.toList_injective ((hread ha).symm.trans (hread hb))

private def onePlace : NodeConfig Unit := ⟨⟨0, 24⟩, 1, false, fun text => (keyBytes text).isSome, fun _ => .ok ()⟩

private def noLeases : NodeState := ⟨⟨[]⟩, ⟨[], 0, false⟩, []⟩

private def phoneAsks : Admit := ⟨"AAAAAAAAAAAAAAAAAAAAAAAAAAAAAAAAAAAAAAAAAAA=", "phone", true, none⟩

private def laptopAsks : Admit := ⟨"AQEBAQEBAQEBAQEBAQEBAQEBAQEBAQEBAQEBAQEBAQE=", "laptop", true, none⟩

private def secondRefused : List (AdmissionStep Nat (List UInt8)) :=
  [.ask phoneAsks 1 false 0, .ask laptopAsks 1 false 5, .send 0 false, .send 1 false,
    .take, .answer 0 .none, .reply .none, .take, .answer 0 .none, .reply .none, .hear 0, .hear 1, .giveBack 1]

/-- The node has one place.  The session that finds it taken gives its place in the window back; the other's stays. -/
theorem sessionWindow_refused :
    (run (Admissions.step keyBytes onePlace) (Admissions.start noLeases 0) secondRefused).PlacesHeld keyBytes := by
  refine sessionWindow_run keyBytes (fun _ _ _ => keyBytes_injective) onePlace noLeases ⟨List.nodup_nil, ?_⟩ 0
    secondRefused ?_
  · intro l hl
    cases hl
  · decide

/-- A session whose handler gives up while its lease is saved: the lease stays, and its place is given back. -/
theorem not_sessionWindow : ∃ (cfg : NodeConfig Unit) (node : NodeState) (clock : Nat)
    (es : List (AdmissionStep Nat (List UInt8))),
    Along (Admissions.step keyBytes cfg) Admissions.Allowed (Admissions.start node clock) es ∧
      ¬ (run (Admissions.step keyBytes cfg) (Admissions.start node clock) es).PlacesHeld keyBytes := by
  refine ⟨onePlace, noLeases, 0, [.ask phoneAsks 1 false 0, .send 0 false, .take, .timeout 0,
    .answer 0 .none, .reply .none, .giveBack 0], by decide, fun h => ?_⟩
  have hplace := h (List.replicate 32 0) (by decide) (by decide)
  revert hplace
  decide

end HidraNet.Node
