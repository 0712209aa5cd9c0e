import HidraNet.Lib.Runs

/-!
# Sessions over a service's circuit

The clients of a hidden service are bridged one after another over its one circuit.  A client opens its session with a
hello; the service answers, and from then on what it sends is for that client, until it answers another hello.  No
cell is marked with its session: the relay carries what comes over the service's circuit to whom it has bridged.

As long as a client is bridged over an empty circuit and the service sends nothing meanwhile but in the client's
session, every cell goes to the client it was sent for or to nobody (`unmixed_run`).  What a client that left had
asked for goes to the next one (`not_unmixed`).
-/

namespace HidraNet.Relay.Sessions

open Runs

def PIPE_CAPACITY : Nat := 16
def CHANNEL_CAPACITY : Nat := 256

/-- What the service sends, and in whose session: the client whose hello it answered last. -/
inductive Cell where
  | data (session : Nat)
  | ends (session : Nat)
deriving DecidableEq

def Cell.session : Cell → Nat
  | data session => session
  | ends session => session

/-- What a client sends in its `Data` cells. -/
inductive Message where
  | hello
  | other
deriving DecidableEq

structure Client where
  /-- The channel to the service's task, and the one from it. -/
  fromClient : List Message
  toClient : List Cell
  done : Bool
  /-- The service's task has dropped its ends of the channels. -/
  dropped : Bool
  received : List Cell
  /-- The session of the `End` cell that ended its bridge. -/
  endedBy : Option Nat
deriving DecidableEq

structure Service where
  session : Option Nat
  hasLocal : Bool
deriving DecidableEq

structure State where
  clients : List Client
  /-- The pipes that the service's task has not taken yet. -/
  queue : List Nat
  bridged : Option Nat
  service : Service
  /-- The service's circuit, each way; a message with the client that sent it. -/
  toRelay : List Cell
  toService : List (Nat × Message)
deriving DecidableEq

inductive Event where
  /-- A client is told `ServiceConnected`. -/
  | connect
  | clientSends (c : Nat) (m : Message)
  /-- Its circuit takes an item from the service, or its task ends for want of one. -/
  | clientTakes (c : Nat)
  | clientLeaves (c : Nat)
  | bridgeNext
  | relayTakesClient
  | relayTakesService
  | bridgeFails
  /-- The service takes a message: whether the hello can be answered, the message opens, and the local server is
  reached and takes it. -/
  | serviceTakes (answers opens reaches writes : Bool)
  /-- What the local server sends, in `pieces` cells. -/
  | serverSends (pieces : Nat)
  | serverCloses
deriving DecidableEq

namespace State

def start : State := ⟨[], [], none, ⟨none, false⟩, [], []⟩

def modifyClient (s : State) (c : Nat) (f : Client → Client) : State := { s with clients := s.clients.modify c f }

def endBridge (s : State) (c : Nat) (session : Option Nat) : State :=
  { s.modifyClient c fun client => { client with dropped := true, endedBy := session } with bridged := none }

def clientSends (s : State) (c : Nat) (client : Client) (m : Message) : State :=
  if client.done then s
  else if client.dropped then s.modifyClient c fun client => { client with done := true }
  else if client.fromClient.length < CHANNEL_CAPACITY then
    s.modifyClient c fun client => { client with fromClient := client.fromClient ++ [m] }
  else s

def clientTakes (s : State) (c : Nat) (client : Client) : State :=
  if client.done then s
  else
    match client.toClient with
    | cell :: toClient =>
      s.modifyClient c fun client => { client with toClient, received := client.received ++ [cell] }
    | [] => if client.dropped then s.modifyClient c fun client => { client with done := true } else s

def relayTakesClient (s : State) (c : Nat) (client : Client) : State :=
  match client.fromClient with
  | m :: fromClient =>
    { s.modifyClient c fun client => { client with fromClient } with toService := s.toService ++ [(c, m)] }
  | [] => if client.done then s.endBridge c none else s

def relayTakesService (s : State) (c : Nat) (client : Client) : State :=
  match s.toRelay with
  | .data session :: toRelay =>
    if client.done then { s.endBridge c none with toRelay }
    else if client.toClient.length < CHANNEL_CAPACITY then
      { s.modifyClient c fun client => { client with toClient := client.toClient ++ [.data session] } with toRelay }
    else s
  | .ends session :: toRelay => { s.endBridge c (some session) with toRelay }
  | [] => s

/-- One turn of `serve_hidden_sessions` with a message of the client `c`. -/
def serviceTakes (s : State) (c : Nat) (m : Message) (answers opens reaches writes : Bool) : State :=
  match m with
  | .hello =>
    -- a new client: whatever the last one left open goes
    if answers then { s with service := ⟨some c, false⟩, toRelay := s.toRelay ++ [.data c] }
    else { s with service := { s.service with hasLocal := false } }
  | .other =>
    match s.service.session with
    | none => s
    | some session =>
      if !opens then { s with service := ⟨none, false⟩ }
      else { s with service := ⟨some session, (s.service.hasLocal || reaches) && writes⟩ }

end State

open State in
def step (s : State) : Event → State
  | .connect =>
    if s.queue.length < PIPE_CAPACITY then
      { s with clients := s.clients ++ [⟨[], [], false, false, [], none⟩], queue := s.queue ++ [s.clients.length] }
    else s
  | .clientSends c m => s.clients[c]?.elim s fun client => s.clientSends c client m
  | .clientTakes c => s.clients[c]?.elim s fun client => s.clientTakes c client
  | .clientLeaves c => s.modifyClient c fun client => { client with done := true }
  | .bridgeNext =>
    match s.bridged, s.queue with
    | none, c :: queue => { s with bridged := some c, queue }
    | _, _ => s
  | .relayTakesClient => s.bridged.elim s fun c => s.clients[c]?.elim s fun client => s.relayTakesClient c client
  | .relayTakesService => s.bridged.elim s fun c => s.clients[c]?.elim s fun client => s.relayTakesService c client
  | .bridgeFails => s.bridged.elim s fun c => s.endBridge c none
  | .serviceTakes answers opens reaches writes =>
    match s.toService with
    | (c, m) :: toService => { s with toService }.serviceTakes c m answers opens reaches writes
    | [] => s
  | .serverSends pieces =>
    match s.service with
    | ⟨some session, true⟩ => { s with toRelay := s.toRelay ++ List.replicate pieces (.data session) }
    | _ => s
  | .serverCloses =>
    match s.service with
    | ⟨some session, true⟩ => { s with service := ⟨some session, false⟩, toRelay := s.toRelay ++ [.ends session] }
    | service => { s with service := { service with hasLocal := false } }

def Unmixed (s : State) : Prop :=
  ∀ (c : Nat) (client : Client), s.clients[c]? = some client →
    (∀ cell ∈ client.received, cell.session = c) ∧ ∀ session ∈ client.endedBy, session = c

def hello? (s : State) : Option Nat :=
  match s.toService with
  | (c, .hello) :: _ => some c
  | _ => none

def Alone (s : State) (session : Option Nat) : Prop := ∀ c ∈ session, ∀ bridged ∈ s.bridged, c = bridged

def Apart (s : State) : Event → Prop
  | .bridgeNext => s.bridged = none → s.toRelay = []
  | .serviceTakes answers _ _ _ => answers = true → Alone s (hello? s)
  | .serverSends _ | .serverCloses => s.service.hasLocal = true → Alone s s.service.session
  | _ => True

instance (s : State) (session : Option Nat) : Decidable (Alone s session) :=
  inferInstanceAs (Decidable (∀ c ∈ session, ∀ bridged ∈ s.bridged, c = bridged))

instance decidableApart (s : State) : ∀ e, Decidable (Apart s e)
  | .bridgeNext => inferInstanceAs (Decidable (s.bridged = none → s.toRelay = []))
  | .serviceTakes answers _ _ _ => inferInstanceAs (Decidable (answers = true → Alone s (hello? s)))
  | .serverSends _ => inferInstanceAs (Decidable (s.service.hasLocal = true → Alone s s.service.session))
  | .serverCloses => inferInstanceAs (Decidable (s.service.hasLocal = true → Alone s s.service.session))
  | .connect | .clientSends _ _ | .clientTakes _ | .clientLeaves _ | .relayTakesClient | .relayTakesService
  | .bridgeFails => isTrue trivial

/-! ### The invariant -/

/-- What a client was sent, has received and was ended by is of its own session. -/
structure Own (c : Nat) (client : Client) : Prop where
  toClient : ∀ cell ∈ client.toClient, cell.session = c
  received : ∀ cell ∈ client.received, cell.session = c
  endedBy : ∀ session ∈ client.endedBy, session = c

structure Kept (s : State) : Prop where
  own : ∀ (c : Nat) client, s.clients[c]? = some client → Own c client
  toRelay : ∀ bridged ∈ s.bridged, ∀ cell ∈ s.toRelay, cell.session = bridged

variable {s : State} {c : Nat} {client : Client}

theorem Kept.modifyClient (hk : Kept s) {f : Client → Client}
    (hf : ∀ client, s.clients[c]? = some client → Own c client → Own c (f client)) : Kept (s.modifyClient c f) := by
  refine ⟨fun c' client' hget => ?_, hk.toRelay⟩
  change (s.clients.modify c f)[c']? = some client' at hget
  rw [List.getElem?_modify] at hget
  split at hget
  · rename_i heq
    subst heq
    obtain ⟨client, hclient, rfl⟩ := Option.map_eq_some_iff.1 hget
    exact hf client hclient (hk.own c client hclient)
  · exact hk.own c' client' (by simpa using hget)

theorem Kept.endBridge (hk : Kept s) {session : Option Nat} (hsession : ∀ o ∈ session, o = c) :
    Kept (s.endBridge c session) := by
  have h := hk.modifyClient (c := c) (f := fun client => { client with dropped := true, endedBy := session })
    fun client _ hown => ⟨hown.toClient, hown.received, hsession⟩
  exact ⟨h.own, fun bridged hb => by cases hb⟩

theorem Kept.tail (hk : Kept s) {toRelay : List Cell} (hsub : ∀ cell ∈ toRelay, cell ∈ s.toRelay) :
    Kept { s with toRelay } :=
  ⟨hk.own, fun bridged hb cell hcell => hk.toRelay bridged hb cell (hsub cell hcell)⟩

theorem Kept.sends (hk : Kept s) {cells : List Cell} (hcells : ∀ cell ∈ cells, ∀ bridged ∈ s.bridged,
    cell.session = bridged) (service : Service) (toService : List (Nat × Message)) :
    Kept { s with service, toService, toRelay := s.toRelay ++ cells } := by
  refine ⟨hk.own, fun bridged hb cell hcell => ?_⟩
  rcases List.mem_append.1 hcell with hcell | hcell
  · exact hk.toRelay bridged hb cell hcell
  · exact hcells cell hcell bridged hb

theorem Kept.silent (hk : Kept s) (service : Service) (toService : List (Nat × Message)) :
    Kept { s with service, toService } := ⟨hk.own, hk.toRelay⟩

theorem Kept.clientTakes (hk : Kept s) (hclient : s.clients[c]? = some client) : Kept (s.clientTakes c client) := by
  unfold State.clientTakes
  split
  · exact hk
  · split
    · rename_i cell toClient hto
      refine hk.modifyClient fun client' hget hown => ?_
      rw [hclient, Option.some.injEq] at hget
      subst hget
      have hcells : ∀ cell' ∈ cell :: toClient, cell'.session = c := hto ▸ hown.toClient
      rw [List.forall_mem_cons] at hcells
      refine ⟨hcells.2, ?_, hown.endedBy⟩
      rw [List.forall_mem_append]
      exact ⟨hown.received, by simpa using hcells.1⟩
    · split
      · exact hk.modifyClient fun _ _ hown => ⟨hown.toClient, hown.received, hown.endedBy⟩
      · exact hk

theorem Kept.relayTakesService (hk : Kept s) (hbridged : s.bridged = some c) :
    Kept (s.relayTakesService c client) := by
  unfold State.relayTakesService
  split
  · rename_i session toRelay hto
    have hsession : session = c := hk.toRelay c hbridged (.data session) (by simp [hto])
    split
    · have h : Kept (s.endBridge c none) := hk.endBridge (by simp)
      exact h.tail fun cell hcell => by simp [State.endBridge, State.modifyClient, hto, hcell]
    · split
      · have h := hk.modifyClient (c := c)
          (f := fun client => { client with toClient := client.toClient ++ [.data session] }) fun client _ hown =>
            ⟨List.forall_mem_append.2 ⟨hown.toClient, by simpa [Cell.session] using hsession⟩, hown.received,
              hown.endedBy⟩
        exact h.tail fun cell hcell => by simp [State.modifyClient, hto, hcell]
      · exact hk
  · rename_i session toRelay hto
    have hsession : session = c := hk.toRelay c hbridged (.ends session) (by simp [hto])
    have h : Kept (s.endBridge c (some session)) := hk.endBridge (by simpa using hsession)
    exact h.tail fun cell hcell => by simp [State.endBridge, State.modifyClient, hto, hcell]
  · exact hk

theorem Kept.serviceTakes (hk : Kept s) {m : Message} {answers opens reaches writes : Bool}
    (hapart : answers = true → m = .hello → ∀ bridged ∈ s.bridged, c = bridged) :
    Kept (s.serviceTakes c m answers opens reaches writes) := by
  unfold State.serviceTakes
  split
  · split
    · rename_i hanswers
      have hcells : ∀ cell ∈ [Cell.data c], ∀ bridged ∈ s.bridged, cell.session = bridged := by
        simpa [Cell.session] using hapart hanswers rfl
      exact hk.sends hcells _ _
    · exact hk.silent _ _
  · split
    · exact hk
    · split
      · exact hk.silent _ _
      · exact hk.silent _ _

theorem kept_step (e : Event) (hk : Kept s) (hapart : Apart s e) : Kept (step s e) := by
  cases e with
  | connect =>
    simp only [step]
    split
    · refine ⟨fun c client hget => ?_, hk.toRelay⟩
      dsimp only at hget
      rw [List.getElem?_append] at hget
      split at hget
      · exact hk.own c client hget
      · -- the new client has had nothing
        rw [List.getElem?_singleton] at hget
        split at hget
        · cases hget
          exact ⟨by simp, by simp, by simp⟩
        · cases hget
    · exact hk
  | clientSends c m =>
    simp only [step]
    cases hclient : s.clients[c]? with
    | none => exact hk
    | some client =>
      rw [Option.elim_some]
      unfold State.clientSends
      have hmodify : ∀ f : Client → Client, (∀ client, (f client).toClient = client.toClient ∧
          (f client).received = client.received ∧ (f client).endedBy = client.endedBy) → Kept (s.modifyClient c f) := by
        intro f hf
        refine hk.modifyClient fun client _ hown => ?_
        obtain ⟨hto, hreceived, hended⟩ := hf client
        exact ⟨hto ▸ hown.toClient, hreceived ▸ hown.received, hended ▸ hown.endedBy⟩
      split
      · exact hk
      · split
        · exact hmodify _ fun _ => ⟨rfl, rfl, rfl⟩
        · split
          · exact hmodify _ fun _ => ⟨rfl, rfl, rfl⟩
          · exact hk
  | clientTakes c =>
    simp only [step]
    cases hclient : s.clients[c]? with
    | none => exact hk
    | some client => exact hk.clientTakes hclient
  | clientLeaves c =>
    exact hk.modifyClient fun _ _ hown => ⟨hown.toClient, hown.received, hown.endedBy⟩
  | bridgeNext =>
    simp only [step]
    split
    · rename_i c queue hnone hqueue
      refine ⟨hk.own, fun bridged _ cell hcell => ?_⟩
      dsimp only at hcell
      rw [hapart hnone] at hcell
      cases hcell
    · exact hk
  | relayTakesClient =>
    simp only [step]
    cases hbridged : s.bridged with
    | none => exact hk
    | some c =>
      rw [Option.elim_some]
      cases hclient : s.clients[c]? with
      | none => exact hk
      | some client =>
        rw [Option.elim_some]
        unfold State.relayTakesClient
        split
        · rename_i m fromClient _
          have h := hk.modifyClient (c := c) (f := fun client' => { client' with fromClient })
            fun _ _ hown => ⟨hown.toClient, hown.received, hown.endedBy⟩
          exact h.silent _ _
        · split
          · exact hk.endBridge (by simp)
          · exact hk
  | relayTakesService =>
    simp only [step]
    cases hbridged : s.bridged with
    | none => exact hk
    | some c =>
      rw [Option.elim_some]
      cases hclient : s.clients[c]? with
      | none => exact hk
      | some client => exact hk.relayTakesService hbridged
  | bridgeFails =>
    simp only [step]
    cases hbridged : s.bridged with
    | none => exact hk
    | some c => exact hk.endBridge (by simp)
  | serviceTakes answers opens reaches writes =>
    simp only [step]
    split
    · rename_i c m toService hto
      refine (hk.silent s.service toService).serviceTakes fun hanswers hm => ?_
      exact hapart hanswers c (by simp [hello?, hto, hm])
    · exact hk
  | serverSends pieces =>
    simp only [step]
    split
    · rename_i session hservice
      refine hk.sends ?_ _ _
      intro cell hcell
      rw [(List.mem_replicate.1 hcell).2]
      exact hapart (by rw [hservice]) session (by rw [hservice]; rfl)
    · exact hk
  | serverCloses =>
    simp only [step]
    split
    · rename_i session hservice
      have hcells : ∀ cell ∈ [Cell.ends session], ∀ bridged ∈ s.bridged, cell.session = bridged := by
        simpa [Cell.session] using hapart (by rw [hservice]) session (by rw [hservice]; rfl)
      exact hk.sends hcells _ _
    · exact hk.silent _ _

/-! ### Runs -/

theorem kept_start : Kept .start := by
  refine ⟨fun c client hget => ?_, fun bridged hb => by cases hb⟩
  simp [State.start] at hget

/-- In a run where every client is bridged over an empty circuit, and the service sends nothing while one is bridged
but in its session, no client gets a cell of another one's session, and none is ended by one. -/
theorem unmixed_run (es : List Event) (h : Along step Apart .start es) : Unmixed (run step .start es) := by
  have hk : Kept (run step .start es) := run_invariant (fun _ e hk hapart => kept_step e hk hapart) h kept_start
  intro c client hclient
  have hown := hk.own c client hclient
  exact ⟨hown.received, hown.endedBy⟩

private def session (c : Nat) : List Event :=
  [.connect, .bridgeNext, .clientSends c .hello, .clientSends c .other, .relayTakesClient, .relayTakesClient,
    .serviceTakes true true true true, .serviceTakes true true true true, .serverSends 2, .relayTakesService,
    .clientTakes c]

/-- The first client is answered to the end before the second is bridged. -/
theorem unmixed_inTurn :
    let es := session 0 ++ [.relayTakesService, .serverCloses, .relayTakesService, .relayTakesService] ++ session 1
    Along step Apart .start es ∧ Unmixed (run step .start es) ∧ (run step .start es).bridged = some 1 := by
  intro es
  have h : Along step Apart .start es := by decide
  exact ⟨h, unmixed_run es h, by decide⟩

/-- The first client leaves with its answer on the way, and the second is told it is its own. -/
theorem not_unmixed : ∃ es : List Event, ¬ Unmixed (run step .start es) := by
  refine ⟨session 0 ++ [.clientLeaves 0, .relayTakesService, .connect, .bridgeNext, .relayTakesService,
    .clientTakes 1], fun h => ?_⟩
  have hgot : (run step .start (session 0 ++ [.clientLeaves 0, .relayTakesService, .connect, .bridgeNext,
      .relayTakesService, .clientTakes 1])).clients[1]?.map (·.received) = some [.data 0] := by decide
  obtain ⟨client, hclient, hreceived⟩ := Option.map_eq_some_iff.1 hgot
  have hown := (h 1 client hclient).1 (.data 0) (by simp [hreceived])
  cases hown

end HidraNet.Relay.Sessions
