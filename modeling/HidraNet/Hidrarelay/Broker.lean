import HidraNet.Hidrarelay.Facts
import HidraNet.Hidrarelay.RetainedBooks

/-!
# The broker's clients

An accepted message goes to every client one of whose filters covers its topic; the clients are found by the filters
they hold (`byFilter`).  A client that is being sent the retained messages of a new subscription has live messages held
for it (`deferred`), to follow what its connection still owes it (`pending`); its connection sends what is owed one by
one, looks a retained message up when its turn comes, and at the end releases what was held.

Every packet, publish and step of a connection moves each client by itself (`clients_step`): what the broker finds by
its index is what the client's own filters say (`Indexed`).
-/

namespace HidraNet.Hidrarelay

open Maps Runs

/-- A publish, as it was accepted. -/
structure Message (P : Type*) where
  topic : Topic
  payload : P
  retain : Bool
deriving DecidableEq

/-- What a client's queue takes.  The numbers are for the statements: how many messages had been published for the
client before this one, or before the SUBSCRIBE this copy is owed to. -/
inductive Frame (P : Type*) where
  | live (k : Nat) (m : Message P)
  | kept (n : Nat) (topic : Topic) (payload : P)
  | suback (packetId : Nat) (codes : List Nat)
  | unsuback (packetId : Nat)
  | reply
deriving DecidableEq

/-- What a connection owes its client: a frame ready to go, or a retained message named by its topic. -/
inductive Pending (P : Type*) where
  | frame (f : Frame P)
  | retained (n : Nat) (topic : Topic)
deriving DecidableEq

structure Client (P : Type*) where
  filters : List Topic
  loading : Bool
  deferred : List (Frame P)
  deferredBytes : Nat
  queue : List (Frame P)
  pending : List (Pending P)
  /-- The connection's own word on `loading`. -/
  connLoading : Bool
  /-- A reply that waits for room, and what is owed after it. -/
  acking : Option (Frame P × List (Nat × Topic))
  /-- The messages published while a filter covered them. -/
  covered : List (Message P)
  owed : List (Nat × Topic)
  /-- Those of them whose turn came, with what was kept then. -/
  served : List (Nat × Topic × Option P)
deriving DecidableEq

def subackFailure : Nat := 0x80

def covers (filters : List Topic) (topic : Topic) : Bool := filters.any (topicMatches · topic)

/-! ### One client -/

/-- The answers to a SUBSCRIBE, as they are found one by one. -/
structure Grant where
  held : List Topic
  fresh : List Topic
  codes : List Nat
deriving DecidableEq

private theorem lawfulBEq_filters : LawfulBEq (List String) := inferInstance

attribute [local instance] lawfulBEq_filters

def Grant.add (g : Grant) (f : Topic) : Grant :=
  if !allowedFilter f then { g with codes := g.codes ++ [subackFailure] }
  else if f ∈ g.held then { g with codes := g.codes ++ [0] }
  else if maxSubscriptionsPerClient ≤ g.held.length then { g with codes := g.codes ++ [subackFailure] }
  else ⟨g.held ++ [f], g.fresh ++ [f], g.codes ++ [0]⟩

def frameLen {P : Type*} [Payload P] (m : Message P) : Nat :=
  let body := 2 + textLen m.topic + len m.payload
  1 + (if body < 128 then 1 else if body < 128 ^ 2 then 2 else if body < 128 ^ 3 then 3 else 4) + body

namespace Client

variable {P : Type*}

def fresh : Client P := ⟨[], false, [], 0, [], [], false, some (.reply, []), [], [], []⟩

def topicsOwed (c : Client P) (r : Retained P) (g : Grant) : List (Nat × Topic) :=
  (r.topicsMatching g.fresh c.filters).map (c.covered.length, ·)

def grants (c : Client P) (filters : List Topic) : Grant := run Grant.add ⟨c.filters, [], []⟩ filters

def newlyCovered (c : Client P) (r : Retained P) (held : List Topic) : List Topic :=
  (r.map.entries.map Prod.fst).filter fun t => covers held t && !covers c.filters t

/-- A SUBSCRIBE, up to its SUBACK; too many filters end the connection. -/
def subscribe (c : Client P) (r : Retained P) (packetId : Nat) (filters : List Topic) : Option (Client P) :=
  if maxSubscriptionsPerClient < filters.length then none
  else
    let g := c.grants filters
    let owed := c.topicsOwed r g
    some { c with
      filters := g.held
      loading := c.loading || !owed.isEmpty
      connLoading := c.connLoading || !owed.isEmpty
      acking := some (.suback packetId g.codes, owed)
      owed := c.owed ++ (c.newlyCovered r g.held).map (c.covered.length, ·) }

def unsubscribe (c : Client P) (packetId : Nat) (filters : List Topic) : Option (Client P) :=
  if maxSubscriptionsPerClient < filters.length then none
  else some { c with filters := c.filters.filter (· ∉ filters), acking := some (.unsuback packetId, []) }

/-- The reply has found room. -/
def ack (c : Client P) : Client P :=
  match c.acking with
  | none => c
  | some (frame, owed) =>
    { c with
      queue := c.queue ++ [frame]
      pending := c.pending ++ owed.map fun o => .retained o.1 o.2
      acking := none }

/-- The retained message at the head becomes a frame, or goes if nothing is kept any more. -/
def turn (c : Client P) (r : Retained P) : Client P :=
  match c.pending with
  | .retained n topic :: rest =>
    match r.get topic with
    | some payload =>
      { c with
        pending := .frame (.kept n topic payload) :: rest
        served := c.served ++ [(n, topic, some payload)] }
    | none => { c with pending := rest, served := c.served ++ [(n, topic, none)] }
  | _ => c

def send (c : Client P) : Client P :=
  match c.pending with
  | .frame f :: rest => { c with queue := c.queue ++ [f], pending := rest }
  | _ => c

/-- `release_deferred`, where the queue takes as many frames as `room` says. -/
def release (c : Client P) (room : Nat) : Client P :=
  if c.pending.isEmpty && c.connLoading then
    let rest := c.deferred.drop room
    { c with
      queue := c.queue ++ c.deferred.take room
      pending := c.pending ++ rest.map .frame
      deferred := []
      deferredBytes := 0
      loading := if rest.isEmpty then false else c.loading
      connLoading := !rest.isEmpty }
  else c

/-- A live message: held while the client loads, and otherwise queued if there is room. -/
def deliver [Payload P] (c : Client P) (m : Message P) (room : Bool) : Option (Client P) :=
  if c.loading then
    if c.deferredBytes + frameLen m ≤ maxQueueBytes then
      some { c with
        deferred := c.deferred ++ [.live c.covered.length m]
        deferredBytes := c.deferredBytes + frameLen m }
    else none
  else if room then some { c with queue := c.queue ++ [.live c.covered.length m] }
  else none

def receive [Payload P] (c : Client P) (m : Message P) (room reached : Bool) : Client P :=
  { (if reached then (c.deliver m room).getD c else c) with
    covered := if covers c.filters m.topic then c.covered ++ [m] else c.covered }

end Client

/-! ### The broker -/

structure Broker (P : Type*) where
  retained : Retained P
  clients : Nat → Option (Client P)
  byFilter : Map Topic (List Nat)

inductive Packet (P : Type*) where
  | connect (id : Nat)
  /-- A publish that was accepted, with what the relay keeps of it and the clients whose queue has room. -/
  | accept (m : Message P) (signed : Meta) (now : Nat) (room : Nat → Bool)
  | sweep (gone : List Topic)
  | subscribe (id packetId : Nat) (filters : List Topic)
  | unsubscribe (id packetId : Nat) (filters : List Topic)
  | other (id : Nat)
  | ack (id : Nat)
  | turn (id : Nat)
  | send (id : Nat)
  | release (id room : Nat)
  | leave (id : Nat)

def idsOf (m : Map Topic (List Nat)) (f : Topic) : List Nat := (m.get? f).getD []

def addFilter (m : Map Topic (List Nat)) (id : Nat) (f : Topic) : Map Topic (List Nat) :=
  m.set f ((idsOf m f).insert id)

def removeFilter (m : Map Topic (List Nat)) (id : Nat) (f : Topic) : Map Topic (List Nat) :=
  match m.get? f with
  | none => m
  | some ids =>
    let ids := ids.filter (· ≠ id)
    if ids.isEmpty then m.remove f else m.set f ids

namespace Broker

variable {P : Type*}

def empty : Broker P := ⟨Retained.empty, fun _ => none, .empty⟩

/-- `remove_client`: its filters go with it. -/
def removeClient (s : Broker P) (id : Nat) : Broker P :=
  match s.clients id with
  | none => s
  | some c =>
    { s with
      clients := Function.update s.clients id none
      byFilter := run (removeFilter · id ·) s.byFilter c.filters }

/-- The client after a step of its own connection; `none` ends the connection. -/
def setClient (s : Broker P) (id : Nat) (c : Option (Client P)) : Broker P :=
  match c with
  | some c => { s with clients := Function.update s.clients id (some c) }
  | none => s.removeClient id

def recipients (s : Broker P) (topic : Topic) : List Nat :=
  ((s.byFilter.entries.filter fun e => topicMatches e.1 topic).flatMap Prod.snd).dedup

variable [Payload P]

def keep (r : Retained P) (m : Message P) (signed : Meta) (now : Nat) : Retained P :=
  if m.retain then
    if isEmpty m.payload then (r.remove m.topic).2 else r.insertAt m.topic m.payload signed now
  else r

/-- An accepted publish is kept, if it is to be, and fanned out; who has no room is dropped. -/
def accept (s : Broker P) (m : Message P) (signed : Meta) (now : Nat) (room : Nat → Bool) : Broker P :=
  let ids := s.recipients m.topic
  let slow := ids.filter fun id => (s.clients id).any fun c => (c.deliver m (room id)).isNone
  run removeClient
    { s with
      retained := keep s.retained m signed now
      clients := fun id => (s.clients id).map fun c => c.receive m (room id) (id ∈ ids) } slow

def own (s : Broker P) (id : Nat) (act : Client P → Broker P) : Broker P :=
  match s.clients id with
  | some c => if c.acking.isSome then s else act c
  | none => s

def step (s : Broker P) : Packet P → Broker P
  | .connect id => match s.clients id with
    | none => { s with clients := Function.update s.clients id (some Client.fresh) }
    | some _ => s
  | .accept m signed now room => s.accept m signed now room
  | .sweep gone => { s with retained := run (fun r t => (r.remove t).2) s.retained gone }
  | .subscribe id packetId filters => s.own id fun c =>
    let s' := s.setClient id (c.subscribe s.retained packetId filters)
    if maxSubscriptionsPerClient < filters.length then s'
    else { s' with byFilter := run (addFilter · id ·) s'.byFilter (c.grants filters).fresh }
  | .unsubscribe id packetId filters => s.own id fun c =>
    let s' := s.setClient id (c.unsubscribe packetId filters)
    if maxSubscriptionsPerClient < filters.length then s'
    else { s' with byFilter := run (removeFilter · id ·) s'.byFilter (c.filters.filter (· ∈ filters)) }
  | .other id => s.own id fun c => s.setClient id (some { c with acking := some (.reply, []) })
  | .ack id => match s.clients id with
    | some c => s.setClient id (some c.ack)
    | none => s
  | .turn id => s.own id fun c => s.setClient id (some (c.turn s.retained))
  | .send id => s.own id fun c => s.setClient id (some c.send)
  | .release id room => s.own id fun c => s.setClient id (some (c.release room))
  | .leave id => s.removeClient id

end Broker

/-! ### The index of filters -/

theorem mem_idsOf_addFilter {m : Map Topic (List Nat)} {id i : Nat} {f g : Topic} :
    i ∈ idsOf (addFilter m id f) g ↔ i ∈ idsOf m g ∨ i = id ∧ g = f := by
  unfold addFilter
  by_cases hfilter : g = f
  · subst hfilter
    have hset : idsOf (m.set g ((idsOf m g).insert id)) g = (idsOf m g).insert id := by
      unfold idsOf
      rw [Map.get?_set_self]
      rfl
    rw [hset, List.mem_insert_iff]
    tauto
  · have hset : idsOf (m.set f ((idsOf m f).insert id)) g = idsOf m g := by
      unfold idsOf
      rw [Map.get?_set_other m _ hfilter]
    rw [hset]
    tauto

theorem mem_idsOf_removeFilter {m : Map Topic (List Nat)} {id i : Nat} {f g : Topic} :
    i ∈ idsOf (removeFilter m id f) g ↔ i ∈ idsOf m g ∧ ¬ (i = id ∧ g = f) := by
  unfold removeFilter
  cases hids : m.get? f with
  | none =>
    have hnone : g = f → i ∉ idsOf m g := by
      rintro rfl
      simp [idsOf, hids]
    tauto
  | some ids =>
    dsimp only
    by_cases hfilter : g = f
    · subst hfilter
      have hbefore : idsOf m g = ids := by simp [idsOf, hids]
      have hafter : idsOf (if (ids.filter (· ≠ id)).isEmpty then m.remove g else m.set g (ids.filter (· ≠ id))) g =
          ids.filter (· ≠ id) := by
        unfold idsOf
        split
        · rename_i hempty
          rw [Map.get?_remove, if_pos rfl, List.isEmpty_iff.1 hempty]
          rfl
        · rw [Map.get?_set_self]
          rfl
      rw [hafter, hbefore]
      simp
    · have hafter : idsOf (if (ids.filter (· ≠ id)).isEmpty then m.remove f else m.set f (ids.filter (· ≠ id))) g =
          idsOf m g := by
        unfold idsOf
        split
        · rw [Map.get?_remove, if_neg hfilter]
        · rw [Map.get?_set_other m _ hfilter]
      rw [hafter]
      tauto

theorem mem_idsOf_addFilters {m : Map Topic (List Nat)} {id i : Nat} {fs : List Topic} {g : Topic} :
    i ∈ idsOf (run (addFilter · id ·) m fs) g ↔ i ∈ idsOf m g ∨ i = id ∧ g ∈ fs := by
  induction fs generalizing m with
  | nil => simp
  | cons f fs ih =>
    rw [run_cons, ih, mem_idsOf_addFilter, List.mem_cons]
    tauto

theorem mem_idsOf_removeFilters {m : Map Topic (List Nat)} {id i : Nat} {fs : List Topic} {g : Topic} :
    i ∈ idsOf (run (removeFilter · id ·) m fs) g ↔ i ∈ idsOf m g ∧ ¬ (i = id ∧ g ∈ fs) := by
  induction fs generalizing m with
  | nil => simp
  | cons f fs ih =>
    rw [run_cons, ih, mem_idsOf_removeFilter, List.mem_cons]
    tauto

theorem held_grants (g : Grant) (filters : List Topic) (before : List Topic) (h : g.held = before ++ g.fresh) :
    (run Grant.add g filters).held = before ++ (run Grant.add g filters).fresh := by
  induction filters generalizing g with
  | nil => exact h
  | cons f filters ih =>
    rw [run_cons]
    apply ih
    unfold Grant.add
    split
    · exact h
    split
    · exact h
    split
    · exact h
    · rw [h, List.append_assoc]

theorem covers_append (fs gs : List Topic) (t : Topic) : covers (fs ++ gs) t = (covers fs t || covers gs t) :=
  List.any_append

section

variable {P : Type*} (c : Client P)

theorem Client.held_grants (filters : List Topic) :
    (c.grants filters).held = c.filters ++ (c.grants filters).fresh :=
  Hidrarelay.held_grants _ filters c.filters (List.append_nil _).symm

theorem Client.topicsOwed_grants (r : Retained P) (filters : List Topic) :
    c.topicsOwed r (c.grants filters) = (c.newlyCovered r (c.grants filters).held).map (c.covered.length, ·) := by
  unfold topicsOwed Retained.topicsMatching newlyCovered
  congr 2
  funext t
  rw [c.held_grants, covers_append]
  unfold covers
  cases (c.grants filters).fresh.any (topicMatches · t) <;> cases c.filters.any (topicMatches · t) <;> rfl

end

namespace Broker

variable {P : Type*}

def Indexed (s : Broker P) : Prop :=
  ∀ f id, id ∈ idsOf s.byFilter f ↔ ∃ c, s.clients id = some c ∧ f ∈ c.filters

theorem mem_recipients {s : Broker P} (hs : Indexed s) {id : Nat} {c : Client P} (hc : s.clients id = some c)
    (topic : Topic) : id ∈ s.recipients topic ↔ covers c.filters topic = true := by
  unfold recipients covers
  rw [List.mem_dedup, List.mem_flatMap, List.any_eq_true]
  constructor
  · rintro ⟨⟨f, ids⟩, he, hid⟩
    obtain ⟨hentry, hmatches⟩ := List.mem_filter.1 he
    have hids : id ∈ idsOf s.byFilter f := by
      unfold idsOf
      rw [Map.mem_entries.1 hentry]
      exact hid
    obtain ⟨c', hc', hf⟩ := (hs f id).1 hids
    rw [hc, Option.some.injEq] at hc'
    exact ⟨f, hc' ▸ hf, hmatches⟩
  · rintro ⟨f, hf, hmatches⟩
    have hids : id ∈ idsOf s.byFilter f := (hs f id).2 ⟨c, hc, hf⟩
    unfold idsOf at hids
    cases hentry : s.byFilter.get? f with
    | none => simp [hentry] at hids
    | some ids =>
      rw [hentry] at hids
      exact ⟨(f, ids), List.mem_filter.2 ⟨Map.mem_entries.2 hentry, hmatches⟩, hids⟩

theorem clients_removeClient (s : Broker P) (id i : Nat) :
    (s.removeClient id).clients i = if i = id then none else s.clients i := by
  unfold removeClient
  cases hc : s.clients id with
  | none =>
    dsimp only
    split
    · rename_i heq
      rw [heq, hc]
    · rfl
  | some c =>
    change Function.update s.clients id none i = _
    rw [Function.update_apply]

theorem clients_removeClients (s : Broker P) (ids : List Nat) (i : Nat) :
    (run removeClient s ids).clients i = if i ∈ ids then none else s.clients i := by
  induction ids generalizing s with
  | nil => simp
  | cons id ids ih =>
    rw [run_cons, ih, clients_removeClient]
    by_cases hid : i = id <;> simp [hid]

theorem indexed_removeClient {s : Broker P} (hs : Indexed s) (id : Nat) : Indexed (s.removeClient id) := by
  intro f i
  rw [clients_removeClient]
  unfold removeClient
  cases hc : s.clients id with
  | none =>
    by_cases hi : i = id
    · subst hi
      rw [if_pos rfl, hs, hc]
    · rw [if_neg hi, hs]
  | some c =>
    change i ∈ idsOf (run (removeFilter · id ·) s.byFilter c.filters) f ↔ _
    rw [mem_idsOf_removeFilters, hs]
    by_cases hi : i = id
    · subst hi
      simp only [hc, Option.some.injEq, exists_eq_left', true_and, and_not_self, if_true, reduceCtorEq, false_and,
        exists_false]
    · simp [hi]

theorem indexed_removeClients {s : Broker P} (hs : Indexed s) (ids : List Nat) :
    Indexed (run removeClient s ids) :=
  run_always (P := Indexed) (fun _ id h => indexed_removeClient h id) hs ids

theorem removeClients_retained (s : Broker P) (ids : List Nat) : (run removeClient s ids).retained = s.retained := by
  induction ids generalizing s with
  | nil => rfl
  | cons id ids ih =>
    rw [run_cons, ih]
    unfold removeClient
    cases s.clients id <;> rfl

end Broker

/-! ### Each client by itself -/

/-- What a packet does to the client `id`; `none` where it is let go. -/
def Client.next {P : Type*} [Payload P] (c : Client P) (r : Retained P) (id : Nat) : Packet P → Option (Client P)
  | .accept m _ _ room =>
    if covers c.filters m.topic then
      (c.deliver m (room id)).map fun c => { c with covered := c.covered ++ [m] }
    else some c
  | .subscribe i packetId filters =>
    if i = id ∧ c.acking = none then c.subscribe r packetId filters else some c
  | .unsubscribe i packetId filters =>
    if i = id ∧ c.acking = none then c.unsubscribe packetId filters else some c
  | .other i => if i = id ∧ c.acking = none then some { c with acking := some (.reply, []) } else some c
  | .ack i => if i = id then some c.ack else some c
  | .turn i => if i = id ∧ c.acking = none then some (c.turn r) else some c
  | .send i => if i = id ∧ c.acking = none then some c.send else some c
  | .release i room => if i = id ∧ c.acking = none then some (c.release room) else some c
  | .leave i => if i = id then none else some c
  | _ => some c

namespace Broker

variable {P : Type*}

theorem clients_setClient (s : Broker P) (id : Nat) (c : Option (Client P)) (i : Nat) :
    (s.setClient id c).clients i = if i = id then c else s.clients i := by
  cases c with
  | none => exact clients_removeClient s id i
  | some c =>
    change Function.update s.clients id (some c) i = _
    rw [Function.update_apply]

variable [Payload P] {s : Broker P}

omit [Payload P] in
private theorem clients_own {id i : Nat} {c : Client P} (hc : s.clients id = some c) {act : Client P → Broker P}
    {f : Client P → Option (Client P)}
    (hact : ∀ c', (act c').clients id = if id = i then f c' else s.clients id) :
    (s.own i act).clients id = if i = id ∧ c.acking = none then f c else some c := by
  unfold own
  by_cases hid : i = id
  · subst hid
    rw [hc]
    dsimp only
    cases hacking : c.acking with
    | none => simp [hact]
    | some a => simp [hc]
  · have hne : ¬ id = i := fun h => hid h.symm
    cases hi : s.clients i with
    | none => simp [hid, hc]
    | some c' =>
      dsimp only
      split
      · simp [hid, hc]
      · rw [hact, if_neg hne, hc]
        simp [hid]

theorem clients_accept (s : Broker P) (m : Message P) (signed : Meta) (now : Nat) (room : Nat → Bool) (id : Nat) :
    (s.accept m signed now room).clients id =
      if id ∈ s.recipients m.topic ∧ (s.clients id).any (fun c => (c.deliver m (room id)).isNone) = true then none
      else (s.clients id).map fun c => c.receive m (room id) (id ∈ s.recipients m.topic) := by
  unfold accept
  dsimp only
  rw [clients_removeClients]
  simp only [List.mem_filter]

/-- A packet moves a client as it moves it alone. -/
theorem clients_step (hs : Indexed s) {id : Nat} {c : Client P} (hc : s.clients id = some c) (p : Packet P) :
    (s.step p).clients id = c.next s.retained id p := by
  cases p with
  | connect i =>
    change (match s.clients i with
      | none => { s with clients := Function.update s.clients i (some Client.fresh) }
      | some _ => s).clients id = some c
    cases hi : s.clients i with
    | some _ => exact hc
    | none =>
      have hne : id ≠ i := by
        rintro rfl
        rw [hc] at hi
        cases hi
      change Function.update s.clients i (some Client.fresh) id = some c
      rw [Function.update_of_ne hne, hc]
  | accept m signed now room =>
    change (s.accept m signed now room).clients id = c.next s.retained id (.accept m signed now room)
    have hmem := mem_recipients hs hc m.topic
    rw [clients_accept, hc, Option.map_some, Option.any_some]
    unfold Client.next Client.receive
    by_cases hcovers : covers c.filters m.topic = true
    · have hin := hmem.2 hcovers
      cases hdeliver : c.deliver m (room id) with
      | none => simp [hcovers, hin, hdeliver]
      | some c' =>
        have hcovered : c'.covered = c.covered := by
          unfold Client.deliver at hdeliver
          split at hdeliver <;> split at hdeliver <;> cases hdeliver <;> rfl
        simp [hcovers, hcovered, hin, hdeliver]
    · have hnot : id ∉ s.recipients m.topic := fun h => hcovers (hmem.1 h)
      simp [hnot, hcovers]
  | sweep gone => exact hc
  | subscribe i packetId filters =>
    refine clients_own hc (f := fun c => c.subscribe s.retained packetId filters) fun c' => ?_
    dsimp only
    split <;> exact clients_setClient s i _ id
  | unsubscribe i packetId filters =>
    refine clients_own hc (f := fun c => c.unsubscribe packetId filters) fun c' => ?_
    dsimp only
    split <;> exact clients_setClient s i _ id
  | other i =>
    refine clients_own hc (f := fun c => some { c with acking := some (.reply, []) }) fun c' => ?_
    exact clients_setClient s i _ id
  | ack i =>
    change (match s.clients i with
      | some c => s.setClient i (some c.ack)
      | none => s).clients id = if i = id then some c.ack else some c
    by_cases hid : i = id
    · subst hid
      rw [hc, if_pos rfl]
      dsimp only
      rw [clients_setClient, if_pos rfl]
    · rw [if_neg hid]
      cases s.clients i with
      | none => exact hc
      | some c' =>
        dsimp only
        rw [clients_setClient, if_neg fun h => hid h.symm, hc]
  | turn i => exact clients_own hc (f := fun c => some (c.turn s.retained)) fun c' => clients_setClient s i _ id
  | send i => exact clients_own hc (f := fun c => some c.send) fun c' => clients_setClient s i _ id
  | release i room => exact clients_own hc (f := fun c => some (c.release room)) fun c' => clients_setClient s i _ id
  | leave i =>
    change (s.removeClient i).clients id = if i = id then none else some c
    rw [clients_removeClient, hc]
    simp only [eq_comm]

omit [Payload P] in
theorem own_keeps {Q : Broker P → Prop} {i : Nat} {act : Client P → Broker P} (hs : Q s)
    (hact : ∀ c, s.clients i = some c → Q (act c)) : Q (s.own i act) := by
  unfold own
  cases hi : s.clients i with
  | none => exact hs
  | some c =>
    dsimp only
    split
    · exact hs
    · exact hact c hi

omit [Payload P] in
private theorem own_none {id i : Nat} (hc : s.clients id = none) {act : Client P → Broker P}
    (hact : ∀ c' j, j ≠ i → (act c').clients j = s.clients j) : (s.own i act).clients id = none := by
  refine own_keeps (Q := fun s => s.clients id = none) hc fun c hi => ?_
  have hne : id ≠ i := by
    rintro rfl
    rw [hc] at hi
    cases hi
  rw [hact c id hne, hc]

theorem step_connect (s : Broker P) (i : Nat) :
    s.step (.connect i) = s ∨ s.clients i = none ∧
      s.step (.connect i) = { s with clients := Function.update s.clients i (some Client.fresh) } := by
  unfold step
  cases hi : s.clients i with
  | some _ => exact Or.inl (by simp only [hi])
  | none => exact Or.inr ⟨rfl, by simp only [hi]⟩

theorem clients_step_none {id : Nat} (hc : s.clients id = none) (p : Packet P) :
    (s.step p).clients id = none ∨ (s.step p).clients id = some Client.fresh := by
  have hset (i : Nat) (c : Option (Client P)) (j : Nat) (hj : j ≠ i) : (s.setClient i c).clients j = s.clients j := by
    rw [clients_setClient, if_neg hj]
  cases p with
  | connect i =>
    obtain h | ⟨-, h⟩ := step_connect s i
    · exact Or.inl (by rw [h, hc])
    · rw [h]
      dsimp only
      rw [Function.update_apply]
      split
      · exact Or.inr rfl
      · exact Or.inl hc
  | accept m signed now room =>
    refine Or.inl ?_
    change (s.accept m signed now room).clients id = none
    rw [clients_accept, hc]
    simp
  | sweep gone => exact Or.inl hc
  | subscribe i packetId filters =>
    refine Or.inl (own_none hc fun c' j hj => ?_)
    dsimp only
    split <;> exact hset i _ j hj
  | unsubscribe i packetId filters =>
    refine Or.inl (own_none hc fun c' j hj => ?_)
    dsimp only
    split <;> exact hset i _ j hj
  | other i => exact Or.inl (own_none hc fun c' j hj => hset i _ j hj)
  | ack i =>
    refine Or.inl ?_
    change (match s.clients i with
      | some c => s.setClient i (some c.ack)
      | none => s).clients id = none
    cases hi : s.clients i with
    | none => exact hc
    | some c' =>
      have hne : id ≠ i := by
        rintro rfl
        rw [hc] at hi
        cases hi
      exact (hset i _ id hne).trans hc
  | turn i => exact Or.inl (own_none hc fun c' j hj => hset i _ j hj)
  | send i => exact Or.inl (own_none hc fun c' j hj => hset i _ j hj)
  | release i room => exact Or.inl (own_none hc fun c' j hj => hset i _ j hj)
  | leave i =>
    refine Or.inl ?_
    change (s.removeClient i).clients id = none
    rw [clients_removeClient, hc, ite_self]

/-! ### The index after a step -/

omit [Payload P] in
theorem indexed_setClient (hs : Indexed s) {i : Nat} {c c' : Client P} (hc : s.clients i = some c)
    (hfilters : c'.filters = c.filters) : Indexed (s.setClient i (some c')) := by
  intro f id
  rw [clients_setClient]
  change id ∈ idsOf s.byFilter f ↔ _
  rw [hs]
  by_cases hid : id = i
  · subst hid
    simp [hc, hfilters]
  · simp [hid]

omit [Payload P] in
private theorem indexed_filters (hs : Indexed s) {i : Nat} {c c' : Client P} (hc : s.clients i = some c)
    {byFilter : Map Topic (List Nat)} (hother : ∀ f id, id ≠ i → (id ∈ idsOf byFilter f ↔ id ∈ idsOf s.byFilter f))
    (hown : ∀ f, i ∈ idsOf byFilter f ↔ f ∈ c'.filters) :
    Indexed { s.setClient i (some c') with byFilter := byFilter } := by
  intro f id
  change id ∈ idsOf byFilter f ↔ ∃ c, (s.setClient i (some c')).clients id = some c ∧ f ∈ c.filters
  rw [clients_setClient]
  by_cases hid : id = i
  · subst hid
    simp [hown]
  · rw [hother f id hid, hs, if_neg hid]

theorem indexed_accept (hs : Indexed s) (m : Message P) (signed : Meta) (now : Nat) (room : Nat → Bool) :
    Indexed (s.accept m signed now room) := by
  apply indexed_removeClients
  intro f id
  change id ∈ idsOf s.byFilter f ↔ ∃ c : Client P, (s.clients id).map _ = some c ∧ f ∈ c.filters
  rw [hs]
  have hfilters (c : Client P) (room reached : Bool) : (c.receive m room reached).filters = c.filters := by
    unfold Client.receive Client.deliver
    dsimp only
    split <;> [skip; rfl]
    split <;> split <;> rfl
  cases hc : s.clients id with
  | none => simp
  | some c => simp [hfilters]

theorem indexed_step (hs : Indexed s) (p : Packet P) : Indexed (s.step p) := by
  have hown (i : Nat) {f : Client P → Client P} (hf : ∀ c, (f c).filters = c.filters) :
      Indexed (s.own i fun c => s.setClient i (some (f c))) :=
    own_keeps (Q := Indexed) hs fun c hi => indexed_setClient hs hi (hf c)
  cases p with
  | connect i =>
    obtain h | ⟨hi, h⟩ := step_connect s i
    · rwa [h]
    · rw [h]
      intro f id
      change id ∈ idsOf s.byFilter f ↔ ∃ c, Function.update s.clients i (some Client.fresh) id = some c ∧ f ∈ c.filters
      rw [hs, Function.update_apply]
      by_cases hid : id = i
      · subst hid
        simp [hi, Client.fresh]
      · simp [hid]
  | accept m signed now room => exact indexed_accept hs m signed now room
  | sweep gone => exact hs
  | subscribe i packetId filters =>
    refine own_keeps (Q := Indexed) hs fun c hi => ?_
    dsimp only
    unfold Client.subscribe
    split
    · exact indexed_removeClient hs i
    · refine indexed_filters hs hi (fun f id hid => ?_) fun f => ?_
      · change id ∈ idsOf (run (addFilter · i ·) s.byFilter _) f ↔ _
        rw [mem_idsOf_addFilters]
        simp [hid]
      · change i ∈ idsOf (run (addFilter · i ·) s.byFilter _) f ↔ f ∈ (c.grants filters).held
        rw [mem_idsOf_addFilters, hs, c.held_grants, List.mem_append]
        simp [hi]
  | unsubscribe i packetId filters =>
    refine own_keeps (Q := Indexed) hs fun c hi => ?_
    dsimp only
    unfold Client.unsubscribe
    split
    · exact indexed_removeClient hs i
    · refine indexed_filters hs hi (fun f id hid => ?_) fun f => ?_
      · change id ∈ idsOf (run (removeFilter · i ·) s.byFilter _) f ↔ _
        rw [mem_idsOf_removeFilters]
        simp [hid]
      · change i ∈ idsOf (run (removeFilter · i ·) s.byFilter _) f ↔ f ∈ c.filters.filter (· ∉ filters)
        rw [mem_idsOf_removeFilters, hs]
        simp only [hi, Option.some.injEq, exists_eq_left', List.mem_filter, decide_eq_true_eq, true_and, not_and]
        tauto
  | other i => exact hown i fun c => rfl
  | ack i =>
    unfold step
    cases hi : s.clients i with
    | none =>
      dsimp only
      rwa [hi]
    | some c =>
      dsimp only
      rw [hi]
      refine indexed_setClient hs hi ?_
      unfold Client.ack
      split <;> rfl
  | turn i =>
    refine hown i fun c => ?_
    unfold Client.turn
    split
    · split <;> rfl
    · rfl
  | send i =>
    refine hown i fun c => ?_
    unfold Client.send
    split <;> rfl
  | release i room =>
    refine hown i fun c => ?_
    unfold Client.release
    split <;> rfl
  | leave i => exact indexed_removeClient hs i

/-! ### What is kept after a step -/

omit [Payload P] in
theorem retained_setClient (s : Broker P) (i : Nat) (c : Option (Client P)) : (s.setClient i c).retained = s.retained := by
  cases c with
  | none => exact removeClients_retained s [i]
  | some c => rfl

theorem retained_step (s : Broker P) (p : Packet P) :
    (s.step p).retained = match p with
      | .accept m signed now _ => keep s.retained m signed now
      | .sweep gone => run (fun r t => (r.remove t).2) s.retained gone
      | _ => s.retained := by
  have hown (i : Nat) {act : Client P → Broker P} (hact : ∀ c, (act c).retained = s.retained) :
      (s.own i act).retained = s.retained :=
    own_keeps (Q := fun s' => s'.retained = s.retained) rfl fun c _ => hact c
  cases p with
  | connect i =>
    obtain h | ⟨-, h⟩ := step_connect s i <;> rw [h]
  | accept m signed now room => exact removeClients_retained _ _
  | sweep gone => rfl
  | subscribe i packetId filters =>
    refine hown i fun c => ?_
    dsimp only
    split <;> exact retained_setClient s i _
  | unsubscribe i packetId filters =>
    refine hown i fun c => ?_
    dsimp only
    split <;> exact retained_setClient s i _
  | other i => exact hown i fun c => retained_setClient s i _
  | ack i =>
    unfold step
    cases hi : s.clients i with
    | none => simp only [hi]
    | some c => simp only [hi, retained_setClient]
  | turn i => exact hown i fun c => retained_setClient s i _
  | send i => exact hown i fun c => retained_setClient s i _
  | release i room => exact hown i fun c => retained_setClient s i _
  | leave i => exact removeClients_retained s [i]

end Broker

end HidraNet.Hidrarelay
