import HidraNet.Lib.Maps
import HidraNet.Lib.Runs
import HidraNet.Onion.Layer

/-!
# A relay's circuits

Clients and relays have links to a relay.  A client's link creates one circuit, under an id the client chose; cells for
a circuit come over any link and are opened with the circuit's layer.  The cell that begins a stream takes the circuit
out of the table.

Whatever comes over the links, what a circuit's client has not sealed as the next cell neither moves the circuit's
count nor ends the circuit; only one that is not used for a while is dropped (`guarded_run`).
-/

namespace HidraNet.Relay.Circuits

open HidraNet.Core (Bytes)
open Aead
open Maps
open Onion
open Runs

def CIRCUIT_TTL : Nat := 330 * 10 ^ 9
def MAX_CIRCUITS : Nat := 65536

structure CircuitEntry where
  layer : LayerCipher
  lastUsed : Nat
deriving DecidableEq

inductive LinkKind where
  | client
  | relay
deriving DecidableEq

/-- Where the task that serves a link is. -/
inductive Task where
  | serving
  /-- It waits for the reply to a control cell of the circuit: the next hop's, or its own. -/
  | answering (circuitId : Nat)
  /-- The link carries a stream, with the layer of its circuit. -/
  | streaming (layer : LayerCipher)
  | ended

structure Link where
  kind : LinkKind
  sessionKey : Option Bytes
  task : Task

abbrev Table := Map Nat CircuitEntry

def reaped (now : Nat) (circuits : Table) : Table := circuits.retain fun _ e => now - e.lastUsed < CIRCUIT_TTL

section Operations

variable (encrypt : Bytes → Bytes → Bytes → Bytes) (log : List SealedCell) (now : Nat)

def createCircuit (circuits : Table) (circuitId : Nat) (layer : LayerCipher) : Except String Unit × Table :=
  let map := reaped now circuits
  if MAX_CIRCUITS ≤ map.size then (.error "relay at circuit capacity", map)
  else if map.contains circuitId then (.error "circuit id already in use", map)
  else (.ok (), map.set circuitId ⟨layer, now⟩)

def unknownCircuit (circuitId : Nat) : String := "unknown circuit " ++ toString circuitId

def openControl (circuits : Table) (circuitId : Nat) (data : Bytes) : Except String (LayerHeader × Bytes) × Table :=
  match circuits.get? circuitId with
  | none => (.error (unknownCircuit circuitId), circuits)
  | some entry =>
    let (result, layer) := entry.layer.openForwardCell log data
    (result, circuits.set circuitId ⟨layer, now⟩)

def sealReply (circuits : Table) (circuitId : Nat) (reply : Bytes) : Except String SealedCell × Table :=
  match circuits.get? circuitId with
  | none => (.error (unknownCircuit circuitId), circuits)
  | some entry =>
    match entry.layer.sealBackward encrypt reply with
    | .error e => (.error e, circuits.set circuitId { entry with lastUsed := now })
    | .ok (cell, layer) => (.ok cell, circuits.set circuitId ⟨layer, now⟩)

def openStream (circuits : Table) (circuitId : Nat) (data : Bytes) :
    Except String (LayerCipher × LayerHeader × Bytes) × Table :=
  match circuits.get? circuitId with
  | none => (.error (unknownCircuit circuitId), circuits)
  | some entry =>
    match entry.layer.openForwardCell log data with
    | (.error e, layer) => (.error e, circuits.set circuitId { entry with layer })
    | (.ok (header, inner), layer) => (.ok (layer, header, inner), circuits.remove circuitId)

/-- A circuit is made only where there is room and its id is not taken. -/
theorem createCircuit_cases (now : Nat) (circuits : Table) (id : Nat) (layer : LayerCipher) :
    (∃ e, createCircuit now circuits id layer = (.error e, reaped now circuits)) ∨
      createCircuit now circuits id layer = (.ok (), (reaped now circuits).set id ⟨layer, now⟩) ∧
        (reaped now circuits).size < MAX_CIRCUITS ∧ (reaped now circuits).get? id = none := by
  unfold createCircuit
  by_cases hfull : MAX_CIRCUITS ≤ (reaped now circuits).size
  · exact Or.inl ⟨_, if_pos hfull⟩
  · by_cases htaken : (reaped now circuits).contains id = true
    · refine Or.inl ⟨"circuit id already in use", ?_⟩
      dsimp only
      rw [if_neg hfull, if_pos htaken]
    · refine Or.inr ⟨?_, by omega, by simpa [Map.contains] using htaken⟩
      dsimp only
      rw [if_neg hfull, if_neg htaken]

/-- Only the next cell of a circuit moves its counter. -/
theorem openControl_cases (log : List SealedCell) (now : Nat) (circuits : Table) (id : Nat) (data : Bytes) :
    (circuits.get? id = none ∧ openControl log now circuits id data = (.error (unknownCircuit id), circuits)) ∨
      ∃ entry, circuits.get? id = some entry ∧
        ((entry.layer.nextForward log data = none ∧
            ∃ e, openControl log now circuits id data = (.error e, circuits.set id ⟨entry.layer, now⟩)) ∨
          ∃ plaintext, entry.layer.nextForward log data = some plaintext ∧
            openControl log now circuits id data =
              (unframe plaintext, circuits.set id ⟨entry.layer.movedForward, now⟩)) := by
  unfold openControl
  cases hget : circuits.get? id with
  | none => exact Or.inl ⟨rfl, rfl⟩
  | some entry =>
    refine Or.inr ⟨entry, rfl, ?_⟩
    cases hopen : entry.layer.nextForward log data with
    | none => exact Or.inl ⟨rfl, Direction.notNext, by simp only [LayerCipher.openForwardCell_of_none hopen]⟩
    | some plaintext => exact Or.inr ⟨plaintext, rfl, by simp only [LayerCipher.openForwardCell_of_some hopen]⟩

theorem openStream_cases (log : List SealedCell) (circuits : Table) (id : Nat) (data : Bytes) :
    (circuits.get? id = none ∧ openStream log circuits id data = (.error (unknownCircuit id), circuits)) ∨
      ∃ entry, circuits.get? id = some entry ∧
        ((entry.layer.nextForward log data = none ∧
            ∃ e, openStream log circuits id data = (.error e, circuits.set id entry)) ∨
          ∃ plaintext, entry.layer.nextForward log data = some plaintext ∧
            ((∃ e, openStream log circuits id data =
                (.error e, circuits.set id { entry with layer := entry.layer.movedForward })) ∨
              ∃ r, openStream log circuits id data = (.ok r, circuits.remove id))) := by
  unfold openStream
  cases hget : circuits.get? id with
  | none => exact Or.inl ⟨rfl, rfl⟩
  | some entry =>
    refine Or.inr ⟨entry, rfl, ?_⟩
    cases hopen : entry.layer.nextForward log data with
    | none => exact Or.inl ⟨rfl, Direction.notNext, by simp only [LayerCipher.openForwardCell_of_none hopen]⟩
    | some plaintext =>
      refine Or.inr ⟨plaintext, rfl, ?_⟩
      simp only [LayerCipher.openForwardCell_of_some hopen]
      cases hframe : unframe plaintext with
      | error e => exact Or.inl ⟨e, rfl⟩
      | ok r => exact Or.inr ⟨_, rfl⟩

theorem sealReply_cases (encrypt : Bytes → Bytes → Bytes → Bytes) (now : Nat) (circuits : Table) (id : Nat)
    (reply : Bytes) :
    (circuits.get? id = none ∧ sealReply encrypt now circuits id reply = (.error (unknownCircuit id), circuits)) ∨
      ∃ entry, circuits.get? id = some entry ∧
        ((∃ e, sealReply encrypt now circuits id reply = (.error e, circuits.set id { entry with lastUsed := now })) ∨
          ∃ cell layer, sealReply encrypt now circuits id reply = (.ok cell, circuits.set id ⟨layer, now⟩) ∧
            cell.key = entry.layer.backward.key ∧ layer.forward = entry.layer.forward ∧
            layer.backward.key = entry.layer.backward.key) := by
  unfold sealReply
  cases hget : circuits.get? id with
  | none => exact Or.inl ⟨rfl, rfl⟩
  | some entry =>
    refine Or.inr ⟨entry, rfl, ?_⟩
    by_cases hlast : entry.layer.backward.next = U64_MAX
    · exact Or.inl ⟨Direction.exhausted, by simp only [LayerCipher.sealBackward_of_eq hlast]⟩
    · dsimp only
      rw [LayerCipher.sealBackward_of_ne hlast]
      exact Or.inr ⟨_, _, rfl, rfl, rfl, rfl⟩

end Operations

/-! ### Over the links -/

structure State where
  circuits : Table
  links : Nat → Option Link
  now : Nat
  log : List SealedCell
  byClient : List (Nat × SealedCell)
  created : List (Nat × Nat)

inductive Event where
  | connects (l : Nat) (kind : LinkKind)
  /-- A `CreateCircuit` over the link. -/
  | creates (l circuitId : Nat)
  /-- A `Relay`. -/
  | relays (l circuitId : Nat) (data : Bytes)
  /-- A `StreamBegin`. -/
  | begins (l circuitId : Nat) (data : Bytes)
  /-- The reply to the link's control cell is there, or there is none. -/
  | replies (l : Nat) (reply : Except String Bytes)
  /-- The link closes, idles too long, or has another message. -/
  | closes (l : Nat)
  | passes (time : Nat)
  /-- The client of a link seals a cell, under any nonce. -/
  | seals (l : Nat) (label nonce plaintext : Bytes)

namespace State

def start : State := ⟨.empty, fun _ => none, 0, [], [], []⟩

def setTask (s : State) (l : Nat) (link : Link) (task : Task) : State :=
  { s with links := Function.update s.links l (some { link with task }) }

variable (expand : Bytes → Bytes → Bytes) (encrypt : Bytes → Bytes → Bytes → Bytes) (session : Nat → Bytes)

def create (s : State) (l : Nat) (link : Link) (circuitId : Nat) : State :=
  match link.kind, link.sessionKey with
  | .client, some key =>
    let link := { link with sessionKey := none }
    match createCircuit s.now s.circuits circuitId (.new expand key) with
    | (.ok (), circuits) =>
      { s.setTask l link .serving with circuits, created := s.created ++ [(l, circuitId)] }
    | (.error _, circuits) => { s.setTask l link .ended with circuits }
  | _, _ => s.setTask l link .ended

def relay (s : State) (l : Nat) (link : Link) (circuitId : Nat) (data : Bytes) : State :=
  match openControl s.log s.now s.circuits circuitId data with
  | (.ok _, circuits) => { s.setTask l link (.answering circuitId) with circuits }
  | (.error _, circuits) => { s.setTask l link .ended with circuits }

def begin (s : State) (l : Nat) (link : Link) (circuitId : Nat) (data : Bytes) : State :=
  match openStream s.log s.circuits circuitId data with
  | (.ok (layer, _, _), circuits) => { s.setTask l link (.streaming layer) with circuits }
  | (.error _, circuits) => { s.setTask l link .ended with circuits }

def answer (s : State) (l : Nat) (link : Link) (circuitId : Nat) (reply : Bytes) : State :=
  match sealReply encrypt s.now s.circuits circuitId reply with
  | (.ok cell, circuits) => { s.setTask l link .serving with circuits, log := s.log ++ [cell] }
  | (.error _, circuits) => { s.setTask l link .ended with circuits }

def step (s : State) : Event → State
  | .connects l kind =>
    match s.links l with
    | some _ => s
    | none =>
      let sessionKey := match kind with
        | .client => some (session l)
        | .relay => none
      { s with links := Function.update s.links l (some ⟨kind, sessionKey, .serving⟩) }
  | .creates l circuitId =>
    match s.links l with
    | some ⟨kind, sessionKey, .serving⟩ => s.create expand l ⟨kind, sessionKey, .serving⟩ circuitId
    | _ => s
  | .relays l circuitId data =>
    match s.links l with
    | some ⟨kind, sessionKey, .serving⟩ => s.relay l ⟨kind, sessionKey, .serving⟩ circuitId data
    | _ => s
  | .begins l circuitId data =>
    match s.links l with
    | some ⟨kind, sessionKey, .serving⟩ => s.begin l ⟨kind, sessionKey, .serving⟩ circuitId data
    | _ => s
  | .replies l reply =>
    match s.links l, reply with
    | some ⟨kind, sessionKey, .answering circuitId⟩, .ok reply =>
      s.answer encrypt l ⟨kind, sessionKey, .answering circuitId⟩ circuitId reply
    | some ⟨kind, sessionKey, .answering circuitId⟩, .error _ =>
      s.setTask l ⟨kind, sessionKey, .answering circuitId⟩ .ended
    | _, _ => s
  | .closes l =>
    match s.links l with
    | some link => s.setTask l link .ended
    | none => s
  | .passes time => { s with now := s.now + time }
  | .seals l label nonce plaintext =>
    if label = FORWARD_LABEL ∨ label = BACKWARD_LABEL then
      let key := expand (session l) label
      let cell : SealedCell := ⟨key, nonce, plaintext, encrypt key nonce plaintext⟩
      { s with log := s.log ++ [cell], byClient := s.byClient ++ [(l, cell)] }
    else s

/-! ### The invariant -/

variable {expand encrypt session} {s : State} {l : Nat} {circuits : Table}

variable (expand session) in
/-- What holds of the relay at any time. -/
structure Sound (s : State) : Prop where
  bounded : s.circuits.size ≤ MAX_CIRCUITS
  /-- A session's key has become the layer of one circuit at most. -/
  once : (s.created.map Prod.fst).Nodup
  owned : ∀ id entry, s.circuits.get? id = some entry →
    ∃ l, (l, id) ∈ s.created ∧ SameKeys entry.layer (.new expand (session l))

variable (expand session) in
structure Kept (s : State) : Prop extends Sound expand session s where
  unused : ∀ l link key, s.links l = some link → link.sessionKey = some key →
    key = session l ∧ ∀ id, (l, id) ∉ s.created
  unlinked : ∀ l, s.links l = none → ∀ id, (l, id) ∉ s.created
  fromClient : ∀ cell ∈ s.log, ∀ l, cell.key = expand (session l) FORWARD_LABEL → (l, cell) ∈ s.byClient

def Within (circuits' circuits : Table) : Prop :=
  circuits'.size ≤ circuits.size ∧ ∀ id entry', circuits'.get? id = some entry' →
    ∃ entry, circuits.get? id = some entry ∧ SameKeys entry'.layer entry.layer

theorem within_refl (circuits : Table) : Within circuits circuits :=
  ⟨Nat.le_refl _, fun _ entry h => ⟨entry, h, rfl, rfl⟩⟩

theorem within_set {id : Nat} {entry entry' : CircuitEntry} (hget : circuits.get? id = some entry)
    (hkeys : SameKeys entry'.layer entry.layer) : Within (circuits.set id entry') circuits := by
  refine ⟨Map.size_set_of_get? hget _, fun id' e h => ?_⟩
  obtain ⟨rfl, rfl⟩ | ⟨-, h⟩ := Map.get?_set_some.1 h
  · exact ⟨entry, hget, hkeys⟩
  · exact ⟨e, h, rfl, rfl⟩

theorem within_remove {id : Nat} {entry : CircuitEntry} (hget : circuits.get? id = some entry) :
    Within (circuits.remove id) circuits := by
  exact ⟨(Map.size_remove_lt hget).le, fun _ e h => ⟨e, (Map.get?_remove_some.1 h).2, rfl, rfl⟩⟩

theorem within_reaped (now : Nat) (circuits : Table) : Within (reaped now circuits) circuits := by
  refine ⟨List.length_filter_le _ _, fun id e h => ?_⟩
  rw [reaped, Map.get?_retain] at h
  exact ⟨e, (Option.filter_eq_some_iff.1 h).1, rfl, rfl⟩

theorem within_openControl (log : List SealedCell) (now : Nat) (circuits : Table) (id : Nat) (data : Bytes) :
    Within (openControl log now circuits id data).2 circuits := by
  rcases openControl_cases log now circuits id data with ⟨-, h⟩ | ⟨entry, hget, ⟨-, e, h⟩ | ⟨p, -, h⟩⟩
  · rw [h]
    exact within_refl _
  · rw [h]
    exact within_set hget ⟨rfl, rfl⟩
  · rw [h]
    exact within_set hget ⟨rfl, rfl⟩

theorem within_openStream (log : List SealedCell) (circuits : Table) (id : Nat) (data : Bytes) :
    Within (openStream log circuits id data).2 circuits := by
  rcases openStream_cases log circuits id data with ⟨-, h⟩ | ⟨entry, hget, ⟨-, e, h⟩ | ⟨p, -, ⟨e, h⟩ | ⟨r, h⟩⟩⟩
  · rw [h]
    exact within_refl _
  · rw [h]
    exact within_set hget ⟨rfl, rfl⟩
  · rw [h]
    exact within_set hget ⟨rfl, rfl⟩
  · rw [h]
    exact within_remove hget

theorem Kept.goOn (hk : Kept expand session s) {link : Link} (hlink : s.links l = some link) (link' : Link)
    (task : Task) (hkey : link'.sessionKey = link.sessionKey ∨ link'.sessionKey = none)
    (hwithin : Within circuits s.circuits) {log : List SealedCell}
    (hlog : ∀ cell ∈ log, cell ∈ s.log ∨ ∀ l, cell.key ≠ expand (session l) FORWARD_LABEL) :
    Kept expand session { s.setTask l link' task with circuits, log } := by
  refine ⟨⟨hwithin.1.trans hk.bounded, hk.once, fun id entry' h => ?_⟩, fun m link₀ key h hsome => ?_, fun m h => ?_,
    fun cell hcell m hkey => ?_⟩
  · obtain ⟨entry, hget, hsame⟩ := hwithin.2 id entry' h
    obtain ⟨o, ho, hkeys⟩ := hk.owned id entry hget
    exact ⟨o, ho, hsame.1.trans hkeys.1, hsame.2.trans hkeys.2⟩
  · obtain ⟨rfl, rfl⟩ | ⟨-, h⟩ := update_some.1 h
    · rcases hkey with heq | hnone
      · exact hk.unused m link key hlink (heq ▸ hsome)
      · simp [hnone] at hsome
    · exact hk.unused m link₀ key h hsome
  · exact hk.unlinked m (update_none.1 h).2
  · exact (hlog cell hcell).elim (fun h => hk.fromClient cell h m hkey) fun h => absurd hkey (h m)

theorem Kept.enter (hk : Kept expand session s) {link : Link} (hlink : s.links l = some link)
    (hkey : link.sessionKey = some (session l)) {id : Nat} (hwithin : Within circuits s.circuits)
    (hroom : circuits.size < MAX_CIRCUITS) (task : Task) (now : Nat) :
    Kept expand session { s with
      circuits := circuits.set id ⟨.new expand (session l), now⟩
      links := Function.update s.links l (some ⟨link.kind, none, task⟩)
      created := s.created ++ [(l, id)] } := by
  have hfresh := (hk.unused l link _ hlink hkey).2
  refine ⟨⟨(Map.size_set_le _ _ _).trans hroom, ?_, fun id' entry' h => ?_⟩, fun m link₀ key h hsome => ?_,
    fun m h => ?_, hk.fromClient⟩
  · rw [List.map_append, List.nodup_append]
    refine ⟨hk.once, List.nodup_singleton _, ?_⟩
    rintro a ha b hb rfl
    obtain ⟨⟨l', id'⟩, hmem, rfl⟩ := List.mem_map.1 ha
    obtain rfl : l' = l := List.mem_singleton.1 hb
    exact hfresh id' hmem
  · obtain ⟨hid, rfl⟩ | ⟨-, h⟩ := Map.get?_set_some.1 h
    · exact ⟨l, List.mem_append_right _ (by simp [hid]), rfl, rfl⟩
    · obtain ⟨entry, hget, hsame⟩ := hwithin.2 id' entry' h
      obtain ⟨o, ho, hkeys⟩ := hk.owned id' entry hget
      exact ⟨o, List.mem_append_left _ ho, hsame.1.trans hkeys.1, hsame.2.trans hkeys.2⟩
  · obtain ⟨-, rfl⟩ | ⟨hm, h⟩ := update_some.1 h
    · cases hsome
    · refine ⟨(hk.unused m link₀ key h hsome).1, fun id' hmem => ?_⟩
      rcases List.mem_append.1 hmem with hmem | hmem
      · exact (hk.unused m link₀ key h hsome).2 id' hmem
      · exact hm (congrArg Prod.fst (List.mem_singleton.1 hmem))
  · obtain ⟨hm, h⟩ := update_none.1 h
    intro id' hmem
    rcases List.mem_append.1 hmem with hmem | hmem
    · exact hk.unlinked m h id' hmem
    · exact hm (congrArg Prod.fst (List.mem_singleton.1 hmem))

theorem kept_start : Kept expand session start := by
  refine ⟨⟨Nat.zero_le _, List.nodup_nil, fun id entry h => ?_⟩, fun l link key h => ?_, fun l h id hmem => ?_,
    fun cell hcell => ?_⟩
  · simp [start] at h
  · simp [start] at h
  · simp [start] at hmem
  · simp [start] at hcell

theorem Kept.create (hk : Kept expand session s) {link : Link} (hlink : s.links l = some link) (id : Nat) :
    Kept expand session (s.create expand l link id) := by
  unfold State.create
  split
  · rename_i key hkind hkey
    obtain rfl := (hk.unused l link _ hlink hkey).1
    rcases createCircuit_cases s.now s.circuits id (.new expand (session l)) with ⟨e, h⟩ | ⟨h, hroom, -⟩
    · rw [h]
      exact hk.goOn hlink { link with sessionKey := none } .ended (Or.inr rfl) (within_reaped _ _) fun _ h => Or.inl h
    · rw [h]
      exact hk.enter hlink hkey (within_reaped _ _) hroom .serving s.now
  · exact hk.goOn hlink link .ended (Or.inl rfl) (within_refl _) fun _ h => Or.inl h

theorem Kept.relay (hk : Kept expand session s) {link : Link} (hlink : s.links l = some link) (id : Nat)
    (data : Bytes) : Kept expand session (s.relay l link id data) := by
  have hwithin := within_openControl s.log s.now s.circuits id data
  unfold State.relay
  split <;>
  · rename_i h
    rw [h] at hwithin
    exact hk.goOn hlink link _ (Or.inl rfl) hwithin fun _ h => Or.inl h

theorem Kept.begin (hk : Kept expand session s) {link : Link} (hlink : s.links l = some link) (id : Nat)
    (data : Bytes) : Kept expand session (s.begin l link id data) := by
  have hwithin := within_openStream s.log s.circuits id data
  unfold State.begin
  split <;>
  · rename_i h
    rw [h] at hwithin
    exact hk.goOn hlink link _ (Or.inl rfl) hwithin fun _ h => Or.inl h

theorem Kept.answer (hkeys : DistinctKeys expand session) (hk : Kept expand session s) {link : Link}
    (hlink : s.links l = some link) (id : Nat) (reply : Bytes) :
    Kept expand session (s.answer encrypt l link id reply) := by
  unfold State.answer
  rcases sealReply_cases encrypt s.now s.circuits id reply with
    ⟨-, h⟩ | ⟨entry, hget, ⟨e, h⟩ | ⟨cell, layer, h, hcell, hforward, hbackward⟩⟩
  · rw [h]
    exact hk.goOn hlink _ _ (Or.inl rfl) (within_refl _) fun _ h => Or.inl h
  · rw [h]
    have hwithin : Within (s.circuits.set id { entry with lastUsed := s.now }) s.circuits :=
      within_set hget ⟨rfl, rfl⟩
    exact hk.goOn hlink _ _ (Or.inl rfl) hwithin fun _ h => Or.inl h
  · rw [h]
    refine hk.goOn hlink _ _ (Or.inl rfl) (within_set hget ⟨by rw [hforward], hbackward⟩) fun c hc => ?_
    rcases List.mem_append.1 hc with hc | hc
    · exact Or.inl hc
    · obtain rfl := List.mem_singleton.1 hc
      obtain ⟨o, -, -, ho⟩ := hk.owned id entry hget
      refine Or.inr fun m hm => ?_
      have hsame := (hkeys o m BACKWARD_LABEL (by simp) FORWARD_LABEL (by simp) (ho.symm.trans (hcell.symm.trans hm))).2
      revert hsame
      decide

theorem kept_step (hkeys : DistinctKeys expand session) (hk : Kept expand session s) (e : Event) :
    Kept expand session (s.step expand encrypt session e) := by
  cases e with
  | connects l kind =>
    simp only [step]
    split
    · exact hk
    · rename_i hnone
      refine ⟨⟨hk.bounded, hk.once, hk.owned⟩, fun m link key h hsome => ?_, fun m h => ?_, hk.fromClient⟩
      · obtain ⟨rfl, rfl⟩ | ⟨-, h⟩ := update_some.1 h
        · cases kind with
          | client =>
            cases hsome
            exact ⟨rfl, hk.unlinked m hnone⟩
          | relay => cases hsome
        · exact hk.unused m link key h hsome
      · exact hk.unlinked m (update_none.1 h).2
  | creates l id =>
    simp only [step]
    split
    · rename_i hlink
      exact hk.create hlink id
    · exact hk
  | relays l id data =>
    simp only [step]
    split
    · rename_i hlink
      exact hk.relay hlink id data
    · exact hk
  | begins l id data =>
    simp only [step]
    split
    · rename_i hlink
      exact hk.begin hlink id data
    · exact hk
  | replies l reply =>
    simp only [step]
    split
    · rename_i hlink
      exact hk.answer hkeys hlink _ _
    · rename_i hlink
      exact hk.goOn hlink _ _ (Or.inl rfl) (within_refl _) fun _ h => Or.inl h
    · exact hk
  | closes l =>
    simp only [step]
    split
    · rename_i hlink
      exact hk.goOn hlink _ _ (Or.inl rfl) (within_refl _) fun _ h => Or.inl h
    · exact hk
  | passes time => exact ⟨⟨hk.bounded, hk.once, hk.owned⟩, hk.unused, hk.unlinked, hk.fromClient⟩
  | seals l label nonce plaintext =>
    simp only [step]
    split
    · rename_i hlabel
      refine ⟨⟨hk.bounded, hk.once, hk.owned⟩, hk.unused, hk.unlinked, fun cell hcell m hm => ?_⟩
      rcases List.mem_append.1 hcell with hcell | hcell
      · exact List.mem_append_left _ (hk.fromClient cell hcell m hm)
      · obtain rfl := List.mem_singleton.1 hcell
        obtain rfl := (hkeys l m label (by simpa using hlabel) FORWARD_LABEL (by simp) hm).1
        exact List.mem_append_right _ (List.mem_singleton.2 rfl)
    · exact hk

/-! ### What a step does to a circuit -/

def Carries (e : Event) (id : Nat) (data : Bytes) : Prop := ∃ l, e = .relays l id data ∨ e = .begins l id data

variable (expand session) in
def SealedNext (s : State) (id : Nat) (entry : CircuitEntry) (data : Bytes) : Prop :=
  ∃ o plaintext, (o, id) ∈ s.created ∧ SameKeys entry.layer (.new expand (session o)) ∧
    (o, ⟨entry.layer.forward.key, entry.layer.forward.nonce, plaintext, data⟩) ∈ s.byClient

variable (expand encrypt session) in
structure Guarded (s : State) (e : Event) : Prop where
  /-- A circuit keeps its keys; its forward count moves, or it goes, on the next cell of its client only, except that
  it goes when it was not used for a while. -/
  held : ∀ id entry, s.circuits.get? id = some entry →
    (∃ entry', (s.step expand encrypt session e).circuits.get? id = some entry' ∧ SameKeys entry'.layer entry.layer ∧
        (entry'.layer.forward = entry.layer.forward ∨
          ∃ data, Carries e id data ∧ SealedNext expand session s id entry data)) ∨
      ((s.step expand encrypt session e).circuits.get? id = none ∧
          ∃ data, Carries e id data ∧ SealedNext expand session s id entry data) ∨
      CIRCUIT_TTL ≤ s.now - entry.lastUsed ∧ ∃ l id', e = .creates l id'
  /-- A cell that is for no circuit held, or does not open, leaves all layers as they were. -/
  refused : ∀ id data, Carries e id data →
    (∀ entry, s.circuits.get? id = some entry → entry.layer.nextForward s.log data = none) →
      ∀ id', ((s.step expand encrypt session e).circuits.get? id').map (·.layer) =
        (s.circuits.get? id').map (·.layer)

theorem Kept.sealedNext (hk : Kept expand session s) {id : Nat} {entry : CircuitEntry} {data plaintext : Bytes}
    (hget : s.circuits.get? id = some entry) (hopen : entry.layer.nextForward s.log data = some plaintext) :
    SealedNext expand session s id entry data := by
  obtain ⟨o, ho, hkeys⟩ := hk.owned id entry hget
  exact ⟨o, plaintext, ho, hkeys, hk.fromClient _ (mem_of_opened hopen) o hkeys.1⟩

theorem guarded_of_same {e : Event} (h : (s.step expand encrypt session e).circuits = s.circuits) :
    Guarded expand encrypt session s e := by
  refine ⟨fun id entry hget => Or.inl ⟨entry, by rw [h, hget], ⟨rfl, rfl⟩, Or.inl rfl⟩, fun id data _ _ id' => ?_⟩
  rw [h]

theorem circuits_relay (l : Nat) (link : Link) (id : Nat) (data : Bytes) :
    (s.relay l link id data).circuits = (openControl s.log s.now s.circuits id data).2 := by
  unfold relay
  split
  · rename_i h
    rw [h]
  · rename_i h
    rw [h]

theorem circuits_begin (l : Nat) (link : Link) (id : Nat) (data : Bytes) :
    (s.begin l link id data).circuits = (openStream s.log s.circuits id data).2 := by
  unfold begin
  split
  · rename_i h
    rw [h]
  · rename_i h
    rw [h]

theorem circuits_answer (l : Nat) (link : Link) (id : Nat) (reply : Bytes) :
    (s.answer encrypt l link id reply).circuits = (sealReply encrypt s.now s.circuits id reply).2 := by
  unfold answer
  split
  · rename_i h
    rw [h]
  · rename_i h
    rw [h]

theorem guarded_of_cell (hk : Kept expand session s) {e : Event} (id : Nat) (data : Bytes)
    (he : ∀ id' data', Carries e id' data' ↔ id' = id ∧ data' = data)
    (hcases : (s.step expand encrypt session e).circuits = s.circuits ∨
      ∃ entry, s.circuits.get? id = some entry ∧
        ((∃ now, (s.step expand encrypt session e).circuits = s.circuits.set id ⟨entry.layer, now⟩) ∨
          ∃ plaintext, entry.layer.nextForward s.log data = some plaintext ∧
            ((∃ now, (s.step expand encrypt session e).circuits =
                s.circuits.set id ⟨entry.layer.movedForward, now⟩) ∨
              (s.step expand encrypt session e).circuits = s.circuits.remove id))) :
    Guarded expand encrypt session s e := by
  rcases hcases with h | ⟨entry, hget, ⟨now, h⟩ | ⟨plaintext, hopen, ⟨now, h⟩ | h⟩⟩
  · exact guarded_of_same h
  · refine ⟨fun id' entry' hget' => Or.inl ?_, fun _ _ _ _ id' => ?_⟩
    · by_cases hid : id' = id
      · subst hid
        obtain rfl : entry = entry' := Option.some.inj (hget.symm.trans hget')
        exact ⟨⟨entry.layer, now⟩, by rw [h, Map.get?_set_self], ⟨rfl, rfl⟩, Or.inl rfl⟩
      · exact ⟨entry', by rw [h, Map.get?_set_other _ _ hid, hget'], ⟨rfl, rfl⟩, Or.inl rfl⟩
    · rw [h, Map.get?_set]
      split
      · rename_i hid
        rw [hid, hget]
        rfl
      · rfl
  · refine ⟨fun id' entry' hget' => Or.inl ?_, fun id' data' hc hnone => ?_⟩
    · by_cases hid : id' = id
      · subst hid
        obtain rfl : entry = entry' := Option.some.inj (hget.symm.trans hget')
        exact ⟨⟨entry.layer.movedForward, now⟩, by rw [h, Map.get?_set_self], ⟨rfl, rfl⟩,
          Or.inr ⟨data, (he _ _).2 ⟨rfl, rfl⟩, hk.sealedNext hget hopen⟩⟩
      · exact ⟨entry', by rw [h, Map.get?_set_other _ _ hid, hget'], ⟨rfl, rfl⟩, Or.inl rfl⟩
    · obtain ⟨rfl, rfl⟩ := (he _ _).1 hc
      simp [hnone entry hget] at hopen
  · refine ⟨fun id' entry' hget' => ?_, fun id' data' hc hnone => ?_⟩
    · by_cases hid : id' = id
      · subst hid
        obtain rfl : entry = entry' := Option.some.inj (hget.symm.trans hget')
        exact Or.inr (Or.inl ⟨by rw [h, Map.get?_remove, if_pos rfl], data, (he _ _).2 ⟨rfl, rfl⟩,
          hk.sealedNext hget hopen⟩)
      · exact Or.inl ⟨entry', by rw [h, Map.get?_remove, if_neg hid, hget'], ⟨rfl, rfl⟩, Or.inl rfl⟩
    · obtain ⟨rfl, rfl⟩ := (he _ _).1 hc
      simp [hnone entry hget] at hopen

theorem guarded_relays (hk : Kept expand session s) (l id : Nat) (data : Bytes) :
    Guarded expand encrypt session s (.relays l id data) := by
  refine guarded_of_cell hk id data (fun id' data' => ?_) ?_
  · constructor
    · rintro ⟨l', h | h⟩
      · cases h
        exact ⟨rfl, rfl⟩
      · cases h
    · rintro ⟨rfl, rfl⟩
      exact ⟨l, Or.inl rfl⟩
  · simp only [step]
    split
    · rw [circuits_relay]
      rcases openControl_cases s.log s.now s.circuits id data with ⟨-, h⟩ | ⟨entry, hget, ⟨-, e, h⟩ | ⟨p, hopen, h⟩⟩
      · exact Or.inl (by rw [h])
      · exact Or.inr ⟨entry, hget, Or.inl ⟨s.now, by rw [h]⟩⟩
      · exact Or.inr ⟨entry, hget, Or.inr ⟨p, hopen, Or.inl ⟨s.now, by rw [h]⟩⟩⟩
    · exact Or.inl rfl

theorem guarded_begins (hk : Kept expand session s) (l id : Nat) (data : Bytes) :
    Guarded expand encrypt session s (.begins l id data) := by
  refine guarded_of_cell hk id data (fun id' data' => ?_) ?_
  · constructor
    · rintro ⟨l', h | h⟩
      · cases h
      · cases h
        exact ⟨rfl, rfl⟩
    · rintro ⟨rfl, rfl⟩
      exact ⟨l, Or.inr rfl⟩
  · simp only [step]
    split
    · rw [circuits_begin]
      rcases openStream_cases s.log s.circuits id data with
        ⟨-, h⟩ | ⟨entry, hget, ⟨-, e, h⟩ | ⟨p, hopen, ⟨e, h⟩ | ⟨r, h⟩⟩⟩
      · exact Or.inl (by rw [h])
      · exact Or.inr ⟨entry, hget, Or.inl ⟨entry.lastUsed, by rw [h]⟩⟩
      · exact Or.inr ⟨entry, hget, Or.inr ⟨p, hopen, Or.inl ⟨entry.lastUsed, by rw [h]⟩⟩⟩
      · exact Or.inr ⟨entry, hget, Or.inr ⟨p, hopen, Or.inr (by rw [h])⟩⟩
    · exact Or.inl rfl

theorem get?_reaped {id : Nat} {entry : CircuitEntry} (now : Nat) (h : circuits.get? id = some entry) :
    (reaped now circuits).get? id = some entry ∨ CIRCUIT_TTL ≤ now - entry.lastUsed := by
  by_cases hused : now - entry.lastUsed < CIRCUIT_TTL
  · left
    rw [reaped, Map.get?_retain, h]
    simp [hused]
  · exact Or.inr (Nat.le_of_not_lt hused)

theorem guarded_creates (l id : Nat) : Guarded expand encrypt session s (.creates l id) := by
  have hstep : (s.step expand encrypt session (.creates l id)).circuits = s.circuits ∨
      (s.step expand encrypt session (.creates l id)).circuits = reaped s.now s.circuits ∨
      ∃ entry, (reaped s.now s.circuits).get? id = none ∧
        (s.step expand encrypt session (.creates l id)).circuits = (reaped s.now s.circuits).set id entry := by
    simp only [step]
    split
    · unfold create
      split
      · rename_i key _ _
        rcases createCircuit_cases s.now s.circuits id (.new expand key) with ⟨e, h⟩ | ⟨h, -, hnone⟩
        · rw [h]
          exact Or.inr (Or.inl rfl)
        · rw [h]
          exact Or.inr (Or.inr ⟨_, hnone, rfl⟩)
      · exact Or.inl rfl
    · exact Or.inl rfl
  refine ⟨fun id' entry hget => ?_, ?_⟩
  · rcases hstep with h | h | ⟨new, hnone, h⟩
    · exact Or.inl ⟨entry, by rw [h, hget], ⟨rfl, rfl⟩, Or.inl rfl⟩
    · rcases get?_reaped s.now hget with hkept | hold
      · exact Or.inl ⟨entry, by rw [h, hkept], ⟨rfl, rfl⟩, Or.inl rfl⟩
      · exact Or.inr (Or.inr ⟨hold, l, id, rfl⟩)
    · rcases get?_reaped s.now hget with hkept | hold
      · have hid : id' ≠ id := by
          rintro rfl
          simp [hnone] at hkept
        exact Or.inl ⟨entry, by rw [h, Map.get?_set_other _ _ hid, hkept], ⟨rfl, rfl⟩, Or.inl rfl⟩
      · exact Or.inr (Or.inr ⟨hold, l, id, rfl⟩)
  · rintro id' data ⟨l', h | h⟩
    · cases h
    · cases h

theorem guarded_replies (l : Nat) (reply : Except String Bytes) :
    Guarded expand encrypt session s (.replies l reply) := by
  have hstep : (s.step expand encrypt session (.replies l reply)).circuits = s.circuits ∨
      ∃ id entry entry', s.circuits.get? id = some entry ∧ SameKeys entry'.layer entry.layer ∧
        entry'.layer.forward = entry.layer.forward ∧
        (s.step expand encrypt session (.replies l reply)).circuits = s.circuits.set id entry' := by
    simp only [step]
    split
    · rename_i id reply _
      rw [circuits_answer]
      rcases sealReply_cases encrypt s.now s.circuits id reply with
        ⟨-, h⟩ | ⟨entry, hget, ⟨e, h⟩ | ⟨cell, layer, h, -, hforward, hbackward⟩⟩
      · exact Or.inl (by rw [h])
      · exact Or.inr ⟨id, entry, { entry with lastUsed := s.now }, hget, ⟨rfl, rfl⟩, rfl, by rw [h]⟩
      · exact Or.inr ⟨id, entry, ⟨layer, s.now⟩, hget, ⟨by rw [hforward], hbackward⟩, hforward, by rw [h]⟩
    · exact Or.inl rfl
    · exact Or.inl rfl
  rcases hstep with h | ⟨id, entry, entry', hget, hsame, hforward, h⟩
  · exact guarded_of_same h
  · refine ⟨fun id' entry₀ hget' => Or.inl ?_, ?_⟩
    · by_cases hid : id' = id
      · subst hid
        obtain rfl : entry = entry₀ := Option.some.inj (hget.symm.trans hget')
        exact ⟨entry', by rw [h, Map.get?_set_self], hsame, Or.inl hforward⟩
      · exact ⟨entry₀, by rw [h, Map.get?_set_other _ _ hid, hget'], ⟨rfl, rfl⟩, Or.inl rfl⟩
    · rintro id' data ⟨l', h | h⟩
      · cases h
      · cases h

theorem guarded_step (hk : Kept expand session s) (e : Event) : Guarded expand encrypt session s e := by
  cases e with
  | creates l id => exact guarded_creates l id
  | relays l id data => exact guarded_relays hk l id data
  | begins l id data => exact guarded_begins hk l id data
  | replies l reply => exact guarded_replies l reply
  | connects l kind =>
    refine guarded_of_same ?_
    simp only [step]
    split
    · rfl
    · rfl
  | closes l =>
    refine guarded_of_same ?_
    simp only [step]
    split
    · rfl
    · rfl
  | passes time => exact guarded_of_same rfl
  | seals l label nonce plaintext =>
    refine guarded_of_same ?_
    simp only [step]
    split
    · rfl
    · rfl

/-- Whatever comes over the links, the relay holds no more circuits than it may, each under the keys of one session and
no session's under two, and nobody but its client moves or ends one. -/
theorem guarded_run (expand : Bytes → Bytes → Bytes) (encrypt : Bytes → Bytes → Bytes → Bytes)
    (session : Nat → Bytes) (hkeys : DistinctKeys expand session) (es : List Event) :
    let s := run (step expand encrypt session) start es
    Sound expand session s ∧ ∀ e, Guarded expand encrypt session s e := by
  intro s
  have hk : Kept expand session s :=
    run_always (P := Kept expand session) (fun _ e hk => kept_step hkeys hk e) kept_start es
  exact ⟨hk.toSound, guarded_step hk⟩

theorem guarded_oneClient :
    let expand : Bytes → Bytes → Bytes := fun key label => label ++ key
    let encrypt : Bytes → Bytes → Bytes → Bytes := fun _ nonce plaintext => nonce ++ plaintext
    let session : Nat → Bytes := fun l => List.replicate l 1
    let s := run (step expand encrypt session) start
      [.connects 0 .client, .creates 0 7, .seals 0 FORWARD_LABEL (nonceOf 0) [0, 0, 0, 1, 0],
        .relays 0 7 (nonceOf 0 ++ [0, 0, 0, 1, 0])]
    Sound expand session s ∧ ∀ e, Guarded expand encrypt session s e :=
  guarded_run _ _ _ (distinctKeys_append fun _ _ h => by simpa using congrArg List.length h) _

end State

end HidraNet.Relay.Circuits
