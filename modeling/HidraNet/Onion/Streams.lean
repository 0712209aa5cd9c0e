import HidraNet.Lib.Pieces
import HidraNet.Onion.Layer

/-!
# Stream data

A circuit that streams carries data both ways, in cells that are all as long: what is sent goes out in pieces that each
fit one.  With a hidden service every piece is sealed besides, and the relay in the middle sends on what it cannot read.

The cipher is a parameter; what it has sealed it opens, and a message grows by the tag (`Cipher.Lossless`).  A circuit
is seen from its two ends: the client, and its relays as one, each with its layer, of which the last makes and reads
the commands.  Where the two ends agree in their keys and counts, data arrives whole (`arrives_whole`).
-/

open HidraNet.Core (Bytes)
open HidraNet.Onion (CELL_BODY LEN_PREFIX MAX_COMMAND U64_MAX nonceOf padCell unpadCell unpad_pad)
open HidraNet.Pieces HidraNet.Wire

namespace HidraNet.Streams

def MAX_DATA : Nat := MAX_COMMAND - 12
def SEAL_OVERHEAD : Nat := 16

/-! ### The cipher -/

/-- An authenticated cipher, of a key and a nonce. -/
structure Cipher where
  encrypt : Bytes → Bytes → Bytes → Option Bytes
  decrypt : Bytes → Bytes → Bytes → Option Bytes

structure Cipher.Lossless (c : Cipher) : Prop where
  opens : ∀ {key nonce p s}, c.encrypt key nonce p = some s → c.decrypt key nonce s = some p
  grows : ∀ {key nonce p s}, c.encrypt key nonce p = some s → s.length = p.length + SEAL_OVERHEAD
  seals : ∀ {key nonce p}, p.length < 2 ^ 32 → ∃ s, c.encrypt key nonce p = some s

/-- A key, and the count that is the next nonce. -/
structure Direction where
  key : Bytes
  next : UInt64
deriving DecidableEq

namespace Direction

variable (c : Cipher)

def nonce (d : Direction) : Bytes := nonceOf d.next.toNat

def moved (d : Direction) : Direction := { d with next := d.next + 1 }

/-- `Direction::seal` of a layer. -/
def sealCell (d : Direction) (plaintext : Bytes) : Except String Bytes × Direction :=
  if d.next.toNat = U64_MAX then (.error "circuit layer exhausted its cell count", d)
  else
    match c.encrypt d.key d.nonce plaintext with
    | none => (.error "layer encryption failed", d)
    | some out => (.ok out, d.moved)

/-- `Direction::open` of a layer: the count moves once the cell has opened. -/
def openCell (d : Direction) (ciphertext : Bytes) : Except String Bytes × Direction :=
  match c.decrypt d.key d.nonce ciphertext with
  | none => (.error "layer cell did not open: not the next cell of this circuit", d)
  | some out => (.ok out, d.moved)

end Direction

def authErr (msg : String) : String := "hidden service authentication: " ++ msg

structure SealedChannel where
  send : Direction
  recv : Direction
deriving DecidableEq

namespace SealedChannel

variable (c : Cipher)

/-- `SealedChannel::seal`: the count moves whatever comes of it. -/
def sealNext (ch : SealedChannel) (plaintext : Bytes) : Except String Bytes × SealedChannel :=
  if ch.send.next.toNat = U64_MAX then (.error (authErr "session exhausted"), ch)
  else
    (match c.encrypt ch.send.key ch.send.nonce plaintext with
      | none => .error (authErr "could not seal")
      | some out => .ok out,
      { ch with send := ch.send.moved })

/-- `SealedChannel::open`. -/
def openNext (ch : SealedChannel) (ciphertext : Bytes) : Except String Bytes × SealedChannel :=
  if ch.recv.next.toNat = U64_MAX then (.error (authErr "session exhausted"), ch)
  else
    (match c.decrypt ch.recv.key ch.recv.nonce ciphertext with
      | none => .error (authErr "a message failed to open: altered, replayed or out of order")
      | some out => .ok out,
      { ch with recv := ch.recv.moved })

end SealedChannel

/-! ### Commands -/

/-- The commands of a stream; what the others hold is not read here. -/
inductive RelayCommand where
  | data (payload : Bytes)
  | finish
  | other (bytes : Bytes)
deriving DecidableEq

namespace RelayCommand

def serializeBincode : RelayCommand → Bytes
  | data payload => leBytes 4 2 ++ (leBytes 8 payload.length ++ payload)
  | finish => leBytes 4 3
  | other bytes => bytes

def deserializeBincode (bytes : Bytes) : Except String RelayCommand :=
  let rest := bytes.drop 4
  if bytes.length < 4 then .error "relay command deserialize failed"
  else if ofLe (bytes.take 4) = 2 then
    let len := ofLe (rest.take 8)
    if rest.length < 8 + len then .error "relay command deserialize failed"
    else .ok (data ((rest.drop 8).take len))
  else if ofLe (bytes.take 4) = 3 then .ok finish
  else .ok (other bytes)

theorem length_serialize_data (payload : Bytes) : (data payload).serializeBincode.length = payload.length + 12 := by
  simp only [serializeBincode, List.length_append, length_leBytes]
  omega

theorem deserialize_serialize_data {payload : Bytes} (h : payload.length < 256 ^ 8) :
    deserializeBincode (data payload).serializeBincode = .ok (data payload) := by
  have htag : ((data payload).serializeBincode).take 4 = leBytes 4 2 := List.take_left' (length_leBytes ..)
  have hrest : ((data payload).serializeBincode).drop 4 = leBytes 8 payload.length ++ payload :=
    List.drop_left' (length_leBytes ..)
  have htwo : ofLe (leBytes 4 2) = 2 := ofLe_leBytes (by omega)
  have hlen : (leBytes 8 payload.length ++ payload).take 8 = leBytes 8 payload.length :=
    List.take_left' (length_leBytes ..)
  have hpayload : (leBytes 8 payload.length ++ payload).drop 8 = payload := List.drop_left' (length_leBytes ..)
  have hlong : ¬ (data payload).serializeBincode.length < 4 := by
    rw [length_serialize_data]
    omega
  have hroom : ¬ (leBytes 8 payload.length ++ payload).length < 8 + payload.length := by
    rw [List.length_append, length_leBytes]
    omega
  unfold deserializeBincode
  simp only [htag, hrest, htwo, hlen, hpayload, ofLe_leBytes h]
  rw [if_neg hlong, if_pos trivial, if_neg hroom, List.take_length]

end RelayCommand

def FitsCell (command : Bytes) : Prop :=
  command.length ≤ MAX_COMMAND ∧
    ∃ body, padCell command = .ok body ∧ body.length = CELL_BODY ∧ unpadCell body = .ok command

theorem fitsCell {command : Bytes} (h : command.length ≤ MAX_COMMAND) : FitsCell command := by
  have hpad : padCell command = .ok (beBytes 2 command.length ++ command ++
      List.replicate (CELL_BODY - (beBytes 2 command.length ++ command).length) 0) := if_neg (by omega)
  refine ⟨h, _, hpad, ?_, unpad_pad hpad⟩
  simp only [List.length_append, List.length_replicate, length_beBytes]
  unfold MAX_COMMAND CELL_BODY LEN_PREFIX at h
  unfold CELL_BODY
  omega

theorem fitsCell_data {payload : Bytes} (h : payload.length ≤ MAX_DATA) :
    FitsCell (RelayCommand.data payload).serializeBincode := by
  refine fitsCell ?_
  rw [RelayCommand.length_serialize_data]
  unfold MAX_DATA at h
  have hroom : 12 ≤ MAX_COMMAND := by decide
  omega

/-! ### Layers -/

section Layers

variable (c : Cipher)

/-- A layer sealed for every hop, for the first one last. -/
def sealLayers : List Direction → Bytes → Except String Bytes × List Direction
  | [], plaintext => (.ok plaintext, [])
  | d :: rest, plaintext =>
    match sealLayers rest plaintext with
    | (.error e, rest) => (.error e, d :: rest)
    | (.ok inner, rest) =>
      let (result, d) := d.sealCell c inner
      (result, d :: rest)

/-- Every hop's layer opened, the first one's first. -/
def openLayers : List Direction → Bytes → Except String Bytes × List Direction
  | [], ciphertext => (.ok ciphertext, [])
  | d :: rest, ciphertext =>
    match d.openCell c ciphertext with
    | (.error e, d) => (.error e, d :: rest)
    | (.ok inner, d) =>
      let (result, rest) := openLayers rest inner
      (result, d :: rest)

def wrapAllStreamLayers (hops : List Direction) (data : Bytes) : Except String Bytes × List Direction :=
  match padCell data with
  | .error e => (.error e, hops)
  | .ok body => sealLayers c hops body

def peelAllStreamLayers (hops : List Direction) (data : Bytes) : Except String Bytes × List Direction :=
  let (result, hops) := openLayers c hops data
  (result.bind unpadCell, hops)

variable {c}

theorem sealCell_of_some {d : Direction} {p out : Bytes} (hd : d.next.toNat ≠ U64_MAX)
    (h : c.encrypt d.key d.nonce p = some out) : d.sealCell c p = (.ok out, d.moved) := by
  unfold Direction.sealCell
  rw [if_neg hd, h]

theorem undoes_cell (hc : c.Lossless) : Undoes (Direction.sealCell c) (Direction.openCell c) id Eq := by
  rintro d _ p out d' rfl h
  unfold Direction.sealCell at h
  split at h
  · cases h
  · split at h
    · cases h
    · rename_i _ hout
      cases h
      refine ⟨d.moved, ?_, rfl⟩
      unfold Direction.openCell
      rw [hc.opens hout]
      rfl

theorem undoes_layers (hc : c.Lossless) : Undoes (sealLayers c) (openLayers c) id Eq := by
  rintro hops _ p out hops' rfl h
  induction hops generalizing out hops' with
  | nil =>
    cases h
    exact ⟨[], rfl, rfl⟩
  | cons d rest ih =>
    rw [sealLayers] at h
    rcases hrest : sealLayers c rest p with ⟨result, rest'⟩
    rw [hrest] at h
    cases result with
    | error e => cases h
    | ok inner =>
      rcases hd : d.sealCell c inner with ⟨result', d'⟩
      simp only [hd] at h
      cases h
      obtain ⟨_, hcell, rfl⟩ := undoes_cell hc d d inner out d' rfl hd
      obtain ⟨_, hlayers, rfl⟩ := ih _ _ hrest
      refine ⟨d' :: rest', ?_, rfl⟩
      rw [openLayers, hcell]
      simp only [id_eq, hlayers]

theorem undoes_wrap (hc : c.Lossless) : Undoes (wrapAllStreamLayers c) (peelAllStreamLayers c) id Eq := by
  rintro hops _ data out hops' rfl h
  unfold wrapAllStreamLayers at h
  split at h
  · cases h
  · rename_i body hbody
    obtain ⟨_, hopen, rfl⟩ := undoes_layers hc hops hops body out hops' rfl h
    refine ⟨hops', ?_, rfl⟩
    unfold peelAllStreamLayers
    rw [hopen]
    exact congrArg (·, hops') (unpad_pad hbody)

def Room (hops : List Direction) (n : Nat) : Prop := ∀ d ∈ hops, d.next.toNat + n ≤ U64_MAX

def Few (hops : List Direction) : Prop := CELL_BODY + SEAL_OVERHEAD * hops.length < 2 ^ 32

theorem toNat_moved {d : Direction} (h : d.next.toNat ≠ U64_MAX) : d.moved.next.toNat = d.next.toNat + 1 := by
  have hlt := d.next.toNat_lt
  unfold U64_MAX at h
  unfold Direction.moved
  rw [UInt64.toNat_add, UInt64.toNat_one]
  omega

theorem room_moved {hops : List Direction} {n : Nat} (h : Room hops (n + 1)) : Room (hops.map Direction.moved) n := by
  intro d hd
  obtain ⟨d', hd', rfl⟩ := List.mem_map.1 hd
  have hroom := h d' hd'
  rw [toNat_moved (by omega)]
  omega

theorem sealLayers_ok (hc : c.Lossless) {hops : List Direction} {p : Bytes} (hroom : ∀ d ∈ hops, d.next.toNat ≠ U64_MAX)
    (hfew : p.length + SEAL_OVERHEAD * hops.length < 2 ^ 32) :
    ∃ out, sealLayers c hops p = (.ok out, hops.map Direction.moved) ∧
      out.length = p.length + SEAL_OVERHEAD * hops.length := by
  induction hops with
  | nil => exact ⟨p, rfl, by simp⟩
  | cons d rest ih =>
    rw [List.length_cons, Nat.mul_succ] at hfew
    obtain ⟨inner, hinner, hlen⟩ := ih (fun d' hd' => hroom d' (List.mem_cons_of_mem _ hd')) (by omega)
    have hseals : ∃ out, c.encrypt d.key d.nonce inner = some out := hc.seals (by omega)
    obtain ⟨out, hout⟩ := hseals
    refine ⟨out, ?_, ?_⟩
    · rw [sealLayers, hinner]
      simp only [sealCell_of_some (hroom d List.mem_cons_self) hout, List.map_cons]
    · rw [hc.grows hout, hlen, List.length_cons, Nat.mul_succ]
      omega

theorem wrap_ok (hc : c.Lossless) {hops : List Direction} {command : Bytes} {n : Nat} (hfits : FitsCell command)
    (hroom : Room hops (n + 1)) (hfew : Few hops) :
    ∃ cell, wrapAllStreamLayers c hops command = (.ok cell, hops.map Direction.moved) ∧
      Room (hops.map Direction.moved) n ∧ Few (hops.map Direction.moved) := by
  obtain ⟨-, body, hpad, hbody, -⟩ := hfits
  have hne : ∀ d ∈ hops, d.next.toNat ≠ U64_MAX := by
    intro d hd
    have := hroom d hd
    omega
  obtain ⟨cell, hcell, -⟩ := sealLayers_ok hc (p := body) hne (by rw [hbody]; exact hfew)
  refine ⟨cell, ?_, room_moved hroom, ?_⟩
  · unfold wrapAllStreamLayers
    rw [hpad]
    exact hcell
  · unfold Few
    rw [List.length_map]
    exact hfew

end Layers

/-! ### The ends of a circuit -/

/-- A client's end: what it seals for the hops, what it opens of theirs, and the session with a hidden service. -/
structure StreamingCircuit where
  out : List Direction
  ins : List Direction
  sealed : Option SealedChannel
deriving DecidableEq

/-- The other end: the relays of the circuit, each with its layer, as one. -/
structure Relays where
  out : List Direction
  ins : List Direction
deriving DecidableEq

section Ends

variable (c : Cipher)

namespace StreamingCircuit

def sendRaw (self : StreamingCircuit) (data : Bytes) : Except String Bytes × StreamingCircuit :=
  let (cell, out) := wrapAllStreamLayers c self.out (RelayCommand.data data).serializeBincode
  (cell, { self with out })

def streamed : RelayCommand → Except String (Option Bytes)
  | .data payload => .ok (some payload)
  | .finish => .ok none
  | .other _ => .error "unexpected stream command"

def recvRaw (self : StreamingCircuit) (cell : Bytes) : Except String (Option Bytes) × StreamingCircuit :=
  let (decrypted, ins) := peelAllStreamLayers c self.ins cell
  ((decrypted.bind RelayCommand.deserializeBincode).bind streamed, { self with ins })

/-- A piece sealed for the session, and sent. -/
def sealAndSend : SealedChannel × StreamingCircuit → Bytes → Except String Bytes × (SealedChannel × StreamingCircuit)
  | (ch, self), piece =>
    match ch.sealNext c piece with
    | (.error e, ch) => (.error e, ch, self)
    | (.ok s, ch) =>
      let (cell, self) := self.sendRaw c s
      (cell, ch, self)

/-- `send_data`: the cells that go out, and what comes of it. -/
def sendData (self : StreamingCircuit) (data : Bytes) : (List Bytes × Except String Unit) × StreamingCircuit :=
  match self.sealed with
  | some ch =>
    let (sent, ch, self) := runAll (sealAndSend c) (ch, self) (chunks (MAX_DATA - SEAL_OVERHEAD) data)
    (sent, { self with sealed := some ch })
  | none => runAll (sendRaw c) self (chunks MAX_DATA data)

def recvData (self : StreamingCircuit) (cell : Bytes) : Except String (Option Bytes) × StreamingCircuit :=
  match self.recvRaw c cell with
  | (.ok (some payload), self) =>
    match self.sealed with
    | some ch =>
      let (opened, ch) := ch.openNext c payload
      (opened.map some, { self with sealed := some ch })
    | none => (.ok (some payload), self)
  | (.ok none, self) => (.ok none, self)
  | (.error e, self) => (.error e, self)

/-- `serve_hidden_sessions`, of what the local server sends: `ch` is the session with the client. -/
def servePieces (self : StreamingCircuit) (ch : SealedChannel) (buf : Bytes) :
    (List Bytes × Except String Unit) × (SealedChannel × StreamingCircuit) :=
  runAll (sealAndSend c) (ch, self) (chunks (MAX_DATA - SEAL_OVERHEAD) buf)

def heard : Option Bytes → Turn Bytes
  | some payload => .item payload
  | none => .stop

/-- What `recv_data` returns, cell after cell. -/
def recvAll (self : StreamingCircuit) (cells : List Bytes) : (List Bytes × Except String Unit) × StreamingCircuit :=
  readAll (recvData c) heard self cells

end StreamingCircuit

namespace Relays

def openCommand (r : Relays) (cell : Bytes) : Except String RelayCommand × Relays :=
  let (decrypted, ins) := peelAllStreamLayers c r.ins cell
  (decrypted.bind RelayCommand.deserializeBincode, { r with ins })

def reply (r : Relays) (cmd : RelayCommand) : Except String Bytes × Relays :=
  let (cell, out) := wrapAllStreamLayers c r.out cmd.serializeBincode
  (cell, { r with out })

def replyData (r : Relays) (data : Bytes) : (List Bytes × Except String Unit) × Relays :=
  runAll (fun r piece => r.reply c (.data piece)) r (chunks MAX_DATA data)

def written : RelayCommand → Turn Bytes
  | .data payload => .item payload
  | .finish => .stop
  | .other _ => .skip

/-- `exit_streaming_loop`, of what the client sends. -/
def exitWrites (r : Relays) (cells : List Bytes) : (List Bytes × Except String Unit) × Relays :=
  readAll (openCommand c) written r cells

/-- `bridge`: what comes over one circuit goes back over the other. -/
def bridge (near far : Relays) : List Bytes → (List Bytes × Except String Unit) × (Relays × Relays)
  | [] => (([], .ok ()), near, far)
  | cell :: cells =>
    match near.openCommand c cell with
    | (.error e, near) => (([], .error e), near, far)
    | (.ok (.data payload), near) =>
      match far.replyData c payload with
      | ((sent, .error e), far) => ((sent, .error e), near, far)
      | ((sent, .ok ()), far) =>
        let ((more, outcome), ends) := bridge near far cells
        ((sent ++ more, outcome), ends)
    | (.ok .finish, near) => (([], .ok ()), near, far)
    | (.ok (.other _), near) => bridge near far cells

end Relays

end Ends

/-! ### What comes out at the other end -/

section Delivery

variable {c : Cipher}

theorem peel_wrap_data (hc : c.Lossless) {hops hops' : List Direction} {payload cell : Bytes}
    (h : wrapAllStreamLayers c hops (RelayCommand.data payload).serializeBincode = (.ok cell, hops')) :
    ∃ plain, peelAllStreamLayers c hops cell = (.ok plain, hops') ∧
      RelayCommand.deserializeBincode plain = .ok (.data payload) := by
  obtain ⟨_, hpeel, rfl⟩ := undoes_wrap hc hops hops _ cell hops' rfl h
  refine ⟨_, hpeel, RelayCommand.deserialize_serialize_data ?_⟩
  unfold wrapAllStreamLayers at h
  split at h
  · cases h
  · rename_i body hbody
    unfold padCell at hbody
    split at hbody
    · cases hbody
    · rename_i hle
      rw [RelayCommand.length_serialize_data] at hle
      unfold MAX_COMMAND CELL_BODY LEN_PREFIX at hle
      omega

theorem sendRaw_eq_ok {s s' : StreamingCircuit} {payload cell : Bytes} (h : s.sendRaw c payload = (.ok cell, s')) :
    wrapAllStreamLayers c s.out (RelayCommand.data payload).serializeBincode = (.ok cell, s'.out) ∧
      s' = { s with out := s'.out } := by
  unfold StreamingCircuit.sendRaw at h
  rcases hw : wrapAllStreamLayers c s.out (RelayCommand.data payload).serializeBincode with ⟨result, out⟩
  simp only [hw, Prod.mk.injEq] at h
  obtain ⟨rfl, rfl⟩ := h
  exact ⟨rfl, rfl⟩

theorem reply_eq_ok {r r' : Relays} {payload cell : Bytes} (h : r.reply c (.data payload) = (.ok cell, r')) :
    wrapAllStreamLayers c r.out (RelayCommand.data payload).serializeBincode = (.ok cell, r'.out) ∧
      r' = { r with out := r'.out } := by
  unfold Relays.reply at h
  rcases hw : wrapAllStreamLayers c r.out (RelayCommand.data payload).serializeBincode with ⟨result, out⟩
  simp only [hw, Prod.mk.injEq] at h
  obtain ⟨rfl, rfl⟩ := h
  exact ⟨rfl, rfl⟩

theorem undoes_sendRaw (hc : c.Lossless) :
    Undoes (StreamingCircuit.sendRaw c) (Relays.openCommand c) RelayCommand.data (fun s r => s.out = r.ins) := by
  intro s r payload cell s' hsync h
  obtain ⟨hwrap, hs'⟩ := sendRaw_eq_ok h
  rw [hsync] at hwrap
  obtain ⟨plain, hpeel, hread⟩ := peel_wrap_data hc hwrap
  refine ⟨{ r with ins := s'.out }, ?_, rfl⟩
  unfold Relays.openCommand
  rw [hpeel]
  exact congrArg (·, _) hread

theorem recvRaw_reply (hc : c.Lossless) {r r' : Relays} {s : StreamingCircuit} {payload cell : Bytes}
    (hsync : r.out = s.ins) (h : r.reply c (.data payload) = (.ok cell, r')) :
    s.recvRaw c cell = (.ok (some payload), { s with ins := r'.out }) := by
  obtain ⟨hwrap, -⟩ := reply_eq_ok h
  rw [hsync] at hwrap
  obtain ⟨plain, hpeel, hread⟩ := peel_wrap_data hc hwrap
  unfold StreamingCircuit.recvRaw
  rw [hpeel]
  have hstreamed : (RelayCommand.deserializeBincode plain).bind StreamingCircuit.streamed = .ok (some payload) := by
    rw [hread]
    rfl
  exact congrArg (·, _) hstreamed

theorem undoes_reply (hc : c.Lossless) :
    Undoes (fun (r : Relays) payload => r.reply c (.data payload)) (StreamingCircuit.recvData c) some
      (fun r s => r.out = s.ins ∧ s.sealed = none) := by
  rintro r s payload cell r' ⟨hsync, hsealed⟩ h
  refine ⟨{ s with ins := r'.out }, ?_, rfl, hsealed⟩
  unfold StreamingCircuit.recvData
  rw [recvRaw_reply hc hsync h]
  simp only [hsealed]

theorem openNext_sealNext (hc : c.Lossless) {ch ch₁ ch' : SealedChannel} {piece s : Bytes} (hsync : ch.send = ch'.recv)
    (h : ch.sealNext c piece = (.ok s, ch₁)) :
    ∃ ch₂, ch'.openNext c s = (.ok piece, ch₂) ∧ ch₁.send = ch₂.recv ∧ s.length = piece.length + SEAL_OVERHEAD := by
  unfold SealedChannel.sealNext at h
  split at h
  · cases h
  · rename_i hnext
    simp only [Prod.mk.injEq] at h
    obtain ⟨hout, rfl⟩ := h
    split at hout
    · cases hout
    · rename_i _ out henc
      cases hout
      refine ⟨{ ch' with recv := ch.send.moved }, ?_, rfl, hc.grows henc⟩
      unfold SealedChannel.openNext
      rw [← hsync, if_neg hnext, hc.opens henc]

theorem sealAndSend_eq_ok {ch ch₁ : SealedChannel} {s s₁ : StreamingCircuit} {piece cell : Bytes}
    (h : StreamingCircuit.sealAndSend c (ch, s) piece = (.ok cell, ch₁, s₁)) :
    ∃ payload, ch.sealNext c piece = (.ok payload, ch₁) ∧ s.sendRaw c payload = (.ok cell, s₁) := by
  rcases hseal : ch.sealNext c piece with ⟨result, ch'⟩
  simp only [StreamingCircuit.sealAndSend, hseal] at h
  cases result with
  | error e => cases h
  | ok payload =>
    rcases hsend : s.sendRaw c payload with ⟨result', s'⟩
    simp only [hsend, Prod.mk.injEq] at h
    obtain ⟨rfl, rfl, rfl⟩ := h
    exact ⟨payload, rfl, hsend⟩

theorem replyData_one (far : Relays) {payload : Bytes} (hne : payload ≠ []) (hle : payload.length ≤ MAX_DATA) :
    far.replyData c payload =
      match far.reply c (.data payload) with
      | (.error e, far) => (([], .error e), far)
      | (.ok cell, far) => (([cell], .ok ()), far) := by
  unfold Relays.replyData
  rw [chunks_eq_singleton hne hle, runAll]
  rcases far.reply c (.data payload) with ⟨result, far'⟩
  cases result with
  | error e => rfl
  | ok cell => rfl

theorem bridge_cons (hc : c.Lossless) {s s₁ : StreamingCircuit} {near : Relays} {payload cell : Bytes} (far : Relays)
    (cells : List Bytes) (hsync : s.out = near.ins) (hne : payload ≠ []) (hle : payload.length ≤ MAX_DATA)
    (hsend : s.sendRaw c payload = (.ok cell, s₁)) :
    ∃ near₁, s₁.out = near₁.ins ∧ Relays.bridge c near far (cell :: cells) =
      match far.reply c (.data payload) with
      | (.error e, far) => (([], .error e), near₁, far)
      | (.ok cell', far) =>
        ((cell' :: (Relays.bridge c near₁ far cells).1.1, (Relays.bridge c near₁ far cells).1.2),
          (Relays.bridge c near₁ far cells).2) := by
  obtain ⟨near₁, hopen, hsync₁⟩ := undoes_sendRaw hc s near payload cell s₁ hsync hsend
  refine ⟨near₁, hsync₁, ?_⟩
  rw [Relays.bridge, hopen]
  simp only [replyData_one far hne hle]
  rcases far.reply c (.data payload) with ⟨result, far'⟩
  cases result with
  | error e => rfl
  | ok cell' => rfl

theorem sendRaw_ok (hc : c.Lossless) {s : StreamingCircuit} {payload : Bytes} {n : Nat}
    (hle : payload.length ≤ MAX_DATA) (hroom : Room s.out (n + 1)) (hfew : Few s.out) :
    ∃ cell s', s.sendRaw c payload = (.ok cell, s') ∧ Room s'.out n ∧ Few s'.out := by
  obtain ⟨cell, hwrap, hroom', hfew'⟩ := wrap_ok hc (fitsCell_data hle) hroom hfew
  refine ⟨cell, { s with out := s.out.map Direction.moved }, ?_, hroom', hfew'⟩
  unfold StreamingCircuit.sendRaw
  rw [hwrap]

theorem reply_ok (hc : c.Lossless) {r : Relays} {payload : Bytes} {n : Nat} (hle : payload.length ≤ MAX_DATA)
    (hroom : Room r.out (n + 1)) (hfew : Few r.out) :
    ∃ cell r', r.reply c (.data payload) = (.ok cell, r') ∧ Room r'.out n ∧ Few r'.out := by
  obtain ⟨cell, hwrap, hroom', hfew'⟩ := wrap_ok hc (fitsCell_data hle) hroom hfew
  refine ⟨cell, { r with out := r.out.map Direction.moved }, ?_, hroom', hfew'⟩
  unfold Relays.reply
  rw [hwrap]

theorem sealNext_ok (hc : c.Lossless) {ch : SealedChannel} {piece : Bytes} {n : Nat}
    (hle : piece.length ≤ MAX_DATA - SEAL_OVERHEAD) (hroom : ch.send.next.toNat + (n + 1) ≤ U64_MAX) :
    ∃ payload ch', ch.sealNext c piece = (.ok payload, ch') ∧ payload.length ≤ MAX_DATA ∧
      ch'.send.next.toNat + n ≤ U64_MAX := by
  have hsmall : MAX_DATA < 2 ^ 32 := by decide
  have htag : SEAL_OVERHEAD ≤ MAX_DATA := by decide
  have hseals : ∃ out, c.encrypt ch.send.key ch.send.nonce piece = some out := hc.seals (by omega)
  obtain ⟨out, hout⟩ := hseals
  have hlen := hc.grows hout
  have hne : ch.send.next.toNat ≠ U64_MAX := by omega
  have hmoved := toNat_moved hne
  refine ⟨out, { ch with send := ch.send.moved }, ?_, by omega, ?_⟩
  · unfold SealedChannel.sealNext
    rw [if_neg hne, hout]
  · show ch.send.moved.next.toNat + n ≤ U64_MAX
    omega

theorem recvData_reply (hc : c.Lossless) {far far₁ : Relays} {receiver : StreamingCircuit}
    {ch ch₁ ch' : SealedChannel} {piece payload cell : Bytes} (hout : far.out = receiver.ins)
    (hsealed : receiver.sealed = some ch') (hsync : ch.send = ch'.recv)
    (hseal : ch.sealNext c piece = (.ok payload, ch₁))
    (hreply : far.reply c (.data payload) = (.ok cell, far₁)) :
    ∃ receiver₁ ch₂, receiver.recvData c cell = (.ok (some piece), receiver₁) ∧ far₁.out = receiver₁.ins ∧
      receiver₁.sealed = some ch₂ ∧ ch₁.send = ch₂.recv := by
  obtain ⟨ch₂, hopen, hsync₂, -⟩ := openNext_sealNext hc hsync hseal
  refine ⟨{ receiver with ins := far₁.out, sealed := some ch₂ }, ch₂, ?_, rfl, rfl, hsync₂⟩
  unfold StreamingCircuit.recvData
  rw [recvRaw_reply hc hout hreply]
  simp only [hsealed, hopen]
  rfl

theorem bridged (hc : c.Lossless) {sender receiver : StreamingCircuit} {near far : Relays} {ch ch' : SealedChannel}
    {pieces cells : List Bytes} {outcome : Except String Unit} {ends : SealedChannel × StreamingCircuit}
    (hpieces : ∀ piece ∈ pieces, piece.length ≤ MAX_DATA - SEAL_OVERHEAD) (hin : sender.out = near.ins)
    (hout : far.out = receiver.ins) (hsealed : receiver.sealed = some ch') (hsync : ch.send = ch'.recv)
    (hrun : runAll (StreamingCircuit.sealAndSend c) (ch, sender) pieces = ((cells, outcome), ends)) :
    (receiver.recvAll c (Relays.bridge c near far cells).1.1).1 =
        (pieces.take (Relays.bridge c near far cells).1.1.length, .ok ()) ∧
      (outcome = .ok () → (Relays.bridge c near far cells).1.2 = .ok () →
        (Relays.bridge c near far cells).1.1.length = pieces.length) ∧
      (Room far.out pieces.length → Few far.out → (Relays.bridge c near far cells).1.2 = .ok ()) := by
  induction pieces generalizing sender receiver near far ch ch' cells with
  | nil =>
    cases hrun
    exact ⟨rfl, fun _ _ => rfl, fun _ _ => rfl⟩
  | cons piece pieces ih =>
    rcases hstep : StreamingCircuit.sealAndSend c (ch, sender) piece with ⟨result, ch₁, sender₁⟩
    cases result with
    | error e =>
      rw [runAll_cons_error hstep] at hrun
      cases hrun
      refine ⟨rfl, fun hfail => ?_, fun _ _ => rfl⟩
      cases hfail
    | ok cell =>
      rw [runAll_cons_ok hstep] at hrun
      rcases hrest : runAll (StreamingCircuit.sealAndSend c) (ch₁, sender₁) pieces with ⟨⟨cells₁, outcome₁⟩, ends₁⟩
      rw [hrest] at hrun
      cases hrun
      obtain ⟨payload, hseal, hsend⟩ := sealAndSend_eq_ok hstep
      obtain ⟨_, -, -, hlen⟩ := openNext_sealNext hc hsync hseal
      have hpiece := hpieces piece List.mem_cons_self
      have htag : SEAL_OVERHEAD ≤ MAX_DATA := by decide
      have hpos : 0 < SEAL_OVERHEAD := by decide
      have hne : payload ≠ [] := List.ne_nil_of_length_pos (by omega)
      have hle : payload.length ≤ MAX_DATA := by omega
      obtain ⟨near₁, hin₁, hbridge⟩ := bridge_cons hc far cells₁ hin hne hle hsend
      rcases hreply : far.reply c (.data payload) with ⟨result', far₁⟩
      simp only [hreply] at hbridge
      rw [hbridge]
      cases result' with
      | error e =>
        refine ⟨rfl, fun _ hfail => ?_, fun hroom hfew => ?_⟩
        · cases hfail
        · obtain ⟨cell', far', hok, -⟩ := reply_ok hc hle hroom hfew
          rw [hreply] at hok
          cases hok
      | ok cell' =>
        obtain ⟨receiver₁, ch₂, hrecv, hout₁, hsealed₁, hsync₁⟩ := recvData_reply hc hout hsealed hsync hseal hreply
        obtain ⟨hread, hwhole, hthrough⟩ :=
          ih (fun p hp => hpieces p (List.mem_cons_of_mem _ hp)) hin₁ hout₁ hsealed₁ hsync₁ hrest
        have hheard : StreamingCircuit.heard (some piece) = .item piece := rfl
        unfold StreamingCircuit.recvAll at hread ⊢
        simp only [readAll_cons_item hrecv hheard, hread]
        refine ⟨rfl, fun houtcome hbridged => ?_, fun hroom hfew => ?_⟩
        · rw [List.length_cons, List.length_cons, hwhole houtcome hbridged]
        · obtain ⟨cell'', far', hok, hroom', hfew'⟩ := reply_ok hc hle hroom hfew
          rw [hreply] at hok
          cases hok
          exact hthrough hroom' hfew'

/-- What is received of some data, which was all sent when `done`. -/
structure Arrives (data : Bytes) (done : Prop) (received : List Bytes × Except String Unit) : Prop where
  read : received.2 = .ok ()
  nonempty : [] ∉ received.1
  front : received.1.flatten <+: data
  whole : done → received.1.flatten = data

theorem arrives_take {data : Bytes} {done : Prop} {received : List Bytes × Except String Unit} {n k : Nat} (hn : 0 < n)
    (hreceived : received = ((chunks n data).take k, .ok ())) (hall : done → k = (chunks n data).length) :
    Arrives data done received := by
  subst hreceived
  refine ⟨rfl, fun hmem => ?_, ?_, fun hdone => ?_⟩
  · exact ne_nil_of_mem_chunks hn (List.mem_of_mem_take hmem) rfl
  · refine ⟨((chunks n data).drop k).flatten, ?_⟩
    rw [← List.flatten_append, List.take_append_drop, flatten_chunks hn]
  · show ((chunks n data).take k).flatten = data
    rw [hall hdone, List.take_length, flatten_chunks hn]

/-- The ends of a session through a bridge agree: what one seals the other opens, over both circuits. -/
structure Agree (ch : SealedChannel) (sender : StreamingCircuit) (near far : Relays) (receiver : StreamingCircuit) :
    Prop where
  circuitIn : sender.out = near.ins
  circuitOut : far.out = receiver.ins
  session : ∃ ch', receiver.sealed = some ch' ∧ ch.send = ch'.recv

/-- The sender has room in its counts for so many sealed pieces, and the relays that send them on. -/
structure Spare (n : Nat) (ch : SealedChannel) (sender : StreamingCircuit) (far : Relays) : Prop where
  session : ch.send.next.toNat + n ≤ U64_MAX
  circuitIn : Room sender.out n ∧ Few sender.out
  circuitOut : Room far.out n ∧ Few far.out

/-- Data arrives whole, whoever sends it, and what is sent of it fits the cells. -/
structure Whole (c : Cipher) (data : Bytes) : Prop where
  forward : ∀ (client : StreamingCircuit) (relays : Relays), client.sealed = none → client.out = relays.ins →
    let sent := (client.sendData c data).1
    Arrives data (sent.2 = .ok ()) (relays.exitWrites c sent.1).1 ∧
      (Room client.out (chunks MAX_DATA data).length → Few client.out → sent.2 = .ok ())
  backward : ∀ (relays : Relays) (client : StreamingCircuit), client.sealed = none → relays.out = client.ins →
    let sent := (relays.replyData c data).1
    Arrives data (sent.2 = .ok ()) (client.recvAll c sent.1).1 ∧
      (Room relays.out (chunks MAX_DATA data).length → Few relays.out → sent.2 = .ok ())
  /-- From a client to a hidden service, over the bridge of their circuits, as `recv_data` reads. -/
  hidden : ∀ (client : StreamingCircuit) (near far : Relays) (service : StreamingCircuit) (ch : SealedChannel),
    client.sealed = some ch → Agree ch client near far service →
    let sent := (client.sendData c data).1
    let carried := (Relays.bridge c near far sent.1).1
    Arrives data (sent.2 = .ok () ∧ carried.2 = .ok ()) (service.recvAll c carried.1).1 ∧
      (Spare (chunks (MAX_DATA - SEAL_OVERHEAD) data).length ch client far → sent.2 = .ok () ∧ carried.2 = .ok ())
  served : ∀ (service : StreamingCircuit) (near far : Relays) (client : StreamingCircuit) (ch : SealedChannel),
    Agree ch service near far client →
    let sent := (service.servePieces c ch data).1
    let carried := (Relays.bridge c near far sent.1).1
    Arrives data (sent.2 = .ok () ∧ carried.2 = .ok ()) (client.recvAll c carried.1).1 ∧
      (Spare (chunks (MAX_DATA - SEAL_OVERHEAD) data).length ch service far → sent.2 = .ok () ∧ carried.2 = .ok ())
  fits : ∀ piece ∈ chunks MAX_DATA data, FitsCell (RelayCommand.data piece).serializeBincode
  fitsSealed : ∀ piece ∈ chunks (MAX_DATA - SEAL_OVERHEAD) data, ∀ (ch ch' : SealedChannel) (payload : Bytes),
    ch.sealNext c piece = (.ok payload, ch') → FitsCell (RelayCommand.data payload).serializeBincode
  nothing : data = [] → (∀ client : StreamingCircuit, (client.sendData c data).1 = ([], .ok ())) ∧
    (∀ relays : Relays, (relays.replyData c data).1 = ([], .ok ())) ∧
    ∀ (service : StreamingCircuit) (ch : SealedChannel), (service.servePieces c ch data).1 = ([], .ok ())

theorem pos_data : 0 < MAX_DATA := by decide

theorem pos_sealed : 0 < MAX_DATA - SEAL_OVERHEAD := by decide

theorem forward_arrives (hc : c.Lossless) {client : StreamingCircuit} {relays : Relays} (hsealed : client.sealed = none)
    (hsync : client.out = relays.ins) (data : Bytes) :
    Arrives data ((client.sendData c data).1.2 = .ok ()) (relays.exitWrites c (client.sendData c data).1.1).1 ∧
      (Room client.out (chunks MAX_DATA data).length → Few client.out → (client.sendData c data).1.2 = .ok ()) := by
  have hsend : client.sendData c data = runAll (StreamingCircuit.sendRaw c) client (chunks MAX_DATA data) := by
    unfold StreamingCircuit.sendData
    rw [hsealed]
  rw [hsend]
  refine ⟨?_, fun hroom hfew => ?_⟩
  · rcases hrun : runAll (StreamingCircuit.sendRaw c) client (chunks MAX_DATA data) with ⟨⟨cells, outcome⟩, client'⟩
    have hwritten : ∀ p, Relays.written (.data p) = .item p := fun _ => rfl
    obtain ⟨hread, hall⟩ := readAll_runAll (undoes_sendRaw hc) hwritten hsync hrun
    exact arrives_take pos_data hread hall
  · exact runAll_ok (fun n (s : StreamingCircuit) => Room s.out n ∧ Few s.out)
      (fun p => p.length ≤ MAX_DATA) (fun n s p hp hs => sendRaw_ok hc hp hs.1 hs.2)
      (fun p hp => length_le_of_mem_chunks pos_data hp) ⟨hroom, hfew⟩

theorem backward_arrives (hc : c.Lossless) {relays : Relays} {client : StreamingCircuit}
    (hsealed : client.sealed = none) (hsync : relays.out = client.ins) (data : Bytes) :
    Arrives data ((relays.replyData c data).1.2 = .ok ()) (client.recvAll c (relays.replyData c data).1.1).1 ∧
      (Room relays.out (chunks MAX_DATA data).length → Few relays.out → (relays.replyData c data).1.2 = .ok ()) := by
  unfold Relays.replyData
  refine ⟨?_, fun hroom hfew => ?_⟩
  · rcases hrun : runAll (fun (r : Relays) piece => r.reply c (.data piece)) relays (chunks MAX_DATA data) with
      ⟨⟨cells, outcome⟩, relays'⟩
    have hheard : ∀ p, StreamingCircuit.heard (some p) = .item p := fun _ => rfl
    obtain ⟨hread, hall⟩ := readAll_runAll (undoes_reply hc) hheard ⟨hsync, hsealed⟩ hrun
    exact arrives_take pos_data hread hall
  · exact runAll_ok (fun n (r : Relays) => Room r.out n ∧ Few r.out)
      (fun p => p.length ≤ MAX_DATA) (fun n r p hp hr => reply_ok hc hp hr.1 hr.2)
      (fun p hp => length_le_of_mem_chunks pos_data hp) ⟨hroom, hfew⟩

theorem sealed_arrives (hc : c.Lossless) {ch : SealedChannel} {sender receiver : StreamingCircuit} {near far : Relays}
    (hagree : Agree ch sender near far receiver) (data : Bytes) {sent : List Bytes × Except String Unit}
    (hsent : sent = (runAll (StreamingCircuit.sealAndSend c) (ch, sender)
      (chunks (MAX_DATA - SEAL_OVERHEAD) data)).1) :
    Arrives data (sent.2 = .ok () ∧ (Relays.bridge c near far sent.1).1.2 = .ok ())
        (receiver.recvAll c (Relays.bridge c near far sent.1).1.1).1 ∧
      (Spare (chunks (MAX_DATA - SEAL_OVERHEAD) data).length ch sender far →
        sent.2 = .ok () ∧ (Relays.bridge c near far sent.1).1.2 = .ok ()) := by
  obtain ⟨hin, hout, ch', hsealed, hsync⟩ := hagree
  have hpieces : ∀ p ∈ chunks (MAX_DATA - SEAL_OVERHEAD) data, p.length ≤ MAX_DATA - SEAL_OVERHEAD :=
    fun p hp => length_le_of_mem_chunks pos_sealed hp
  rcases hrun : runAll (StreamingCircuit.sealAndSend c) (ch, sender) (chunks (MAX_DATA - SEAL_OVERHEAD) data) with
    ⟨⟨cells, outcome⟩, ends⟩
  obtain ⟨hread, hall, hthrough⟩ := bridged hc hpieces hin hout hsealed hsync hrun
  rw [hrun] at hsent
  subst hsent
  refine ⟨arrives_take pos_sealed hread fun hdone => hall hdone.1 hdone.2, ?_⟩
  rintro ⟨hsession, ⟨hroom, hfew⟩, hroom', hfew'⟩
  refine ⟨?_, hthrough hroom' hfew'⟩
  have hok : (runAll (StreamingCircuit.sealAndSend c) (ch, sender)
      (chunks (MAX_DATA - SEAL_OVERHEAD) data)).1.2 = .ok () := by
    refine runAll_ok (fun n e => e.1.send.next.toNat + n ≤ U64_MAX ∧ Room e.2.out n ∧ Few e.2.out)
      (fun p => p.length ≤ MAX_DATA - SEAL_OVERHEAD) (fun n e p hp he => ?_) hpieces ⟨hsession, hroom, hfew⟩
    obtain ⟨payload, ch₁, hseal, hle, hleft⟩ := sealNext_ok hc hp he.1
    obtain ⟨cell, s₁, hsend, hready⟩ := sendRaw_ok hc hle he.2.1 he.2.2
    refine ⟨cell, (ch₁, s₁), ?_, hleft, hready⟩
    simp only [StreamingCircuit.sealAndSend, hseal, hsend]
  rw [hrun] at hok
  exact hok

/-- Bytes of any length, sent by a client, a relay or a service, arrive whole and in order; every piece of them fits a
cell. -/
theorem arrives_whole (hc : c.Lossless) (data : Bytes) : Whole c data where
  forward client relays hsealed hsync := forward_arrives hc hsealed hsync data
  backward relays client hsealed hsync := backward_arrives hc hsealed hsync data
  hidden client near far service ch hsealed hagree := by
    refine sealed_arrives hc hagree data ?_
    unfold StreamingCircuit.sendData
    rw [hsealed]
  served service near far client ch hagree := sealed_arrives hc hagree data rfl
  fits piece hpiece := fitsCell_data (length_le_of_mem_chunks pos_data hpiece)
  fitsSealed piece hpiece ch ch' payload hseal := by
    have hsync : ch.send = (SealedChannel.mk ch.recv ch.send).recv := rfl
    obtain ⟨_, -, -, hlen⟩ := openNext_sealNext hc hsync hseal
    have hle := length_le_of_mem_chunks pos_sealed hpiece
    have htag : SEAL_OVERHEAD ≤ MAX_DATA := by decide
    exact fitsCell_data (by omega)
  nothing hnil := by
    subst hnil
    refine ⟨fun client => ?_, fun relays => rfl, fun service ch => rfl⟩
    unfold StreamingCircuit.sendData
    cases client.sealed with
    | none => rfl
    | some ch => rfl

/-- A cipher that only adds its tag. -/
def tagged : Cipher where
  encrypt _ _ p := some (p ++ List.replicate SEAL_OVERHEAD 0)
  decrypt _ _ s :=
    if s.drop (s.length - SEAL_OVERHEAD) = List.replicate SEAL_OVERHEAD 0 then
      some (s.take (s.length - SEAL_OVERHEAD))
    else none

theorem lossless_tagged : tagged.Lossless where
  opens h := by
    cases h
    simp [tagged]
  grows h := by
    cases h
    simp
  seals _ := ⟨_, rfl⟩

theorem arrives_whole_tagged : Whole tagged (List.replicate 5000 7) := arrives_whole lossless_tagged _

end Delivery

end HidraNet.Streams
