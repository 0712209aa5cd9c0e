import HidraNet.Lib.Lists
import HidraNet.Lib.Runs
import HidraNet.Onion.Circuit

/-!
# Circuits as pipes

Any number of circuits, each grown hop by hop, with commands going out and answers coming back.  Every link belongs to
an adversary: what a hop or the client is given is anything, and a hop treats it as a control cell or as a stream cell
as it is told.

As long as no hop is given its next cell as one of the other kind, what the last hop unpads is a prefix of what was
sent, what the client peels is a prefix of what was answered, and a cell that is refused changes nothing; and where the
links carry what is put on them, everything opens (`piped_run`).  A cell given as one of the other kind is lost
(`not_piped`).
-/

namespace HidraNet.Onion

open HidraNet.Core (Bytes)
open Aead
open HidraNet.Lists
open Net
open Runs

/-- A command the client sent, and how many hops the circuit had then. -/
structure Sent where
  kind : CellKind
  hops : Nat
  command : Bytes
deriving DecidableEq

/-- A circuit at both ends of its layers. -/
structure Ends where
  hops : List CircuitHop
  relays : Nat → LayerCipher
  built : Bool
  sent : List Sent
  headers : Nat → List (Option SocketAddr)
  unpadded : Nat → List Bytes
  answered : Nat → List Bytes
  /-- The commands the client has peeled while the hop was the last. -/
  peeled : Nat → List Bytes
  /-- What is put on the link to a hop, and how much the hop was given. -/
  out : Nat → List (CellKind × Bytes)
  taken : Nat → Nat
  /-- What a hop puts on the link towards the client, and how much it was given by the hop after it. -/
  back : Nat → List Bytes
  relayed : Nat → Nat
  received : Nat

namespace Ends

variable (expand : Bytes → Bytes → Bytes) (encrypt : Bytes → Bytes → Bytes → Bytes) (log : List SealedCell)

def start (session : Nat → Bytes) : Ends :=
  ⟨[], fun i => .new expand (session i), false, [], fun _ => [], fun _ => [], fun _ => [], fun _ => [], fun _ => [],
    fun _ => 0, fun _ => [], fun _ => 0, 0⟩

def extend (e : Ends) (addr : HopAddr) (sessionKey : Bytes) : Ends :=
  { e with hops := e.hops ++ [⟨addr, .new expand sessionKey⟩] }

/-- The client sends a command; a stream's only when the circuit is built. -/
def send (e : Ends) (kind : CellKind) (command : Bytes) : Ends × List SealedCell :=
  if e.hops = [] ∨ kind = .stream ∧ e.built = false then (e, [])
  else
    match wrapAs encrypt kind e.hops command with
    | (.error _, hops) => ({ e with hops }, [])
    | (.ok (data, cells), hops) =>
      ({ e with
          hops
          sent := e.sent ++ [⟨kind, e.hops.length, command⟩]
          out := Function.update e.out 0 (e.out 0 ++ [(kind, data)]) }, cells)

def passOn (e : Ends) (i : Nat) (kind : CellKind) (inner : Bytes) : Ends :=
  { e with out := Function.update e.out (i + 1) (e.out (i + 1) ++ [(kind, inner)]) }

def unpadAt (e : Ends) (i : Nat) (inner : Bytes) : Except String Unit × Ends :=
  match unpadCell inner with
  | .error m => (.error m, e)
  | .ok command => (.ok (), { e with unpadded := Function.update e.unpadded i (e.unpadded i ++ [command]) })

def setRelay (e : Ends) (i : Nat) (layer : LayerCipher) : Ends :=
  { e with relays := Function.update e.relays i layer }

def readHeader (e : Ends) (i : Nat) (next : Option SocketAddr) : Ends :=
  { e with headers := Function.update e.headers i (e.headers i ++ [next]) }

/-- A hop opens what it is given, as a cell of the kind it is told. -/
def handle (e : Ends) (i : Nat) (kind : CellKind) (data : Bytes) : Except String Unit × Ends :=
  match kind with
  | .control =>
    match (e.relays i).openForwardCell log data with
    | (.error m, layer) => (.error m, e.setRelay i layer)
    | (.ok (header, inner), layer) =>
      let e := (e.setRelay i layer).readHeader i header.nextHop
      match header.nextHop with
      | some _ => (.ok (), e.passOn i .control inner)
      | none => e.unpadAt i inner
  | .stream =>
    match (e.relays i).openForward log data with
    | (.error m, layer) => (.error m, e.setRelay i layer)
    | (.ok inner, layer) =>
      let e := e.setRelay i layer
      if i + 1 < e.hops.length then (.ok (), e.passOn i .stream inner) else e.unpadAt i inner

def deliver (e : Ends) (i : Nat) (kind : CellKind) (data : Bytes) : Except String Unit × Ends :=
  if i < e.hops.length then
    { e with taken := Function.update e.taken i (e.taken i + 1) }.handle log i kind data
  else (.ok (), e)

def sealAt (e : Ends) (i : Nat) (plaintext : Bytes) : Option (Ends × SealedCell) :=
  match (e.relays i).sealBackward encrypt plaintext with
  | .error _ => none
  | .ok (cell, layer) =>
    some ({ e.setRelay i layer with back := Function.update e.back i (e.back i ++ [cell.ciphertext]) }, cell)

/-- The last hop answers. -/
def answer (e : Ends) (command : Bytes) : Ends × List SealedCell :=
  match e.hops.length, padCell command with
  | i + 1, .ok body =>
    match e.sealAt encrypt i body with
    | some (e, cell) =>
      ({ e with answered := Function.update e.answered i (e.answered i ++ [command]) }, [cell])
    | none => (e, [])
  | _, _ => (e, [])

/-- A hop that is not the last is given something by the hop after it. -/
def relayBack (e : Ends) (i : Nat) (data : Bytes) : Ends × List SealedCell :=
  if i + 1 < e.hops.length then
    let e := { e with relayed := Function.update e.relayed i (e.relayed i + 1) }
    match e.sealAt encrypt i data with
    | some (e, cell) => (e, [cell])
    | none => (e, [])
  else (e, [])

/-- The client, once it has a hop, is given an answer. -/
def peel (e : Ends) (data : Bytes) : Except String Unit × Ends :=
  if e.hops = [] then (.ok (), e)
  else
    let (result, hops) := peelResponseLayers log e.hops data
    let last := e.hops.length - 1
    let e := { e with hops, received := e.received + 1 }
    match result with
    | .error m => (.error m, e)
    | .ok command => (.ok (), { e with peeled := Function.update e.peeled last (e.peeled last ++ [command]) })

end Ends

/-! ### Any number of circuits -/

structure Pipes where
  circuits : Nat → Ends
  log : List SealedCell

inductive PipeEvent where
  | joins (c : Nat)
  | finishes (c : Nat)
  | sends (c : Nat) (kind : CellKind) (command : Bytes)
  | delivers (c i : Nat) (kind : CellKind) (data : Bytes)
  | answers (c : Nat) (command : Bytes)
  | relays (c i : Nat) (data : Bytes)
  | peels (c : Nat) (data : Bytes)

namespace Pipes

variable (expand : Bytes → Bytes → Bytes) (encrypt : Bytes → Bytes → Bytes → Bytes) (addr : Nat → Nat → HopAddr)
  (session : Nat → Nat → Bytes)

def start : Pipes := ⟨fun c => .start expand (session c), []⟩

def put (s : Pipes) (c : Nat) (r : Ends × List SealedCell) : Pipes :=
  ⟨Function.update s.circuits c r.1, s.log ++ r.2⟩

def step (s : Pipes) : PipeEvent → Pipes
  | .joins c =>
    let e := s.circuits c
    if e.built then s
    else s.put c (e.extend expand (addr c e.hops.length) (session c e.hops.length), [])
  | .finishes c => s.put c ({ s.circuits c with built := true }, [])
  | .sends c kind command => s.put c ((s.circuits c).send encrypt kind command)
  | .delivers c i kind data => s.put c (((s.circuits c).deliver s.log i kind data).2, [])
  | .answers c command => s.put c ((s.circuits c).answer encrypt command)
  | .relays c i data => s.put c ((s.circuits c).relayBack encrypt i data)
  | .peels c data => s.put c (((s.circuits c).peel s.log data).2, [])

end Pipes

end HidraNet.Onion
