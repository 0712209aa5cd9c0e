import HidraNet.Core.Pass
import HidraNet.Lib.Runs
import HidraNet.Lib.Signatures

/-!
# Sessions with a hidden service

A client challenges the service with a key of its own and a nonce; the service answers with a key of its own and a
signature, by the address's key, of both keys, the nonce and the address.  Both derive a key for each direction, and seal
with a counter as the nonce.

Clients and services are in one world with a relay that has all they send (`World`): each step is one call, given what the
relay makes of it.
-/

namespace HidraNet.ServiceAuth

open HidraNet.Core (asBytes)
open Symbolic
open Symbolic.Term (publicKey diffieHellman opened verifyingKey signature)

abbrev Bytes := List UInt8

def HELLO_MAGIC : Term := .raw (asBytes "HSA1")
def ANSWER_MAGIC : Term := .raw (asBytes "HSB1")
def SESSION_DOMAIN : Term := .raw (asBytes "hidra/service-auth/v1")
def KDF_C2S : Term := .raw (asBytes "hidra service-auth v1 client-to-service")
def KDF_S2C : Term := .raw (asBytes "hidra service-auth v1 service-to-client")

def U64_MAX : Nat := 2 ^ 64 - 1

def nothing : Term := .raw []

def authErr (msg : String) : String := "hidden service authentication: " ++ msg

/-! ### Keys -/

def serviceHashOf (pk : Term) : Term := .hash pk

def transcript (serviceHash clientEph nonce serviceEph : Term) : Term :=
  .pair SESSION_DOMAIN (.pair serviceHash (.pair clientEph (.pair nonce serviceEph)))

def sessionKeys (shared transcript : Term) : Term × Term :=
  (.keyedHash KDF_C2S (.pair shared transcript), .keyedHash KDF_S2C (.pair shared transcript))

/-! ### Sealed channels -/

structure Direction where
  key : Term
  counter : Nat
deriving DecidableEq

def Direction.new (key : Term) : Direction := ⟨key, 0⟩

def Direction.nonce (d : Direction) : Except String (Nat × Direction) :=
  if d.counter = U64_MAX then .error (authErr "session exhausted")
  else .ok (d.counter, { d with counter := d.counter + 1 })

structure SealedChannel where
  send : Direction
  recv : Direction
deriving DecidableEq

namespace SealedChannel

def tooLong (plaintext : Bytes) : Bool := decide (plaintext.length / 64 ≥ 2 ^ 32 - 1)

def sealNext (ch : SealedChannel) (plaintext : Bytes) : Except String Term × SealedChannel :=
  match ch.send.nonce with
  | .error e => (.error e, ch)
  | .ok (n, send) =>
    (if tooLong plaintext then .error (authErr "could not seal") else .ok (.aead ch.send.key n nothing (.raw plaintext)),
      { ch with send })

def openNext (ch : SealedChannel) (ciphertext : Term) : Except String Term × SealedChannel :=
  match ch.recv.nonce with
  | .error e => (.error e, ch)
  | .ok (n, recv) =>
    (match opened ch.recv.key n nothing ciphertext with
      | some plaintext => .ok plaintext
      | none => .error (authErr "a message failed to open: altered, replayed or out of order"),
      { ch with recv })

end SealedChannel

/-! ### The handshake -/

structure ClientHandshake where
  eph : Nat
  ephPub : Term
  nonce : Term
deriving DecidableEq

namespace ClientHandshake

def start (eph : Nat) (nonce : Bytes) : ClientHandshake := ⟨eph, publicKey eph, .raw nonce⟩

def hello (h : ClientHandshake) : Term := .pair HELLO_MAGIC (.pair h.ephPub h.nonce)

def finish (h : ClientHandshake) (servicePubkey answer : Term) : Except String SealedChannel :=
  match answer with
  | .pair magic (.pair serviceEph sig) =>
    if magic ≠ ANSWER_MAGIC then .error (authErr "the service did not answer the challenge")
    else
      let t := transcript (serviceHashOf servicePubkey) h.ephPub h.nonce serviceEph
      match servicePubkey with
      | .encapKey k =>
        if sig ≠ signature k t then .error (authErr "the answer is not signed by this address's key")
        else
          let shared := diffieHellman h.eph serviceEph
          if shared = .lowOrder then .error (authErr "degenerate key exchange")
          else
            let (c2s, s2c) := sessionKeys shared t
            .ok ⟨.new c2s, .new s2c⟩
      | _ => .error (authErr "not an Ed25519 key")
  | _ => .error (authErr "the service did not answer the challenge")

end ClientHandshake

def answerTranscript (k eph : Nat) (hello : Term) : Term :=
  match hello with
  | .pair _ (.pair clientEph nonce) =>
    transcript (serviceHashOf (verifyingKey k)) clientEph nonce (publicKey eph)
  | _ => nothing

/-- The service's end, and the answer to send, of the address's key `k` and what is drawn. -/
def answerHello (k eph : Nat) (hello : Term) : Except String (SealedChannel × Term) :=
  match hello with
  | .pair magic (.pair clientEph _) =>
    if magic ≠ HELLO_MAGIC then .error (authErr "a session must start with the challenge")
    else
      let t := answerTranscript k eph hello
      let shared := diffieHellman eph clientEph
      if shared = .lowOrder then .error (authErr "degenerate key exchange")
      else
        let (c2s, s2c) := sessionKeys shared t
        .ok (⟨.new s2c, .new c2s⟩, .pair ANSWER_MAGIC (.pair (publicKey eph) (signature k t)))
  | _ => .error (authErr "a session must start with the challenge")

/-! ### The world -/

inductive End where
  | client (i : Nat)
  | service (j : Nat)
deriving DecidableEq

/-- An end of a session, with what its calls came to: what each sealed, and what each opened. -/
structure Party where
  channel : SealedChannel
  sealings : List (Option Bytes)
  openings : List (Option Term)
deriving DecidableEq

structure Client where
  handshake : ClientHandshake
  servicePubkey : Term
  answered : Bool
deriving DecidableEq

/-- A hello that a service answered. -/
structure Answered where
  key : Nat
  hello : Term
  eph : Nat
deriving DecidableEq

structure World where
  clients : Nat → Option Client
  services : Nat → Option Answered
  ends : End → Option Party
  network : List Term
  drawn : List Nat
  signed : List (Nat × Term)
  sent : List Term

inductive Event where
  | start (i eph : Nat) (nonce : Bytes) (servicePubkey : Term)
  | answer (j k eph : Nat) (hello : Term)
  | finish (i : Nat) (answer : Term)
  | sealing (e : End) (plaintext : Bytes)
  | opening (e : End) (ciphertext : Term)

namespace World

def new : World := ⟨fun _ => none, fun _ => none, fun _ => none, [], [], [], []⟩

def party (ch : SealedChannel) : Party := ⟨ch, [], []⟩

def step (w : World) : Event → World
  | .start i eph nonce servicePubkey =>
    if (w.clients i).isSome then w
    else
      let handshake := ClientHandshake.start eph nonce
      { w with
        clients := Function.update w.clients i (some ⟨handshake, servicePubkey, false⟩)
        network := w.network ++ [handshake.hello]
        drawn := w.drawn ++ [eph] }
  | .answer j k eph hello =>
    if (w.services j).isSome then w
    else
      match answerHello k eph hello with
      | .error _ => { w with drawn := w.drawn ++ [eph] }
      | .ok (ch, answer) =>
        { w with
          services := Function.update w.services j (some ⟨k, hello, eph⟩)
          ends := Function.update w.ends (.service j) (some (party ch))
          network := w.network ++ [answer]
          drawn := w.drawn ++ [eph]
          signed := w.signed ++ [(k, answerTranscript k eph hello)] }
  | .finish i answer =>
    match w.clients i with
    | none => w
    | some c =>
      if c.answered then w
      else
        let w := { w with clients := Function.update w.clients i (some { c with answered := true }) }
        match c.handshake.finish c.servicePubkey answer with
        | .error _ => w
        | .ok ch => { w with ends := Function.update w.ends (.client i) (some (party ch)) }
  | .sealing e plaintext =>
    match w.ends e with
    | none => w
    | some p =>
      match p.channel.sealNext plaintext with
      | (.error _, ch) =>
        let p := { p with channel := ch, sealings := p.sealings ++ [none] }
        { w with ends := Function.update w.ends e (some p) }
      | (.ok ciphertext, ch) =>
        let p := { p with channel := ch, sealings := p.sealings ++ [some plaintext] }
        { w with
          ends := Function.update w.ends e (some p)
          network := w.network ++ [ciphertext]
          sent := w.sent ++ [ciphertext] }
  | .opening e ciphertext =>
    match w.ends e with
    | none => w
    | some p =>
      let (result, ch) := p.channel.openNext ciphertext
      let p := { p with channel := ch, openings := p.openings ++ [result.toOption] }
      { w with ends := Function.update w.ends e (some p) }

end World

end HidraNet.ServiceAuth
