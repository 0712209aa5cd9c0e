import HidraNet.Lib.Fifo
import HidraNet.Lib.Runs
import HidraNet.Vpn.Build

/-!
# The service's requests

Every request the service handles is a task that goes on from one wait to the next (`Pc`), and the tasks interleave as
the locks and the world let them.  The locks are taken in one order: the pocket's, the pocket's file, the circuit's
state.  A task that ends gives back what it holds (`Daemon.finish`).

A circuit asked for is registered in `connecting`, where a Down of its owner finds it and stops it
(`stopConnecting`); a Connect and a NewIdentity are registered after their first wait only.
-/

namespace HidraNet.Vpn

open Fifo

inductive Kind where
  | up
  | connect
  | newIdentity
  | down
  | shutdown
  | join
  | getPasses
  | refill
deriving DecidableEq

def Kind.builds : Kind → Bool
  | .up | .connect | .newIdentity => true
  | _ => false

/-- Where a task stands.  From `owning` to `state`, in `downing` and in `counting` it has asked for a lock, and goes on
once it has it. -/
inductive Pc where
  /-- `owned_by`, in a Connect. -/
  | owning
  | looking
  | pocket
  | file
  | state
  | building (b : Build) (p : Phase)
  | downing
  | stopping (ok : Bool)
  | noting (ok : Bool)
  /-- `two_hops_up`. -/
  | counting
  | asking
  | inFlight
  | ended (ok : Bool)
deriving DecidableEq

structure Task where
  kind : Kind
  /-- The account that asks: 0 for root, none where the channel cannot tell. -/
  caller : Option Nat
  plan : Option Plan
  pc : Pc
deriving DecidableEq

structure Connecting where
  id : Nat
  owner : Option Nat
  stop : Bool
deriving DecidableEq

structure Daemon where
  up : Option Active
  state : Lock Nat
  pocketLock : Lock Nat
  stopping : Bool
  connecting : List Connecting
  firewall : Firewall
  tasks : Nat → Option Task
  next : Nat

def root : Option Nat := some 0

/-- `not_someone_elses`, as a refusal: the circuit that is up is another account's. -/
def refused (up : Option Active) (caller : Option Nat) : Bool :=
  match up with
  | some x => x.owner.isSome && caller != root && x.owner != caller
  | none => false

namespace Daemon

variable (s : Daemon) (t : Nat)

def init (f : Firewall) : Daemon := ⟨none, .free, .free, false, [], f, fun _ => none, 0⟩

def setPc (k : Task) (pc : Pc) : Daemon :=
  { s with tasks := Function.update s.tasks t (some { k with pc := pc }) }

def askState : Daemon := { s with state := s.state.ask t }

def askPocket : Daemon := { s with pocketLock := s.pocketLock.ask t }

def releaseState : Daemon := { s with state := s.state.release t }

def beginConnecting (owner : Option Nat) : Daemon :=
  { s with connecting := s.connecting ++ [⟨t, owner, false⟩] }

def stopConnecting (caller : Option Nat) : Daemon :=
  { s with
    connecting := s.connecting.map fun c =>
      if caller = root ∨ c.owner = caller then { c with stop := true } else c }

def cancelled : Bool := s.connecting.any fun c => c.id = t ∧ c.stop

/-- The task's guards go: the locks, the registration. -/
def finish (k : Task) (ok : Bool) : Daemon :=
  { s with
    state := s.state.release t
    pocketLock := s.pocketLock.release t
    connecting := s.connecting.filter (·.id ≠ t)
    tasks := Function.update s.tasks t (some { k with pc := .ended ok }) }

/-- `refill_may_go`: it does not wait for the lock. -/
def refillMayGo (a : Answer) : Bool :=
  s.state.holder.isNone && s.up.any fun x => a.connected && x.circuit.plan.hops = 1

/-- `two_hops_up`. -/
def twoHopsUp : Bool := s.up.any fun x => x.circuit.plan.hops = 2

def connect (k : Task) (owner : Option Nat) : Daemon :=
  ((s.beginConnecting t owner).askPocket t).setPc t k .pocket

/-- A request up to its first wait. -/
def arrive (kind : Kind) (caller : Option Nat) (a : Answer) : Daemon :=
  let t := s.next
  let s := { s with next := t + 1 }
  let k : Task := ⟨kind, caller, a.plan, .ended false⟩
  match kind with
  | .up => if caller = root ∧ a.plan.isSome then s.connect t k caller else s.finish t k false
  | .connect =>
    if caller = root then if a.plan.isSome then s.connect t k caller else s.finish t k false
    else (s.askState t).setPc t k .owning
  | .newIdentity => (s.askState t).setPc t k .looking
  | .down => ((s.stopConnecting caller).askState t).setPc t k .downing
  | .shutdown =>
    (({ s with stopping := true }.stopConnecting root).askState t).setPc t { k with caller := root } .downing
  | .join | .getPasses => (s.askPocket t).setPc t k .pocket
  | .refill => if s.refillMayGo a then (s.askPocket t).setPc t k .pocket else s.finish t k false

/-- Under the pocket's lock and the file's. -/
def locked (k : Task) (a : Answer) : Daemon :=
  if !a.ok then s.finish t k false
  else match k.kind with
  | .join | .getPasses => (s.askState t).setPc t k .counting
  | .refill => if s.refillMayGo a then s.setPc t k .asking else s.finish t k false
  | _ => (s.askState t).setPc t k .state

/-- `build` begins, in place of what is up. -/
def change (k : Task) (owner : Option Nat) (plan : Plan) (a : Answer) : Daemon :=
  match Build.start t owner plan s.up a s.firewall with
  | (f, none) => { s with firewall := f }.finish t k false
  | (f, some (b, p)) => { s with firewall := f, up := none }.setPc t k (.building b p)

/-- `up` and `new_identity` with all their locks. -/
def admitted (k : Task) (a : Answer) : Daemon :=
  if s.stopping || s.cancelled t || refused s.up k.caller then s.finish t k false
  else match k.kind, s.up with
  | .newIdentity, none => s.finish t k false
  | .newIdentity, some x =>
    match a.plan with
    | none => s.finish t k false
    | some plan => s.change t k x.owner plan a
  | _, _ =>
    match k.plan with
    | none => s.finish t k false
    | some plan => s.change t k k.caller plan a

/-- One step of `build`, for the task. -/
def build (k : Task) (b : Build) (p : Phase) (a : Answer) : Daemon :=
  match b.step p (s.cancelled t) a s.firewall with
  | (f, .goes p) => { s with firewall := f }.setPc t k (.building b p)
  | (f, .up c) => { s with firewall := f, up := some ⟨b.owner, c⟩ }.finish t k true
  | (f, .failed) => { s with firewall := f }.finish t k false

/-- `down_for`, with the lock. -/
def takeDown (k : Task) (a : Answer) : Daemon :=
  if refused s.up k.caller then s.finish t k false
  else match s.up with
  | none => { s with firewall := if a.lifted then .removed else s.firewall }.finish t k true
  | some x =>
    { s with
      up := none
      firewall := if x.circuit.killSwitch && a.lifted then .removed else s.firewall }.setPc t k
      (.stopping ((!x.circuit.killSwitch || a.lifted) && a.ok))

/-- The task `t` goes on to its next wait; a task that waits for a lock stays. -/
def go (a : Answer) : Daemon :=
  match s.tasks t with
  | none => s
  | some k =>
    match k.pc with
    | .owning =>
      if s.state.holder ≠ some t then s
      else if refused s.up k.caller || a.plan.isNone then s.finish t k false
      else (s.releaseState t).connect t { k with plan := a.plan } k.caller
    | .looking =>
      if s.state.holder ≠ some t then s
      else match s.up with
      | none => s.finish t k false
      | some x => (s.releaseState t).connect t k x.owner
    | .pocket => if s.pocketLock.holder ≠ some t then s else s.setPc t k .file
    | .file => s.locked t k a
    | .state => if s.state.holder ≠ some t then s else s.admitted t k a
    | .building b p => s.build t k b p a
    | .downing => if s.state.holder ≠ some t then s else s.takeDown t k a
    | .stopping ok => (s.releaseState t).setPc t k (.noting ok)
    | .noting ok => s.finish t k ok
    | .counting =>
      if s.state.holder ≠ some t then s
      else if s.twoHopsUp then s.finish t k false
      else (s.releaseState t).setPc t k .asking
    | .asking =>
      if a.again && (k.kind != .refill || s.refillMayGo a) then s.setPc t k .inFlight else s.finish t k a.ok
    | .inFlight => s.setPc t k .asking
    | .ended _ => s

end Daemon

/-- A request arrives, or a task goes on. -/
inductive Event where
  | arrive (kind : Kind) (caller : Option Nat) (a : Answer)
  | go (t : Nat) (a : Answer)
deriving DecidableEq

namespace Daemon

def step (s : Daemon) : Event → Daemon
  | .arrive kind caller a => s.arrive kind caller a
  | .go t a => s.go t a

/-! ### Runs to look at -/

def onePlan : Plan := ⟨⟨.v4 167772161 51820, .v4 167772161 51821, .byHand⟩, none⟩

/-- The task `t` goes on `n` times, and everything goes well. -/
def goesOn (t n : Nat) : List Event := List.replicate n (.go t { Answer.good with plan := some onePlan })

end Daemon

end HidraNet.Vpn
