import HidraNet.Browser.TorManager

/-!
# The network lock

The lock starts engaged, and each `engage` gives it a new generation; a connect opens it only in the generation it began
in.  Before that it asks each session that is protected for its route, and sets a wrong one again (`Check`).

The connects, the Disconnects and the processes of Tor are in one world, which takes a step where one of them is waited
for (`World`).
-/

namespace HidraNet.Browser

structure NetworkLock where
  engaged : Bool
  reason : String
  generation : Nat
  /-- The protected sessions, each with the promise of its route. -/
  sessions : List (Nat × Nat)
deriving DecidableEq

namespace NetworkLock

def NOT_READY : String := "the Tor connection is not ready yet"

def new : NetworkLock := ⟨true, NOT_READY, 0, []⟩

def engage (lock : NetworkLock) (reason : String) : NetworkLock :=
  { lock with engaged := true, reason := if reason = "" then NOT_READY else reason, generation := lock.generation + 1 }

def release (lock : NetworkLock) (generation : Nat) : NetworkLock × Bool :=
  if generation ≠ lock.generation then (lock, false) else ({ lock with engaged := false, reason := "" }, true)

def has (lock : NetworkLock) (s : Nat) : Bool := lock.sessions.any (·.1 = s)

def protect (lock : NetworkLock) (s routing : Nat) : NetworkLock :=
  if lock.has s then lock else { lock with sessions := lock.sessions ++ [(s, routing)] }

def forget (lock : NetworkLock) (s : Nat) : NetworkLock :=
  { lock with sessions := lock.sessions.filter (·.1 ≠ s) }

def reroute (lock : NetworkLock) (s routing : Nat) : NetworkLock :=
  { lock with sessions := lock.sessions.map fun e => if e.1 = s then (s, routing) else e }

def expected : String := "SOCKS5 127.0.0.1:" ++ toString SOCKS_PORT

end NetworkLock

/-! ### Asking the sessions -/

/-- How far a session is asked: its route is being set, it was asked, it is known. -/
inductive Stage where
  | routing
  | asked
  | told (right : Bool)
deriving DecidableEq

structure Asking where
  session : Nat
  routing : Nat
  again : Bool
  stage : Stage
deriving DecidableEq

/-- A run of `unrouted`; when no session is being asked it is over. -/
structure Check where
  asking : Option Asking
  rest : List (Nat × Nat)
  wrong : List Nat
  /-- The sessions it began with, and what they answered. -/
  sessions : List Nat
  answers : List (Nat × String)
deriving DecidableEq

namespace Check

def next (c : Check) : Check :=
  match c.rest with
  | [] => { c with asking := none }
  | (s, routing) :: rest => { c with asking := some ⟨s, routing, false, .routing⟩, rest }

def unrouted (sessions : List (Nat × Nat)) : Check := next ⟨none, sessions, [], sessions.map Prod.fst, []⟩

def setStage (c : Check) (a : Asking) (stage : Stage) : Check := { c with asking := some { a with stage } }

end Check

/-! ### The world -/

inductive Phase where
  /-- It waits for the start, and for the start's result to be taken. -/
  | starting
  | started (result : Result)
  | checking (check : Check)
  | stopping
  | detecting

structure Connect where
  generation : Nat
  phase : Phase
  /-- The process it is for, and the Disconnects before it. -/
  tor : Option Nat
  disconnects : Nat

/-- A connect that opened the lock. -/
structure Opening where
  tor : Option Nat
  disconnects : Nat
  sessions : List Nat
  answers : List (Nat × String)

structure Stop where
  process : Nat
  awaited : Bool

structure World where
  tor : TorManager
  lock : NetworkLock
  connecting : Option Connect
  stops : List Stop
  /-- The routes that were set, each with whether it went well once it is known. -/
  routings : Nat → Option Bool
  promised : Nat
  disconnects : Nat
  opening : Option Opening

inductive Event where
  | connect (found : Bool)
  | disconnect
  | portAnswered (free late : Bool)
  | spawns (made spawns : Result)
  | line (p : Nat) (line : TorManager.Line)
  | error (p : Nat) (message : String)
  | close (p : Nat) (tail : String)
  | timeout (p : Nat)
  | killTimer (n : Nat)
  /-- The connect goes on, if what it waits for is there. -/
  | resume
  | protect (s : Nat)
  | forget (s : Nat)
  | routed (routing : Nat) (ok : Bool)
  | answered (answer : Option String)
  | exitFound

namespace World

def new : World := ⟨.new, .new, none, [], fun _ => none, 0, 0, none⟩

/-- The connect that waits for the start has the start's result. -/
def settle (w : World) (result : Option Result) : World :=
  match result, w.connecting with
  | some result, some c =>
    match c.phase with
    | .starting => { w with connecting := some { c with phase := .started result } }
    | _ => w
  | _, _ => w

def set (w : World) : TorManager × Option Result → World
  | (tor, result) => { w with tor }.settle result

def connectTor (w : World) (found : Bool) : World :=
  if w.connecting.isSome then w
  else
    let tor := w.tor.process
    { w with connecting := some ⟨w.lock.generation, .starting, tor, w.disconnects⟩ }.set (w.tor.start found)

/-- The start goes on; what it spawns is for the connect that waits. -/
def spawnNext (w : World) (made spawns : Result) : World :=
  match w.tor.starting with
  | some (.waited _) =>
    let (tor, result) := w.tor.spawnNext made spawns
    let connecting := w.connecting.map fun c => { c with tor := tor.process }
    { w with connecting }.set (tor, result)
  | _ => w

def stop (w : World) (awaited : Bool) : World :=
  let (tor, process) := w.tor.stop
  { w with tor, stops := w.stops ++ process.toList.map (⟨·, awaited⟩) }

def disconnect (w : World) : World :=
  { w with lock := w.lock.engage "disconnected by the user", disconnects := w.disconnects + 1 }.stop false

def onClose (w : World) (p : Nat) (tail : String) : World :=
  let closed := w.tor.onClose p tail
  let lock :=
    match closed.unexpected with
    | some reason =>
      w.lock.engage ("Tor exited unexpectedly" ++ (if reason = "" then "" else " — " ++ reason))
    | none => w.lock
  { w with tor := closed.tor, lock, stops := w.stops.filter (·.process ≠ p) }.settle closed.result

def setPhase (w : World) (c : Connect) (phase : Phase) : World := { w with connecting := some { c with phase } }

/-- The sessions are all asked. -/
def checked (w : World) (c : Connect) (check : Check) : World :=
  if check.wrong ≠ [] then
    { w with lock := w.lock.engage "a session is not routed through Tor" }.stop true |>.setPhase c .stopping
  else if w.tor.state ≠ .ready then { w with connecting := none }
  else
    match w.lock.release c.generation with
    | (_, false) => { w with connecting := none }
    | (lock, true) =>
      { w with lock, opening := some ⟨c.tor, c.disconnects, check.sessions, check.answers⟩ }.setPhase c .detecting

def ask (w : World) (c : Connect) (check : Check) (a : Asking) : World :=
  match a.stage with
  | .routing =>
    match w.routings a.routing with
    | none => w
    | some true => w.setPhase c (.checking (check.setStage a .asked))
    | some false => w.setPhase c (.checking (check.setStage a (.told false)))
  | .asked => w
  | .told true => w.setPhase c (.checking check.next)
  | .told false =>
    if a.again then w.setPhase c (.checking { check with wrong := check.wrong ++ [a.session] }.next)
    else
      { w with lock := w.lock.reroute a.session w.promised, promised := w.promised + 1 }.setPhase c
        (.checking { check with asking := some ⟨a.session, w.promised, true, .routing⟩ })

def resume (w : World) (c : Connect) : World :=
  match c.phase with
  | .started (.error e) =>
    { w with
      lock := w.lock.engage ("Tor did not start — " ++ (if e = "" then "reason unknown" else e))
      connecting := none }
  -- the manager's rules and the lock's are both those of `SOCKS_PORT`
  | .started (.ok ()) => w.setPhase c (.checking (.unrouted w.lock.sessions))
  | .checking check =>
    match check.asking with
    | none => w.checked c check
    | some a => w.ask c check a
  | .stopping => if w.stops.any (·.awaited) then w else { w with connecting := none }
  | .starting | .detecting => w

def answered (w : World) (c : Connect) (answer : Option String) : World :=
  match c.phase with
  | .checking check =>
    match check.asking with
    | some a =>
      if a.stage = .asked then
        let check := { check with answers := check.answers ++ answer.toList.map (a.session, ·) }
        w.setPhase c (.checking (check.setStage a (.told (answer = some NetworkLock.expected))))
      else w
    | none => w
  | _ => w

def exitFound (w : World) (c : Connect) : World :=
  match c.phase with
  | .detecting => { w with connecting := none }
  | _ => w

def step (w : World) : Event → World
  | .connect found => w.connectTor found
  | .disconnect => w.disconnect
  | .portAnswered free late => { w with tor := w.tor.portAnswered free late }
  | .spawns made spawns => w.spawnNext made spawns
  | .line p line => if w.tor.live p then w.set (w.tor.readLine p line) else w
  | .error p message => if w.tor.live p then w.set (w.tor.onError p message) else w
  | .close p tail => if w.tor.live p then w.onClose p tail else w
  | .timeout p => w.set (w.tor.timeout p)
  | .killTimer n => { w with stops := w.stops.eraseIdx n }
  | .resume => w.connecting.elim w w.resume
  | .protect s => { w with lock := w.lock.protect s w.promised, promised := w.promised + 1 }
  | .forget s => { w with lock := w.lock.forget s }
  | .routed routing ok =>
    if routing < w.promised ∧ (w.routings routing).isNone then
      { w with routings := Function.update w.routings routing (some ok) }
    else w
  | .answered answer => w.connecting.elim w (w.answered · answer)
  | .exitFound => w.connecting.elim w w.exitFound

end World

end HidraNet.Browser
