import HidraNet.Lib.Runs

/-!
# The Tor of the browser

The browser runs Tor as a process of its own, and one after another: a process is to be counted until its close is seen
(`live`), whatever became of it before.  All of them write the same few fields of `TorManager`.

A start waits for the port to be free, then for its process: for the line that says 100%, the close, or two minutes.
-/

namespace HidraNet.Browser

def SOCKS_PORT : Nat := 9052

inductive TorState where
  | stopped | starting | ready | failed
deriving DecidableEq

/-- A process that was spawned. -/
structure Process where
  /-- The start that waits for it has its result, and its timer is off. -/
  settled : Bool
  reported : Bool
  closed : Bool
deriving DecidableEq

def Process.report (q : Process) : Process := { q with reported := true }

def Process.close (q : Process) : Process := { q with closed := true }

/-- What a start waits for: what the port answers, then what it found there, then a process. -/
inductive Starting where
  | port
  | waited (free : Bool)
  | process (p : Nat)
deriving DecidableEq

abbrev Result := Except String Unit

structure TorManager where
  process : Option Nat
  bootstrapPercent : Nat
  state : TorState
  lastError : String
  stopping : Bool
  starting : Option Starting
  processes : Nat → Option Process
  spawned : Nat

namespace TorManager

def new : TorManager := ⟨none, 0, .stopped, "", false, none, fun _ => none, 0⟩

def isRunning (t : TorManager) : Bool := t.process.isSome && t.state = .ready

def live (t : TorManager) (p : Nat) : Bool := (t.processes p).any (!·.closed)

/-! ### Starting -/

def fail (t : TorManager) (error : String) : TorManager × Option Result :=
  ({ t with state := .failed, lastError := error, starting := none }, some (.error error))

def start (t : TorManager) (found : Bool) : TorManager × Option Result :=
  if t.isRunning then (t, some (.ok ()))
  else if t.starting.isSome then (t, none)
  else if !found then t.fail "Tor binary not found — run: node scripts/fetch-tor.js"
  else ({ t with starting := some .port }, none)

def portAnswered (t : TorManager) (free late : Bool) : TorManager :=
  if t.starting = some .port ∧ (free ∨ late) then { t with starting := some (.waited free) } else t

def portError : String :=
  "port " ++ toString SOCKS_PORT ++ " is already in use by another program (another copy of HidraNet, another Tor, " ++
    "or something else); close it and press Connect"

/-- The start goes on: with the directory for Tor's data, and the spawn, each of which may fail. -/
def spawnNext (t : TorManager) (made spawns : Result) : TorManager × Option Result :=
  match t.starting with
  | some (.waited false) => t.fail portError
  | some (.waited true) =>
    match made with
    | .error e => t.fail e
    | .ok () =>
      let t := { t with state := .starting, bootstrapPercent := 0, lastError := "" }
      match spawns with
      | .error e => { t with process := none }.fail e
      | .ok () =>
        ({ t with
          process := some t.spawned
          processes := Function.update t.processes t.spawned (some ⟨false, false, false⟩)
          spawned := t.spawned + 1
          starting := some (.process t.spawned) }, none)
  | _ => (t, none)

/-! ### What a process does -/

/-- The start that waits for the process has its result, unless it had one. -/
def finish (t : TorManager) (p : Nat) (result : Result) : TorManager × Option Result :=
  match t.processes p with
  | some q =>
    if q.settled then (t, none)
    else ({ t with processes := Function.update t.processes p (some { q with settled := true }), starting := none },
      some result)
  | none => (t, none)

/-- A line of its output: how far it says it is, and the error it names. -/
structure Line where
  percent : Option Nat
  error : Option String
deriving DecidableEq

def setPercent (t : TorManager) (p percent : Nat) : TorManager × Option Result :=
  let t := { t with bootstrapPercent := percent }
  if percent ≥ 100 then
    { t with
      state := .ready
      processes := Function.update t.processes p ((t.processes p).map Process.report) }.finish p (.ok ())
  else (t, none)

def readLine (t : TorManager) (p : Nat) (line : Line) : TorManager × Option Result :=
  let (t, result) :=
    match line.percent with
    | some percent => t.setPercent p percent
    | none => (t, none)
  match line.error with
  | some e => ({ t with lastError := e }, result)
  | none => (t, result)

def timeout (t : TorManager) (p : Nat) : TorManager × Option Result :=
  if (t.processes p).any (!·.settled) then
    let error := "Tor did not finish bootstrapping in 120s (stalled at " ++ toString t.bootstrapPercent ++ "%)"
    { t with state := .failed, lastError := error }.finish p (.error error)
  else (t, none)

def onError (t : TorManager) (p : Nat) (message : String) : TorManager × Option Result :=
  { t with state := .failed, lastError := message, process := none }.finish p (.error message)

/-- What a close came to. -/
structure Close where
  tor : TorManager
  result : Option Result
  /-- The reason that is given for an exit that no one asked for. -/
  unexpected : Option String

/-- The close of a process; `tail` is what is said of one that named no error. -/
def onClose (t : TorManager) (p : Nat) (tail : String) : Close :=
  let t := { t with
    process := none
    processes := Function.update t.processes p ((t.processes p).map Process.close) }
  if t.stopping then
    let (t, result) := { t with stopping := false, state := .stopped, bootstrapPercent := 0 }.finish p
      (.error "Tor was stopped before it finished connecting")
    ⟨t, result, none⟩
  else if t.state = TorState.ready then
    let error := if t.lastError = "" then "Tor exited unexpectedly" else t.lastError
    ⟨{ t with state := .failed, lastError := error }, none, some error⟩
  else
    let error := if t.lastError = "" then tail else t.lastError
    let (t, result) := { t with state := .failed, lastError := error }.finish p (.error error)
    ⟨t, result, none⟩

def stop (t : TorManager) : TorManager × Option Nat :=
  let stopped := { t with state := .stopped, bootstrapPercent := 0 }
  match t.process with
  | none => (stopped, none)
  | some p => ({ stopped with stopping := true }, some p)

end TorManager

end HidraNet.Browser
