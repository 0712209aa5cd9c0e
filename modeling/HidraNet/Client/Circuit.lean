import HidraNet.Client.Admission

/-!
# Preparing a circuit

What a circuit through an exit, and perhaps an entry, needs before it comes up: a key made for this connection from
every node that admits openly or with a pass.  The first hop is asked directly, the exit of two hops through the entry.

The addresses the kill switch holds, the routes and the interfaces are the system's part (`World`).
-/

namespace HidraNet.Client

open HidraNet.Core Net Text

def DEFAULT_WIREGUARD_PORT : Nat := 51820

/-! ### Which nodes -/

/-- Which nodes the circuit goes through, and the keys made for this connection. -/
structure CircuitSpec (Key : Type) where
  exit : Invite
  entry : Option Invite
  exitKey : Option Key
  entryKey : Option Key

namespace CircuitSpec

variable {Key : Type}

def new (exit : Invite) (entry : Option Invite) : CircuitSpec Key := ⟨exit, entry, none, none⟩

def exitShown (s : CircuitSpec Key) : ShownKey Key :=
  match s.exitKey, s.entry with
  | some k, _ => .exact k
  | none, none => .direct
  | none, some _ => .behind

def entryShown (s : CircuitSpec Key) : ShownKey Key :=
  match s.entryKey with
  | some k => .exact k
  | none => .direct

end CircuitSpec

def onRelayedPort (exit : Invite) : Bool :=
  exit.admissionPort.getD DEFAULT_ADMISSION_PORT = DEFAULT_ADMISSION_PORT

def onForwardedPort (exit : Invite) : Bool :=
  match exit.endpointAddr with
  | .ok a => a.port = DEFAULT_WIREGUARD_PORT
  | .error _ => false

def entryCanReach (entry exit : Invite) : Bool :=
  onForwardedPort exit &&
    (!(exit.admitsOpenly || exit.takesPasses) || (entry.has ADMISSION_RELAY && onRelayedPort exit))

def relayRefusal (entry exit : Invite) : String :=
  if !onForwardedPort exit then
    exit.nodeName ++ " listens for WireGuard on another port than " ++ toString DEFAULT_WIREGUARD_PORT ++
      ", the one an entry forwards to: it is used as the only hop, not as the exit of two hops"
  else if onRelayedPort exit then
    entry.nodeName ++ " cannot ask " ++ exit.nodeName ++ " for admission on this machine's behalf: its software is " ++
      "older than that (no `admission-relay` in the node list)"
  else
    exit.nodeName ++ " takes admission requests on TCP " ++
      toString (exit.admissionPort.getD DEFAULT_ADMISSION_PORT) ++ ", and an entry relays them only to " ++
      toString DEFAULT_ADMISSION_PORT ++ ": it is used as the only hop, not as the exit of two hops"

def sameAddress (a b : Invite) : Bool :=
  match a.clientIp, b.clientIp with
  | .ok (x, _), .ok (y, _) => x = y
  | _, _ => false

def recordOf (i : Invite) : NodeRecord :=
  ⟨i.nodeName, i.nodePublicKey, i.endpoint, i.operator, none, i.role, i.admission, i.admissionPort, i.country,
    i.features⟩

/-! ### Passes taken and put back -/

namespace Desk

def takeFor (d : Desk) (nodePublic : String) : Option (Pass × Desk) :=
  (Client.takeFor d.wallet nodePublic).map fun r => (r.1, { d with wallet := r.2, taken := d.taken ++ [r.1] })

/-- After a redemption failed: a pass the node refused is spent, any other goes back into the wallet. -/
def afterFailure (d : Desk) (pass : Pass) (way : Way) (e : Failure) : Desk :=
  if e.refused then { d with refused := d.refused ++ [pass] }
  else
    { d with
      wallet := d.wallet ++ [pass]
      returned := if e.received then d.returned ++ [(pass, way)] else d.returned }

def win (d : Desk) (invite : Invite) : Desk := { d with won := d.won ++ [invite] }

end Desk

/-! ### Asking the nodes -/

def noPassBehind (exit : Invite) : Failure :=
  failure ("no pass left for " ++ exit.nodeName ++ ": as the exit of two hops it is only ever shown a key admitted " ++
    "through the entry, never one it saw before; `hidravpn passes get` asks the issuer for more")

def notUpdated (node : Invite) : Failure :=
  failure (node.nodeName ++ " admits openly but its software is older than per-connection keys (no `sessions` in the " ++
    "node list); it is not used until its operator updates it")

/-- What an exit is asked for through the entry. -/
inductive Ask where
  | session
  | pass (p : Pass)

section

variable {Key Pk : Type} (c : Crypto Pk) (lib : KeyLib Key) (w : World Key)

/-- A first hop that admits with a pass: the next pass, redeemed directly.  With none the invite is used as it is. -/
def firstHopPass (node : Invite) (d : Desk) : Except Failure (Option Invite) × Desk :=
  let now := (w.moment d.tick).now.toNat
  let d := d.next
  let last := node.directPass
  if last.any fun p => p.fresh now then (.ok none, d)
  else
    match d.takeFor node.nodePublicKey with
    | none =>
      if last.isSome then
        (.ok none, d.note ("no pass left for " ++ node.nodeName ++
          ": connecting with the last one's key; `hidravpn passes get` for more"))
      else if node.pass.isSome then
        (.error (failure ("no pass left for " ++ node.nodeName ++ ": its last pass's key was admitted through an " ++
          "entry (or by an older version that did not write down how), and is never shown from this machine's own " ++
          "address; `hidravpn passes get` asks the issuer for more")), d)
      else
        (.error (failure ("no pass left for " ++ node.nodeName ++
          ": `hidravpn passes get` asks the issuer for more")), d)
    | some (pass, d) =>
      match cancelOr w (redeemPass c lib w (recordOf node) pass .direct) d with
      | (.ok invite, d) => (.ok (some invite), d)
      | (.error e, d) =>
        let d := d.afterFailure pass .direct e
        if last.isSome ∧ ¬ (w.moment d.tick).cancelSet then
          (.ok none, d.next.note (e.why ++ "; connecting with the last pass's key"))
        else (.error e, d.next)

/-- The hold and the outer tunnel to ask through: the entry's hop, up, which shows the entry its key. -/
def bridgeTo (entry : Invite) (entryShown : ShownKey Key) (exit : Invite) (key : Key) (d : Desk) :
    Except Failure Unit × Desk :=
  match (do
      context (entry.validate c) "the entry invite"
      let _ ← entry.endpointAddr
      let admission ← exit.endpointAddr
      let _ ← entry.clientIp
      Redemption.ensure admission.isIpv4 "the node's address is not IPv4"
      context (nodeKey c lib entry key entryShown) "the tunnel to the entry") with
  | .error e => (.error (failure e), d)
  | .ok shown =>
    match (w.moment d.tick).bridge with
    | .error e => (.error (failure e), d.next)
    | .ok () => (.ok (), d.next.show' entry.key (lib.publicBase64 shown) .direct)

def generate (d : Desk) : Except Failure Key × Desk := (lift (w.moment d.tick).generated, d.next)

/-- A key made for this connection, and a request that admits it. -/
def askSession (node : Invite) (way : Way) (d : Desk) : Except Failure (Invite × Key) × Desk :=
  match generate w d with
  | (.error e, d) => (.error e, d)
  | (.ok fresh, d) =>
    match requestAdmission c w (recordOf node) (lib.publicBase64 fresh) true way d with
    | (.error e, d) => (.error e, d)
    | (.ok invite, d) => (.ok (invite, fresh), d)

/-- What is asked through the entry, once its tunnel is up. -/
def askBehind (exit : Invite) (how : String) (ask : Ask) (d : Desk) : Except Failure (Invite × Option Key) × Desk :=
  match (w.moment d.tick).route with
  | .error e => (.error (failure e), d.next)
  | .ok () =>
    match ask with
    | .session =>
      match askSession c lib w exit .behind d.next with
      | (.error e, d) => (.error (e.context how), d)
      | (.ok (invite, fresh), d) => (.ok (invite, some fresh), d)
    | .pass pass =>
      match redeemPass c lib w (recordOf exit) pass .behind d.next with
      | (.error e, d) => (.error (e.context how), d)
      | (.ok invite, d) => (.ok (invite, none), d)

/-- Asks an exit through the entry, so that the exit never hears from this machine's own address. -/
def admitBehind (entry : Invite) (entryShown : ShownKey Key) (exit : Invite) (key : Key) (ask : Ask) (d : Desk) :
    Except Failure (Invite × Option Key) × Desk :=
  match bridgeTo c lib w entry entryShown exit key d with
  | (.error e, d) =>
    -- nothing was sent: the pass is still good
    match ask with
    | .session => (.error e, d)
    | .pass pass => (.error e, { d with wallet := d.wallet ++ [pass] })
  | (.ok (), d) =>
    let how := "asking " ++ exit.nodeName ++ " for admission through " ++ entry.nodeName
    match cancelOr w (askBehind c lib w exit how ask) d, ask with
    | (.error e, d), .pass pass => (.error e, d.afterFailure pass .behind e)
    | r, _ => r

/-- A node that asks a session is asked again while it gives this machine the entry's address. -/
def sessionAgain (entry : Invite) (entryShown : ShownKey Key) (exit : Invite) (key : Key) (session : Bool) :
    Nat → Invite × Option Key → Desk → Except Failure (Invite × Option Key) × Desk
  | 0, got, d => (.ok got, d)
  | tries + 1, got, d =>
    if w.oneAddressPerInterface ∧ session ∧ sameAddress entry got.1 then
      match admitBehind c lib w entry entryShown exit key .session d with
      | (.error e, d) => (.error e, d)
      | (.ok got, d) => sessionAgain entry entryShown exit key session tries got d
    else (.ok got, d)

/-- The kill switch, held to ask a node directly. -/
def holdAdmitting (node : Invite) (why : String) (d : Desk) : Except Failure Unit × Desk :=
  match node.endpointAddr with
  | .error e => (.error (failure e), d)
  | .ok _ =>
    match (w.moment d.tick).hold with
    | .error _ => (.error (failure why), d.next)
    | .ok () => (.ok (), d.next)

/-- A session asked of a node directly: the key first, then the request under the cancel. -/
def askDirect (node : Invite) (how : String) (d : Desk) : Except Failure (Invite × Key) × Desk :=
  match generate w d with
  | (.error e, d) => (.error e, d)
  | (.ok fresh, d) =>
    match cancelOr w (requestAdmission c w (recordOf node) (lib.publicBase64 fresh) true .direct) d with
    | (.error e, d) => (.error (e.context how), d)
    | (.ok invite, d) => (.ok (invite, fresh), d)

def entrySessionAgain (entry : Invite) (d : Desk) : Except Failure (Invite × Key) × Desk :=
  match holdAdmitting w entry "could not hold the kill switch to ask the entry for another session" d with
  | (.error e, d) => (.error e, d)
  | (.ok (), d) => askDirect c lib w entry ("asking " ++ entry.nodeName ++ " for another session") d

/-- The entry is asked for another session while the exit's address is the one it gave. -/
def entryAgain (first : Invite) (session : Bool) (invite : Invite) :
    Nat → CircuitSpec Key → Desk → Except Failure (CircuitSpec Key) × Desk
  | 0, spec, d => (.ok spec, d)
  | tries + 1, spec, d =>
    if w.oneAddressPerInterface ∧ ¬ session ∧ spec.entryKey.isSome ∧
        (spec.entry.any fun e => sameAddress e invite) then
      match entrySessionAgain c lib w first d with
      | (.error e, d) => (.error e, d)
      | (.ok (again, againKey), d) =>
        entryAgain first session invite tries { spec with entry := some again, entryKey := some againKey } d
    else (.ok spec, d)

/-! ### Preparing -/

/-- What is checked before anything is asked of a node. -/
def checkPlan (exit : Invite) (entry : Option Invite) (wallet : List Pass) : Except Failure Unit :=
  let first := entry.getD exit
  if first.admitsOpenly ∧ ¬ first.admitsSessions then .error (notUpdated first)
  else
    match entry with
    | none => .ok ()
    | some entry =>
      if exit.admitsOpenly ∧ ¬ exit.admitsSessions then .error (notUpdated exit)
      else if exit.takesPasses ∧ countFor wallet exit.nodePublicKey = 0 then .error (noPassBehind exit)
      else if ¬ entryCanReach entry exit then .error (failure (relayRefusal entry exit))
      else .ok ()

/-- The first hop, asked directly.  None means its invite is used as it is. -/
def askFirst (first : Invite) (held : List SocketAddr) (d : Desk) :
    Except Failure (Option (Invite × Option Key)) × Desk :=
  match if (first.admitsSessions || first.takesPasses) && !held.isEmpty then
      holdAdmitting w first "could not hold the kill switch to ask the first node for admission" d
    else (.ok (), d) with
  | (.error e, d) => (.error e, d)
  | (.ok (), d) =>
    if first.admitsSessions then
      match askDirect c lib w first ("asking " ++ first.nodeName ++ " for admission") d with
      | (.error e, d) => (.error e, d)
      | (.ok (invite, fresh), d) => (.ok (some (invite, some fresh)), d)
    else if first.takesPasses then
      match firstHopPass c lib w first d with
      | (.error e, d) => (.error e, d)
      | (.ok none, d) => (.ok none, d)
      | (.ok (some invite), d) => (.ok (some (invite, none)), d.win invite)
    else (.ok none, d)

def CircuitSpec.withFirst (spec : CircuitSpec Key) : Option (Invite × Option Key) → CircuitSpec Key
  | none => spec
  | some (invite, fresh) =>
    match spec.entry with
    | some _ => { spec with entry := some invite, entryKey := fresh }
    | none => { spec with exit := invite, exitKey := fresh }

/-- What the exit of two hops is asked for; a pass is taken out of the wallet. -/
def askFor (exit : Invite) (d : Desk) : Except Failure (Option Ask) × Desk :=
  if exit.admitsOpenly then (.ok (some .session), d)
  else if exit.takesPasses then
    match d.takeFor exit.nodePublicKey with
    | none => (.error (noPassBehind exit), d)
    | some (pass, d) => (.ok (some (.pass pass)), d)
  else (.ok none, d)

def Ask.isSession : Ask → Bool
  | .session => true
  | .pass _ => false

/-- The exit of two hops, asked through the entry. -/
def askExit (first exit : Invite) (key : Key) (spec : CircuitSpec Key) (entry : Invite) (ask : Ask) (d : Desk) :
    Except Failure (CircuitSpec Key) × Desk :=
  match admitBehind c lib w entry spec.entryShown exit key ask d with
  | (.error e, d) => (.error e, d)
  | (.ok got, d) =>
    match sessionAgain c lib w entry spec.entryShown exit key ask.isSession 3 got d with
    | (.error e, d) => (.error e, d)
    | (.ok (invite, fresh), d) =>
      let d := if invite.pass.isSome then d.win invite else d
      match entryAgain c lib w first ask.isSession invite 3 spec d with
      | (.error e, d) => (.error e, d)
      | (.ok spec, d) => (.ok { spec with exit := invite, exitKey := fresh }, d)

/-- Gets everything a circuit needs before it can come up. -/
def prepare (exit : Invite) (entry : Option Invite) (key : Key) (held : List SocketAddr) (d : Desk) :
    Except Failure (CircuitSpec Key) × Desk :=
  let first := entry.getD exit
  match checkPlan exit entry d.wallet with
  | .error e => (.error e, d)
  | .ok () =>
    match askFirst c lib w first held d with
    | (.error e, d) => (.error e, d)
    | (.ok admitted, d) =>
      let spec := (CircuitSpec.new exit entry).withFirst admitted
      match spec.entry with
      | none => (.ok spec, d)
      | some entry =>
        match askFor exit d with
        | (.error e, d) => (.error e, d)
        | (.ok none, d) => (.ok spec, d)
        | (.ok (some ask), d) => askExit c lib w first exit key spec entry ask d

end

/-! ### What a pass goes through -/

section

variable {Key Pk : Type} {c : Crypto Pk} {lib : KeyLib Key} {w : World Key} {d d' : Desk}

theorem Desk.takeFor_some {nodePublic : String} {pass : Pass} (h : d.takeFor nodePublic = some (pass, d')) :
    ∃ l₁ l₂, d.wallet = l₁ ++ pass :: l₂ ∧ pass.key = trim nodePublic ∧
      d.wallet.find? (fun p => p.key = trim nodePublic) = some pass ∧
      d' = { d with wallet := l₁ ++ l₂, taken := d.taken ++ [pass] } := by
  unfold Desk.takeFor at h
  rcases takeFor_cases d.wallet nodePublic with ⟨hnone, -⟩ | ⟨p, l₁, l₂, hl, hkey, hfind, hsome⟩
  · rw [hnone] at h
    cases h
  · rw [hsome] at h
    cases h
    exact ⟨l₁, l₂, hl, hkey, hfind, rfl⟩

/-- Either no pass is taken, or a fresh one is, which wins an invite or is given back as its failure says. -/
theorem firstHopPass_cases {node : Invite} {r : Except Failure (Option Invite)}
    (h : firstHopPass c lib w node d = (r, d')) :
    (d.Waits d' ∧ ∀ i, r ≠ .ok (some i)) ∨
    ∃ pass d₁, (node.directPass.any fun p => p.fresh (w.moment d.tick).now.toNat) = false ∧
      d.next.takeFor node.nodePublicKey = some (pass, d₁) ∧
      ((∃ invite, cancelOr w (redeemPass c lib w (recordOf node) pass .direct) d₁ = (.ok invite, d') ∧
          r = .ok (some invite)) ∨
        ∃ e d₂, cancelOr w (redeemPass c lib w (recordOf node) pass .direct) d₁ = (.error e, d₂) ∧
          (d₂.afterFailure pass .direct e).Waits d' ∧ ∀ i, r ≠ .ok (some i)) := by
  unfold firstHopPass at h
  dsimp only at h
  split at h
  · cases h
    exact Or.inl ⟨d.waits_next, by simp⟩
  · rename_i hfresh
    split at h
    · left
      split at h
      · cases h
        exact ⟨⟨rfl, rfl, Nat.le_succ _⟩, by simp⟩
      · split at h
        · cases h
          exact ⟨d.waits_next, by simp⟩
        · cases h
          exact ⟨d.waits_next, by simp⟩
    · rename_i pass d₁ htake
      refine Or.inr ⟨pass, d₁, by simpa using hfresh, htake, ?_⟩
      split at h
      · rename_i invite d₂ hredeem
        cases h
        exact Or.inl ⟨invite, hredeem, rfl⟩
      · rename_i e d₂ hredeem
        refine Or.inr ⟨e, d₂, hredeem, ?_⟩
        split at h
        · cases h
          exact ⟨⟨rfl, rfl, Nat.le_succ _⟩, by simp⟩
        · cases h
          exact ⟨Desk.waits_next _, by simp⟩

def Ask.hand : Ask → List Pass
  | .session => []
  | .pass p => [p]

def Ask.afterFailure (ask : Ask) (e : Failure) (d : Desk) : Desk :=
  match ask with
  | .session => d
  | .pass p => d.afterFailure p .behind e

theorem bridgeTo_error {entry exit : Invite} {entryShown : ShownKey Key} {key : Key} {e : Failure}
    (h : bridgeTo c lib w entry entryShown exit key d = (.error e, d')) : (∃ why, e = failure why) ∧ d.Waits d' := by
  unfold bridgeTo at h
  split at h
  · cases h
    exact ⟨⟨_, rfl⟩, Desk.Waits.refl _⟩
  · split at h
    · cases h
      exact ⟨⟨_, rfl⟩, d.waits_next⟩
    · cases h

theorem admitBehind_cases {entry exit : Invite} {entryShown : ShownKey Key} {key : Key} {ask : Ask}
    {r : Except Failure (Invite × Option Key)} (h : admitBehind c lib w entry entryShown exit key ask d = (r, d')) :
    (∃ why d₁, r = .error (failure why) ∧ d.Waits d₁ ∧ d' = ask.afterFailure (failure why) d₁) ∨
    ∃ how d₁ d₂, bridgeTo c lib w entry entryShown exit key d = (.ok (), d₁) ∧
      cancelOr w (askBehind c lib w exit how ask) d₁ = (r, d₂) ∧
      ((∃ e, r = .error e ∧ d' = ask.afterFailure e d₂) ∨ ((∃ got, r = .ok got) ∧ d' = d₂)) := by
  unfold admitBehind at h
  split at h
  · rename_i e d₁ hbridge
    obtain ⟨⟨why, rfl⟩, hwait⟩ := bridgeTo_error hbridge
    refine Or.inl ⟨why, d₁, ?_⟩
    cases ask with
    | session =>
      cases h
      exact ⟨rfl, hwait, rfl⟩
    | pass p =>
      cases h
      exact ⟨rfl, hwait, rfl⟩
  · rename_i d₁ hbridge
    right
    dsimp only at h
    cases hasked : cancelOr w (askBehind c lib w exit
      ("asking " ++ exit.nodeName ++ " for admission through " ++ entry.nodeName) ask) d₁ with
    | mk r₁ d₂ =>
      rw [hasked] at h
      cases r₁ with
      | error e =>
        cases ask with
        | session =>
          cases h
          exact ⟨_, d₁, _, hbridge, hasked, Or.inl ⟨e, rfl, rfl⟩⟩
        | pass p =>
          cases h
          exact ⟨_, d₁, _, hbridge, hasked, Or.inl ⟨e, rfl, rfl⟩⟩
      | ok got =>
        cases ask with
        | session =>
          cases h
          exact ⟨_, d₁, _, hbridge, hasked, Or.inr ⟨⟨got, rfl⟩, rfl⟩⟩
        | pass p =>
          cases h
          exact ⟨_, d₁, _, hbridge, hasked, Or.inr ⟨⟨got, rfl⟩, rfl⟩⟩

/-- A pass is taken only for a node that takes passes alone. -/
theorem askFor_cases {exit : Invite} {r : Except Failure (Option Ask)} (h : askFor exit d = (r, d')) :
    (d' = d ∧ ((∃ e, r = .error e) ∨ r = .ok none ∨ r = .ok (some .session))) ∨
    ∃ pass, exit.takesPasses = true ∧ exit.admitsOpenly = false ∧ d.takeFor exit.nodePublicKey = some (pass, d') ∧
      r = .ok (some (.pass pass)) := by
  unfold askFor at h
  split at h
  · cases h
    exact Or.inl ⟨rfl, Or.inr (Or.inr rfl)⟩
  · rename_i hopen
    split at h
    · rename_i htakes
      split at h
      · cases h
        exact Or.inl ⟨rfl, Or.inl ⟨_, rfl⟩⟩
      · rename_i pass d₁ htake
        cases h
        exact Or.inr ⟨pass, htakes, by simpa using hopen, htake, rfl⟩
    · cases h
      exact Or.inl ⟨rfl, Or.inr (Or.inl rfl)⟩

end

end HidraNet.Client
