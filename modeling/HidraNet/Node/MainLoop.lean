import HidraNet.Node.Leases
import HidraNet.Node.SpentPasses

/-!
# The main loop

How a node serves a request for admission: an openly admitted key, a key for one connection, or a pass.  A pass is
written down as spent before the lease it wins is saved; what fails after that is undone (`undoAdmission`), and so is
an admission nobody waits for any more.  Any file, and the tunnel device, may fail (`ServeFaults`).

`leaseFor_cases` says all that can have happened to a pass by the time its admission is made or has to be undone.
-/

namespace HidraNet.Node

/-- What to write down as spent, and until when. -/
structure SpentPass where
  tag : String
  validUntil : Int
deriving DecidableEq

/-- One admission the main loop is asked to make. -/
structure Admit where
  publicKey : String
  name : String
  session : Bool
  pass : Option SpentPass
deriving DecidableEq

/-- What a node's settings say of admissions, and of what is outside. -/
structure NodeConfig (Invite : Type) where
  net : TunnelNet
  maxClients : Nat
  isEntry : Bool
  isKey : String → Bool
  inviteFor : Lease → Except String Invite

def NodeConfig.lastingOpenCap {Invite : Type} (cfg : NodeConfig Invite) : Nat :=
  if cfg.isEntry then 0 else cfg.maxClients / 4

structure NodeState where
  leases : Leases
  spent : SpentPasses
  peers : List (String × Nat)
deriving DecidableEq

/-- What fails while a request is served, with what error, and whether anybody waits for the answer. -/
structure ServeFaults where
  closed : Bool
  leasesRead : Option String
  record : RecordFaults
  leasesSave : Option String
  addPeer : Option String
  gone : Bool
  removePeer : Option String
  /-- The leases cannot be read, or written, to take the lease back. -/
  revoke : Option String
  forget : Option String
deriving DecidableEq

def ServeFaults.none : ServeFaults := ⟨false, .none, .none, .none, .none, false, .none, .none, .none⟩

/-- What an admission that failed had done by then. -/
inductive Undo where
  | nothing (refused : Nat × String)
  /-- The pass may have been written down as spent; no lease saved. -/
  | spent (why : String)
  /-- The lease of the key saved and the pass spent; the peer may be added. -/
  | admitted (key why : String)
deriving DecidableEq

/-- What a request comes to: none, when nobody waits for it, or an answer, and whether it reached who asked. -/
inductive Served (Invite : Type) where
  | skipped
  | answered (answer : Except (Nat × String) Invite) (reached : Bool)

namespace NodeState

def addPeer (s : NodeState) (key : String) (ip : Nat) (fails : Option String) : NodeState × Except String Unit :=
  match fails with
  | some e => (s, .error e)
  | none => ({ s with peers := s.peers.filter (·.1 ≠ key) ++ [(key, ip)] }, .ok ())

def removePeer (s : NodeState) (key : String) (fails : Option String) : NodeState :=
  match fails with
  | some _ => s
  | none => { s with peers := s.peers.filter (·.1 ≠ key) }

/-- Takes the pass back, or, if that fails, says that it is spent. -/
def forgetPass (s : NodeState) (pass : Option SpentPass) (why : String) (f : ServeFaults) :
    NodeState × (Nat × String) :=
  match pass with
  | none => (s, (503, why))
  | some p =>
    match s.spent.forget p.tag f.forget with
    | (spent, .ok _) => ({ s with spent }, (503, why))
    | (spent, .error _) => ({ s with spent }, (409, why ++ "; this pass is spent here and cannot be used again"))

/-- Takes back what a failed admission did, so that a client told to keep its pass can use it again. -/
def undoAdmission (s : NodeState) (undo : Undo) (pass : Option SpentPass) (f : ServeFaults) :
    NodeState × (Nat × String) :=
  match undo with
  | .nothing refused => (s, refused)
  | .spent why => s.forgetPass pass why f
  | .admitted key why =>
    let s := s.removePeer key f.removePeer
    let leases := (s.leases.update f.revoke none () fun ls _ => ((ls.revoke key).1, (), (), (ls.revoke key).2)).1
    { s with leases }.forgetPass pass why f

variable {Invite : Type} (cfg : NodeConfig Invite)

/-- The lease of a request, under the leases' lock, and its pass written down. -/
def leaseFor (s : NodeState) (req : Admit) (now : Nat) (f : ServeFaults) :
    NodeState × Except String (Except (Nat × String) Lease) :=
  -- a lasting lease won openly has a share of the places
  let lasting := if req.pass.isNone && !req.session then some cfg.lastingOpenCap else none
  let (leases, spent, r) := s.leases.update f.leasesRead f.leasesSave s.spent fun leases spent =>
    match leases.refusalForRoom req.publicKey cfg.net cfg.maxClients lasting with
    | some why => (leases, spent, .error (503, why), false)
    | none =>
      match if req.pass.isSome then leases.admitPass cfg.isKey req.name req.publicKey cfg.net now
        else leases.admitOpen cfg.isKey req.name req.publicKey cfg.net now req.session with
      | (leases, .error e) => (leases, spent, .error (400, e), false)
      | (leases, .ok lease) =>
        match req.pass with
        | none => (leases, spent, .ok lease, true)
        | some p =>
          match spent.record p.tag p.validUntil f.record with
          | (spent, .error e) => (leases, spent, .error (503, "could not write the pass down: " ++ e), false)
          | (spent, .ok _) => (leases, spent, .ok lease, true)
  ({ s with leases, spent }, r)

/-- The invite, or what has to be undone. -/
def admitted (s : NodeState) (req : Admit) (now : Nat) (f : ServeFaults) : NodeState × Except Undo Invite :=
  match s.leaseFor cfg req now f with
  | (s, .ok (.ok lease)) =>
    match s.addPeer lease.publicKey lease.ip f.addPeer with
    | (s, .error e) => (s, .error (.admitted lease.publicKey ("could not admit: " ++ e)))
    | (s, .ok _) =>
      match cfg.inviteFor lease with
      | .ok invite => (s, .ok invite)
      | .error why => (s, .error (.admitted lease.publicKey why))
  | (s, .ok (.error refused)) => (s, .error (.nothing refused))
  | (s, .error e) => (s, .error (.spent ("could not write the leases: " ++ e)))

/-- The main loop's answer to a request. -/
def answer (s : NodeState) (req : Admit) (now : Nat) (f : ServeFaults) : NodeState × Except (Nat × String) Invite :=
  if req.pass.any fun p => s.spent.contains p.tag then
    (s, .error (409, "this pass was already spent here; use another"))
  else
    match s.admitted cfg req now f with
    | (s, .ok invite) => (s, .ok invite)
    | (s, .error undo) =>
      let (s, refused) := s.undoAdmission undo req.pass f
      (s, .error refused)

/-- A request served, and undone when nobody waits for its invite and it has a pass. -/
def serve (s : NodeState) (req : Admit) (now : Nat) (f : ServeFaults) : NodeState × Served Invite :=
  if f.closed then (s, .skipped)
  else
    match s.answer cfg req now f with
    | (s, .ok invite) =>
      if f.gone then
        if req.pass.isSome then
          ((s.undoAdmission (.admitted req.publicKey "no one was waiting") req.pass f).1, .answered (.ok invite) false)
        else (s, .answered (.ok invite) false)
      else (s, .answered (.ok invite) true)
    | (s, .error refused) => (s, .answered (.error refused) (!f.gone))

end NodeState

theorem leaseFor_admits {Invite : Type} (cfg : NodeConfig Invite) (s : NodeState) (req : Admit) (now : Nat)
    (f : ServeFaults) :
    ((s.leaseFor cfg req now f).1.leases = s.leases ∧ ∀ lease, (s.leaseFor cfg req now f).2 ≠ .ok (.ok lease)) ∨
      ∃ leases lease source, (s.leaseFor cfg req now f).1.leases = leases ∧
        (s.leaseFor cfg req now f).2 = .ok (.ok lease) ∧
        s.leases.admitAs cfg.isKey req.name req.publicKey cfg.net now source = (leases, .ok lease) := by
  unfold NodeState.leaseFor Leases.update
  dsimp only
  cases f.leasesRead with
  | some e => exact Or.inl ⟨rfl, by simp⟩
  | none =>
    dsimp only
    cases s.leases.refusalForRoom req.publicKey cfg.net cfg.maxClients
      (if (req.pass.isNone && !req.session) = true then some cfg.lastingOpenCap else none) with
    | some why => exact Or.inl ⟨rfl, by simp⟩
    | none =>
      dsimp only
      rcases hr : (if req.pass.isSome = true then
          s.leases.admitPass cfg.isKey req.name req.publicKey cfg.net now
          else s.leases.admitOpen cfg.isKey req.name req.publicKey cfg.net now req.session) with ⟨ls, e | lease⟩
      · exact Or.inl ⟨rfl, by simp⟩
      · have hadm : ∃ source, s.leases.admitAs cfg.isKey req.name req.publicKey cfg.net now source =
            (ls, .ok lease) := by
          split at hr
          · exact ⟨_, hr⟩
          · exact ⟨_, hr⟩
        obtain ⟨source, hadm⟩ := hadm
        dsimp only
        cases req.pass with
        | none =>
          dsimp only
          cases f.leasesSave with
          | some e => exact Or.inl ⟨rfl, by simp⟩
          | none => exact Or.inr ⟨ls, lease, source, rfl, rfl, hadm⟩
        | some p =>
          dsimp only
          rcases s.spent.record p.tag p.validUntil f.record with ⟨spent, e | u⟩
          · exact Or.inl ⟨rfl, by simp⟩
          · dsimp only
            cases f.leasesSave with
            | some e => exact Or.inl ⟨rfl, by simp⟩
            | none => exact Or.inr ⟨ls, lease, source, rfl, rfl, hadm⟩

/-! ### What happens to a pass -/

section Pass

variable {Invite : Type} {cfg : NodeConfig Invite} {s : NodeState} {req : Admit} {p : SpentPass} {now : Nat}
  {f : ServeFaults}

/-- The request gets as far as a lease: `leases` is what the file will hold, if it is saved. -/
structure Reaches (cfg : NodeConfig Invite) (s : NodeState) (req : Admit) (now : Nat) (f : ServeFaults) (lease : Lease)
    (leases : Leases) : Prop where
  read : f.leasesRead = none
  room : s.leases.refusalForRoom req.publicKey cfg.net cfg.maxClients none = none
  admitted : s.leases.admitPass cfg.isKey req.name req.publicKey cfg.net now = (leases, .ok lease)

/-- A pass and its lease: refused before anything is written; or not written down; or written down, and the lease
not saved; or written down and the lease saved. -/
theorem leaseFor_cases (cfg : NodeConfig Invite) (s : NodeState) (now : Nat) (f : ServeFaults)
    (hpass : req.pass = some p) :
    ((¬ ∃ lease leases, Reaches cfg s req now f lease leases) ∧
      ((∃ refused, s.leaseFor cfg req now f = (s, .ok (.error refused))) ∨
        ∃ e, s.leaseFor cfg req now f = (s, .error e))) ∨
    ∃ lease leases, Reaches cfg s req now f lease leases ∧
      ((¬ s.spent.Recordable f.record ∧ ∃ spent why, (s.spent.journalTorn = false → spent.tags = s.spent.tags) ∧
          (s.spent.journalTorn = true → spent = s.spent.insert p.tag p.validUntil) ∧
          s.leaseFor cfg req now f = ({ s with spent }, .ok (.error (503, why)))) ∨
        (s.spent.Recordable f.record ∧ ∃ spent, spent.tags = (s.spent.insert p.tag p.validUntil).tags ∧
          ((∃ e, f.leasesSave = some e ∧ s.leaseFor cfg req now f = ({ s with spent }, .error e)) ∨
            (f.leasesSave = none ∧ s.leaseFor cfg req now f = ({ s with spent, leases }, .ok (.ok lease)))))) := by
  unfold NodeState.leaseFor Leases.update
  simp only [hpass, Option.isNone_some, Option.isSome_some, Bool.false_and, Bool.false_eq_true, if_false, if_true]
  cases hread : f.leasesRead with
  | some e =>
    refine Or.inl ⟨?_, Or.inr ⟨e, rfl⟩⟩
    rintro ⟨lease, leases, h⟩
    rw [h.read] at hread
    cases hread
  | none =>
    dsimp only
    cases hroom : s.leases.refusalForRoom req.publicKey cfg.net cfg.maxClients none with
    | some why =>
      refine Or.inl ⟨?_, Or.inl ⟨_, rfl⟩⟩
      rintro ⟨lease, leases, h⟩
      rw [h.room] at hroom
      cases hroom
    | none =>
      dsimp only
      cases hadmit : s.leases.admitPass cfg.isKey req.name req.publicKey cfg.net now with
      | mk leases r =>
        cases r with
        | error e =>
          refine Or.inl ⟨?_, Or.inl ⟨_, rfl⟩⟩
          rintro ⟨lease, leases', h⟩
          rw [h.admitted] at hadmit
          cases hadmit
        | ok lease =>
          refine Or.inr ⟨lease, leases, ⟨hread, hroom, hadmit⟩, ?_⟩
          dsimp only
          rcases s.spent.record_cases p.tag p.validUntil f.record with ⟨hrec, s', htags, hr⟩ |
            ⟨hrec, htorn, e, s', htags, hr⟩ | ⟨hrec, htorn, e, hr⟩ <;> rw [hr]
          · refine Or.inr ⟨hrec, s', htags, ?_⟩
            dsimp only
            cases f.leasesSave with
            | some e => exact Or.inl ⟨e, rfl, rfl⟩
            | none => exact Or.inr ⟨rfl, rfl⟩
          · refine Or.inl ⟨hrec, s', _, fun _ => htags, fun h => ?_, rfl⟩
            rw [htorn] at h
            cases h
          · refine Or.inl ⟨hrec, s.spent.insert p.tag p.validUntil, _, fun h => ?_, fun _ => rfl, rfl⟩
            rw [htorn] at h
            cases h

end Pass

end HidraNet.Node
