import HidraNet.Forum.Page

/-!
# The registrar

The one party whose word on names the pages take over the relays'.  It records the first key it sees for each name, and
gives out the whole list under its own key, `REGISTRY_PUBKEY`.  Here is what it makes of a message, and the list that it
builds; what it only logs is left out.
-/

namespace HidraNet.Forum

open Hidrarelay Maps

/-- What Node has beside a browser. -/
structure Node extends Browser where
  ofDigits : String → Option ℚ
  length : Registry → Nat

theorem integer_kept (n : Int) (_ : 0 ≤ n) (_ : n ≤ Json.maxSafeInteger) : (n : ℚ) = n := rfl

theorem integer_printed (n : Int) (_ : 0 ≤ n) (_ : n ≤ Json.maxSafeInteger) : Json.int ((n : ℚ).num) = .int n := rfl

variable (b : Node)

def MAX_NAMES : Nat := 3000

def MAX_LIST_BYTES : Nat := 512 * 1024

def RATE_WINDOW_MS : Nat := 10 * 60 * 1000

def RATE_MAX_NEW : Nat := 200

def MAX_HIDES : Nat := 5000

def REPUBLISH_COOLDOWN_MS : Nat := 60000

/-- A value in a list of its own, as a number: the list is read as the text of its element. -/
def ofElement : Json → Option ℚ
  | .null => b.ofDigits ""
  | .int n => some (b.ofInt n)
  | .number text => b.ofText text
  | .str s => b.ofDigits s
  | .arr [] => b.ofDigits ""
  | .arr [v] => ofElement v
  | .bool _ | .arr _ | .obj _ => none

/-- `Number`, where it is finite. -/
def Number : Json → Option ℚ
  | .null => some 0
  | .bool v => some (if v then 1 else 0)
  | v => ofElement b v

def isSafe (t : ℚ) : Bool := t.den = 1 ∧ 0 ≤ t ∧ t ≤ Json.maxSafeInteger

/-! ### What is recorded -/

structure Named where
  name : String
  pk : String
  ts : ℚ
  seen : Nat
deriving DecidableEq

/-- What is in the file; what is written there is read again as it was. -/
structure Record where
  seq : ℚ
  names : Map String Named
  admin : Option String
  hides : Map String ℚ

def emptyState : Record := ⟨0, .empty, none, .empty⟩

def Record.knows (state : Record) (norm : String) : Bool := state.names.contains norm || norm ∈ inherited

theorem constructor_of_inherited {norm : String} (hname : isName norm) (h : norm ∈ inherited) : norm = "constructor" := by
  have hall : ∀ m ∈ inherited, isName m → m = "constructor" := by decide
  exact hall norm h hname

structure Registrar where
  state : Record
  adoptExisting : Bool
  dirty : Bool
  recent : List Nat
  /-- Until the first run has settled, claims are only counted. -/
  bootstrapping : Bool
  lastForeign : Option Nat

namespace Registrar

def new (state : Record) (adoptExisting : Bool) : Registrar :=
  ⟨state, adoptExisting, false, [], state.seq = 0 ∧ state.names.size = 0, none⟩

def burst (r : Registrar) (now : Nat) : List Nat := r.recent.filter (now < · + RATE_WINDOW_MS)

def rateLimited (r : Registrar) (now : Nat) : Bool := RATE_MAX_NEW ≤ (r.burst now).length

/-- A claim, if it is well formed and its signature holds. -/
def readClaim (norm s : String) : Option Claim := do
  guard (s ≠ "" ∧ units s ≤ 4096 ∧ validName b.toBrowser norm ∧ norm = normalizeName b.toEnv norm)
  let o ← b.fromSlice s
  guard ((o.get "v").bind (number b.toBrowser) = some 2)
  let name ← (o.s "name").map (slice 24)
  let pk ← (o.s "pk").map (slice 200)
  let sig ← (o.s "sig").map (slice 200)
  let ts ← (o.get "ts").bind (Number b)
  guard (isSafe ts)
  guard (normalizeName b.toEnv name = norm ∧ b.canonicalPub pk)
  guard (b.verifyFields pk (.arr [.str "claim", .str norm, .str name, .str pk, b.printed ts]) sig)
  return ⟨name, pk, ts⟩

def onClaim (r : Registrar) (now : Nat) (norm s : String) : Registrar :=
  match readClaim b norm s with
  | none => r
  | some c =>
    if r.state.knows norm then r
    else if r.bootstrapping ∧ ¬ r.adoptExisting then r
    else if MAX_NAMES ≤ r.state.names.size then r
    else if r.rateLimited now then { r with recent := r.burst now }
    else { r with
      recent := r.burst now ++ [now]
      state.names := r.state.names.set norm ⟨c.name, c.pk, c.ts, now⟩
      dirty := true }

variable {b} in
theorem onClaim_records {r : Registrar} {now : Nat} {norm s : String} {c : Claim} (hread : readClaim b norm s = some c)
    (hknown : ¬ r.state.knows norm) (hstarted : ¬ (r.bootstrapping ∧ ¬ r.adoptExisting))
    (hroom : r.state.names.size < MAX_NAMES) (hrate : ¬ r.rateLimited now) :
    (r.onClaim b now norm s).state.names.get? norm = some ⟨c.name, c.pk, c.ts, now⟩ := by
  unfold onClaim
  rw [hread]
  simp only
  rw [if_neg hknown, if_neg hstarted, if_neg (Nat.not_le.2 hroom), if_neg hrate]
  exact Map.get?_set_self _ _ _

def setAdmin (r : Registrar) (pk : String) : Option Registrar :=
  if b.canonicalPub pk then some { r with state.admin := some pk, dirty := true } else none

/-- The time of a hide of the moderator's. -/
def readHide (admin id s : String) : Option ℚ := do
  guard (s ≠ "" ∧ units s ≤ 4096 ∧ isId id)
  let o ← b.fromSlice s
  let pk ← (o.s "pk").map (slice 200)
  let sig ← (o.s "sig").map (slice 200)
  let ts ← (o.get "ts").bind (Number b)
  guard (pk = admin)
  guard (b.verifyFields pk (.arr [.str "hide", .str id, b.printed ts]) sig)
  return ts

def onHide (r : Registrar) (id s : String) : Registrar :=
  match r.state.admin.bind fun admin => readHide b admin id s with
  | none => r
  | some ts =>
    if (r.state.hides.get? id).any (· ≠ 0) then r
    else if MAX_HIDES ≤ r.state.hides.size then r
    else { r with state.hides := r.state.hides.set id ts, dirty := true }

def foreign (r : Registrar) (now : Nat) : Registrar :=
  if r.lastForeign.any (now < · + REPUBLISH_COOLDOWN_MS) then r else { r with lastForeign := some now, dirty := true }

def adoptNames (now : Nat) (state : Record) (names : List Entry) : Record :=
  names.foldl (fun state e =>
    if ¬ state.knows e.norm ∧ isSafe e.ts then { state with names := state.names.set e.norm ⟨e.name, e.pk, e.ts, now⟩ }
    else state) state

def adopt (r : Registrar) (now : Nat) (reg : Registry) : Registrar :=
  let state := adoptNames now r.state reg.names
  let admin := if state.admin.isSome then state.admin else reg.admin
  let hides := (reg.hides.getD []).foldl (fun m h => if (m.get? h).any (· ≠ 0) then m else m.set h reg.ts) state.hides
  { r with state := ⟨reg.seq, state.names, admin, hides⟩, bootstrapping := false, dirty := true }

def onRegistry (r : Registrar) (now : Nat) (s : String) : Registrar :=
  if s = "" then r.foreign now
  else match (b.fromSlice s).bind (verifyRegistry b.toBrowser) with
    | none => r.foreign now
    | some reg => if r.state.seq < reg.seq then r.adopt now reg else r

/-- The list with the next sequence number; names and hides are in order. -/
def build (r : Registrar) (now : Nat) : Registrar × Registry :=
  let seq := r.state.seq + 1
  let names := r.state.names.entries.map fun e => (⟨e.1, e.2.name, e.2.pk, e.2.ts⟩ : Entry)
  ({ r with state.seq := seq, dirty := false },
    { seq, ts := now
      names := names.mergeSort (·.norm ≤ ·.norm)
      admin := r.state.admin
      hides := some ((r.state.hides.entries.map Prod.fst).mergeSort (· ≤ ·)) })

end Registrar

end HidraNet.Forum
