import HidraNet.Lib.Lists
import HidraNet.Lib.Text

/-!
# Leases

Who a node has admitted, and the tunnel address each holds.  A key is given the lease it already has
(`admitAs_of_find`), and otherwise a new one at the end of the list (`admitAs_cases`); revoking a key takes away its
leases and no others (`mem_revoke`).  The file is read afresh for every change (`Leases.update`), and a change that
cannot be written leaves it as it was.
-/

namespace HidraNet.Node

open HidraNet.Lists Text

structure Lease where
  name : String
  publicKey : String
  ip : Nat
  admittedAt : Nat
  source : String
  lastSeen : Nat
deriving DecidableEq

def manual : String := "manual"

structure Leases where
  leases : List Lease
deriving DecidableEq

/-- The part of the tunnel subnet that leases are made of. -/
structure TunnelNet where
  network : Nat
  prefixLen : Nat
deriving DecidableEq

def nameOk (name : String) : Bool :=
  !(name.isEmpty || 32 < name.utf8ByteSize || !name.toList.all fun c => c.isAlphanum || c == '-' || c == '_')

namespace Leases

def find (ls : Leases) (publicKey : String) : Option Lease := ls.leases.find? (·.publicKey == trim publicKey)

def len (ls : Leases) : Nat := ls.leases.length

def nextFree (ls : Leases) (net : TunnelNet) : Except String Nat :=
  match (List.range' 2 (2 ^ (32 - net.prefixLen) - 3)).find? fun off => !ls.leases.any (·.ip == net.network + off) with
  | some off => .ok (net.network + off)
  | none => .error "the tunnel subnet is full"

def hasRoom (ls : Leases) (net : TunnelNet) : Bool := (ls.nextFree net).isOk

def countSource (ls : Leases) (source : String) : Nat := ls.leases.countP (·.source == source)

/-- Why the key cannot be given a new lease now, if it cannot. -/
def refusalForRoom (ls : Leases) (publicKey : String) (net : TunnelNet) (maxClients : Nat) (lastingOpen : Option Nat) :
    Option String :=
  if (ls.find publicKey).isSome then none
  else if ls.len ≥ maxClients || !ls.hasRoom net then some "this node is full; try another"
  else
    match lastingOpen with
    | some cap =>
      if ls.countSource "open" ≥ cap then
        some ("this node keeps its other places for keys made for one connection: no room for another lasting lease; " ++
          "connect without joining, or try another node")
      else none
    | none => none

variable (isKey : String → Bool)

/-- Admits a key, or returns the lease it already has. -/
def admitKey (ls : Leases) (name publicKey : String) (net : TunnelNet) (now : Nat) : Leases × Except String Lease :=
  let key := trim publicKey
  if !isKey key then (ls, .error "that is not a valid WireGuard public key")
  else
    match ls.find key with
    | some l => (ls, .ok l)
    | none =>
      let name := trim name
      if !nameOk name then (ls, .error "the name must be 1-32 letters, digits, - or _")
      else
        match ls.nextFree net with
        | .error e => (ls, .error e)
        | .ok ip =>
          let lease : Lease := ⟨name, key, ip, now, manual, 0⟩
          (⟨ls.leases ++ [lease]⟩, .ok lease)

def admitAs (ls : Leases) (name publicKey : String) (net : TunnelNet) (now : Nat) (source : String) :
    Leases × Except String Lease :=
  let had := (ls.find publicKey).isSome
  match ls.admitKey isKey name publicKey net now with
  | (ls, .error e) => (ls, .error e)
  | (ls, .ok lease) =>
    if had then (ls, .ok lease)
    else
      (⟨modifyFirst (fun l => l.publicKey == lease.publicKey) (fun l => { l with source := source }) ls.leases⟩,
        .ok { lease with source := source })

/-- Admits a key through the admission service; `session` marks a key made for one connection. -/
def admitOpen (ls : Leases) (name publicKey : String) (net : TunnelNet) (now : Nat) (session : Bool) :
    Leases × Except String Lease :=
  ls.admitAs isKey name publicKey net now (if session then "session" else "open")

def admitPass (ls : Leases) (name publicKey : String) (net : TunnelNet) (now : Nat) : Leases × Except String Lease :=
  ls.admitAs isKey name publicKey net now "pass"

def revoke (ls : Leases) (publicKey : String) : Leases × Bool :=
  let kept := ls.leases.filter (·.publicKey ≠ trim publicKey)
  (⟨kept⟩, kept.length ≠ ls.leases.length)

/-- Reads the leases, lets `f` change them, and what else it holds, and writes them back when it says so. -/
def update {σ α : Type} (file : Leases) (read save : Option String) (env : σ)
    (f : Leases → σ → Leases × σ × α × Bool) : Leases × σ × Except String α :=
  match read with
  | some e => (file, env, .error e)
  | none =>
    match f file env with
    | (ls, env, out, true) =>
      match save with
      | some e => (file, env, .error e)
      | none => (ls, env, .ok out)
    | (_, env, out, false) => (file, env, .ok out)

/-! ### What admitting and revoking leave -/

variable {isKey : String → Bool} {ls : Leases} {name publicKey source : String} {net : TunnelNet} {now : Nat} {l : Lease}

theorem find_trim (ls : Leases) (publicKey : String) : ls.find (trim publicKey) = ls.find publicKey := by
  unfold find
  rw [trim_trim]

theorem publicKey_of_find (h : ls.find publicKey = some l) : l ∈ ls.leases ∧ l.publicKey = trim publicKey := by
  have hk := List.find?_some h
  exact ⟨List.mem_of_find?_eq_some h, by simpa using hk⟩

theorem find_eq_none : ls.find publicKey = none ↔ ∀ l ∈ ls.leases, l.publicKey ≠ trim publicKey := by
  unfold find
  simp

/-- A key that has a lease is given it, and nothing changes. -/
theorem admitAs_of_find (hkey : isKey (trim publicKey) = true) (h : ls.find publicKey = some l) :
    ls.admitAs isKey name publicKey net now source = (ls, .ok l) := by
  unfold admitAs admitKey
  simp [hkey, find_trim, h]

/-- A key is refused, or given the lease it has, or a new one of the source at the end. -/
theorem admitAs_cases (ls : Leases) (isKey : String → Bool) (name publicKey : String) (net : TunnelNet) (now : Nat)
    (source : String) :
    (∃ e, ls.admitAs isKey name publicKey net now source = (ls, .error e)) ∨
    (∃ l, ls.find publicKey = some l ∧ ls.admitAs isKey name publicKey net now source = (ls, .ok l)) ∨
    (ls.find publicKey = none ∧ ∃ ip, ls.admitAs isKey name publicKey net now source =
      (⟨ls.leases ++ [⟨trim name, trim publicKey, ip, now, source, 0⟩]⟩,
        .ok ⟨trim name, trim publicKey, ip, now, source, 0⟩)) := by
  cases hkey : isKey (trim publicKey) with
  | false => exact Or.inl ⟨"that is not a valid WireGuard public key", by simp [admitAs, admitKey, hkey]⟩
  | true =>
    cases hfind : ls.find publicKey with
    | some l => exact Or.inr (Or.inl ⟨l, rfl, admitAs_of_find hkey hfind⟩)
    | none =>
      cases hname : nameOk (trim name) with
      | false => exact Or.inl ⟨_, by simp [admitAs, admitKey, hkey, find_trim, hfind, hname]; rfl⟩
      | true =>
        cases hfree : ls.nextFree net with
        | error e => exact Or.inl ⟨e, by simp [admitAs, admitKey, hkey, find_trim, hfind, hname, hfree]⟩
        | ok ip =>
          refine Or.inr (Or.inr ⟨rfl, ip, ?_⟩)
          have hset : modifyFirst (fun l : Lease => l.publicKey == trim publicKey) (fun l => { l with source := source })
              (ls.leases ++ [⟨trim name, trim publicKey, ip, now, manual, 0⟩]) =
                ls.leases ++ [⟨trim name, trim publicKey, ip, now, source, 0⟩] :=
            modifyFirst_concat (fun l hl => by simpa using find_eq_none.1 hfind l hl) (by simp)
          simp [admitAs, admitKey, hkey, find_trim, hfind, hname, hfree, hset]

theorem update_env {σ α : Type} {read save : Option String} {env : σ} {f : Leases → σ → Leases × σ × α × Bool}
    (h : (f ls env).2.1 = env) : (ls.update read save env f).2.1 = env := by
  unfold update
  cases read with
  | some e => rfl
  | none =>
    dsimp only
    cases hr : f ls env with
    | mk ls' r =>
      obtain ⟨env', out, changed⟩ := r
      rw [hr] at h
      cases changed with
      | false => exact h
      | true => cases save <;> exact h

theorem mem_revoke : l ∈ (ls.revoke publicKey).1.leases ↔ l ∈ ls.leases ∧ l.publicKey ≠ trim publicKey := by
  unfold revoke
  simp

end Leases

end HidraNet.Node
