import HidraNet.Dht.KBuckets
import HidraNet.Lib.Maps

/-!
# Ping-backs

A node that writes is seated only after it answers a ping at the address it wrote from.  `Checks` keeps what the
checks in flight are, how many are charged to each network and which hosts have one; a check is reserved there before
it gets a permit, and released when it ends or gets none.

The four collections and the permits stay in step with the checks that run, in whatever order checks start and end
(`accounts_run`).
-/

namespace HidraNet.Dht.Pingbacks

open Net
open Maps
open Runs
open Dht.Table (NodeId NodeInfo diversityPrefix)

def MAX_PINGBACKS : Nat := 64
def PINGBACKS_PER_NETWORK : Nat := 4

def PINGBACK_BACKOFF : Nat := 30 * 10 ^ 9

def MAX_BACKOFF_ENTRIES : Nat := 4096

/-- Who a check is charged to. -/
inductive CheckBudget where
  | network (p : List Nat)
  | address (a : SocketAddr)
deriving DecidableEq

def checkBudget (addr : SocketAddr) : CheckBudget :=
  match diversityPrefix addr with
  | some p => .network p
  | none => .address addr

/-- One host, whatever port it writes from where its address is public. -/
inductive CheckHost where
  | ip (ip : IpAddr)
  | address (a : SocketAddr)
deriving DecidableEq

def checkHost (addr : SocketAddr) : CheckHost :=
  match diversityPrefix addr with
  | some _ => .ip addr.ip
  | none => .address addr

inductive CheckOutcome where
  | seated
  | wrongAnswer
  | silent
deriving DecidableEq

structure Checks where
  inFlight : Finset (NodeId × SocketAddr)
  perBudget : Map CheckBudget Nat
  perHost : Finset CheckHost
  failed : Map CheckHost Nat

namespace Checks

def default : Checks := ⟨∅, .empty, ∅, .empty⟩

/-- The first critical section of `consider_contact`; none where it returns. -/
def reserve (c : Checks) (id : NodeId) (addr : SocketAddr) (now : Nat) : Option Checks :=
  let budget := checkBudget addr
  let host := checkHost addr
  if (c.failed.get? host).any fun t => now - t < PINGBACK_BACKOFF then none
  else if (c.perBudget.get? budget).getD 0 ≥ PINGBACKS_PER_NETWORK ∨ host ∈ c.perHost then none
  else if (id, addr) ∈ c.inFlight then none
  else some {
    inFlight := insert (id, addr) c.inFlight
    perHost := insert host c.perHost
    perBudget := c.perBudget.set budget ((c.perBudget.get? budget).getD 0 + 1)
    failed := c.failed }

def noteFailed (failed : Map CheckHost Nat) (host : CheckHost) (now : Nat) : Map CheckHost Nat :=
  let failed := if failed.size ≥ MAX_BACKOFF_ENTRIES then failed.retain fun _ t => now - t < PINGBACK_BACKOFF
    else failed
  if failed.size < MAX_BACKOFF_ENTRIES then failed.set host now else failed

/-- The closure `release`; none where the count would go below zero. -/
def release (c : Checks) (id : NodeId) (addr : SocketAddr) (failed : Bool) (now : Nat) : Option Checks :=
  let budget := checkBudget addr
  let host := checkHost addr
  let perBudget := match c.perBudget.get? budget with
    | none => some c.perBudget
    | some 0 => none
    | some (n + 1) => some (if n = 0 then c.perBudget.remove budget else c.perBudget.set budget n)
  perBudget.map fun perBudget => {
    inFlight := c.inFlight.erase (id, addr)
    perHost := c.perHost.erase host
    perBudget
    failed := if failed then noteFailed c.failed host now else c.failed }

end Checks

/-! ### Checks in flight -/

structure Check where
  serial : Nat
  id : NodeId
  addr : SocketAddr
deriving DecidableEq

namespace Check

def budget (k : Check) : CheckBudget := checkBudget k.addr

def host (k : Check) : CheckHost := checkHost k.addr

def key (k : Check) : NodeId × SocketAddr := (k.id, k.addr)

end Check

/-- How many of the checks are charged to `b`. -/
def charged (l : List Check) (b : CheckBudget) : Nat := l.countP (·.budget = b)

/-- The collections are those of the checks `l`. -/
structure Counts (c : Checks) (l : List Check) : Prop where
  perBudget : ∀ b, c.perBudget.get? b = if charged l b = 0 then none else some (charged l b)
  perHost : c.perHost = (l.map (·.host)).toFinset
  inFlight : c.inFlight = (l.map (·.key)).toFinset
  few : ∀ b, charged l b ≤ PINGBACKS_PER_NETWORK
  hosts : (l.map (·.host)).Nodup

variable {c c' : Checks} {l l' : List Check} {k : Check} {now : Nat}

@[simp] theorem charged_cons (k : Check) (l : List Check) (b : CheckBudget) :
    charged (k :: l) b = charged l b + if k.budget = b then 1 else 0 := by
  simp [charged, List.countP_cons]

theorem counts_default : Counts Checks.default [] :=
  ⟨fun _ => rfl, rfl, rfl, fun _ => Nat.zero_le _, List.nodup_nil⟩

theorem Counts.perm (h : Counts c l) (hperm : l.Perm l') : Counts c l' := by
  have hcharged : ∀ b, charged l' b = charged l b := fun b => hperm.symm.countP_eq _
  refine ⟨fun b => ?_, ?_, ?_, fun b => ?_, (hperm.map _).nodup_iff.1 h.hosts⟩
  · rw [hcharged]
    exact h.perBudget b
  · rw [h.perHost]
    exact List.toFinset_eq_of_perm _ _ (hperm.map _)
  · rw [h.inFlight]
    exact List.toFinset_eq_of_perm _ _ (hperm.map _)
  · rw [hcharged]
    exact h.few b

theorem Counts.nodup_keys (h : Counts c l) : (l.map (·.key)).Nodup := by
  have hhosts : ((l.map (·.key)).map fun p => checkHost p.2).Nodup := by
    rw [List.map_map]
    exact h.hosts
  exact hhosts.of_map _

theorem Counts.reserve (h : Counts c l) (hr : c.reserve k.id k.addr now = some c') : Counts c' (k :: l) := by
  unfold Checks.reserve at hr
  dsimp only at hr
  split at hr
  · cases hr
  · split at hr
    · cases hr
    · rename_i hfree
      split at hr
      · cases hr
      · rw [not_or, not_le] at hfree
        obtain ⟨hroom, hhost⟩ := hfree
        have hcount : (c.perBudget.get? k.budget).getD 0 = charged l k.budget := by
          rw [h.perBudget]
          split
          · simp [*]
          · rfl
        change (c.perBudget.get? k.budget).getD 0 < _ at hroom
        rw [hcount] at hroom
        cases hr
        constructor
        · intro b
          change (c.perBudget.set k.budget ((c.perBudget.get? k.budget).getD 0 + 1)).get? b = _
          rw [Map.get?_set, hcount, charged_cons]
          by_cases hb : b = k.budget
          · subst hb
            simp
          · rw [if_neg hb, if_neg (show ¬ k.budget = b from fun hkb => hb hkb.symm), Nat.add_zero]
            exact h.perBudget b
        · rw [List.map_cons, List.toFinset_cons, ← h.perHost]
          rfl
        · rw [List.map_cons, List.toFinset_cons, ← h.inFlight]
          rfl
        · intro b
          have := h.few b
          rw [charged_cons]
          split
          · rename_i hb
            subst hb
            exact hroom
          · exact this
        · rw [List.map_cons, List.nodup_cons]
          refine ⟨?_, h.hosts⟩
          rw [h.perHost, List.mem_toFinset] at hhost
          exact hhost

theorem Counts.release (h : Counts c (k :: l)) (failed : Bool) (now : Nat) :
    ∃ c', c.release k.id k.addr failed now = some c' ∧ Counts c' l := by
  have hget : c.perBudget.get? (checkBudget k.addr) = some (charged l k.budget + 1) := by
    have hb := h.perBudget k.budget
    rw [charged_cons, if_pos rfl, if_neg (Nat.succ_ne_zero _)] at hb
    exact hb
  have hkeys := h.nodup_keys
  have hhosts := h.hosts
  rw [List.map_cons, List.nodup_cons] at hkeys hhosts
  have hrel : c.release k.id k.addr failed now = some {
      inFlight := c.inFlight.erase k.key
      perHost := c.perHost.erase k.host
      perBudget := if charged l k.budget = 0 then c.perBudget.remove k.budget
        else c.perBudget.set k.budget (charged l k.budget)
      failed := if failed then Checks.noteFailed c.failed k.host now else c.failed } := by
    unfold Checks.release
    dsimp only
    rw [hget]
    rfl
  refine ⟨_, hrel, fun b => ?_, ?_, ?_, fun b => ?_, hhosts.2⟩
  · have hb := h.perBudget b
    rw [charged_cons] at hb
    dsimp only
    by_cases hkb : b = k.budget
    · subst hkb
      split
      · rw [Map.get?_remove, if_pos rfl]
      · rw [Map.get?_set, if_pos rfl]
    · rw [if_neg (show ¬ k.budget = b from fun heq => hkb heq.symm), Nat.add_zero] at hb
      split
      · rw [Map.get?_remove, if_neg hkb]
        exact hb
      · rw [Map.get?_set, if_neg hkb]
        exact hb
  · dsimp only
    rw [h.perHost, List.map_cons, List.toFinset_cons]
    exact Finset.erase_insert (by rw [List.mem_toFinset]; exact hhosts.1)
  · dsimp only
    rw [h.inFlight, List.map_cons, List.toFinset_cons]
    exact Finset.erase_insert (by rw [List.mem_toFinset]; exact hkeys.1)
  · have := h.few b
    rw [charged_cons] at this
    omega

/-! ### Interleavings -/

structure State where
  ourId : NodeId
  checks : Checks
  pingbacks : Nat
  running : List Check
  /-- Ended checks that have not dropped their permit yet. -/
  ending : Nat
  /-- The serials of all checks that were reserved, and of those released. -/
  started : List Nat
  released : List Nat
  underflow : Bool

namespace State

def start (ourId : NodeId) : State := ⟨ourId, .default, MAX_PINGBACKS, [], 0, [], [], false⟩

def release (s : State) (k : Check) (failed : Bool) (now : Nat) : State :=
  match s.checks.release k.id k.addr failed now with
  | some checks => { s with checks, released := k.serial :: s.released }
  | none => { s with underflow := true }

/-- A contact's packet from `addr`; `addressOf` is where the table seats the contact. -/
def considerContact (s : State) (contact : NodeInfo) (addr : SocketAddr) (addressOf : Option SocketAddr) (now : Nat) :
    State :=
  if contact.id = s.ourId then s
  else if addressOf.isSome then s
  else
    match s.checks.reserve contact.id addr now with
    | none => s
    | some checks =>
      let k : Check := ⟨s.started.length, contact.id, addr⟩
      let s := { s with checks, started := k.serial :: s.started }
      -- no permit: released at once
      if s.pingbacks = 0 then s.release k false now
      else { s with pingbacks := s.pingbacks - 1, running := k :: s.running }

/-- The `i`-th of the running checks ends. -/
def endCheck (s : State) (i : Nat) (outcome : CheckOutcome) (now : Nat) : State :=
  match s.running[i]? with
  | none => s
  | some k => { s with running := s.running.eraseIdx i, ending := s.ending + 1 }.release k (outcome = CheckOutcome.silent) now

def dropPermit (s : State) : State :=
  if s.ending = 0 then s else { s with ending := s.ending - 1, pingbacks := s.pingbacks + 1 }

end State

inductive Event where
  | contact (contact : NodeInfo) (addr : SocketAddr) (addressOf : Option SocketAddr) (now : Nat)
  | ends (i : Nat) (outcome : CheckOutcome) (now : Nat)
  | drops

def step (s : State) : Event → State
  | .contact contact addr addressOf now => s.considerContact contact addr addressOf now
  | .ends i outcome now => s.endCheck i outcome now
  | .drops => s.dropPermit

structure Accounts (s : State) : Prop where
  counts : Counts s.checks s.running
  permits : s.pingbacks + s.ending + s.running.length = MAX_PINGBACKS
  started : s.started = (List.range s.started.length).reverse
  released : s.started.Perm (s.running.map (·.serial) ++ s.released)
  sound : s.underflow = false

theorem accounts_start (ourId : NodeId) : Accounts (.start ourId) :=
  ⟨counts_default, rfl, rfl, .nil, rfl⟩

variable {s : State}

theorem Accounts.considerContact (h : Accounts s) (contact : NodeInfo) (addr : SocketAddr)
    (addressOf : Option SocketAddr) (now : Nat) : Accounts (s.considerContact contact addr addressOf now) := by
  unfold State.considerContact
  split
  · exact h
  · split
    · exact h
    · split
      · exact h
      · rename_i checks hreserve
        have hcounts : Counts checks (⟨s.started.length, contact.id, addr⟩ :: s.running) := h.counts.reserve hreserve
        have hstarted : s.started.length :: s.started = (List.range (s.started.length + 1)).reverse := by
          rw [List.range_succ, List.reverse_append, ← h.started]
          rfl
        dsimp only
        split
        · obtain ⟨checks', hrelease, hcounts'⟩ := hcounts.release false now
          unfold State.release
          rw [hrelease]
          refine ⟨hcounts', h.permits, hstarted, ?_, h.sound⟩
          exact (h.released.cons _).trans List.perm_middle.symm
        · have := h.permits
          refine ⟨hcounts, ?_, hstarted, h.released.cons _, h.sound⟩
          dsimp only [List.length_cons]
          omega

theorem Accounts.endCheck (h : Accounts s) (i : Nat) (outcome : CheckOutcome) (now : Nat) :
    Accounts (s.endCheck i outcome now) := by
  unfold State.endCheck
  split
  · exact h
  · rename_i k hk
    have hlt : i < s.running.length := (List.getElem?_eq_some_iff.1 hk).1
    have hget : s.running[i] = k := (List.getElem?_eq_some_iff.1 hk).2
    have hperm : s.running.Perm (k :: s.running.eraseIdx i) := by
      rw [← hget]
      exact (List.getElem_cons_eraseIdx_perm hlt).symm
    obtain ⟨checks', hrelease, hcounts'⟩ := (h.counts.perm hperm).release (outcome = CheckOutcome.silent) now
    unfold State.release
    dsimp only
    rw [hrelease]
    refine ⟨hcounts', ?_, h.started, ?_, h.sound⟩
    · have := h.permits
      have := List.length_eraseIdx_of_lt hlt
      dsimp only
      omega
    · exact h.released.trans (((hperm.map _).append_right _).trans List.perm_middle.symm)

theorem Accounts.step (h : Accounts s) (e : Event) : Accounts (step s e) := by
  cases e with
  | contact contact addr addressOf now => exact h.considerContact contact addr addressOf now
  | ends i outcome now => exact h.endCheck i outcome now
  | drops =>
    change Accounts s.dropPermit
    unfold State.dropPermit
    split
    · exact h
    · have := h.permits
      refine ⟨h.counts, ?_, h.started, h.released, h.sound⟩
      dsimp only
      omega

/-- However checks start and end: each budget is charged with its checks in flight, the hosts and the entries are
theirs, no network has more than four, no host two and the node no more than its permits; the count never goes below
zero, and every check that was started is released once or still in flight. -/
theorem accounts_run (ourId : NodeId) (es : List Event) :
    let s := run step (.start ourId) es
    (∀ b, s.checks.perBudget.get? b = if charged s.running b = 0 then none else some (charged s.running b)) ∧
    s.checks.perHost = (s.running.map (·.host)).toFinset ∧
    s.checks.inFlight = (s.running.map (·.key)).toFinset ∧ s.checks.inFlight.card = s.running.length ∧
    (∀ b, charged s.running b ≤ PINGBACKS_PER_NETWORK) ∧ (s.running.map (·.host)).Nodup ∧
    s.running.length ≤ MAX_PINGBACKS ∧
    s.underflow = false ∧
    s.started.Nodup ∧ s.started.Perm (s.running.map (·.serial) ++ s.released) ∧
    (s.running = [] → s.checks.perBudget = .empty ∧ s.checks.perHost = ∅ ∧ s.checks.inFlight = ∅) := by
  intro s
  have h : Accounts s := run_always (fun _ e h => h.step e) (accounts_start ourId) es
  have hcard : s.checks.inFlight.card = s.running.length := by
    rw [h.counts.inFlight, List.toFinset_card_of_nodup h.counts.nodup_keys, List.length_map]
  have hstarted : s.started.Nodup := by
    rw [h.started, List.nodup_reverse]
    exact List.nodup_range
  have hfew : s.running.length ≤ MAX_PINGBACKS := by
    have := h.permits
    omega
  refine ⟨h.counts.perBudget, h.counts.perHost, h.counts.inFlight, hcard, h.counts.few, h.counts.hosts, hfew, h.sound,
    hstarted, h.released, fun hnone => ⟨?_, ?_, ?_⟩⟩
  · refine Map.eq_empty fun b => ?_
    rw [h.counts.perBudget, hnone]
    rfl
  · rw [h.counts.perHost, hnone]
    rfl
  · rw [h.counts.inFlight, hnone]
    rfl

end HidraNet.Dht.Pingbacks
