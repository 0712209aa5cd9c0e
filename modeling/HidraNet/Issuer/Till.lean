import HidraNet.Issuer.Files

/-!
# The till: quotes, claims and credits by hand

The issuer's two files under everything that changes them at once.  A claim is several durable steps: its token's
orders are tried (`beforeClaim`), the chain is asked, its order is marked paid in the orders file (`mark`), the account
is credited in the accounts file (`credit`), and if that fails the mark is taken back (`unmark`).  An `order credit` is
the same three (`take`, `creditTaken`, `putBack`).  Any write may fail, and either process may stop between any two
steps.

The issuer's lock is held from the mark to the credit or the mark taken back, so that a claim in between holds up the
issuer's other changes of the orders file, and no `order credit`, which is a process of its own (`Till.Allowed`).

A claim marks its order with the time it began at.  Times never go back but for that: it may be under way for
`UNDER_WAY` meanwhile, some twelve hours.
-/

namespace HidraNet.Issuer

open Runs Orders

/-- How long a claim may be under way: twice that, an order's life and the slack of two clocks are `KEEP_PAID`. -/
def UNDER_WAY : Int := (KEEP_PAID - ORDER_LIFETIME - 2 * CLOCK_SLACK) / 2

/-- A claim the chain is asked about. -/
structure Asked where
  hash : Hash
  sig : Hash
  since : Int
  candidates : List Order
deriving DecidableEq

def Asked.paid (a : Asked) (p : Payment) : Option Order := a.candidates.find? fun x => p.pays x.amountRaw x.created

theorem Asked.of_paid {a : Asked} {p : Payment} {x : Order} (h : a.paid p = some x) :
    x ∈ a.candidates ∧ p.pays x.amountRaw x.created = true := by
  unfold Asked.paid at h
  have hpays := List.find?_some h
  exact ⟨List.mem_of_find?_eq_some h, hpays⟩

/-- A pack an account is to have for a transaction, marked used at `since`. -/
structure Due where
  hash : Hash
  passes : Nat
  amountRaw : Nat
  sig : Hash
  since : Int
deriving DecidableEq

/-- A claim that marked its order, and whether crediting the account failed. -/
structure Marked where
  due : Due
  refused : Bool
deriving DecidableEq

/-- An `order credit` that took its record, and whether crediting the account failed. -/
structure Taken where
  record : Lapsed
  sig : Hash
  since : Int
  refused : Bool
deriving DecidableEq

def Taken.due (t : Taken) : Due := ⟨t.record.tokenSha256, t.record.passes, t.record.amountRaw, t.sig, t.since⟩

structure Till where
  disk : Disk
  clock : Int
  asked : List Asked
  marked : Option Marked
  taken : List Taken
  credited : List Due
deriving DecidableEq

inductive TillStep where
  | quote (hash : Hash) (pack : Pack) (decimals : Nat) (raws : Nat → Option Nat) (now : Int) (w : UpdateFaults)
  | hold (hash : Hash) (now : Int) (w : UpdateFaults)
  | beforeClaim (hash sig : Hash) (now : Int) (w : UpdateFaults)
  /-- The chain's answer to the claim asked about at place `i`. -/
  | mark (i : Nat) (now : Int) (w : UpdateFaults)
  | credit (fails : Bool) (raw : Option String)
  | unmark (w : UpdateFaults)
  | crash
  | take (c : CreditArgs) (rewriteFails : Bool) (w : UpdateFaults)
  | creditTaken (i : Nat) (fails : Bool) (raw : Option String)
  | putBack (i : Nat) (w : UpdateFaults)
  /-- The `order credit` at place `i` stops. -/
  | crashTaken (i : Nat)

namespace Till

def start (d : Disk) (clock : Int) : Till := ⟨d, clock, [], none, [], []⟩

/-- A panic in `openOrder` leaves the files as they are. -/
def quote (s : Till) (hash : Hash) (pack : Pack) (decimals : Nat) (raws : Nat → Option Nat) (now : Int)
    (w : UpdateFaults) : Till :=
  if (s.disk.orders.loaded.openOrder hash pack now decimals raws).2 = .panicked then { s with clock := now }
  else
    { s with
      disk := (updateOrders s.disk w fun o file => ((o.openOrder hash pack now decimals raws).1, file, ())).1
      clock := now }

def hold (s : Till) (hash : Hash) (now : Int) (w : UpdateFaults) : Till :=
  { s with disk := (updateOrders s.disk w fun o file => (o.hold hash now, file, ())).1, clock := now }

def beforeClaim (s : Till) (hash sig : Hash) (now : Int) (w : UpdateFaults) : Till :=
  match updateOrders s.disk w fun o file => ((o.beforeClaim hash sig now).1, file, (o.beforeClaim hash sig now).2) with
  | (d, .ok (.ok (.openOrders candidates))) =>
    { s with disk := d, clock := now, asked := s.asked ++ [⟨hash, sig, now, candidates⟩] }
  | (d, _) => { s with disk := d, clock := now }

variable (chain : Hash → Option Payment)

def mark (s : Till) (i : Nat) (now : Int) (w : UpdateFaults) : Till :=
  match s.asked[i]? with
  | none => s
  | some a =>
    let s := { s with clock := now, asked := s.asked.eraseIdx i }
    match (chain a.sig).bind a.paid with
    | none => s
    | some x =>
      match updateOrders s.disk w fun o file =>
        ((o.markPaid a.hash x.amountRaw a.sig a.since).1, file, (o.markPaid a.hash x.amountRaw a.sig a.since).2) with
      | (d, .ok (.ok _)) =>
        { s with disk := d, marked := some ⟨⟨a.hash, x.passes, x.amountRaw, a.sig, a.since⟩, false⟩ }
      | (d, _) => { s with disk := d }

def credit (s : Till) (fails : Bool) (raw : Option String) : Till :=
  match s.marked with
  | none => s
  | some m =>
    match creditAccount s.disk fails raw m.due.hash m.due.passes with
    | (d, some _) => { s with disk := d, marked := none, credited := s.credited ++ [m.due] }
    | (d, none) => { s with disk := d, marked := some { m with refused := true } }

def unmark (s : Till) (w : UpdateFaults) : Till :=
  match s.marked with
  | none => s
  | some m =>
    { s with
      disk := (updateOrders s.disk w fun o file => (o.unmark m.due.hash m.due.amountRaw m.due.sig, file, ())).1
      marked := none }

def take (s : Till) (c : CreditArgs) (rewriteFails : Bool) (w : UpdateFaults) : Till :=
  match updateOrders s.disk w (takeRecord c rewriteFails) with
  | (d, .ok (.ok l)) => { s with disk := d, clock := c.now, taken := s.taken ++ [⟨l, c.sig, c.now, false⟩] }
  | (d, _) => { s with disk := d, clock := c.now }

def creditTaken (s : Till) (i : Nat) (fails : Bool) (raw : Option String) : Till :=
  match s.taken[i]? with
  | none => s
  | some t =>
    match creditAccount s.disk fails raw t.record.tokenSha256 t.record.passes with
    | (d, some _) => { s with disk := d, taken := s.taken.eraseIdx i, credited := s.credited ++ [t.due] }
    | (d, none) => { s with disk := d, taken := s.taken.set i { t with refused := true } }

def putBack (s : Till) (i : Nat) (w : UpdateFaults) : Till :=
  match s.taken[i]? with
  | none => s
  | some t =>
    { s with
      disk := (updateOrders s.disk w fun o file => (o.putBack (some t.record) t.sig, file, ())).1
      taken := s.taken.eraseIdx i }

def step (s : Till) : TillStep → Till
  | .quote hash pack decimals raws now w => s.quote hash pack decimals raws now w
  | .hold hash now w => s.hold hash now w
  | .beforeClaim hash sig now w => s.beforeClaim hash sig now w
  | .mark i now w => s.mark chain i now w
  | .credit fails raw => s.credit fails raw
  | .unmark w => s.unmark w
  | .crash => { s with asked := [], marked := none }
  | .take c rewriteFails w => s.take c rewriteFails w
  | .creditTaken i fails raw => s.creditTaken i fails raw
  | .putBack i w => s.putBack i w
  | .crashTaken i => { s with taken := s.taken.eraseIdx i }

/-- What can happen: the issuer's lock is held from a mark on, an account that could not be credited is not tried again,
times never go back, payments are those of the chain, and a block's time is at most `CLOCK_SLACK` ahead of the clock. -/
def Allowed (s : Till) : TillStep → Prop
  | .quote _ _ _ _ now _ | .hold _ now _ | .beforeClaim _ _ now _ => s.marked = none ∧ s.clock ≤ now
  | .mark i now _ => s.marked = none ∧ s.clock ≤ now ∧ ∀ a ∈ s.asked[i]?, now < a.since + UNDER_WAY ∧
      ∀ p ∈ chain a.sig, p.blockTime ≤ now + CLOCK_SLACK
  | .credit _ _ => ∃ m ∈ s.marked, m.refused = false
  | .unmark _ => ∃ m ∈ s.marked, m.refused = true
  | .take c _ _ => s.clock ≤ c.now ∧ chain c.sig = some ⟨c.amountRaw, c.paidAt⟩ ∧ c.paidAt ≤ c.now + CLOCK_SLACK
  | .creditTaken i _ _ => ∃ t ∈ s.taken[i]?, t.refused = false
  | .putBack i _ => ∃ t ∈ s.taken[i]?, t.refused = true
  | .crash | .crashTaken _ => True

instance decidableAllowed (s : Till) : ∀ e, Decidable (s.Allowed chain e)
  | .quote _ _ _ _ now _ | .hold _ now _ | .beforeClaim _ _ now _ =>
    inferInstanceAs (Decidable (s.marked = none ∧ s.clock ≤ now))
  | .mark i now _ => inferInstanceAs (Decidable (s.marked = none ∧ s.clock ≤ now ∧ ∀ a ∈ s.asked[i]?,
      now < a.since + UNDER_WAY ∧ ∀ p ∈ chain a.sig, p.blockTime ≤ now + CLOCK_SLACK))
  | .credit _ _ => inferInstanceAs (Decidable (∃ m ∈ s.marked, m.refused = false))
  | .unmark _ => inferInstanceAs (Decidable (∃ m ∈ s.marked, m.refused = true))
  | .take c _ _ => inferInstanceAs (Decidable (s.clock ≤ c.now ∧ chain c.sig = some ⟨c.amountRaw, c.paidAt⟩ ∧
      c.paidAt ≤ c.now + CLOCK_SLACK))
  | .creditTaken i _ _ => inferInstanceAs (Decidable (∃ t ∈ s.taken[i]?, t.refused = false))
  | .putBack i _ => inferInstanceAs (Decidable (∃ t ∈ s.taken[i]?, t.refused = true))
  | .crash | .crashTaken _ => isTrue trivial

end Till

/-! ### What a step leaves of the files -/

section Update

variable {α : Type} {d : Disk} {w : UpdateFaults} {f : Orders → List Lapsed → Orders × List Lapsed × α}

theorem updateOrders_cases (d : Disk) (w : UpdateFaults) (f : Orders → List Lapsed → Orders × List Lapsed × α) :
    (updateOrders d w f).1.accounts = d.accounts ∧
      ((∃ why, (updateOrders d w f).2 = .error why) ∧ (updateOrders d w f).1.orders = d.orders ∨
        (updateOrders d w f).2 = .ok (f d.orders.loaded d.lapsedFile).2.2 ∧
          (updateOrders d w f).1.orders.orders = (f d.orders.loaded d.lapsedFile).1.orders ∧
          (updateOrders d w f).1.orders.used = (f d.orders.loaded d.lapsedFile).1.used) := by
  unfold updateOrders
  obtain ⟨o, file, out⟩ := f d.orders.loaded d.lapsedFile
  dsimp only
  obtain ⟨file', -, -, ⟨why, hw⟩ | ⟨hw, -, hsame⟩ | ⟨hw, -⟩⟩ := writeOrders_cases d w o file out <;> rw [hw]
  · exact ⟨rfl, Or.inl ⟨⟨why, rfl⟩, rfl⟩⟩
  · simp only [Orders.differs, Bool.or_eq_false_iff, decide_eq_false_iff_not, not_not] at hsame
    exact ⟨rfl, Or.inr ⟨rfl, hsame.1.1.symm, hsame.1.2.symm⟩⟩
  · exact ⟨rfl, Or.inr ⟨rfl, rfl, rfl⟩⟩

theorem updateOrders_ok (d : Disk) (w : UpdateFaults) (f : Orders → List Lapsed → Orders × List Lapsed × α)
    (h : updateFails (f d.orders.loaded d.lapsedFile).1 w = false) :
    ∃ d', updateOrders d w f = (d', .ok (f d.orders.loaded d.lapsedFile).2.2) ∧
      d'.orders.orders = (f d.orders.loaded d.lapsedFile).1.orders ∧
      d'.orders.used = (f d.orders.loaded d.lapsedFile).1.used := by
  have hok : (updateOrders d w f).2 = .ok (f d.orders.loaded d.lapsedFile).2.2 := writeOrders_ok d w _ _ _ h
  obtain ⟨-, ⟨⟨why, hwhy⟩, -⟩ | ⟨-, ho, hu⟩⟩ := updateOrders_cases d w f
  · rw [hok] at hwhy
    cases hwhy
  · exact ⟨(updateOrders d w f).1, Prod.ext rfl hok, ho, hu⟩

end Update

theorem creditAccount_orders (d : Disk) (fails : Bool) (raw : Option String) (hash : Hash) (passes : Nat) :
    (creditAccount d fails raw hash passes).1.orders = d.orders := by
  unfold creditAccount
  split
  · split <;> rfl
  · rfl

theorem run_orderCredit (chain : Hash → Option Payment) (s : Till) (c : CreditArgs) (w : CreditFaults) :
    (run (Till.step chain) s [.take c w.rewrite w.update, .creditTaken s.taken.length w.accounts w.raw,
      .putBack s.taken.length w.putBack]).disk = (creditLapsed s.disk c w).1 := by
  unfold creditLapsed
  simp only [run_cons, run_nil, Till.step, Till.take]
  obtain ⟨d, r⟩ := updateOrders s.disk w.update (takeRecord c w.rewrite)
  have hgone : s.taken[s.taken.length]? = none := List.getElem?_eq_none (Nat.le_refl _)
  rcases r with why | (why | l)
  · simp only [Till.creditTaken, Till.putBack, hgone]
  · simp only [Till.creditTaken, Till.putBack, hgone]
  · have hlast : (s.taken ++ [⟨l, c.sig, c.now, false⟩])[s.taken.length]? = some ⟨l, c.sig, c.now, false⟩ := by simp
    simp only [Till.creditTaken, hlast, updateCredit]
    obtain ⟨d', r'⟩ := creditAccount d w.accounts w.raw l.tokenSha256 l.passes
    rcases r' with _ | balance
    · have hset : ((s.taken ++ [Taken.mk l c.sig c.now false]).set s.taken.length ⟨l, c.sig, c.now, true⟩)[
          s.taken.length]? = some ⟨l, c.sig, c.now, true⟩ := by simp
      simp only [Till.putBack, hset]
      obtain ⟨d'', r''⟩ := updateOrders d' w.putBack fun o file => (o.putBack (some l) c.sig, file, ())
      rcases r'' with why | _ <;> rfl
    · have herased : ((s.taken ++ [Taken.mk l c.sig c.now false]).eraseIdx s.taken.length)[s.taken.length]? =
          none := by
        rw [List.getElem?_eq_none]
        simp [List.length_eraseIdx]
      simp only [Till.putBack, herased]

end HidraNet.Issuer
