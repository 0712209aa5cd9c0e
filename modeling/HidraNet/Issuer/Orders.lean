import HidraNet.Issuer.Accounts

/-!
# The orders book

Orders for packs of passes, the transactions that paid, and the records of orders that lapsed unpaid.  Times are in
seconds.  An order is open until it lapses, `UNCLAIMED_LIFETIME` after it was made, or `ORDER_LIFETIME` once a claim
reached it (`hold`).

Every operation but `markPaid`, `putBack` and `unmark` first prunes (`prune`): lapsed orders become records, and paid
orders and used transactions go after `KEEP_PAID`.  What the operations do to the orders is said by what they leave
alone: `hold` and `beforeClaim` change no column but `unclaimed` and `tries` (`map_hold`, `beforeClaim_cases`), and
`unmark` right after `markPaid` gives the orders back (`unmark_markPaid`).
-/

namespace HidraNet.Issuer

open HidraNet.Lists Ints

def MAX_OPEN_ORDERS : Nat := 20000
def MAX_OPEN_PER_ACCOUNT : Nat := 5
def MAX_HELD_ORDERS : Nat := 4000
def MAX_CLAIM_TRIES : Nat := 30
def CLOCK_SLACK : Int := 300
def ORDER_LIFETIME : Int := 86400
def UNCLAIMED_LIFETIME : Int := 7200
def LAPSED_KEPT : Int := 7 * 86400
def LAPSED_PRUNE_EVERY : Int := 86400
def KEEP_PAID : Int := 2 * ORDER_LIFETIME + CLOCK_SLACK
def TAG_DIGITS : Nat := 5

/-! ### Orders and records -/

/-- A pack to pay for, at an amount no other open order has. -/
structure Order where
  tokenSha256 : Hash
  passes : Nat
  amountRaw : Nat
  created : Int
  paidSha256 : Option Hash
  tries : Nat
  unclaimed : Bool
deriving DecidableEq

/-- What is kept of an order that lapsed unpaid. -/
structure Lapsed where
  tokenSha256 : Hash
  passes : Nat
  amountRaw : Nat
  created : Int
  lapsed : Int
  claimed : Bool
deriving DecidableEq

/-- A transaction that paid, remembered so it pays only once. -/
structure Used where
  signatureSha256 : Hash
  since : Int
deriving DecidableEq

structure Orders where
  orders : List Order
  used : List Used
  lapsed : List Lapsed
  lapsedPruned : Int
  /-- Set when the lapsed file is due to be rid of the records that lapsed up to then. -/
  dropLapsedTo : Option Int
deriving DecidableEq

def Orders.empty : Orders := ⟨[], [], [], 0, none⟩

structure Pack where
  passes : Nat
  priceRaw : Nat
deriving DecidableEq

namespace Order

def lapsesAt (o : Order) : Int := o.created + if o.unclaimed then UNCLAIMED_LIFETIME else ORDER_LIFETIME

def openAt (o : Order) (now : Int) : Bool := o.paidSha256.isNone && now < o.lapsesAt

def isOf (h : Hash) (o : Order) : Bool := same o.tokenSha256 h

def isUnpaid (o : Order) : Bool := o.paidSha256.isNone

def paidBy (sig : Hash) (o : Order) : Bool := o.paidSha256.any (same · sig)

def pay (sig : Hash) (o : Order) : Order := { o with paidSha256 := some sig }

def unpay (o : Order) : Order := { o with paidSha256 := none }

def toLapsed (o : Order) : Lapsed where
  tokenSha256 := o.tokenSha256
  passes := o.passes
  amountRaw := o.amountRaw
  created := o.created
  lapsed := o.lapsesAt
  claimed := !o.unclaimed

/-- What `prune` keeps: an open order, or a paid one for `KEEP_PAID`. -/
def stays (now : Int) (o : Order) : Bool :=
  match o.paidSha256 with
  | none => o.openAt now
  | some _ => now < o.created + KEEP_PAID

/-- What `prune` makes a record of. -/
def lapses (now : Int) (o : Order) : Bool := o.paidSha256.isNone && !o.openAt now

theorem openAt_iff {o : Order} {now : Int} : o.openAt now = true ↔ o.paidSha256 = none ∧ now < o.lapsesAt := by
  simp [openAt]

theorem created_lt_lapsesAt (o : Order) : o.created + UNCLAIMED_LIFETIME ≤ o.lapsesAt := by
  unfold lapsesAt UNCLAIMED_LIFETIME ORDER_LIFETIME
  split <;> omega

theorem lapsesAt_le (o : Order) : o.lapsesAt ≤ o.created + ORDER_LIFETIME := by
  unfold lapsesAt UNCLAIMED_LIFETIME ORDER_LIFETIME
  split <;> omega

end Order

def Lapsed.couldBePaidAt (l : Lapsed) (blockTime : Int) : Bool :=
  blockTime ≥ l.created - CLOCK_SLACK && blockTime < l.lapsed

/-- A payment the chain's RPCs agree on. -/
structure Payment where
  paidRaw : Nat
  blockTime : Int
deriving DecidableEq

def Payment.pays (p : Payment) (amountRaw : Nat) (created : Int) : Bool :=
  !(p.blockTime < created - CLOCK_SLACK) && p.paidRaw == amountRaw

namespace Orders

/-! ### Pruning -/

/-- Throws away what can no longer matter; an order that lapsed unpaid leaves a record. -/
def prune (o : Orders) (now : Int) : Orders where
  orders := o.orders.filter (Order.stays now)
  lapsed := (o.lapsed ++ (o.orders.filter (Order.lapses now)).map Order.toLapsed).filter
    fun l => now < l.lapsed + LAPSED_KEPT
  used := o.used.filter fun u => now < u.since + KEEP_PAID
  lapsedPruned := if now ≥ o.lapsedPruned + LAPSED_PRUNE_EVERY then now else o.lapsedPruned
  dropLapsedTo := if now ≥ o.lapsedPruned + LAPSED_PRUNE_EVERY then some (now - LAPSED_KEPT) else o.dropLapsedTo

def isUsed (o : Orders) (sig : Hash) : Bool := o.used.any fun u => same u.signatureSha256 sig

def markUsed (o : Orders) (sig : Hash) (now : Int) : Orders := { o with used := o.used ++ [⟨sig, now⟩] }

def unuse (o : Orders) (sig : Hash) : Orders :=
  { o with used := o.used.filter fun u => !same u.signatureSha256 sig }

/-! ### Opening an order -/

inductive Full where
  | issuer
  | account
deriving DecidableEq

def openCount (o : Orders) (now : Int) : Nat := o.orders.countP (·.openAt now)

def room (o : Orders) (hash : Hash) (now : Int) : Option Full :=
  if o.openCount now ≥ MAX_OPEN_ORDERS then some .issuer
  else if o.orders.countP (fun o => o.openAt now && o.isOf hash) ≥ MAX_OPEN_PER_ACCOUNT then some .account
  else none

def tagSpace (decimals : Nat) : Nat := 10 ^ min TAG_DIGITS decimals - 1

inductive Drawn where
  | amount (amountRaw : Nat)
  | noneFree
  | panicked
deriving DecidableEq

/-- The first amount drawn that no open order has; each draw is eight random bytes, or none. -/
def freeAmount (o : Orders) (priceRaw space : Nat) (now : Int) : List (Option Nat) → Drawn
  | [] => .noneFree
  | none :: _ => .noneFree
  | some raw :: raws =>
    if space = 0 then .panicked
    else
      let amountRaw := wrap64 (priceRaw + (raw % space + 1))
      if o.orders.any fun o => o.openAt now && o.amountRaw == amountRaw then freeAmount o priceRaw space now raws
      else .amount amountRaw

inductive Opened where
  | order (order : Order)
  | refused (why : Full)
  | panicked
deriving DecidableEq

/-- Opens an order for `pack`, at the pack's price plus a random tag no other open order has; `raws` are the draws. -/
def openOrder (o : Orders) (hash : Hash) (pack : Pack) (now : Int) (decimals : Nat) (raws : Nat → Option Nat) :
    Orders × Opened :=
  let o := o.prune now
  match o.room hash now with
  | some full => (o, .refused full)
  | none =>
    match o.freeAmount pack.priceRaw (tagSpace decimals) now ((List.range 64).map raws) with
    | .panicked => (o, .panicked)
    | .noneFree => (o, .refused .issuer)
    | .amount amountRaw =>
      let order := {
        tokenSha256 := hash
        passes := pack.passes
        amountRaw
        created := now
        paidSha256 := none
        tries := 0
        unclaimed := true }
      ({ o with orders := o.orders ++ [order] }, .order order)

/-! ### Claiming -/

/-- Holds the token's orders no claim reached yet, as many as there is room for. -/
def holdUpTo (hash : Hash) (now : Int) : Nat → List Order → List Order
  | _, [] => []
  | room, o :: os =>
    if o.openAt now && o.unclaimed && o.isOf hash then
      match room with
      | 0 => o :: os
      | room + 1 => { o with unclaimed := false } :: holdUpTo hash now room os
    else o :: holdUpTo hash now room os

def hold (o : Orders) (hash : Hash) (now : Int) : Orders :=
  let o := o.prune now
  let held := o.orders.countP fun o => o.openAt now && !o.unclaimed
  { o with orders := holdUpTo hash now (MAX_HELD_ORDERS - held) o.orders }

inductive Claimable where
  | openOrders (orders : List Order)
  | alreadyPaid (passes amountRaw : Nat)
deriving DecidableEq

inductive NotClaimable where
  | noOrder
  | used
  | tooManyTries
deriving DecidableEq

def tryOnce (o : Orders) (hash : Hash) (now : Int) : Orders :=
  { o with orders := o.orders.map fun o =>
      if o.openAt now && o.isOf hash then { o with tries := satAdd32 o.tries 1 } else o }

def openOf (o : Orders) (hash : Hash) (now : Int) : List Order :=
  o.orders.filter fun o => o.openAt now && o.isOf hash

/-- What a claim with this token and transaction may do, before the chain is asked.  The sum of the tries wraps as a
release build's does. -/
def beforeClaim (o : Orders) (hash sig : Hash) (now : Int) : Orders × Except NotClaimable Claimable :=
  let o := o.prune now
  match o.orders.find? (fun o => o.isOf hash && o.paidBy sig) with
  | some p => (o, .ok (.alreadyPaid p.passes p.amountRaw))
  | none =>
    if o.isUsed sig then (o, .error .used)
    else
      let o := (o.hold hash now).tryOnce hash now
      let found := o.openOf hash now
      if found.isEmpty then (o, .error .noOrder)
      else if wrap32 (found.map Order.tries).sum > MAX_CLAIM_TRIES then (o, .error .tooManyTries)
      else (o, .ok (.openOrders found))

def marks (hash : Hash) (amountRaw : Nat) (now : Int) (o : Order) : Bool :=
  o.openAt now && o.amountRaw == amountRaw && o.isOf hash

/-- Marks the token's open order of `amountRaw` paid by the transaction, and the transaction used. -/
def markPaid (o : Orders) (hash : Hash) (amountRaw : Nat) (sig : Hash) (now : Int) :
    Orders × Except NotClaimable Unit :=
  if o.isUsed sig then (o, .error .used)
  else if o.orders.any (marks hash amountRaw now) then
    ({ o with orders := modifyFirst (marks hash amountRaw now) (Order.pay sig) o.orders }.markUsed sig now, .ok ())
  else (o, .error .noOrder)

/-- Undoes `markPaid` when the account could not be credited. -/
def unmark (o : Orders) (hash : Hash) (amountRaw : Nat) (sig : Hash) : Orders :=
  let marked := fun o : Order => o.amountRaw == amountRaw && o.isOf hash && o.paidSha256 == some sig
  { o with orders := modifyFirst marked Order.unpay o.orders }.unuse sig

/-! ### Crediting a lapsed order by hand -/

inductive NotTaken where
  | alreadyPaid
  | noneFits
  | severalFit (n : Nat)
deriving DecidableEq

/-- Whether the record is of an order that a payment of the amount at `paidAt` could have paid, the token's if one
is given. -/
def fitsPayment (amountRaw : Nat) (paidAt : Int) (token : Option Hash) (now : Int) (l : Lapsed) : Bool :=
  l.amountRaw == amountRaw && now < l.lapsed + LAPSED_KEPT && l.couldBePaidAt paidAt &&
    token.all (same l.tokenSha256 ·)

/-- Takes out the record of the lapsed order a payment could have paid, among `kept` and those lapsing now, and
marks the transaction used; and whether the record was in `kept`. -/
def takeLapsed (o : Orders) (kept : List Lapsed) (amountRaw : Nat) (paidAt : Int) (token : Option Hash) (sig : Hash)
    (now : Int) : Orders × Except NotTaken (Lapsed × Bool) :=
  let o := o.prune now
  if o.isUsed sig then (o, .error .alreadyPaid)
  else
    match firstBy id ((kept ++ o.lapsed).filter (fitsPayment amountRaw paidAt token now)) with
    | [l] =>
      let o := o.markUsed sig now
      ({ o with lapsed := o.lapsed.filter (· ≠ l) }, .ok (l, kept.contains l))
    | [] => (o, .error .noneFits)
    | fits => (o, .error (.severalFit fits.length))

/-- Undoes `takeLapsed`: the transaction is free again, and the record, if given, goes back. -/
def putBack (o : Orders) (l : Option Lapsed) (sig : Hash) : Orders :=
  { o with lapsed := o.lapsed ++ l.toList }.unuse sig

/-! ### The lapsed file -/

/-- The lapsed file without the records `prune` found to be past their time. -/
def dropOld (o : Orders) (file : List Lapsed) : List Lapsed :=
  match o.dropLapsedTo with
  | some upTo => file.filter fun l => l.lapsed > upTo
  | none => file

def flushed (o : Orders) : Orders := { o with lapsed := [], dropLapsedTo := none }

def readLapsed (file : List Lapsed) (amountRaw : Option Nat) : List Lapsed :=
  firstBy (fun l => (l.tokenSha256, l.amountRaw, l.created)) (file.filter fun l => amountRaw.all (· == l.amountRaw))

/-! ### What pruning leaves -/

variable {o : Orders} {now : Int} {hash sig : Hash} {γ : Type*}

theorem stays_of_openAt {x : Order} (h : x.openAt now = true) : x.stays now = true := by
  have hnone := (Order.openAt_iff.1 h).1
  simp [Order.stays, hnone, h]

theorem openAt_of_stays {x : Order} (h : x.stays now = true) (hnone : x.paidSha256 = none) : x.openAt now = true := by
  simpa [Order.stays, hnone] using h

theorem mem_prune {x : Order} : x ∈ (o.prune now).orders ↔ x ∈ o.orders ∧ x.stays now = true := List.mem_filter

theorem filter_prune {p : Order → Bool} (hp : ∀ x, p x = true → x.openAt now = true) :
    (o.prune now).orders.filter p = o.orders.filter p := by
  unfold prune
  rw [List.filter_filter]
  refine List.filter_congr fun x _ => ?_
  by_cases hx : p x = true
  · simp [hx, stays_of_openAt (hp x hx)]
  · simp [hx]

theorem countP_prune {p : Order → Bool} (hp : ∀ x, p x = true → x.openAt now = true) :
    (o.prune now).orders.countP p = o.orders.countP p := by
  rw [List.countP_eq_length_filter, List.countP_eq_length_filter, filter_prune hp]

theorem isUsed_prune (h : (o.prune now).isUsed sig = true) : o.isUsed sig = true := by
  simp only [isUsed, prune, List.any_eq_true, List.mem_filter] at h ⊢
  obtain ⟨u, hu, hsame⟩ := h
  exact ⟨u, hu.1, hsame⟩

private theorem lapses_of_stays {x : Order} (h : x.stays now = true) : x.lapses now = false := by
  unfold Order.stays at h
  unfold Order.lapses
  split at h
  · rename_i hnone
    simp [h]
  · rename_i hsome
    simp [hsome]

theorem prune_prune (o : Orders) (now : Int) : (o.prune now).prune now = o.prune now := by
  have hnone : ((o.prune now).orders.filter (Order.lapses now)) = [] := by
    rw [List.filter_eq_nil_iff]
    intro x hx
    simp [lapses_of_stays (mem_prune.1 hx).2]
  have hpruned : ¬ now ≥ (o.prune now).lapsedPruned + LAPSED_PRUNE_EVERY := by
    show ¬ now ≥ (if now ≥ o.lapsedPruned + LAPSED_PRUNE_EVERY then now else o.lapsedPruned) + LAPSED_PRUNE_EVERY
    unfold LAPSED_PRUNE_EVERY
    split <;> omega
  unfold prune at hnone hpruned ⊢
  simp only [hnone, List.map_nil, List.append_nil, List.filter_filter, Bool.and_self, if_neg hpruned]

/-! ### What holding and trying leave -/

theorem map_holdUpTo {k : Order → γ} (hk : ∀ x : Order, x.openAt now = true → x.isOf hash = true →
    k { x with unclaimed := false } = k x) (room : Nat) (os : List Order) :
    (holdUpTo hash now room os).map k = os.map k := by
  induction os generalizing room with
  | nil => rfl
  | cons x os ih =>
    unfold holdUpTo
    split
    · rename_i hx
      simp only [Bool.and_eq_true] at hx
      cases room with
      | zero => rfl
      | succ room => rw [List.map_cons, List.map_cons, ih, hk x hx.1.1 hx.2]
    · rw [List.map_cons, List.map_cons, ih]

theorem map_hold {k : Order → γ} (hk : ∀ x : Order, x.openAt now = true → x.isOf hash = true →
    k { x with unclaimed := false } = k x) : (o.hold hash now).orders.map k = (o.prune now).orders.map k :=
  map_holdUpTo hk _ _

theorem hold_prune (o : Orders) (hash : Hash) (now : Int) : (o.prune now).hold hash now = o.hold hash now := by
  unfold hold
  rw [prune_prune]

theorem map_tryOnce {k : Order → γ} (hk : ∀ x : Order, ∀ n, k { x with tries := n } = k x) :
    (o.tryOnce hash now).orders.map k = o.orders.map k := by
  unfold tryOnce
  rw [List.map_map]
  refine List.map_congr_left fun x _ => ?_
  simp only [Function.comp_apply]
  split
  · exact hk x _
  · rfl

theorem filter_of_map {p p' : Order → Bool} {g : Order → γ} {l l' : List Order}
    (h : l.map (fun x => (p x, g x)) = l'.map (fun x => (p' x, g x))) :
    (l.filter p).map g = (l'.filter p').map g := by
  have hpairs := congrArg (fun m => (m.filter Prod.fst).map Prod.snd) h
  simpa [List.filter_map, List.map_map, Function.comp_def] using hpairs

theorem openAt_held {x : Order} (h : x.openAt now = true) :
    Order.openAt { x with unclaimed := false } now = true := by
  rw [Order.openAt_iff] at h ⊢
  have := x.lapsesAt_le
  refine ⟨h.1, ?_⟩
  have h2 := h.2
  unfold Order.lapsesAt UNCLAIMED_LIFETIME ORDER_LIFETIME at *
  simp only [Bool.false_eq_true, if_false]
  split at h2 <;> omega

theorem map_openOf (o : Orders) (hash : Hash) (now : Int) {k : Order → γ}
    (hk : ∀ x : Order, k { x with unclaimed := false } = k x) :
    (((o.hold hash now).tryOnce hash now).openOf hash now).map k =
      (o.openOf hash now).map fun x => k { x with tries := satAdd32 x.tries 1 } := by
  have htried : (((o.hold hash now).tryOnce hash now).openOf hash now).map k =
      ((o.hold hash now).openOf hash now).map fun x => k { x with tries := satAdd32 x.tries 1 } := by
    unfold openOf tryOnce
    rw [List.filter_map, List.map_map]
    have hsame : ((fun x : Order => x.openAt now && x.isOf hash) ∘ fun x : Order =>
        if x.openAt now && x.isOf hash then { x with tries := satAdd32 x.tries 1 } else x) =
          fun x => x.openAt now && x.isOf hash := by
      funext x
      simp only [Function.comp_apply]
      split <;> rfl
    rw [hsame]
    refine List.map_congr_left fun x hx => ?_
    simp only [Function.comp_apply, (List.mem_filter.1 hx).2, if_true]
  rw [htried]
  unfold openOf
  have hpruned : (o.prune now).orders.filter (fun x => x.openAt now && x.isOf hash) =
      o.orders.filter fun x => x.openAt now && x.isOf hash := filter_prune fun x hx => (Bool.and_eq_true _ _ ▸ hx).1
  rw [← hpruned]
  refine filter_of_map (map_hold fun x hx hh => ?_)
  simp only [openAt_held hx, hx]
  exact Prod.ext rfl (hk { x with tries := satAdd32 x.tries 1 })

/-! ### What each operation can do -/

private theorem freeAmount_free {priceRaw space amountRaw : Nat} {raws : List (Option Nat)}
    (h : o.freeAmount priceRaw space now raws = .amount amountRaw) :
    ∀ x ∈ o.orders, x.openAt now = true → x.amountRaw ≠ amountRaw := by
  induction raws with
  | nil => cases h
  | cons raw raws ih =>
    cases raw with
    | none => cases h
    | some raw =>
      unfold freeAmount at h
      split at h
      · cases h
      · dsimp only at h
        split at h
        · exact ih h
        · rename_i hfree
          rw [← Drawn.amount.inj h]
          intro x hx hopen heq
          refine hfree (List.any_eq_true.2 ⟨x, hx, ?_⟩)
          rw [hopen, Bool.true_and, beq_iff_eq, heq]

/-- An order is refused, or opened at an amount that no other open order has. -/
theorem openOrder_cases (o : Orders) (hash : Hash) (pack : Pack) (now : Int) (decimals : Nat)
    (raws : Nat → Option Nat) :
    (∃ full, (o.prune now).room hash now = some full ∧
      o.openOrder hash pack now decimals raws = (o.prune now, .refused full)) ∨
    ((o.prune now).room hash now = none ∧
      (o.openOrder hash pack now decimals raws = (o.prune now, .panicked) ∨
        o.openOrder hash pack now decimals raws = (o.prune now, .refused .issuer) ∨
        ∃ amountRaw, (∀ x ∈ (o.prune now).orders, x.openAt now = true → x.amountRaw ≠ amountRaw) ∧
          o.openOrder hash pack now decimals raws =
            ({ o.prune now with orders := (o.prune now).orders ++ [⟨hash, pack.passes, amountRaw, now, none, 0, true⟩] },
              .order ⟨hash, pack.passes, amountRaw, now, none, 0, true⟩))) := by
  unfold openOrder
  dsimp only
  cases hroom : (o.prune now).room hash now with
  | some full => exact Or.inl ⟨full, rfl, rfl⟩
  | none =>
    refine Or.inr ⟨rfl, ?_⟩
    cases hdrawn : (o.prune now).freeAmount pack.priceRaw (tagSpace decimals) now ((List.range 64).map raws) with
    | panicked => exact Or.inl rfl
    | noneFree => exact Or.inr (Or.inl rfl)
    | amount amountRaw => exact Or.inr (Or.inr ⟨amountRaw, freeAmount_free hdrawn, rfl⟩)

/-- The five answers to a claim, in the order in which they are tried. -/
theorem beforeClaim_cases (o : Orders) (hash sig : Hash) (now : Int) :
    (∃ x ∈ (o.prune now).orders, x.tokenSha256 = hash ∧ x.paidSha256 = some sig ∧
      o.beforeClaim hash sig now = (o.prune now, .ok (.alreadyPaid x.passes x.amountRaw))) ∨
    ((o.prune now).isUsed sig = true ∧ o.beforeClaim hash sig now = (o.prune now, .error .used)) ∨
    (((o.hold hash now).tryOnce hash now).openOf hash now = [] ∧
      o.beforeClaim hash sig now = ((o.hold hash now).tryOnce hash now, .error .noOrder)) ∨
    (MAX_CLAIM_TRIES < wrap32 ((((o.hold hash now).tryOnce hash now).openOf hash now).map Order.tries).sum ∧
      o.beforeClaim hash sig now = ((o.hold hash now).tryOnce hash now, .error .tooManyTries)) ∨
    o.beforeClaim hash sig now = ((o.hold hash now).tryOnce hash now,
      .ok (.openOrders (((o.hold hash now).tryOnce hash now).openOf hash now))) := by
  unfold beforeClaim
  dsimp only
  split
  · rename_i x hx
    have hfits := List.find?_some hx
    simp only [Order.isOf, Order.paidBy, Bool.and_eq_true, same_iff, Option.any_eq_true] at hfits
    obtain ⟨hof, g, hg, rfl⟩ := hfits
    exact Or.inl ⟨x, List.mem_of_find?_eq_some hx, hof, hg, rfl⟩
  · refine Or.inr ?_
    rw [hold_prune]
    split
    · rename_i hused
      exact Or.inl ⟨hused, rfl⟩
    · refine Or.inr ?_
      split
      · rename_i hempty
        exact Or.inl ⟨List.isEmpty_iff.1 hempty, rfl⟩
      · split
        · rename_i hmany
          exact Or.inr (Or.inl ⟨hmany, rfl⟩)
        · exact Or.inr (Or.inr rfl)

theorem beforeClaim_state (o : Orders) (hash sig : Hash) (now : Int) :
    (o.beforeClaim hash sig now).1 = o.prune now ∨
      (o.beforeClaim hash sig now).1 = (o.hold hash now).tryOnce hash now := by
  rcases o.beforeClaim_cases hash sig now with ⟨x, -, -, -, hc⟩ | ⟨-, hc⟩ | ⟨-, hc⟩ | ⟨-, hc⟩ | hc <;>
    rw [hc]
  · exact Or.inl rfl
  · exact Or.inl rfl
  · exact Or.inr rfl
  · exact Or.inr rfl
  · exact Or.inr rfl

/-- A mark is refused, or made on the first order it fits, with the transaction. -/
theorem markPaid_cases (o : Orders) (hash : Hash) (amountRaw : Nat) (sig : Hash) (now : Int) :
    (∃ why, o.markPaid hash amountRaw sig now = (o, .error why)) ∨
    (o.isUsed sig = false ∧ ∃ x, o.orders.find? (marks hash amountRaw now) = some x ∧
      o.markPaid hash amountRaw sig now = (
        { o with orders := modifyFirst (marks hash amountRaw now) (Order.pay sig) o.orders }.markUsed sig now,
        .ok ())) := by
  unfold markPaid
  split
  · exact Or.inl ⟨_, rfl⟩
  · rename_i hused
    split
    · rename_i hany
      refine Or.inr ⟨eq_false_of_ne_true hused, ?_⟩
      obtain ⟨x, hx⟩ := Option.isSome_iff_exists.1 (List.find?_isSome.2 (List.any_eq_true.1 hany))
      exact ⟨x, hx, rfl⟩
    · exact Or.inl ⟨_, rfl⟩

theorem unuse_markUsed (h : o.isUsed sig = false) : (o.markUsed sig now).unuse sig = o := by
  have hfree : (o.used ++ [Used.mk sig now]).filter (fun u => !same u.signatureSha256 sig) = o.used := by
    rw [List.filter_append, List.filter_eq_self.2]
    · simp
    · intro u hu
      simpa using List.any_eq_false.1 h u hu
  unfold unuse markUsed
  rw [hfree]

/-- With no order paid by a transaction that is not used, undoing a mark gives the orders back. -/
theorem unmark_markPaid {amountRaw : Nat} {o' : Orders}
    (hunpaid : ∀ x ∈ o.orders, x.paidSha256 = some sig → o.isUsed sig = true)
    (h : o.markPaid hash amountRaw sig now = (o', .ok ())) : o'.unmark hash amountRaw sig = o := by
  rcases o.markPaid_cases hash amountRaw sig now with ⟨why, hm⟩ | ⟨hused, x, hx, hm⟩
  · rw [hm] at h
    cases h
  · rw [hm] at h
    rw [← (Prod.mk.inj h).1]
    have hmarks := List.find?_some hx
    simp only [marks, Bool.and_eq_true, Order.openAt_iff] at hmarks
    have hback : modifyFirst (fun y : Order => y.amountRaw == amountRaw && y.isOf hash && y.paidSha256 == some sig)
        Order.unpay (modifyFirst (marks hash amountRaw now) (Order.pay sig) o.orders) = o.orders := by
      refine modifyFirst_modifyFirst hx (fun y hy => ?_) ?_ ?_
      · refine eq_false_of_ne_true fun hfits => ?_
        simp only [Bool.and_eq_true, beq_iff_eq] at hfits
        rw [hunpaid y hy hfits.2] at hused
        cases hused
      · simp only [Order.pay, Bool.and_eq_true, beq_self_eq_true, and_true]
        exact ⟨hmarks.1.2, hmarks.2⟩
      · cases x
        simp only [Order.pay, Order.unpay, Order.mk.injEq, and_true, true_and]
        exact hmarks.1.1.1.symm
    have hunuse : (o.markUsed sig now).unuse sig = o := unuse_markUsed hused
    simp only [unmark, markUsed, unuse] at hunuse ⊢
    rw [hback]
    exact hunuse

/-- A lapsed record is taken only where the payment fits it and no other. -/
theorem takeLapsed_cases (o : Orders) (kept : List Lapsed) (amountRaw : Nat) (paidAt : Int) (token : Option Hash)
    (sig : Hash) (now : Int) :
    (∃ why, o.takeLapsed kept amountRaw paidAt token sig now = (o.prune now, .error why)) ∨
    ∃ l, (o.prune now).isUsed sig = false ∧ l ∈ kept ++ (o.prune now).lapsed ∧
      fitsPayment amountRaw paidAt token now l = true ∧
      (∀ r ∈ kept ++ (o.prune now).lapsed, fitsPayment amountRaw paidAt token now r = true → r = l) ∧
      o.takeLapsed kept amountRaw paidAt token sig now =
        ({ (o.prune now).markUsed sig now with lapsed := (o.prune now).lapsed.filter (· ≠ l) },
          .ok (l, kept.contains l)) := by
  unfold takeLapsed
  dsimp only
  split
  · exact Or.inl ⟨_, rfl⟩
  · rename_i hused
    split
    · rename_i l hfits
      obtain ⟨hl, hall⟩ := firstBy_id_eq_singleton.1 hfits
      rw [List.mem_filter] at hl
      refine Or.inr ⟨l, eq_false_of_ne_true hused, hl.1, hl.2, fun r hr hfit => ?_, rfl⟩
      exact hall r (List.mem_filter.2 ⟨hr, hfit⟩)
    · exact Or.inl ⟨_, rfl⟩
    · exact Or.inl ⟨_, rfl⟩

end Orders

/-! ### What every run of the operations keeps -/

def Order.plain (x : Order) : Order := { x with tries := 0, unclaimed := true }

namespace Orders

variable {o o' : Orders} {clock now : Int} {hash sig : Hash} {γ : Type*}

theorem map_of_plain {f : Order → γ} (hf : ∀ x : Order, f x.plain = f x) {l l' : List Order}
    (h : l'.map Order.plain = l.map Order.plain) : l'.map f = l.map f := by
  have hmap : ∀ m : List Order, (m.map Order.plain).map f = m.map f := by
    intro m
    rw [List.map_map]
    exact List.map_congr_left fun x _ => hf x
  rw [← hmap l', h, hmap]

def Apart (o : Orders) : Prop := ((o.orders.filter Order.isUnpaid).map Order.amountRaw).Nodup

theorem unpaid_prune (o : Orders) (now : Int) :
    (o.prune now).orders.filter Order.isUnpaid = (o.prune now).orders.filter (·.openAt now) := by
  refine List.filter_congr fun x hx => ?_
  have hstays := (mem_prune.1 hx).2
  unfold Order.isUnpaid
  cases hnone : x.paidSha256 with
  | none => simp [openAt_of_stays hstays hnone]
  | some sig => simp [Order.openAt, hnone]

theorem Apart.prune (h : o.Apart) (now : Int) : (o.prune now).Apart :=
  h.sublist ((List.filter_sublist.filter _).map _)

theorem Apart.of_plain (h : o.Apart) (hos : o'.orders.map Order.plain = o.orders.map Order.plain) : o'.Apart := by
  have hamounts : (o'.orders.filter Order.isUnpaid).map Order.amountRaw =
      (o.orders.filter Order.isUnpaid).map Order.amountRaw :=
    filter_of_map (map_of_plain (fun _ => rfl) hos)
  unfold Apart
  rw [hamounts]
  exact h

theorem Apart.append (h : o.Apart) {x : Order} (hpaid : x.paidSha256 = none)
    (hfree : ∀ y ∈ o.orders.filter Order.isUnpaid, y.amountRaw ≠ x.amountRaw) :
    Apart { o with orders := o.orders ++ [x] } := by
  have hunpaid : (o.orders ++ [x]).filter Order.isUnpaid = o.orders.filter Order.isUnpaid ++ [x] := by
    rw [List.filter_append]
    simp [Order.isUnpaid, hpaid]
  show (((o.orders ++ [x]).filter Order.isUnpaid).map Order.amountRaw).Nodup
  rw [hunpaid, List.map_append, List.nodup_append]
  refine ⟨h, List.nodup_singleton _, fun a ha b hb => ?_⟩
  obtain ⟨y, hy, rfl⟩ := List.mem_map.1 ha
  rw [List.map_singleton, List.mem_singleton] at hb
  rw [hb]
  exact hfree y hy

theorem Apart.openOrder (h : o.Apart) (hash : Hash) (pack : Pack) (now : Int) (decimals : Nat)
    (raws : Nat → Option Nat) : (o.openOrder hash pack now decimals raws).1.Apart := by
  rcases o.openOrder_cases hash pack now decimals raws with ⟨full, -, ho⟩ | ⟨-, ho | ho | ⟨amountRaw, hfree, ho⟩⟩ <;>
    rw [ho]
  · exact h.prune now
  · exact h.prune now
  · exact h.prune now
  · refine (h.prune now).append rfl fun y hy => ?_
    rw [unpaid_prune] at hy
    exact hfree y (List.mem_filter.1 hy).1 (List.mem_filter.1 hy).2

theorem markPaid_split {amountRaw : Nat} {x : Order} (sig : Hash)
    (hx : o.orders.find? (marks hash amountRaw now) = some x) :
    ∃ l₁ l₂, o.orders = l₁ ++ x :: l₂ ∧ x ∈ o.orders ∧ x.openAt now = true ∧ x.amountRaw = amountRaw ∧
      x.tokenSha256 = hash ∧
      modifyFirst (marks hash amountRaw now) (Order.pay sig) o.orders = l₁ ++ x.pay sig :: l₂ ∧
      ((l₁ ++ x.pay sig :: l₂).filter Order.isUnpaid).Sublist (o.orders.filter Order.isUnpaid) := by
  obtain ⟨l₁, l₂, hsplit, hmarks, -, hmod⟩ := modifyFirst_split hx
  simp only [marks, Bool.and_eq_true, beq_iff_eq, Order.isOf, same_iff] at hmarks
  refine ⟨l₁, l₂, hsplit, List.mem_of_find?_eq_some hx, hmarks.1.1, hmarks.1.2, hmarks.2, hmod _, ?_⟩
  have hpaid := (Order.openAt_iff.1 hmarks.1.1).1
  rw [hsplit, List.filter_append, List.filter_append, List.filter_cons, List.filter_cons]
  simp only [Order.pay, Order.isUnpaid, hpaid, Option.isNone_some, Option.isNone_none, if_true,
    Bool.false_eq_true, if_false]
  exact (List.Sublist.refl _).append (List.sublist_cons_self _ _)

theorem Apart.markPaid (h : o.Apart) (hash : Hash) (amountRaw : Nat) (sig : Hash) (now : Int) :
    (o.markPaid hash amountRaw sig now).1.Apart := by
  rcases o.markPaid_cases hash amountRaw sig now with ⟨why, hm⟩ | ⟨-, x, hx, hm⟩ <;> rw [hm]
  · exact h
  · obtain ⟨l₁, l₂, -, -, -, -, -, hos, hsub⟩ := markPaid_split sig hx
    rw [hos]
    exact h.sublist (hsub.map _)

/-- No order is from the future, a transaction that paid an order is marked used, no earlier than the order was made,
and no two unpaid orders share an amount. -/
structure Sound (o : Orders) (clock : Int) : Prop where
  created : ∀ x ∈ o.orders, x.created ≤ clock
  used : ∀ x ∈ o.orders, ∀ sig, x.paidSha256 = some sig →
    ∃ u ∈ o.used, u.signatureSha256 = sig ∧ x.created ≤ u.since
  amounts : o.Apart

theorem Sound.mono (h : o.Sound clock) (hle : clock ≤ now) : o.Sound now :=
  ⟨fun x hx => (h.created x hx).trans hle, h.used, h.amounts⟩

theorem Sound.isUsed (h : o.Sound clock) : ∀ x ∈ o.orders, x.paidSha256 = some sig → o.isUsed sig = true := by
  intro x hx hsig
  obtain ⟨u, hu, hs, -⟩ := h.used x hx sig hsig
  exact List.any_eq_true.2 ⟨u, hu, by simpa using hs⟩

/-- A mark is kept for as long as the order it was made for. -/
theorem Sound.prune (h : o.Sound clock) (hle : clock ≤ now) : (o.prune now).Sound now := by
  refine ⟨fun x hx => (h.created x (mem_prune.1 hx).1).trans hle, fun x hx sig hsig => ?_, h.amounts.prune now⟩
  have hx' := mem_prune.1 hx
  obtain ⟨u, hu, hs, hsince⟩ := h.used x hx'.1 sig hsig
  have hkept : now < x.created + KEEP_PAID := by simpa [Order.stays, hsig] using hx'.2
  refine ⟨u, List.mem_filter.2 ⟨hu, ?_⟩, hs, hsince⟩
  rw [decide_eq_true_eq]
  omega

theorem Sound.of_plain (h : o.Sound clock) (hos : o'.orders.map Order.plain = o.orders.map Order.plain)
    (hused : o'.used = o.used) : o'.Sound clock := by
  have hmem : ∀ x ∈ o'.orders, ∃ y ∈ o.orders, y.created = x.created ∧ y.paidSha256 = x.paidSha256 := by
    intro x hx
    have hx' : (x.created, x.paidSha256) ∈ o'.orders.map fun y => (y.created, y.paidSha256) :=
      List.mem_map.2 ⟨x, hx, rfl⟩
    rw [map_of_plain (fun _ => rfl) hos] at hx'
    obtain ⟨y, hy, heq⟩ := List.mem_map.1 hx'
    exact ⟨y, hy, (Prod.mk.inj heq).1, (Prod.mk.inj heq).2⟩
  refine ⟨fun x hx => ?_, fun x hx sig hsig => ?_, h.amounts.of_plain hos⟩
  · obtain ⟨y, hy, hc, -⟩ := hmem x hx
    rw [← hc]
    exact h.created y hy
  · obtain ⟨y, hy, hc, hp⟩ := hmem x hx
    rw [← hc, hused]
    exact h.used y hy sig (hp.trans hsig)

theorem Sound.used_more (h : o.Sound clock) {lapsed : List Lapsed} :
    Sound { o.markUsed sig now with lapsed := lapsed } clock := by
  refine ⟨h.created, fun x hx sig' hsig => ?_, h.amounts⟩
  obtain ⟨u, hu, hs⟩ := h.used x hx sig' hsig
  exact ⟨u, List.mem_append_left _ hu, hs⟩

theorem Sound.append (h : o.Sound clock) {x : Order} (hcreated : x.created ≤ clock) (hpaid : x.paidSha256 = none)
    (hfree : ∀ y ∈ o.orders.filter Order.isUnpaid, y.amountRaw ≠ x.amountRaw) :
    Sound { o with orders := o.orders ++ [x] } clock := by
  refine ⟨fun y hy => ?_, fun y hy sig hsig => ?_, h.amounts.append hpaid hfree⟩
  · rcases List.mem_append.1 hy with hy | hy
    · exact h.created y hy
    · rw [List.mem_singleton.1 hy]
      exact hcreated
  · rcases List.mem_append.1 hy with hy | hy
    · exact h.used y hy sig hsig
    · rw [List.mem_singleton.1 hy, hpaid] at hsig
      cases hsig

theorem Sound.markPaid (h : o.Sound clock) (hle : clock ≤ now) (hash : Hash) (amountRaw : Nat) (sig : Hash) :
    (o.markPaid hash amountRaw sig now).1.Sound now := by
  have hapart := h.amounts.markPaid hash amountRaw sig now
  rcases o.markPaid_cases hash amountRaw sig now with ⟨why, hm⟩ | ⟨-, x, hx, hm⟩ <;> rw [hm] at hapart ⊢
  · exact h.mono hle
  · refine ⟨fun y hy => ?_, fun y hy sig' hsig => ?_, hapart⟩
    · rcases mem_modifyFirst hy with hy | ⟨x, hx, -, rfl⟩
      · exact (h.created y hy).trans hle
      · exact (h.created x hx).trans hle
    · rcases mem_modifyFirst hy with hy | ⟨x, hx, -, rfl⟩
      · obtain ⟨u, hu, hs⟩ := h.used y hy sig' hsig
        exact ⟨u, List.mem_append_left _ hu, hs⟩
      · exact ⟨⟨sig, now⟩, List.mem_append_right _ (List.mem_singleton_self _), Option.some.inj hsig,
          (h.created x hx).trans hle⟩

end Orders

end HidraNet.Issuer
