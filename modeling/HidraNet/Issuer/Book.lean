import HidraNet.Lib.Runs
import HidraNet.Issuer.Orders

/-!
# The orders book over whole runs

The orders file and the lapsed file under any sequence of the operations, at times that never go back, from an empty
book.  Beside them the book remembers what no file does: every order ever opened, the records taken for a credit by
hand, and what was thrown away as past its time.

* `BookKept s t` is what holds at every time `t` from the last operation on: the open orders have amounts of their
  own and keep to the caps, and every order ever opened is in the book, or recorded, or taken, or past its time,
  each once.
* `Kept` is the invariant.  Of the unpaid orders it says what `BookKept` says of the open ones, since those that
  lapsed meanwhile are still among them until the next prune; an amount and a time name an unpaid order, a record or
  a taken record, so that taking a record out takes out no other; and a transaction that paid an order is marked used
  for as long as the order is kept, so that undoing a mark undoes that mark.
* `bookKept_run` is the result, from `kept_step` by induction on the run.
-/

namespace HidraNet.Issuer

open HidraNet.Lists Runs Orders

/-! ### The book and its operations -/

structure Book where
  o : Orders
  file : List Lapsed
  clock : Int
  /-- The token, amount and transaction of the last operation, if it marked an order paid. -/
  marked : Option (Hash × Nat × Hash)
  opened : List Order
  taken : List Lapsed
  goneOrders : List Order
  goneRecords : List Lapsed

inductive BookOp where
  | openOrder (hash : Hash) (pack : Pack) (decimals : Nat) (raws : Nat → Option Nat) (now : Int)
  | hold (hash : Hash) (now : Int)
  | beforeClaim (hash sig : Hash) (now : Int)
  | markPaid (hash : Hash) (amountRaw : Nat) (sig : Hash) (now : Int)
  | unmark (hash : Hash) (amountRaw : Nat) (sig : Hash)
  | takeLapsed (amountRaw : Nat) (paidAt : Int) (token : Option Hash) (sig : Hash) (now : Int)
  | prune (now : Int)
  /-- The records on their way go to the lapsed file, and it is rid of the old ones when that is due. -/
  | flush

namespace Book

def empty (clock : Int) : Book := ⟨Orders.empty, [], clock, none, [], [], [], []⟩

def records (s : Book) : List Lapsed := s.file ++ s.o.lapsed

def unpaid (s : Book) : List Order := s.o.orders.filter Order.isUnpaid

/-- Pruning, with what it throws away. -/
def prune (s : Book) (now : Int) : Book :=
  { s with
    o := s.o.prune now
    clock := now
    marked := none
    goneOrders := s.goneOrders ++ s.o.orders.filter fun x => !x.isUnpaid && !x.stays now
    goneRecords := s.goneRecords ++ (s.o.lapsed ++ (s.o.orders.filter (Order.lapses now)).map Order.toLapsed).filter
      fun l => !(decide (now < l.lapsed + LAPSED_KEPT)) }

def openOrder (s : Book) (hash : Hash) (pack : Pack) (decimals : Nat) (raws : Nat → Option Nat) (now : Int) : Book :=
  match s.o.openOrder hash pack now decimals raws with
  | (o, .order x) => { s.prune now with o, opened := s.opened ++ [x] }
  | (o, .refused _) => { s.prune now with o }
  -- nothing of it is kept
  | (_, .panicked) => { s with clock := now, marked := none }

def markPaid (s : Book) (hash : Hash) (amountRaw : Nat) (sig : Hash) (now : Int) : Book :=
  match s.o.markPaid hash amountRaw sig now with
  | (o, .ok _) => { s with o, clock := now, marked := some (hash, amountRaw, sig) }
  | (o, .error _) => { s with o, clock := now, marked := none }

def unmark (s : Book) (hash : Hash) (amountRaw : Nat) (sig : Hash) : Book :=
  { s with o := s.o.unmark hash amountRaw sig, marked := none }

def takeLapsed (s : Book) (amountRaw : Nat) (paidAt : Int) (token : Option Hash) (sig : Hash) (now : Int) : Book :=
  match s.o.takeLapsed (readLapsed s.file (some amountRaw)) amountRaw paidAt token sig now with
  | (o, .ok (l, inFile)) =>
    { s.prune now with o, file := if inFile then s.file.filter (· ≠ l) else s.file, taken := s.taken ++ [l] }
  | (o, .error _) => { s.prune now with o }

def flush (s : Book) : Book :=
  { s with
    o := s.o.flushed
    file := s.o.dropOld s.records
    marked := none
    goneRecords := s.goneRecords ++ match s.o.dropLapsedTo with
      | some upTo => s.records.filter fun l => !(decide (l.lapsed > upTo))
      | none => [] }

def step (s : Book) : BookOp → Book
  | .openOrder hash pack decimals raws now => s.openOrder hash pack decimals raws now
  | .hold hash now => { s.prune now with o := s.o.hold hash now }
  | .beforeClaim hash sig now => { s.prune now with o := (s.o.beforeClaim hash sig now).1 }
  | .markPaid hash amountRaw sig now => s.markPaid hash amountRaw sig now
  | .unmark hash amountRaw sig => s.unmark hash amountRaw sig
  | .takeLapsed amountRaw paidAt token sig now => s.takeLapsed amountRaw paidAt token sig now
  | .prune now => s.prune now
  | .flush => s.flush

def Allowed (s : Book) : BookOp → Prop
  | .openOrder _ _ _ _ now | .hold _ now | .beforeClaim _ _ now | .markPaid _ _ _ now | .takeLapsed _ _ _ _ now
  | .prune now => s.clock ≤ now
  | .unmark hash amountRaw sig => s.marked = some (hash, amountRaw, sig)
  | .flush => True

instance decidableAllowed (s : Book) : ∀ e, Decidable (s.Allowed e)
  | .openOrder _ _ _ _ now | .hold _ now | .beforeClaim _ _ now | .markPaid _ _ _ now | .takeLapsed _ _ _ _ now
  | .prune now => inferInstanceAs (Decidable (s.clock ≤ now))
  | .unmark hash amountRaw sig => inferInstanceAs (Decidable (s.marked = some (hash, amountRaw, sig)))
  | .flush => isTrue trivial

end Book

/-! ### What is kept -/

def Order.terms (x : Order) : Hash × Nat × Nat × Int := (x.tokenSha256, x.passes, x.amountRaw, x.created)

def Lapsed.terms (l : Lapsed) : Hash × Nat × Nat × Int := (l.tokenSha256, l.passes, l.amountRaw, l.created)

/-- What holds of the book at the time `t`. -/
structure BookKept (s : Book) (t : Int) : Prop where
  amounts : ((s.o.orders.filter (·.openAt t)).map Order.amountRaw).Nodup
  open_ : s.o.openCount t ≤ MAX_OPEN_ORDERS
  account : ∀ h, (s.o.orders.countP fun x => x.openAt t && x.isOf h) ≤ MAX_OPEN_PER_ACCOUNT
  held : (s.o.orders.countP fun x => x.openAt t && !x.unclaimed) ≤ MAX_HELD_ORDERS
  /-- Each order ever opened is in the book, recorded, taken, or gone. -/
  accounted : (s.opened.map Order.terms).Perm (s.o.orders.map Order.terms ++ s.records.map Lapsed.terms ++
    s.taken.map Lapsed.terms ++ (s.goneOrders.map Order.terms ++ s.goneRecords.map Lapsed.terms))
  /-- What is gone was paid and made `KEEP_PAID` ago, or lapsed `LAPSED_KEPT` ago. -/
  gone : (∀ x ∈ s.goneOrders, x.paidSha256 ≠ none ∧ x.created + KEEP_PAID ≤ t) ∧
    ∀ l ∈ s.goneRecords, l.lapsed + LAPSED_KEPT ≤ t

def Order.key (x : Order) : Nat × Int := (x.amountRaw, x.created)

def Lapsed.key (l : Lapsed) : Nat × Int := (l.amountRaw, l.created)

structure Kept (s : Book) : Prop where
  sound : s.o.Sound s.clock
  drop : ∀ upTo ∈ s.o.dropLapsedTo, upTo + LAPSED_KEPT ≤ s.clock
  open_ : s.unpaid.length ≤ MAX_OPEN_ORDERS
  account : ∀ h, s.unpaid.countP (Order.isOf h) ≤ MAX_OPEN_PER_ACCOUNT
  held : s.unpaid.countP (fun x => !x.unclaimed) ≤ MAX_HELD_ORDERS
  earlier : ∀ l ∈ s.records ++ s.taken, l.created < s.clock
  keys : ∀ k, (s.unpaid.map Order.key).count k + (s.records.map Lapsed.key).count k +
    (s.taken.map Lapsed.key).count k ≤ 1
  accounted : ∀ t, (s.opened.map Order.terms).count t = (s.o.orders.map Order.terms).count t +
    (s.records.map Lapsed.terms).count t + (s.taken.map Lapsed.terms).count t +
    (s.goneOrders.map Order.terms).count t + (s.goneRecords.map Lapsed.terms).count t
  goneOrders : ∀ x ∈ s.goneOrders, x.paidSha256 ≠ none ∧ x.created + KEEP_PAID ≤ s.clock
  goneRecords : ∀ l ∈ s.goneRecords, l.lapsed + LAPSED_KEPT ≤ s.clock

theorem kept_empty (clock : Int) : Kept (Book.empty clock) := by
  constructor <;> simp [Book.empty, Orders.empty, Book.unpaid, Book.records]
  constructor <;> simp [Apart]

/-! ### Pruning -/

variable {s : Book} {now : Int}

private theorem unpaid_prune_book (s : Book) (now : Int) : (s.prune now).unpaid = s.unpaid.filter (·.openAt now) := by
  unfold Book.unpaid Book.prune Orders.prune
  dsimp only
  rw [List.filter_filter, List.filter_filter]
  refine List.filter_congr fun x _ => ?_
  unfold Order.isUnpaid Order.stays
  cases x.paidSha256 <;> simp

private theorem lapsing_eq (s : Book) (now : Int) :
    s.o.orders.filter (Order.lapses now) = s.unpaid.filter fun x => !x.openAt now := by
  unfold Book.unpaid
  rw [List.filter_filter]
  exact List.filter_congr fun x _ => Bool.and_comm _ _

private theorem count_orders {γ : Type*} [BEq γ] (f : Order → γ) (os : List Order) (now : Int) (b : γ) :
    (os.map f).count b = ((os.filter (Order.stays now)).map f).count b +
      ((os.filter (Order.lapses now)).map f).count b +
      ((os.filter fun x => !x.isUnpaid && !x.stays now).map f).count b := by
  have hlapses : os.filter (Order.lapses now) = (os.filter fun x => !x.stays now).filter Order.isUnpaid := by
    rw [List.filter_filter]
    refine List.filter_congr fun x _ => ?_
    unfold Order.lapses Order.isUnpaid Order.stays
    cases x.paidSha256 <;> simp
  have hgone : (os.filter fun x => !x.isUnpaid && !x.stays now) =
      (os.filter fun x => !x.stays now).filter fun x => !x.isUnpaid := (List.filter_filter ..).symm
  rw [count_map_filter_add (Order.stays now), count_map_filter_add Order.isUnpaid f (os.filter fun x => !x.stays now),
    hlapses, hgone, Nat.add_assoc]

private theorem map_toLapsed {γ : Type*} (f : Lapsed → γ) (g : Order → γ) (h : ∀ x : Order, f x.toLapsed = g x)
    (os : List Order) : (os.map Order.toLapsed).map f = os.map g := by
  rw [List.map_map]
  exact List.map_congr_left fun x _ => h x

theorem kept_prune (h : Kept s) (hle : s.clock ≤ now) : Kept (s.prune now) := by
  have hsub : (s.prune now).unpaid.Sublist s.unpaid := by
    rw [unpaid_prune_book]
    exact List.filter_sublist
  have hlapsing : ∀ x ∈ s.o.orders.filter (Order.lapses now), x.toLapsed.created < now := by
    intro x hx
    have hx' := (List.mem_filter.1 hx).2
    have hlapsed : ¬ now < x.lapsesAt := by
      simp only [Order.lapses, Order.openAt, Bool.and_eq_true, Bool.not_eq_true'] at hx'
      simpa [hx'.1] using hx'.2
    have := x.created_lt_lapsesAt
    show x.created < now
    unfold UNCLAIMED_LIFETIME at this
    omega
  refine ⟨h.sound.prune hle, fun upTo hto => ?_, ?_, fun k => ?_, ?_, fun l hl => ?_, fun k => ?_, fun t => ?_,
    fun x hx => ?_, fun l hl => ?_⟩
  · show upTo + LAPSED_KEPT ≤ now
    have hto' : upTo ∈ (s.o.prune now).dropLapsedTo := hto
    unfold Orders.prune at hto'
    dsimp only at hto'
    split at hto'
    · rw [Option.mem_some_iff] at hto'
      omega
    · have := h.drop upTo hto'
      omega
  · exact (hsub.length_le).trans h.open_
  · exact (hsub.countP_le).trans (h.account k)
  · exact (hsub.countP_le).trans h.held
  · show l.created < now
    rcases List.mem_append.1 hl with hl | hl
    · rcases List.mem_append.1 hl with hl | hl
      · have := h.earlier l (List.mem_append_left _ (List.mem_append_left _ hl))
        omega
      · rcases List.mem_append.1 (List.mem_filter.1 hl).1 with hl | hl
        · have := h.earlier l (by simp [Book.records, hl])
          omega
        · obtain ⟨x, hx, rfl⟩ := List.mem_map.1 hl
          exact hlapsing x hx
    · have := h.earlier l (List.mem_append_right _ hl)
      omega
  · have hkeys := h.keys k
    have hsplit := count_map_filter_add (fun x : Order => x.openAt now) Order.key s.unpaid k
    have hrec := count_map_filter_add (fun l : Lapsed => decide (now < l.lapsed + LAPSED_KEPT)) Lapsed.key
      (s.o.lapsed ++ (s.o.orders.filter (Order.lapses now)).map Order.toLapsed) k
    rw [List.map_append, List.count_append, map_toLapsed Lapsed.key Order.key (fun _ => rfl), lapsing_eq] at hrec
    rw [unpaid_prune_book]
    simp only [Book.records, Book.prune, Orders.prune, List.map_append, List.count_append, lapsing_eq] at hkeys hrec ⊢
    omega
  · have hacc := h.accounted t
    have hsplit := count_orders Order.terms s.o.orders now t
    have hrec := count_map_filter_add (fun l : Lapsed => decide (now < l.lapsed + LAPSED_KEPT)) Lapsed.terms
      (s.o.lapsed ++ (s.o.orders.filter (Order.lapses now)).map Order.toLapsed) t
    rw [List.map_append, List.count_append, map_toLapsed Lapsed.terms Order.terms (fun _ => rfl)] at hrec
    simp only [Book.records, Book.prune, Orders.prune, List.map_append, List.count_append] at hacc ⊢
    omega
  · show x.paidSha256 ≠ none ∧ x.created + KEEP_PAID ≤ now
    rcases List.mem_append.1 hx with hx | hx
    · have := h.goneOrders x hx
      exact ⟨this.1, by omega⟩
    · have hx' := (List.mem_filter.1 hx).2
      unfold Order.isUnpaid Order.stays at hx'
      cases hpaid : x.paidSha256 with
      | none => simp [hpaid] at hx'
      | some sig =>
        simp only [hpaid, Option.isNone_some, Bool.not_false, Bool.true_and, Bool.not_eq_true',
          decide_eq_false_iff_not] at hx'
        exact ⟨by simp, by omega⟩
  · show l.lapsed + LAPSED_KEPT ≤ now
    rcases List.mem_append.1 hl with hl | hl
    · have := h.goneRecords l hl
      omega
    · have := (List.mem_filter.1 hl).2
      simp only [Bool.not_eq_true', decide_eq_false_iff_not] at this
      omega

/-! ### Holding and trying -/

private theorem kept_of_plain (h : Kept s) {os : List Order} (hos : os.map Order.plain = s.o.orders.map Order.plain)
    (hheld : (os.filter Order.isUnpaid).countP (fun x => !x.unclaimed) ≤ MAX_HELD_ORDERS) :
    Kept { s with o := { s.o with orders := os } } := by
  have hunpaid : ∀ {γ : Type} (f : Order → γ), (∀ x : Order, f x.plain = f x) →
      (os.filter Order.isUnpaid).map f = s.unpaid.map f := by
    intro γ f hf
    refine filter_of_map (map_of_plain (fun x => ?_) hos)
    rw [hf x]
    rfl
  refine ⟨h.sound.of_plain hos rfl, h.drop, ?_, fun k => ?_, hheld, h.earlier, fun k => ?_,
    fun t => ?_, h.goneOrders, h.goneRecords⟩
  · have := congrArg List.length (hunpaid Order.key fun _ => rfl)
    rw [List.length_map, List.length_map] at this
    exact this ▸ h.open_
  · have := congrArg (List.countP (· == true)) (hunpaid (Order.isOf k) fun _ => rfl)
    simp only [List.countP_map, Function.comp_def, beq_true] at this
    exact this ▸ h.account k
  · have := h.keys k
    rwa [← hunpaid Order.key fun _ => rfl] at this
  · have := h.accounted t
    rwa [← map_of_plain (fun _ => rfl) hos] at this

private theorem countP_holdUpTo (hash : Hash) (now : Int) (room : Nat) (os : List Order) :
    ((holdUpTo hash now room os).filter Order.isUnpaid).countP (fun x => !x.unclaimed) ≤
      (os.filter Order.isUnpaid).countP (fun x => !x.unclaimed) + room := by
  induction os generalizing room with
  | nil => exact Nat.zero_le _
  | cons x os ih =>
    unfold holdUpTo
    split
    · cases room with
      | zero => exact Nat.le_add_right _ _
      | succ room =>
        have := ih room
        simp only [List.countP_filter] at this ⊢
        rw [List.countP_cons, List.countP_cons]
        split <;> split <;> omega
    · have := ih room
      simp only [List.countP_filter] at this ⊢
      rw [List.countP_cons, List.countP_cons]
      split <;> omega

private theorem kept_hold (h : Kept s) (hle : s.clock ≤ now) (hash : Hash) :
    Kept { s.prune now with o := s.o.hold hash now } := by
  have hp := kept_prune h hle
  refine kept_of_plain hp (map_hold fun x _ _ => rfl) ?_
  have hheld : ((s.o.prune now).orders.countP fun x => x.openAt now && !x.unclaimed) =
      ((s.o.prune now).orders.filter Order.isUnpaid).countP fun x => !x.unclaimed := by
    rw [List.countP_filter]
    refine List.countP_congr fun x hx => ?_
    have hstays := (mem_prune.1 hx).2
    unfold Order.isUnpaid
    cases hnone : x.paidSha256 with
    | none => simp [openAt_of_stays hstays hnone]
    | some sig => simp [Order.openAt, hnone]
  have hroom := countP_holdUpTo hash now
    (MAX_HELD_ORDERS - ((s.o.prune now).orders.countP fun x => x.openAt now && !x.unclaimed)) (s.o.prune now).orders
  have hbefore : ((s.o.prune now).orders.filter Order.isUnpaid).countP (fun x => !x.unclaimed) ≤ MAX_HELD_ORDERS :=
    hp.held
  show ((holdUpTo hash now _ (s.o.prune now).orders).filter Order.isUnpaid).countP _ ≤ _
  omega

private theorem kept_tryOnce (h : Kept s) (hash : Hash) (now : Int) :
    Kept { s with o := s.o.tryOnce hash now } := by
  refine kept_of_plain h (map_tryOnce fun _ _ => rfl) ?_
  have hsame : (s.o.tryOnce hash now).orders.map (fun x => !x.unclaimed && x.isUnpaid) =
      s.o.orders.map fun x => !x.unclaimed && x.isUnpaid := map_tryOnce fun _ _ => rfl
  have hheld := h.held
  unfold Book.unpaid at hheld
  rw [List.countP_filter] at hheld ⊢
  have hcount := congrArg (List.countP (· == true)) hsame
  simp only [List.countP_map, Function.comp_def, beq_true] at hcount
  exact hcount ▸ hheld

/-! ### Opening and paying -/

private theorem kept_clock (h : Kept s) (hle : s.clock ≤ now) (m : Option (Hash × Nat × Hash)) :
    Kept { s with clock := now, marked := m } where
  sound := h.sound.mono hle
  drop upTo hto := (h.drop upTo hto).trans hle
  open_ := h.open_
  account := h.account
  held := h.held
  earlier l hl := lt_of_lt_of_le (h.earlier l hl) hle
  keys := h.keys
  accounted := h.accounted
  goneOrders x hx := ⟨(h.goneOrders x hx).1, (h.goneOrders x hx).2.trans hle⟩
  goneRecords l hl := (h.goneRecords l hl).trans hle

private theorem kept_append (h : Kept s) {x : Order} (hcreated : x.created = s.clock) (hpaid : x.paidSha256 = none)
    (hclaim : x.unclaimed = true) (hfree : ∀ y ∈ s.unpaid, y.amountRaw ≠ x.amountRaw)
    (hopen : s.unpaid.length < MAX_OPEN_ORDERS)
    (haccount : s.unpaid.countP (Order.isOf x.tokenSha256) < MAX_OPEN_PER_ACCOUNT) :
    Kept { s with o := { s.o with orders := s.o.orders ++ [x] }, opened := s.opened ++ [x] } := by
  have hunpaid : (s.o.orders ++ [x]).filter Order.isUnpaid = s.unpaid ++ [x] := by
    rw [List.filter_append]
    simp [Order.isUnpaid, hpaid, Book.unpaid]
  have hearlier : ∀ l ∈ s.records ++ s.taken, l.key ≠ x.key := by
    intro l hl heq
    have hlt := h.earlier l hl
    have : l.created = x.created := (Prod.mk.inj heq).2
    omega
  refine ⟨h.sound.append (Int.le_of_eq hcreated) hpaid hfree, h.drop, ?_, fun k => ?_, ?_, h.earlier, fun k => ?_,
    fun t => ?_, h.goneOrders, h.goneRecords⟩
  · show ((s.o.orders ++ [x]).filter Order.isUnpaid).length ≤ _
    rw [hunpaid, List.length_append, List.length_singleton]
    omega
  · show ((s.o.orders ++ [x]).filter Order.isUnpaid).countP (Order.isOf k) ≤ _
    rw [hunpaid, List.countP_append, List.countP_singleton]
    by_cases hk : x.isOf k = true
    · have hk' : x.tokenSha256 = k := by simpa [Order.isOf] using hk
      rw [if_pos hk, ← hk']
      omega
    · rw [if_neg hk]
      exact h.account k
  · show ((s.o.orders ++ [x]).filter Order.isUnpaid).countP (fun y : Order => !y.unclaimed) ≤ _
    rw [hunpaid, List.countP_append, List.countP_singleton, hclaim]
    exact h.held
  · have hkeys := h.keys k
    show (((s.o.orders ++ [x]).filter Order.isUnpaid).map Order.key).count k + (s.records.map Lapsed.key).count k +
      (s.taken.map Lapsed.key).count k ≤ 1
    rw [hunpaid, List.map_append, List.count_append, List.map_singleton, List.count_singleton]
    split
    · rename_i hk
      have hk' := beq_iff_eq.1 hk
      have hun : (s.unpaid.map Order.key).count k = 0 := by
        refine List.count_eq_zero.2 fun hmem => ?_
        obtain ⟨y, hy, heq⟩ := List.mem_map.1 hmem
        exact hfree y hy (Prod.mk.inj (heq.trans hk'.symm)).1
      have hrec : (s.records.map Lapsed.key).count k = 0 := by
        refine List.count_eq_zero.2 fun hmem => ?_
        obtain ⟨l, hl, heq⟩ := List.mem_map.1 hmem
        exact hearlier l (List.mem_append_left _ hl) (heq.trans hk'.symm)
      have htaken : (s.taken.map Lapsed.key).count k = 0 := by
        refine List.count_eq_zero.2 fun hmem => ?_
        obtain ⟨l, hl, heq⟩ := List.mem_map.1 hmem
        exact hearlier l (List.mem_append_right _ hl) (heq.trans hk'.symm)
      omega
    · exact hkeys
  · have hacc := h.accounted t
    show ((s.opened ++ [x]).map Order.terms).count t = ((s.o.orders ++ [x]).map Order.terms).count t +
      (s.records.map Lapsed.terms).count t + (s.taken.map Lapsed.terms).count t +
      (s.goneOrders.map Order.terms).count t + (s.goneRecords.map Lapsed.terms).count t
    rw [List.map_append, List.map_append, List.count_append, List.count_append]
    omega

private theorem kept_openOrder (h : Kept s) (hle : s.clock ≤ now) (hash : Hash) (pack : Pack) (decimals : Nat)
    (raws : Nat → Option Nat) : Kept (s.openOrder hash pack decimals raws now) := by
  have hp := kept_prune h hle
  unfold Book.openOrder
  rcases s.o.openOrder_cases hash pack now decimals raws with ⟨full, -, ho⟩ | ⟨hroom, ho | ho | ⟨amountRaw, hfree, ho⟩⟩ <;>
    rw [ho]
  · exact hp
  · exact kept_clock h hle none
  · exact hp
  · -- every unpaid order left is open, so the caps checked are those of the unpaid ones
    have hfilter : (s.prune now).unpaid = (s.o.prune now).orders.filter (·.openAt now) := Orders.unpaid_prune s.o now
    have hlen : (s.prune now).unpaid.length = (s.o.prune now).openCount now := by
      rw [hfilter, openCount, List.countP_eq_length_filter]
    have hcount : (s.prune now).unpaid.countP (Order.isOf hash) =
        (s.o.prune now).orders.countP fun x => x.openAt now && x.isOf hash := by
      rw [hfilter, List.countP_filter]
      exact List.countP_congr fun x _ => by rw [Bool.and_comm]
    unfold room at hroom
    split at hroom
    · cases hroom
    · split at hroom
      · cases hroom
      · refine kept_append hp rfl rfl rfl (fun y hy => ?_) (by omega) (by rw [hcount]; omega)
        rw [hfilter] at hy
        exact hfree y (List.mem_filter.1 hy).1 (List.mem_filter.1 hy).2

private theorem kept_markPaid (h : Kept s) (hle : s.clock ≤ now) (hash : Hash) (amountRaw : Nat) (sig : Hash) :
    Kept (s.markPaid hash amountRaw sig now) := by
  have hc := kept_clock h hle
  have hsound := h.sound.markPaid hle hash amountRaw sig
  unfold Book.markPaid
  rcases s.o.markPaid_cases hash amountRaw sig now with ⟨why, hm⟩ | ⟨hused, x, hx, hm⟩ <;> rw [hm] at hsound ⊢
  · exact hc none
  · obtain ⟨l₁, l₂, hsplit, -, -, -, -, hos, hsub⟩ := markPaid_split sig hx
    have hterms : (l₁ ++ x.pay sig :: l₂).map Order.terms = s.o.orders.map Order.terms := by
      rw [hsplit, List.map_append, List.map_append, List.map_cons, List.map_cons]
      rfl
    rw [hos] at hsound ⊢
    refine ⟨hsound, (hc none).drop, hsub.length_le.trans h.open_, fun k => hsub.countP_le.trans (h.account k),
      hsub.countP_le.trans h.held, (hc none).earlier, fun k => ?_, fun t => ?_, (hc none).goneOrders,
      (hc none).goneRecords⟩
    · have hkeys := h.keys k
      have hcount := (hsub.map Order.key).count_le k
      show (((l₁ ++ x.pay sig :: l₂).filter Order.isUnpaid).map Order.key).count k + (s.records.map Lapsed.key).count k +
        (s.taken.map Lapsed.key).count k ≤ 1
      unfold Book.unpaid at hkeys
      omega
    · have hacc := h.accounted t
      show (s.opened.map Order.terms).count t = ((l₁ ++ x.pay sig :: l₂).map Order.terms).count t +
        (s.records.map Lapsed.terms).count t + (s.taken.map Lapsed.terms).count t +
        (s.goneOrders.map Order.terms).count t + (s.goneRecords.map Lapsed.terms).count t
      rw [hterms]
      exact hacc

/-! ### Taking a record -/

private theorem map_filter_ne {γ : Type*} [BEq γ] [LawfulBEq γ] {l : List Lapsed} (hl : l.Nodup) {r : Lapsed} (hr : r ∈ l)
    (f : Lapsed → γ) (b : γ) : (l.map f).count b = ((l.filter (· ≠ r)).map f).count b + [f r].count b := by
  have hperm := List.perm_cons_erase hr
  rw [hl.erase_eq_filter] at hperm
  rw [(hperm.map f).count_eq, List.map_cons, List.count_cons, List.count_singleton]
  simp only [ne_eq, decide_not]
  rfl

theorem nodup_records (h : Kept s) : (s.records.map Lapsed.key).Nodup := by
  refine List.nodup_iff_count_le_one.2 fun k => ?_
  have := h.keys k
  omega

private theorem kept_take (h : Kept s) {l : Lapsed} (hl : l ∈ s.records) (sig : Hash) :
    Kept { s with
      o := { s.o.markUsed sig now with lapsed := s.o.lapsed.filter (· ≠ l) }
      file := s.file.filter (· ≠ l)
      taken := s.taken ++ [l] } := by
  have hnodup : s.records.Nodup := (nodup_records h).of_map
  have hrecords : s.file.filter (· ≠ l) ++ s.o.lapsed.filter (· ≠ l) = s.records.filter (· ≠ l) :=
    (List.filter_append ..).symm
  refine ⟨h.sound.used_more, h.drop, h.open_, h.account, h.held, fun r hr => ?_, fun k => ?_, fun t => ?_,
    h.goneOrders, h.goneRecords⟩
  · have hr' : r ∈ (s.file.filter (· ≠ l) ++ s.o.lapsed.filter (· ≠ l)) ++ (s.taken ++ [l]) := hr
    rw [hrecords] at hr'
    refine h.earlier r ?_
    rcases List.mem_append.1 hr' with hr' | hr'
    · exact List.mem_append_left _ (List.mem_filter.1 hr').1
    · rcases List.mem_append.1 hr' with hr' | hr'
      · exact List.mem_append_right _ hr'
      · rw [List.mem_singleton.1 hr']
        exact List.mem_append_left _ hl
  · have hkeys := h.keys k
    have hcount := map_filter_ne hnodup hl Lapsed.key k
    show (s.unpaid.map Order.key).count k +
      ((s.file.filter (· ≠ l) ++ s.o.lapsed.filter (· ≠ l)).map Lapsed.key).count k +
      ((s.taken ++ [l]).map Lapsed.key).count k ≤ 1
    rw [hrecords, List.map_append, List.count_append, List.map_singleton]
    omega
  · have hacc := h.accounted t
    have hcount := map_filter_ne hnodup hl Lapsed.terms t
    show (s.opened.map Order.terms).count t = (s.o.orders.map Order.terms).count t +
      ((s.file.filter (· ≠ l) ++ s.o.lapsed.filter (· ≠ l)).map Lapsed.terms).count t +
      ((s.taken ++ [l]).map Lapsed.terms).count t + (s.goneOrders.map Order.terms).count t +
      (s.goneRecords.map Lapsed.terms).count t
    rw [hrecords, List.map_append, List.count_append, List.map_singleton]
    omega

private theorem kept_takeLapsed (h : Kept s) (hle : s.clock ≤ now) (amountRaw : Nat) (paidAt : Int)
    (token : Option Hash) (sig : Hash) : Kept (s.takeLapsed amountRaw paidAt token sig now) := by
  have hp := kept_prune h hle
  unfold Book.takeLapsed
  rcases s.o.takeLapsed_cases (readLapsed s.file (some amountRaw)) amountRaw paidAt token sig now with ⟨why, ht⟩ |
    ⟨l, -, hl, hfits, -, ht⟩ <;> rw [ht]
  · exact hp
  · -- no two records share a key, so the file is read as it is
    have hkeys : ((s.file.filter fun l => (some amountRaw).all (· == l.amountRaw)).map
        fun l => (l.tokenSha256, l.amountRaw, l.created)).Nodup := by
      have hfile : (s.file.map Lapsed.key).Nodup :=
        (nodup_records hp).sublist ((List.sublist_append_left _ _).map _)
      have hsub := (List.filter_sublist (p := fun l : Lapsed => (some amountRaw).all (· == l.amountRaw)) (l := s.file)).map
        Lapsed.key
      refine List.Nodup.of_map Prod.snd ?_
      rw [List.map_map]
      exact hfile.sublist hsub
    have hread : readLapsed s.file (some amountRaw) = s.file.filter fun l => (some amountRaw).all (· == l.amountRaw) :=
      firstBy_eq_self hkeys
    have hmem : l ∈ (s.prune now).records := by
      rcases List.mem_append.1 hl with hl | hl
      · rw [hread] at hl
        exact List.mem_append_left _ (List.mem_filter.1 hl).1
      · exact List.mem_append_right _ hl
    have hfile : (if (readLapsed s.file (some amountRaw)).contains l then s.file.filter (· ≠ l) else s.file) =
        s.file.filter (· ≠ l) := by
      split
      · rfl
      · rename_i hnot
        refine (List.filter_eq_self.2 fun r hr => ?_).symm
        rw [decide_eq_true_eq]
        rintro rfl
        simp only [fitsPayment, Bool.and_eq_true, beq_iff_eq] at hfits
        rw [hread] at hnot
        exact hnot (by simp [hr, hfits.1.1.1])
    dsimp only
    rw [hfile]
    exact kept_take hp hmem sig

/-! ### Writing the records out -/

private theorem kept_flush (h : Kept s) : Kept s.flush := by
  unfold Book.flush dropOld
  cases hdrop : s.o.dropLapsedTo with
  | none =>
    refine ⟨⟨h.sound.created, h.sound.used, h.sound.amounts⟩, by simp [flushed], h.open_, h.account, h.held, ?_,
      fun k => ?_, ?_,
      h.goneOrders, ?_⟩
    · simpa [Book.records, flushed] using h.earlier
    · show (s.unpaid.map Order.key).count k + ((s.records ++ []).map Lapsed.key).count k +
        (s.taken.map Lapsed.key).count k ≤ 1
      rw [List.append_nil]
      exact h.keys k
    · simpa [Book.records, flushed] using h.accounted
    · simpa using h.goneRecords
  | some upTo =>
    have hto := h.drop upTo (by simp [hdrop])
    have hsplit : ∀ {γ : Type} [BEq γ] (f : Lapsed → γ) (b : γ), (s.records.map f).count b =
        ((s.records.filter fun l => decide (l.lapsed > upTo)).map f).count b +
          ((s.records.filter fun l => !(decide (l.lapsed > upTo))).map f).count b := fun f b =>
      count_map_filter_add _ f s.records b
    refine ⟨⟨h.sound.created, h.sound.used, h.sound.amounts⟩, by simp [flushed], h.open_, h.account, h.held,
      fun l hl => ?_, fun k => ?_,
      fun t => ?_, h.goneOrders, fun l hl => ?_⟩
    · refine h.earlier l ?_
      simp only [Book.records, flushed, List.append_nil] at hl ⊢
      rcases List.mem_append.1 hl with hl | hl
      · exact List.mem_append_left _ (List.mem_filter.1 hl).1
      · exact List.mem_append_right _ hl
    · have hkeys := h.keys k
      have := hsplit Lapsed.key k
      simp only [Book.records, flushed, List.append_nil] at hkeys this ⊢
      show (s.unpaid.map Order.key).count k + _ + (s.taken.map Lapsed.key).count k ≤ 1
      omega
    · have hacc := h.accounted t
      have := hsplit Lapsed.terms t
      simp only [Book.records, flushed, List.append_nil, List.map_append, List.count_append] at hacc this ⊢
      omega
    · rcases List.mem_append.1 hl with hl | hl
      · exact h.goneRecords l hl
      · have hlapsed := (List.mem_filter.1 hl).2
        simp only [Bool.not_eq_true', decide_eq_false_iff_not] at hlapsed
        show l.lapsed + LAPSED_KEPT ≤ s.clock
        omega

/-! ### Whole runs -/

/-- The invariant, which a mark undone gives back. -/
structure BookInv (s : Book) : Prop where
  kept : Kept s
  unmarked : ∀ hash amountRaw sig, s.marked = some (hash, amountRaw, sig) → Kept (s.unmark hash amountRaw sig)

private theorem bookInv_of_none (h : Kept s) (hnone : s.marked = none) : BookInv s :=
  ⟨h, fun _ _ _ hm => by rw [hnone] at hm; cases hm⟩

private theorem bookInv_markPaid (h : Kept s) (hle : s.clock ≤ now) (hash : Hash) (amountRaw : Nat) (sig : Hash) :
    BookInv (s.markPaid hash amountRaw sig now) := by
  have hkept := kept_markPaid h hle hash amountRaw sig
  refine ⟨hkept, fun hash' amountRaw' sig' hm => ?_⟩
  unfold Book.markPaid at hm ⊢
  rcases s.o.markPaid_cases hash amountRaw sig now with ⟨why, ho⟩ | ⟨hused, x, hx, ho⟩
  · rw [ho] at hm
    cases hm
  · have hback := unmark_markPaid h.sound.isUsed ho
    rw [ho] at hm ⊢
    simp only [Option.some.injEq, Prod.mk.injEq] at hm
    obtain ⟨rfl, rfl, rfl⟩ := hm
    unfold Book.unmark
    rw [hback]
    exact kept_clock h hle none

theorem bookInv_step {e : BookOp} (h : BookInv s) (hok : s.Allowed e) : BookInv (s.step e) := by
  cases e with
  | openOrder hash pack decimals raws now =>
    refine bookInv_of_none (kept_openOrder h.kept hok hash pack decimals raws) ?_
    unfold Book.step Book.openOrder
    dsimp only
    split <;> rfl
  | hold hash now => exact bookInv_of_none (kept_hold h.kept hok hash) rfl
  | beforeClaim hash sig now =>
    refine bookInv_of_none ?_ rfl
    unfold Book.step
    dsimp only
    rcases s.o.beforeClaim_state hash sig now with ho | ho <;> rw [ho]
    · exact kept_prune h.kept hok
    · exact kept_tryOnce (kept_hold h.kept hok hash) hash now
  | markPaid hash amountRaw sig now => exact bookInv_markPaid h.kept hok hash amountRaw sig
  | unmark hash amountRaw sig => exact bookInv_of_none (h.unmarked hash amountRaw sig hok) rfl
  | takeLapsed amountRaw paidAt token sig now =>
    refine bookInv_of_none (kept_takeLapsed h.kept hok amountRaw paidAt token sig) ?_
    unfold Book.step Book.takeLapsed
    dsimp only
    split <;> rfl
  | prune now => exact bookInv_of_none (kept_prune h.kept hok) rfl
  | flush => exact bookInv_of_none (kept_flush h.kept) rfl

private theorem bookKept_of_kept (h : Kept s) {t : Int} (ht : s.clock ≤ t) : BookKept s t := by
  have hsub : (s.o.orders.filter (·.openAt t)).Sublist s.unpaid := by
    have hfilter : s.o.orders.filter (·.openAt t) = s.unpaid.filter (·.openAt t) := by
      unfold Book.unpaid
      rw [List.filter_filter]
      refine List.filter_congr fun x _ => ?_
      unfold Order.openAt Order.isUnpaid
      cases x.paidSha256 <;> simp
    rw [hfilter]
    exact List.filter_sublist
  have hcount : ∀ p : Order → Bool, (s.o.orders.countP fun x => x.openAt t && p x) ≤ s.unpaid.countP p := by
    intro p
    have := hsub.countP_le (p := p)
    rw [List.countP_filter] at this
    exact Nat.le_trans (Nat.le_of_eq (List.countP_congr fun x _ => by rw [Bool.and_comm])) this
  refine ⟨h.sound.amounts.sublist (hsub.map _), ?_, fun k => (hcount _).trans (h.account k), (hcount _).trans h.held, ?_, ?_⟩
  · rw [openCount, List.countP_eq_length_filter]
    exact hsub.length_le.trans h.open_
  · rw [List.perm_iff_count]
    intro terms
    have := h.accounted terms
    simp only [List.count_append]
    omega
  · exact ⟨fun x hx => ⟨(h.goneOrders x hx).1, (h.goneOrders x hx).2.trans ht⟩,
      fun l hl => (h.goneRecords l hl).trans ht⟩

/-- After every run of the operations, at times that never go back, from an empty book, the open orders have amounts of
their own and keep to the caps, and no order ever opened is lost before its time. -/
theorem bookKept_run (t₀ : Int) (es : List BookOp) (h : Along Book.step Book.Allowed (Book.empty t₀) es) (t : Int)
    (ht : (run Book.step (Book.empty t₀) es).clock ≤ t) : BookKept (run Book.step (Book.empty t₀) es) t := by
  have hinv : BookInv (run Book.step (Book.empty t₀) es) :=
    run_invariant (fun s e hs hok => bookInv_step hs hok) h (bookInv_of_none (kept_empty t₀) rfl)
  exact bookKept_of_kept hinv.kept ht

theorem bookKept_afternoon : BookKept
    (run Book.step (Book.empty 0) [
      .openOrder "a" ⟨10, 1000000⟩ 6 (fun _ => some 7) 100,
      .openOrder "b" ⟨10, 1000000⟩ 6 (fun k => some k) 100,
      .hold "a" 150, .beforeClaim "a" "s" 160, .markPaid "a" 1000008 "s" 170, .unmark "a" 1000008 "s",
      .prune 8000, .flush, .takeLapsed 1000001 200 none "r" 9000, .flush]) 9000 :=
  bookKept_run 0 _ (by decide) 9000 (by decide)

end HidraNet.Issuer
