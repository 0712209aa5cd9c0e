import HidraNet.Issuer.Orders

/-!
# The index of the orders file

What the orders file holds, by token, kept in memory beside it: quotes and claims it already knows the answer to are
answered without the file.  The file's own answers are those of `Orders.openOrder`, `Orders.beforeClaim` and
`Orders.hold`, which prune first.

* The lapse times are sorted, so the time's place among them says how many are still to come (`stillOpen_sorted`).
* What the index keeps of a token is its open orders and until when its latest paid one is kept (`tokens_of`).
* The index agrees with the file but for its count of the tries (`indexAgrees_iff`): it adds one for each open order
  to the sum, which wraps, where the file counts with saturation, so an order tried `2^32 - 1` times is counted one
  try more (`not_indexAgrees`).
-/

namespace HidraNet.Issuer

open HidraNet.Lists Ints

/-! ### The index -/

/-- What the index keeps of a token. -/
structure TokenOrders where
  /-- Its open orders: when each lapses, whether no claim reached it yet, the claims tried on it. -/
  open_ : List (Int × Bool × Nat)
  paidUntil : Int

structure Index where
  /-- The file could not be read: every quote and claim goes on to it. -/
  unread : Bool
  tokens : Hash → Option TokenOrders
  open_ : List Int
  held : List Int

inductive Known where
  | orders (hold : Bool)
  | tooManyTries
  | nothing
deriving DecidableEq

/-- How many of these times, in order, are still to come: what is left past the point where `now` would stand. -/
def stillOpen (lapseTimes : List Int) (now : Int) : Nat :=
  lapseTimes.length - (lapseTimes.takeWhile (· ≤ now)).length

namespace TokenOrders

def none_ : TokenOrders := ⟨[], 0⟩

def add (t : TokenOrders) (order : Order) : TokenOrders :=
  match order.paidSha256 with
  | none => { t with open_ := t.open_ ++ [(order.lapsesAt, order.unclaimed, order.tries)] }
  | some _ => { t with paidUntil := max t.paidUntil (order.created + KEEP_PAID) }

end TokenOrders

namespace Index

def empty : Index := ⟨false, fun _ => none, [], []⟩

def add (index : Index) (order : Order) : Index where
  unread := index.unread
  tokens := Function.update index.tokens order.tokenSha256
    (((index.tokens order.tokenSha256).getD TokenOrders.none_).add order)
  open_ := if order.paidSha256.isNone then index.open_ ++ [order.lapsesAt] else index.open_
  held := if order.paidSha256.isNone && !order.unclaimed then index.held ++ [order.lapsesAt] else index.held

def of (o : Orders) : Index :=
  let index := o.orders.foldl add empty
  { index with open_ := index.open_.insertionSort (· ≤ ·), held := index.held.insertionSort (· ≤ ·) }

/-- Whether the hash may open another order now. -/
def roomFor (index : Index) (hash : Hash) (now : Int) : Option Orders.Full :=
  if index.unread then none
  else if stillOpen index.open_ now ≥ MAX_OPEN_ORDERS then some .issuer
  else if (index.tokens hash).any fun t => t.open_.countP (fun o => now < o.1) ≥ MAX_OPEN_PER_ACCOUNT then
    some .account
  else none

/-- What the index knows of a token's claim.  The sum of the tries wraps as a release build's does. -/
def known (index : Index) (hash : Hash) (now : Int) : Known :=
  if index.unread then .orders false
  else match index.tokens hash with
    | none => .nothing
    | some t =>
      let found := t.open_.filter fun o => now < o.1
      let paid := now < t.paidUntil
      if found.isEmpty then if paid then .orders false else .nothing
      else if ¬ paid ∧ wrap32 (wrap32 (found.map fun o => o.2.2).sum + wrap32 found.length) > MAX_CLAIM_TRIES then
        .tooManyTries
      else .orders (found.any (fun o => o.2.1) && stillOpen index.held now < MAX_HELD_ORDERS)

end Index

/-! ### The lapse times -/

theorem stillOpen_sorted {l : List Int} (hl : l.Pairwise (· ≤ ·)) (now : Int) :
    stillOpen l now = l.countP (now < ·) := by
  unfold stillOpen
  induction l with
  | nil => rfl
  | cons t l ih =>
    rw [List.pairwise_cons] at hl
    by_cases ht : t ≤ now
    · rw [List.takeWhile_cons_of_pos (by simpa using ht), List.countP_cons_of_neg (by simpa using ht)]
      have := ih hl.2
      simp only [List.length_cons]
      omega
    · -- the first time still to come: so are the rest
      have hall : ∀ u ∈ t :: l, decide (now < u) = true := by
        intro u hu
        rcases List.mem_cons.1 hu with rfl | hu
        · simpa using ht
        · have := hl.1 u hu
          simp only [decide_eq_true_eq]
          omega
      rw [List.takeWhile_cons_of_neg (by simpa using ht), List.countP_eq_length.2 hall, List.length_nil, Nat.sub_zero]

private theorem stillOpen_insertionSort (l : List Int) (now : Int) :
    stillOpen (l.insertionSort (· ≤ ·)) now = l.countP (now < ·) := by
  rw [stillOpen_sorted (List.pairwise_insertionSort _ l)]
  exact (List.perm_insertionSort (· ≤ ·) l).countP_eq _

private theorem open_foldl (os : List Order) (index : Index) :
    (os.foldl Index.add index).open_ =
      index.open_ ++ (os.filter fun x => x.paidSha256.isNone).map Order.lapsesAt := by
  induction os generalizing index with
  | nil => simp
  | cons x os ih =>
    rw [List.foldl_cons, ih, List.filter_cons]
    unfold Index.add
    dsimp only
    split <;> simp

private theorem held_foldl (os : List Order) (index : Index) :
    (os.foldl Index.add index).held =
      index.held ++ (os.filter fun x => x.paidSha256.isNone && !x.unclaimed).map Order.lapsesAt := by
  induction os generalizing index with
  | nil => simp
  | cons x os ih =>
    rw [List.foldl_cons, ih, List.filter_cons]
    unfold Index.add
    dsimp only
    split <;> simp

private theorem unread_foldl (os : List Order) (index : Index) :
    (os.foldl Index.add index).unread = index.unread := by
  induction os generalizing index with
  | nil => rfl
  | cons x os ih => rw [List.foldl_cons, ih]; rfl

theorem unread_of (o : Orders) : (Index.of o).unread = false := unread_foldl o.orders Index.empty

theorem stillOpen_open (o : Orders) (now : Int) : stillOpen (Index.of o).open_ now = o.openCount now := by
  unfold Index.of Orders.openCount
  dsimp only
  rw [stillOpen_insertionSort, open_foldl]
  simp only [Index.empty, List.nil_append, List.countP_map, List.countP_filter]
  exact List.countP_congr fun x _ => by simp [Order.openAt, and_comm]

theorem stillOpen_held (o : Orders) (now : Int) :
    stillOpen (Index.of o).held now = o.orders.countP fun x => x.openAt now && !x.unclaimed := by
  unfold Index.of
  dsimp only
  rw [stillOpen_insertionSort, held_foldl]
  simp only [Index.empty, List.nil_append, List.countP_map, List.countP_filter]
  exact List.countP_congr fun x _ => by simp [Order.openAt, and_comm, and_assoc]

/-! ### What is kept of a token -/

private theorem tokens_foldl (os : List Order) (index : Index) (h : Hash) :
    (os.foldl Index.add index).tokens h =
      if (os.filter (Order.isOf h)).isEmpty then index.tokens h
      else some ((os.filter (Order.isOf h)).foldl TokenOrders.add ((index.tokens h).getD TokenOrders.none_)) := by
  induction os generalizing index with
  | nil => rfl
  | cons x os ih =>
    rw [List.foldl_cons, ih, List.filter_cons]
    by_cases hx : x.isOf h = true
    · have hh : x.tokenSha256 = h := by simpa [Order.isOf] using hx
      subst hh
      simp only [hx, if_true, List.isEmpty_cons, Bool.false_eq_true, if_false, List.foldl_cons]
      simp only [Index.add, Function.update_self, Option.getD_some]
      split
      · rename_i hnil
        rw [List.isEmpty_iff.1 hnil]
        rfl
      · rfl
    · have hh : h ≠ x.tokenSha256 := by
        rintro rfl
        exact hx (by simp [Order.isOf])
      simp only [eq_false_of_ne_true hx, Bool.false_eq_true, if_false, Index.add, Function.update_of_ne hh]

private theorem open_foldl_add (os : List Order) (t : TokenOrders) :
    (os.foldl TokenOrders.add t).open_ =
      t.open_ ++ (os.filter fun x => x.paidSha256.isNone).map fun x => (x.lapsesAt, x.unclaimed, x.tries) := by
  induction os generalizing t with
  | nil => simp
  | cons x os ih =>
    rw [List.foldl_cons, ih, List.filter_cons]
    unfold TokenOrders.add
    split <;> simp [*]

private theorem lt_paidUntil_foldl (os : List Order) (t : TokenOrders) (now : Int) :
    now < (os.foldl TokenOrders.add t).paidUntil ↔
      now < t.paidUntil ∨ ∃ x ∈ os, x.paidSha256 ≠ none ∧ now < x.created + KEEP_PAID := by
  induction os generalizing t with
  | nil => simp
  | cons x os ih =>
    rw [List.foldl_cons, ih]
    unfold TokenOrders.add
    split
    · rename_i hnone
      simp [hnone]
    · rename_i sig hsome
      simp [hsome, or_assoc]

def PaidKept (o : Orders) (h : Hash) (now : Int) : Prop :=
  ∃ x ∈ o.orders, x.isOf h = true ∧ x.paidSha256 ≠ none ∧ now < x.created + KEEP_PAID

/-- What the index keeps of a token: nothing, with no order of it, else its open orders and until when its latest
paid one is kept, or zero. -/
theorem tokens_of (o : Orders) (h : Hash) :
    (∀ x ∈ o.orders, x.isOf h = false) ∧ (Index.of o).tokens h = none ∨
    ∃ t, (Index.of o).tokens h = some t ∧
      (∀ now, t.open_.filter (fun e => now < e.1) =
        (o.openOf h now).map fun x => (x.lapsesAt, x.unclaimed, x.tries)) ∧
      ∀ now, now < t.paidUntil ↔ now < 0 ∨ PaidKept o h now := by
  have htokens : (Index.of o).tokens h = (o.orders.foldl Index.add Index.empty).tokens h := rfl
  rw [tokens_foldl] at htokens
  split at htokens
  · rename_i hnil
    refine Or.inl ⟨fun x hx => ?_, htokens⟩
    rw [List.isEmpty_iff, List.filter_eq_nil_iff] at hnil
    exact eq_false_of_ne_true (hnil x hx)
  · refine Or.inr ⟨_, htokens, fun now => ?_, fun now => ?_⟩
    · rw [open_foldl_add]
      simp only [Index.empty, Option.getD_none, TokenOrders.none_, List.nil_append, List.filter_map,
        List.filter_filter]
      unfold Orders.openOf
      congr 1
      refine List.filter_congr fun x _ => ?_
      simp only [Function.comp_apply, Order.openAt]
      cases x.paidSha256 <;> simp [Bool.and_comm]
    · rw [lt_paidUntil_foldl]
      simp only [Index.empty, Option.getD_none, TokenOrders.none_, List.mem_filter, PaidKept, and_assoc]

/-! ### The index against the file -/

def triesOnceMore (o : Orders) (h : Hash) (now : Int) : Nat :=
  wrap32 ((o.openOf h now).map fun x => x.tries + 1).sum

/-- The same as the file counts it: no order's tries go past the largest `u32`. -/
def triesCounted (o : Orders) (h : Hash) (now : Int) : Nat :=
  wrap32 ((o.openOf h now).map fun x => satAdd32 x.tries 1).sum

/-- What the index promises of a file: its caps are those an order is opened under, a claim it turns away the file
turns away too, and an order it does not send on to be held would not be. -/
structure IndexAgrees (o : Orders) (h : Hash) (now : Int) : Prop where
  room : ∀ full, (Index.of o).roomFor h now = some full ↔ (o.prune now).room h now = some full
  refused : (Index.of o).known h now = .nothing ∨ (Index.of o).known h now = .tooManyTries →
    ∀ sig, ∃ why, (o.beforeClaim h sig now).2 = .error why
  hold : (Index.of o).known h now = .orders false →
    (o.hold h now).orders.filter (·.openAt now) = o.orders.filter (·.openAt now)

def Miscounted (o : Orders) (h : Hash) (now : Int) : Prop :=
  0 ≤ now ∧ ¬ PaidKept o h now ∧ MAX_CLAIM_TRIES < triesOnceMore o h now ∧ triesCounted o h now ≤ MAX_CLAIM_TRIES

private theorem wrap32_tries (l : List Order) :
    wrap32 (wrap32 (l.map Order.tries).sum + wrap32 l.length) = wrap32 (l.map fun x => x.tries + 1).sum := by
  have hsum : (l.map fun x => x.tries + 1).sum = (l.map Order.tries).sum + l.length := by
    induction l with
    | nil => rfl
    | cons x l ih =>
      simp only [List.map_cons, List.sum_cons, List.length_cons, ih]
      omega
  rw [hsum]
  unfold wrap32
  omega

theorem room_prune (o : Orders) (h : Hash) (now : Int) : (o.prune now).room h now = o.room h now := by
  unfold Orders.room Orders.openCount
  rw [Orders.countP_prune fun x hx => hx, Orders.countP_prune fun x hx => (Bool.and_eq_true _ _ ▸ hx).1]

theorem roomFor_of (o : Orders) (h : Hash) (now : Int) : (Index.of o).roomFor h now = o.room h now := by
  unfold Index.roomFor Orders.room
  rw [unread_of, stillOpen_open]
  simp only [Bool.false_eq_true, if_false]
  have hcount : ((Index.of o).tokens h).any (fun t => decide (t.open_.countP (fun e => decide (now < e.1)) ≥
      MAX_OPEN_PER_ACCOUNT)) = decide ((o.orders.countP fun x => x.openAt now && x.isOf h) ≥ MAX_OPEN_PER_ACCOUNT) := by
    rcases tokens_of o h with ⟨hnone, htokens⟩ | ⟨t, htokens, hopen, -⟩
    · have hzero : (o.orders.countP fun x => x.openAt now && x.isOf h) = 0 := by
        rw [List.countP_eq_zero]
        intro x hx
        simp [hnone x hx]
      rw [htokens, hzero]
      rfl
    · rw [htokens, Option.any_some, List.countP_eq_length_filter, hopen now, List.length_map,
        List.countP_eq_length_filter]
      rfl
  rw [hcount]
  simp only [decide_eq_true_eq]

/-- What the index answers of a token, beside the orders that it indexes. -/
theorem known_cases (o : Orders) (h : Hash) (now : Int) :
    ((Index.of o).known h now = .nothing ∧ o.openOf h now = [] ∧ ¬ PaidKept o h now) ∨
    ((Index.of o).known h now = .tooManyTries ∧ 0 ≤ now ∧ ¬ PaidKept o h now ∧
      MAX_CLAIM_TRIES < triesOnceMore o h now) ∨
    ((Index.of o).known h now = .orders false ∧ o.openOf h now = []) ∨
    ((Index.of o).known h now = .orders ((o.openOf h now).any (·.unclaimed) &&
        decide ((o.orders.countP fun x => x.openAt now && !x.unclaimed) < MAX_HELD_ORDERS)) ∧
      (now < 0 ∨ PaidKept o h now ∨ triesOnceMore o h now ≤ MAX_CLAIM_TRIES)) := by
  unfold Index.known
  rw [unread_of]
  simp only [Bool.false_eq_true, if_false]
  rcases tokens_of o h with ⟨hnone, htokens⟩ | ⟨t, htokens, hopen, hpaid⟩
  · rw [htokens]
    refine Or.inl ⟨rfl, ?_, ?_⟩
    · unfold Orders.openOf
      rw [List.filter_eq_nil_iff]
      intro x hx
      simp [hnone x hx]
    · rintro ⟨x, hx, hxh, -⟩
      rw [hnone x hx] at hxh
      cases hxh
  · rw [htokens]
    dsimp only
    rw [hopen now]
    by_cases hnil : o.openOf h now = []
    · by_cases hp : now < t.paidUntil
      · exact Or.inr (Or.inr (Or.inl ⟨by simp [hnil, hp], hnil⟩))
      · refine Or.inl ⟨by simp [hnil, hp], hnil, fun hk => hp ((hpaid now).2 (Or.inr hk))⟩
    · have hempty : ((o.openOf h now).map fun x => (x.lapsesAt, x.unclaimed, x.tries)).isEmpty = false := by
        simpa [List.isEmpty_iff] using hnil
      have hsum : wrap32 (wrap32 (((o.openOf h now).map fun x => (x.lapsesAt, x.unclaimed, x.tries)).map
          fun e => e.2.2).sum + wrap32 ((o.openOf h now).map fun x => (x.lapsesAt, x.unclaimed, x.tries)).length) =
            triesOnceMore o h now := by
        rw [List.map_map, List.length_map]
        exact wrap32_tries _
      rw [hempty, hsum]
      simp only [Bool.false_eq_true, if_false]
      by_cases hp : now < t.paidUntil
      · rw [if_neg (fun hc => hc.1 hp)]
        refine Or.inr (Or.inr (Or.inr ⟨?_, ?_⟩))
        · rw [stillOpen_held, List.any_map]
          rfl
        · rcases (hpaid now).1 hp with hneg | hk
          · exact Or.inl hneg
          · exact Or.inr (Or.inl hk)
      · have hnow : 0 ≤ now ∧ ¬ PaidKept o h now := by
          rw [hpaid now, not_or] at hp
          exact ⟨by omega, hp.2⟩
        by_cases htries : MAX_CLAIM_TRIES < triesOnceMore o h now
        · rw [if_pos ⟨hp, htries⟩]
          exact Or.inr (Or.inl ⟨rfl, hnow.1, hnow.2, htries⟩)
        · rw [if_neg (fun hc => htries hc.2)]
          refine Or.inr (Or.inr (Or.inr ⟨?_, Or.inr (Or.inr (by omega))⟩))
          rw [stillOpen_held, List.any_map]
          rfl

theorem beforeClaim_of_not_paidKept {o : Orders} {h : Hash} {now : Int} (hk : ¬ PaidKept o h now) (sig : Hash) :
    (o.beforeClaim h sig now).2 =
      if (o.prune now).isUsed sig then .error .used
      else if o.openOf h now = [] then .error .noOrder
      else if triesCounted o h now > MAX_CLAIM_TRIES then .error .tooManyTries
      else .ok (.openOrders (((o.hold h now).tryOnce h now).openOf h now)) := by
  have hfind : (o.prune now).orders.find? (fun x => x.isOf h && x.paidBy sig) = none := by
    rw [List.find?_eq_none]
    intro x hx hfits
    rw [Bool.and_eq_true] at hfits
    have hx' := Orders.mem_prune.1 hx
    have hpaid : x.paidSha256 ≠ none := by
      intro hnone
      simp [Order.paidBy, hnone] at hfits
    refine hk ⟨x, hx'.1, hfits.1, hpaid, ?_⟩
    obtain ⟨p, hp⟩ := Option.ne_none_iff_exists'.1 hpaid
    simpa [Order.stays, hp] using hx'.2
  have htries := Orders.map_openOf o h now (k := Order.tries) fun _ => rfl
  have hempty : (((o.hold h now).tryOnce h now).openOf h now).isEmpty = true ↔ o.openOf h now = [] := by
    have := congrArg List.length htries
    simp only [List.length_map] at this
    rw [List.isEmpty_iff_length_eq_zero, this, List.length_eq_zero_iff]
  unfold Orders.beforeClaim
  dsimp only
  rw [hfind, Orders.hold_prune]
  dsimp only
  by_cases hused : (o.prune now).isUsed sig = true
  · simp only [hused, if_true]
  · by_cases hnil : o.openOf h now = []
    · simp only [hused, hnil, hempty.2 hnil, if_true, Bool.false_eq_true, if_false]
    · have hne := mt hempty.1 hnil
      have hsum : wrap32 ((((o.hold h now).tryOnce h now).openOf h now).map Order.tries).sum = triesCounted o h now := by
        rw [htries]
        rfl
      simp only [hused, hnil, hne, if_false, Bool.false_eq_true, hsum]
      split <;> rfl

private theorem hold_open_of_known {o : Orders} {h : Hash} {now : Int}
    (hnone : o.openOf h now = [] ∨ ((o.openOf h now).any (·.unclaimed) &&
      decide ((o.orders.countP fun x => x.openAt now && !x.unclaimed) < MAX_HELD_ORDERS)) = false) :
    (o.hold h now).orders = (o.prune now).orders := by
  have hheld : ((o.prune now).orders.countP fun x => x.openAt now && !x.unclaimed) =
      o.orders.countP fun x => x.openAt now && !x.unclaimed :=
    Orders.countP_prune fun x hx => (Bool.and_eq_true _ _ ▸ hx).1
  unfold Orders.hold
  dsimp only
  rw [hheld]
  -- with no room, and with nothing to hold, every order is passed over
  have hpass : ∀ (room : Nat) (os : List Order),
      room = 0 ∨ (∀ x ∈ os, (x.openAt now && x.unclaimed && x.isOf h) = false) → Orders.holdUpTo h now room os = os := by
    intro room os hor
    induction os with
    | nil => rfl
    | cons x os ih =>
      unfold Orders.holdUpTo
      rcases hor with rfl | hall
      · split
        · rfl
        · rw [ih (Or.inl rfl)]
      · rw [if_neg (by simp [hall x List.mem_cons_self]),
          ih (Or.inr fun y hy => hall y (List.mem_cons_of_mem _ hy))]
  refine hpass _ _ ?_
  by_cases hroom : (o.orders.countP fun x => x.openAt now && !x.unclaimed) < MAX_HELD_ORDERS
  · refine Or.inr fun x hx => ?_
    have hx' := (Orders.mem_prune.1 hx).1
    by_contra hfits
    simp only [Bool.not_eq_false, Bool.and_eq_true] at hfits
    have hmem : x ∈ o.openOf h now := List.mem_filter.2 ⟨hx', by simp [hfits]⟩
    rcases hnone with hnil | hany
    · rw [hnil] at hmem
      cases hmem
    · rw [decide_eq_true hroom, Bool.and_true, List.any_eq_false] at hany
      exact hany x hmem hfits.1.2
  · exact Or.inl (by omega)

/-- The index agrees with the file exactly when it does not count the tries of the token's open orders too high. -/
theorem indexAgrees_iff (o : Orders) (h : Hash) (now : Int) : IndexAgrees o h now ↔ ¬ Miscounted o h now := by
  constructor
  · rintro hagrees ⟨hnow, hkept, hmany, hfew⟩
    have hne : o.openOf h now ≠ [] := by
      intro hnil
      simp [triesOnceMore, hnil, wrap32] at hmany
    have hknown : (Index.of o).known h now = .tooManyTries := by
      rcases known_cases o h now with ⟨-, hnil, -⟩ | ⟨hk, -⟩ | ⟨-, hnil⟩ | ⟨-, hneg | hk | hle⟩
      · exact absurd hnil hne
      · exact hk
      · exact absurd hnil hne
      · omega
      · exact absurd hk hkept
      · omega
    -- a signature no transaction used
    have hfresh := Accounts.freshName_fresh (o.used.map Used.signatureSha256) ""
    generalize Accounts.freshName _ _ _ = sig at hfresh
    have hunused : (o.prune now).isUsed sig = false := by
      refine eq_false_of_ne_true fun hused => hfresh ?_
      obtain ⟨u, hu, hsame⟩ := List.any_eq_true.1 (Orders.isUsed_prune hused)
      exact List.mem_map.2 ⟨u, hu, by simpa using hsame⟩
    obtain ⟨why, hwhy⟩ := hagrees.refused (Or.inr hknown) sig
    rw [beforeClaim_of_not_paidKept hkept, if_neg (by simp [hunused]), if_neg hne, if_neg (by omega)] at hwhy
    cases hwhy
  · intro hcount
    refine ⟨fun full => ?_, fun hknown sig => ?_, fun hknown => ?_⟩
    · rw [roomFor_of, room_prune]
    · rcases known_cases o h now with ⟨-, hnil, hkept⟩ | ⟨-, hnow, hkept, hmany⟩ | ⟨hk, -⟩ | ⟨hk, -⟩
      · rw [beforeClaim_of_not_paidKept hkept, if_pos hnil]
        split <;> exact ⟨_, rfl⟩
      · have hmany' : triesCounted o h now > MAX_CLAIM_TRIES := by
          by_contra hle
          exact hcount ⟨hnow, hkept, hmany, by omega⟩
        rw [beforeClaim_of_not_paidKept hkept, if_pos hmany']
        split
        · exact ⟨_, rfl⟩
        · split <;> exact ⟨_, rfl⟩
      · rw [hk] at hknown
        rcases hknown with hknown | hknown <;> cases hknown
      · rw [hk] at hknown
        rcases hknown with hknown | hknown <;> cases hknown
    · rw [hold_open_of_known, Orders.filter_prune fun x hx => hx]
      rcases known_cases o h now with ⟨hk, hnil, -⟩ | ⟨hk, -⟩ | ⟨-, hnil⟩ | ⟨hk, -⟩
      · exact Or.inl hnil
      · rw [hk] at hknown
        cases hknown
      · exact Or.inl hnil
      · rw [hk] at hknown
        exact Or.inr (Known.orders.inj hknown)

/-- Two open orders of a token, one tried `2^32 - 1` times and one thirty. -/
def triedOften : Orders where
  orders := [
    { tokenSha256 := "a", passes := 10, amountRaw := 1000001, created := 100, paidSha256 := none,
      tries := 4294967295, unclaimed := false },
    { tokenSha256 := "a", passes := 10, amountRaw := 1000002, created := 100, paidSha256 := none,
      tries := 30, unclaimed := false }]
  used := []
  lapsed := []
  lapsedPruned := 0
  dropLapsedTo := none

/-- The index turns the claim away, and the file lets it through to the chain. -/
theorem not_indexAgrees : (Index.of triedOften).known "a" 200 = .tooManyTries ∧
    (triedOften.beforeClaim "a" "s" 200).2.isOk = true ∧ ¬ IndexAgrees triedOften "a" 200 := by
  refine ⟨by decide, by decide, fun hagrees => ?_⟩
  obtain ⟨why, hwhy⟩ := hagrees.refused (Or.inr (by decide)) "s"
  have : (triedOften.beforeClaim "a" "s" 200).2.isOk = true := by decide
  rw [hwhy] at this
  cases this

end HidraNet.Issuer
