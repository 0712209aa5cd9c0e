import HidraNet.Issuer.Prices
import HidraNet.Lib.Json

/-!
# What a transaction paid

The answer to `getTransaction` is read for what reached the receiving wallet: the balances of its accounts after the
transaction, less those before.  The sums are `i128`, as a build that checks them has them: none is an overflow.

Where the wallet's accounts are told apart by their index this is the wallet's net gain, whatever the order of the
entries and whatever else is among them (`inspectPayment_net`).
-/

namespace HidraNet.Issuer

open HidraNet.Core Json Net

/-- The wallet and the token a payment must have reached. -/
structure Receiver where
  wallet : List Char
  mint : List Char
  decimals : Nat

/-- Why a transaction does not pay an order. -/
inductive Rejected where
  | notFound
  /-- Not shaped like `getTransaction`'s answer. -/
  | malformed
  | failed
  | tooEarly
  /-- The token balances name other decimals than the issuer was told. -/
  | decimals
  | noTransfer
  | wrongAmount (paidRaw : Nat)
deriving DecidableEq

/-! ### Reading the answer -/

/-- `Value::as_u64`. -/
def asU64 : Value → Option Nat
  | .number ds => if ds ≠ [] ∧ ds.all Char.isDigit ∧ Nat.ofDigitChars 10 ds 0 < 2 ^ 64 then
      some (Nat.ofDigitChars 10 ds 0) else none
  | _ => none

/-- `Value::as_i64`; `-0` is read as a fraction. -/
def asI64 : Value → Option Int
  | .number ('-' :: ds) => if ds ≠ [] ∧ ds.all Char.isDigit ∧ 0 < Nat.ofDigitChars 10 ds 0 ∧
      Nat.ofDigitChars 10 ds 0 ≤ 2 ^ 63 then some (-(Nat.ofDigitChars 10 ds 0 : Int)) else none
  | .number ds => if ds ≠ [] ∧ ds.all Char.isDigit ∧ Nat.ofDigitChars 10 ds 0 < 2 ^ 63 then
      some (Nat.ofDigitChars 10 ds 0 : Int) else none
  | _ => none

/-- The raw amount that an account holds of the token. -/
structure Balance where
  index : Nat
  amount : Nat
  decimals : Nat
deriving DecidableEq

variable (want : Receiver)

def concerns (b : Value) : Bool :=
  ((b.get "owner").bind Value.asStr).getD [] = want.wallet && ((b.get "mint").bind Value.asStr).getD [] = want.mint

def accountIndex (b : Value) : Option Nat := (b.get "accountIndex").bind asU64

/-- An entry's account, amount and decimals. -/
def readBalance (b : Value) : Option Balance := do
  let index ← accountIndex b
  let ui ← b.get "uiTokenAmount"
  let amount ← ((ui.get "amount").bind Value.asStr).bind parseU64
  let decimals ← ((ui.get "decimals").bind asU64).filter (· ≤ 255)
  return ⟨index, amount, decimals⟩

/-- The wallet's balances in a list, in its order. -/
def readBalances : List Value → Except Rejected (List Balance)
  | [] => .ok []
  | b :: list =>
    if concerns want b then
      match readBalance b with
      | none => .error .malformed
      | some balance => (readBalances list).map (balance :: ·)
    else readBalances list

def balances (info : Value) (key : String) : Except Rejected (List Balance) :=
  match info.get key with
  | none => .ok []
  | some (.array list) => readBalances want list
  | some _ => .error .malformed

/-! ### The sum -/

/-- An `i128`, or none where it overflows. -/
def i128 (n : Int) : Option Int := if -2 ^ 127 ≤ n ∧ n < 2 ^ 127 then some n else none

def amountAt (before : List Balance) (index : Nat) : Nat := ((before.find? (·.index = index)).map (·.amount)).getD 0

def sumAfter (before : List Balance) : List Balance → Int → Option Int
  | [], received => some received
  | b :: after, received => do
    let gain ← i128 ((b.amount : Int) - amountAt before b.index)
    sumAfter before after (← i128 (received + gain))

def sumClosed (after : List Balance) : List Balance → Int → Option Int
  | [], received => some received
  | b :: before, received =>
    if after.any (·.index = b.index) then sumClosed after before received
    else do sumClosed after before (← i128 (received - b.amount))

/-- The block time of an answer, and the wallet's balances before and after. -/
def readAnswer (result : Value) : Except Rejected (Int × List Balance × List Balance) :=
  match result with
  | .null => .error .notFound
  | _ =>
    match result.get "meta" with
    | none => .error .malformed
    | some info =>
      match info.get "err" with
      | none => .error .malformed
      | some .null =>
        match (result.get "blockTime").bind asI64 with
        | none => .error .malformed
        | some blockTime => do
          let before ← balances want info "preTokenBalances"
          let after ← balances want info "postTokenBalances"
          return (blockTime, before, after)
      | some _ => .error .failed

/-- What the answer to `getTransaction` paid the receiver. -/
def inspectPayment (result : Value) : Option (Except Rejected Payment) :=
  match readAnswer want result with
  | .error why => some (.error why)
  | .ok (blockTime, before, after) =>
    if (before ++ after).any (·.decimals ≠ want.decimals) then some (.error .decimals)
    else do
      let received ← sumAfter before after 0
      let received ← sumClosed after before received
      if received ≤ 0 then some (.error .noTransfer)
      else if received < 2 ^ 64 then some (.ok ⟨received.toNat, blockTime⟩)
      else some (.error .malformed)

/-! ### The lists -/

section Lists

variable {want} {list list' : List Value}

private theorem readBalances_eq : readBalances want list =
    if ∀ b ∈ list.filter (concerns want), (readBalance b).isSome then
      .ok ((list.filter (concerns want)).filterMap readBalance) else .error .malformed := by
  induction list with
  | nil => rfl
  | cons b list ih =>
    rw [readBalances]
    by_cases hb : concerns want b = true
    · rw [if_pos hb, List.filter_cons_of_pos hb, ih]
      cases hread : readBalance b with
      | none =>
        have hno : ¬ ∀ x ∈ b :: list.filter (concerns want), (readBalance x).isSome := by
          intro h
          have hb := h b List.mem_cons_self
          rw [hread] at hb
          cases hb
        rw [if_neg hno]
      | some balance =>
        dsimp only
        by_cases hall : ∀ b ∈ list.filter (concerns want), (readBalance b).isSome
        · rw [if_pos hall, if_pos (List.forall_mem_cons.2 ⟨by rw [hread]; rfl, hall⟩), List.filterMap_cons, hread]
          rfl
        · rw [if_neg hall, if_neg fun h => hall (List.forall_mem_cons.1 h).2]
          rfl
    · rw [if_neg hb, List.filter_cons_of_neg hb, ih]

def entries (info : Value) (key : String) : Option (List Value) :=
  match info.get key with
  | none => some []
  | some (.array list) => some list
  | some _ => none

private theorem balances_eq (info : Value) (key : String) :
    balances want info key = match entries info key with
      | none => .error .malformed
      | some list => readBalances want list := by
  unfold balances entries
  split <;> rfl

def Distinct (want : Receiver) (list : List Value) : Prop :=
  ((list.filter (concerns want)).filterMap accountIndex).Nodup

instance (want : Receiver) (list : List Value) : Decidable (Distinct want list) :=
  inferInstanceAs (Decidable (List.Nodup _))

private theorem readBalances_ok {bs : List Balance} (h : readBalances want list = .ok bs) :
    bs = (list.filter (concerns want)).filterMap readBalance := by
  rw [readBalances_eq] at h
  split at h
  · exact (Except.ok.inj h).symm
  · cases h

private theorem parseUnsigned_le {max n : Nat} {l : List Char} (h : parseUnsigned max l = some n) : n ≤ max := by
  unfold parseUnsigned at h
  obtain ⟨hif, rfl⟩ := Option.ite_none_right_eq_some.1 h |>.imp_right Option.some.inj
  exact hif.2.2

private theorem readBalance_some {b : Value} {balance : Balance} (h : readBalance b = some balance) :
    accountIndex b = some balance.index ∧ balance.amount < 2 ^ 64 := by
  unfold readBalance at h
  obtain ⟨index, hindex, h⟩ := Option.bind_eq_some_iff.1 h
  obtain ⟨ui, -, h⟩ := Option.bind_eq_some_iff.1 h
  obtain ⟨amount, hamount, h⟩ := Option.bind_eq_some_iff.1 h
  obtain ⟨decimals, -, h⟩ := Option.bind_eq_some_iff.1 h
  obtain rfl := Option.some.inj h
  obtain ⟨text, -, hparse⟩ := Option.bind_eq_some_iff.1 hamount
  exact ⟨hindex, Nat.lt_of_le_pred (by decide) (parseUnsigned_le hparse)⟩

theorem distinct_readBalances {bs : List Balance} (h : readBalances want list = .ok bs) (hd : Distinct want list) :
    (bs.map (·.index)).Nodup := by
  have hsub : ∀ l : List Value,
      List.Sublist ((l.filterMap readBalance).map (·.index)) (l.filterMap accountIndex) := by
    intro l
    induction l with
    | nil => exact List.Sublist.refl _
    | cons b l ih =>
      cases hread : readBalance b with
      | none =>
        rw [List.filterMap_cons_none hread]
        exact ih.trans (List.Sublist.filterMap _ (List.sublist_cons_self b l))
      | some balance =>
        rw [List.filterMap_cons_some hread, List.filterMap_cons_some (readBalance_some hread).1, List.map_cons]
        exact ih.cons_cons _
  rw [readBalances_ok h]
  exact hd.sublist (hsub _)

private theorem amount_lt {bs : List Balance} (h : readBalances want list = .ok bs) : ∀ b ∈ bs, b.amount < 2 ^ 64 := by
  intro b hb
  rw [readBalances_ok h] at hb
  obtain ⟨v, -, hv⟩ := List.mem_filterMap.1 hb
  exact (readBalance_some hv).2

theorem length_readBalances {bs : List Balance} (h : readBalances want list = .ok bs) : bs.length ≤ list.length := by
  rw [readBalances_ok h]
  exact (List.length_filterMap_le _ _).trans (List.length_filter_le _ _)

end Lists

/-! ### The sums -/

def held (bs : List Balance) : Int := (bs.map fun b => (b.amount : Int)).sum

/-- What the accounts of `after` gained on those of `before`. -/
def gained (before after : List Balance) : Int := (after.map fun b => (b.amount : Int) - amountAt before b.index).sum

/-- What the accounts held that `after` does not have. -/
def closed (after before : List Balance) : Int := held (before.filter fun b => !after.any (·.index = b.index))

private theorem amountAt_lt {before : List Balance} (h : ∀ b ∈ before, b.amount < 2 ^ 64) (index : Nat) :
    amountAt before index < 2 ^ 64 := by
  unfold amountAt
  cases hfind : before.find? (·.index = index) with
  | none => decide
  | some b => exact h b (List.mem_of_find?_eq_some hfind)

private theorem i128_of_mem {n : Int} (h : -2 ^ 127 ≤ n ∧ n < 2 ^ 127) : i128 n = some n := if_pos h

private theorem sumAfter_eq {before after : List Balance} (hb : ∀ b ∈ before, b.amount < 2 ^ 64)
    (ha : ∀ b ∈ after, b.amount < 2 ^ 64) {k : Nat} (hk : k + after.length < 2 ^ 63) (received : Int)
    (hlo : -(k * 2 ^ 64) ≤ received) (hhi : received ≤ k * 2 ^ 64) :
    sumAfter before after received = some (received + gained before after) ∧
      -((k + after.length : Nat) * 2 ^ 64) ≤ received + gained before after ∧
      received + gained before after ≤ (k + after.length : Nat) * 2 ^ 64 := by
  induction after generalizing k received with
  | nil =>
    have hnil : gained before [] = 0 := rfl
    rw [hnil, Int.add_zero]
    exact ⟨rfl, hlo, hhi⟩
  | cons b after ih =>
    obtain ⟨hamount, htail⟩ := List.forall_mem_cons.1 ha
    have hpre := amountAt_lt hb b.index
    rw [List.length_cons] at hk ⊢
    have hstep := ih htail (k := k + 1) (by omega) (received + ((b.amount : Int) - amountAt before b.index))
      (by push_cast; omega) (by push_cast; omega)
    have hsum : received + gained before (b :: after) =
        received + ((b.amount : Int) - amountAt before b.index) + gained before after := by
      simp only [gained, List.map_cons, List.sum_cons]
      ring
    rw [hsum, sumAfter, i128_of_mem (by omega), Option.bind_eq_bind, Option.bind_some, i128_of_mem (by omega),
      Option.bind_some, show k + (after.length + 1) = k + 1 + after.length by omega]
    exact hstep

private theorem sumClosed_eq {before after : List Balance} (hb : ∀ b ∈ before, b.amount < 2 ^ 64) {k : Nat}
    (hk : k + before.length < 2 ^ 63) {received : Int} (hlo : -(k * 2 ^ 64) ≤ received) (hhi : received ≤ k * 2 ^ 64) :
    sumClosed after before received = some (received - closed after before) := by
  induction before generalizing k received with
  | nil => simp [sumClosed, closed, held]
  | cons b before ih =>
    obtain ⟨hamount, htail⟩ := List.forall_mem_cons.1 hb
    rw [List.length_cons] at hk
    rw [sumClosed]
    by_cases hin : after.any (·.index = b.index) = true
    · have hclosed : closed after (b :: before) = closed after before := by
        unfold closed
        rw [List.filter_cons_of_neg (by simpa using hin)]
      rw [if_pos hin, hclosed]
      exact ih htail (k := k) (by omega) hlo hhi
    · have hclosed : closed after (b :: before) = b.amount + closed after before := by
        unfold closed held
        rw [List.filter_cons_of_pos (by simpa using hin), List.map_cons, List.sum_cons]
      rw [if_neg hin, hclosed, i128_of_mem (by omega), Option.bind_eq_bind, Option.bind_some,
        ih htail (k := k + 1) (by omega) (by push_cast; omega) (by push_cast; omega)]
      congr 1
      ring

private theorem sum_at {after : List Balance} (h : (after.map (·.index)).Nodup) (index : Nat) (x : Int) :
    (after.map fun b => if b.index = index then x else 0).sum = if after.any (·.index = index) then x else 0 := by
  induction after with
  | nil => rfl
  | cons b after ih =>
    rw [List.map_cons, List.nodup_cons] at h
    rw [List.map_cons, List.sum_cons, ih h.2]
    by_cases hb : b.index = index
    · have hno : after.any (·.index = index) = false := by
        rw [List.any_eq_false]
        intro c hc heq
        exact h.1 (List.mem_map.2 ⟨c, hc, by rw [of_decide_eq_true heq, hb]⟩)
      simp [hb, hno]
    · simp [hb]

private theorem gained_sub_closed {before after : List Balance} (hb : (before.map (·.index)).Nodup)
    (ha : (after.map (·.index)).Nodup) : gained before after - closed after before = held after - held before := by
  induction before with
  | nil => simp [gained, closed, held, amountAt]
  | cons b before ih =>
    rw [List.map_cons, List.nodup_cons] at hb
    have hat : ∀ i, (amountAt (b :: before) i : Int) =
        amountAt before i + if i = b.index then (b.amount : Int) else 0 := by
      intro i
      unfold amountAt
      by_cases hi : i = b.index
      · have hnone : before.find? (·.index = i) = none := by
          rw [List.find?_eq_none]
          intro c hc heq
          exact hb.1 (List.mem_map.2 ⟨c, hc, (of_decide_eq_true heq).trans hi⟩)
        rw [List.find?_cons_of_pos (by simp [hi]), hnone, if_pos hi]
        simp
      · rw [List.find?_cons_of_neg (by simpa using fun heq => hi heq.symm), if_neg hi, Int.add_zero]
    have hgained : gained (b :: before) after + (if after.any (·.index = b.index) then (b.amount : Int) else 0) =
        gained before after := by
      rw [← sum_at ha b.index b.amount]
      unfold gained
      rw [← List.sum_map_add]
      congr 1
      apply List.map_congr_left
      intro c _
      rw [hat]
      ring
    have hclosed : closed after (b :: before) =
        closed after before + if after.any (·.index = b.index) then 0 else (b.amount : Int) := by
      unfold closed held
      by_cases hin : after.any (·.index = b.index) = true
      · rw [List.filter_cons_of_neg (by simpa using hin), if_pos hin, Int.add_zero]
      · rw [List.filter_cons_of_pos (by simpa using hin), if_neg hin, List.map_cons, List.sum_cons]
        ring
    have hheld : held (b :: before) = b.amount + held before := by
      unfold held
      rw [List.map_cons, List.sum_cons]
    have hrest := ih hb.2
    rw [hclosed, hheld]
    split at hgained
    · rename_i hin
      rw [if_pos hin]
      omega
    · rename_i hin
      rw [if_neg hin]
      omega

/-! ### What is paid -/

/-- Every list has fewer entries: its bytes are `isize::MAX` at most, and an entry takes more than one. -/
def VEC_MAX : Nat := 2 ^ 62

def Sane (want : Receiver) (result : Value) : Prop :=
  ∀ info, result.get "meta" = some info → ∀ key ∈ ["preTokenBalances", "postTokenBalances"], ∀ list,
    entries info key = some list → Distinct want list ∧ list.length < VEC_MAX

def outcome (want : Receiver) (blockTime : Int) (before after : List Balance) : Except Rejected Payment :=
  if ∃ b ∈ before ++ after, b.decimals ≠ want.decimals then .error .decimals
  else if held after - held before ≤ 0 then .error .noTransfer
  else if held after - held before < 2 ^ 64 then .ok ⟨(held after - held before).toNat, blockTime⟩
  else .error .malformed

variable {want} {result result' : Value} {blockTime : Int} {before after : List Balance}

private theorem balances_ok {info : Value} {key : String} {bs : List Balance} (h : balances want info key = .ok bs) :
    ∃ list, entries info key = some list ∧ readBalances want list = .ok bs := by
  rw [balances_eq] at h
  cases hlist : entries info key with
  | none =>
    rw [hlist] at h
    cases h
  | some list =>
    rw [hlist] at h
    exact ⟨list, rfl, h⟩

private theorem readAnswer_ok : readAnswer want result = .ok (blockTime, before, after) ↔
    ∃ info, result.get "meta" = some info ∧ info.get "err" = some .null ∧
      (result.get "blockTime").bind asI64 = some blockTime ∧ balances want info "preTokenBalances" = .ok before ∧
      balances want info "postTokenBalances" = .ok after := by
  constructor
  · intro h
    unfold readAnswer at h
    split at h
    · cases h
    · split at h
      · cases h
      · rename_i info hinfo
        split at h
        · cases h
        · rename_i herr
          split at h
          · cases h
          · rename_i t ht
            obtain ⟨bs, hbefore, h⟩ := ok_of_bind h
            obtain ⟨as, hafter, h⟩ := ok_of_bind h
            obtain ⟨rfl, rfl, rfl⟩ := Prod.mk.inj (Except.ok.inj h) |>.imp_right Prod.mk.inj
            exact ⟨info, hinfo, herr, ht, hbefore, hafter⟩
        · cases h
  · rintro ⟨info, hinfo, herr, ht, hbefore, hafter⟩
    unfold readAnswer
    split
    · cases hinfo
    · rw [hinfo]
      dsimp only
      rw [herr]
      dsimp only
      rw [ht, hbefore, hafter]
      rfl

private theorem inspectPayment_eq (h : Sane want result) : inspectPayment want result =
    some (match readAnswer want result with
      | .error why => .error why
      | .ok (blockTime, before, after) => outcome want blockTime before after) := by
  unfold inspectPayment
  cases hread : readAnswer want result with
  | error why => rfl
  | ok read =>
    obtain ⟨blockTime, before, after⟩ := read
    obtain ⟨info, hinfo, -, -, hbefore, hafter⟩ := readAnswer_ok.1 hread
    obtain ⟨list, hlist, hpre⟩ := balances_ok hbefore
    obtain ⟨list', hlist', hpost⟩ := balances_ok hafter
    obtain ⟨hdist, hlen⟩ := h info hinfo _ (by decide) list hlist
    obtain ⟨hdist', hlen'⟩ := h info hinfo _ (by decide) list' hlist'
    have hb := length_readBalances hpre
    have ha := length_readBalances hpost
    have hnet := gained_sub_closed (distinct_readBalances hpre hdist) (distinct_readBalances hpost hdist')
    unfold VEC_MAX at hlen hlen'
    obtain ⟨hsum, hlo, hhi⟩ := sumAfter_eq (amount_lt hpre) (amount_lt hpost) (k := 0) (by omega) 0 (by simp) (by simp)
    rw [Int.zero_add] at hsum hlo hhi
    dsimp only
    unfold outcome
    by_cases hdec : ∃ b ∈ before ++ after, b.decimals ≠ want.decimals
    · have hany : (before ++ after).any (·.decimals ≠ want.decimals) = true := by
        rw [List.any_eq_true]
        simpa only [decide_eq_true_eq] using hdec
      rw [if_pos hdec, if_pos hany]
    · have hany : ¬ (before ++ after).any (·.decimals ≠ want.decimals) = true := by
        rw [List.any_eq_true]
        simpa only [decide_eq_true_eq] using hdec
      rw [if_neg hdec, if_neg hany, hsum, Option.bind_eq_bind, Option.bind_some,
        sumClosed_eq (amount_lt hpre) (by omega) hlo hhi, Option.bind_some, hnet]
      split
      · rfl
      · split <;> rfl

/-! ### The order of the entries -/

/-- The same answer but for the order of the entries and for entries that are not about the wallet and the mint. -/
structure Alike (want : Receiver) (result result' : Value) : Prop where
  blockTime : result'.get "blockTime" = result.get "blockTime"
  info : ∃ info info', result.get "meta" = some info ∧ result'.get "meta" = some info' ∧
    info'.get "err" = info.get "err" ∧ ∀ key ∈ ["preTokenBalances", "postTokenBalances"], ∃ list list',
      entries info key = some list ∧ entries info' key = some list' ∧
        (list.filter (concerns want)).Perm (list'.filter (concerns want))

private theorem readBalances_perm {list list' : List Value}
    (h : (list.filter (concerns want)).Perm (list'.filter (concerns want))) :
    (readBalances want list = .error .malformed ∧ readBalances want list' = .error .malformed) ∨
      ∃ bs bs', readBalances want list = .ok bs ∧ readBalances want list' = .ok bs' ∧ bs.Perm bs' := by
  rw [readBalances_eq, readBalances_eq]
  have hmem : (∀ b ∈ list.filter (concerns want), (readBalance b).isSome) ↔
      ∀ b ∈ list'.filter (concerns want), (readBalance b).isSome :=
    ⟨fun hall b hb => hall b (h.mem_iff.2 hb), fun hall b hb => hall b (h.mem_iff.1 hb)⟩
  by_cases hall : ∀ b ∈ list.filter (concerns want), (readBalance b).isSome
  · rw [if_pos hall, if_pos (hmem.1 hall)]
    exact Or.inr ⟨_, _, rfl, rfl, h.filterMap readBalance⟩
  · rw [if_neg hall, if_neg fun h => hall (hmem.2 h)]
    exact Or.inl ⟨rfl, rfl⟩

private theorem outcome_perm {before' after' : List Balance} (hb : before.Perm before') (ha : after.Perm after') :
    outcome want blockTime before' after' = outcome want blockTime before after := by
  have hheld : ∀ {bs bs' : List Balance}, bs.Perm bs' → held bs' = held bs := fun hp => (hp.map _).sum_eq.symm
  have hdec : (∃ b ∈ before' ++ after', b.decimals ≠ want.decimals) ↔
      ∃ b ∈ before ++ after, b.decimals ≠ want.decimals := by
    simp only [(hb.append ha).mem_iff]
  unfold outcome
  rw [hheld hb, hheld ha]
  simp only [hdec]

private theorem readAnswer_info {info : Value} (h : result.get "meta" = some info) : readAnswer want result =
    match info.get "err" with
    | none => .error .malformed
    | some .null =>
      match (result.get "blockTime").bind asI64 with
      | none => .error .malformed
      | some blockTime => do
        let before ← balances want info "preTokenBalances"
        let after ← balances want info "postTokenBalances"
        return (blockTime, before, after)
    | some _ => .error .failed := by
  unfold readAnswer
  split
  · cases h
  · rw [h]

private theorem readAnswer_alike (h : Alike want result result') :
    (∃ why, readAnswer want result = .error why ∧ readAnswer want result' = .error why) ∨
      ∃ t before after before' after', readAnswer want result = .ok (t, before, after) ∧
        readAnswer want result' = .ok (t, before', after') ∧ before.Perm before' ∧ after.Perm after' := by
  obtain ⟨htime, info, info', hinfo, hinfo', herr, hlists⟩ := h
  obtain ⟨pre, pre', hpre, hpre', hperm⟩ := hlists "preTokenBalances" (by decide)
  obtain ⟨post, post', hpost, hpost', hperm'⟩ := hlists "postTokenBalances" (by decide)
  rw [readAnswer_info hinfo, readAnswer_info hinfo', herr, htime, balances_eq info, balances_eq info, balances_eq info',
    balances_eq info', hpre, hpre', hpost, hpost']
  split
  · exact Or.inl ⟨_, rfl, rfl⟩
  · cases (result.get "blockTime").bind asI64 with
    | none => exact Or.inl ⟨_, rfl, rfl⟩
    | some t =>
      dsimp only
      rcases readBalances_perm hperm with ⟨hb, hb'⟩ | ⟨bs, bs', hb, hb', hbs⟩
      · rw [hb, hb']
        exact Or.inl ⟨_, rfl, rfl⟩
      · rcases readBalances_perm hperm' with ⟨ha, ha'⟩ | ⟨as, as', ha, ha', has⟩
        · rw [hb, hb', ha, ha']
          exact Or.inl ⟨_, rfl, rfl⟩
        · rw [hb, hb', ha, ha']
          exact Or.inr ⟨t, bs, as, bs', as', rfl, rfl, hbs, has⟩
  · exact Or.inl ⟨_, rfl, rfl⟩

/-- Whatever an answer with the wallet's accounts once in each list says, it is read without an overflow.  It is a
payment just where it is well formed, not failed and of the right decimals and the wallet's balances after are more than
those before by less than `2 ^ 64`, and of that much; neither the order of the entries nor an entry about another owner
or mint makes a difference. -/
theorem inspectPayment_net (h : Sane want result) :
    (∃ r, inspectPayment want result = some r) ∧
    (∀ paid, inspectPayment want result = some (.ok paid) ↔
      ∃ info before after, (result.get "meta" = some info ∧ info.get "err" = some .null ∧
          (result.get "blockTime").bind asI64 = some paid.blockTime ∧
          balances want info "preTokenBalances" = .ok before ∧ balances want info "postTokenBalances" = .ok after) ∧
        (∀ b ∈ before ++ after, b.decimals = want.decimals) ∧ 0 < held after - held before ∧
        held after - held before < 2 ^ 64 ∧ (paid.paidRaw : Int) = held after - held before) ∧
    ∀ result', Sane want result' → Alike want result result' →
      inspectPayment want result' = inspectPayment want result := by
  refine ⟨⟨_, inspectPayment_eq h⟩, ?_, ?_⟩
  · intro paid
    rw [inspectPayment_eq h]
    constructor
    · intro hpaid
      have hok := Option.some.inj hpaid
      split at hok
      · cases hok
      · rename_i t before after hread
        unfold outcome at hok
        split at hok
        · cases hok
        · rename_i hdec
          split at hok
          · cases hok
          · split at hok
            · obtain rfl := Except.ok.inj hok
              obtain ⟨info, hinfo⟩ := readAnswer_ok.1 hread
              refine ⟨info, before, after, hinfo, ?_, by omega, by omega, ?_⟩
              · simpa only [not_exists, not_and, not_not] using hdec
              · exact Int.toNat_of_nonneg (by omega)
            · cases hok
    · rintro ⟨info, before, after, hinfo, hdec, hpos, hfits, hraw⟩
      rw [readAnswer_ok.2 ⟨info, hinfo⟩]
      dsimp only
      unfold outcome
      rw [if_neg (by simpa only [not_exists, not_and, not_not] using hdec), if_neg (by omega), if_pos hfits, ← hraw]
      rfl
  · intro result' h' halike
    rw [inspectPayment_eq h, inspectPayment_eq h']
    rcases readAnswer_alike halike with ⟨why, hread, hread'⟩ | ⟨t, bs, as, bs', as', hread, hread', hbs, has⟩
    · rw [hread, hread']
    · rw [hread, hread']
      dsimp only
      rw [outcome_perm hbs has]

private def receiver : Receiver := ⟨"wallet".toList, "mint".toList, 6⟩

private def entry (index amount : String) : Value :=
  .object [("accountIndex".toList, .number index.toList), ("owner".toList, .text "wallet"),
    ("mint".toList, .text "mint"),
    ("uiTokenAmount".toList, .object [("amount".toList, .text amount), ("decimals".toList, .number "6".toList)])]

private def info (list : List Value) : Value :=
  .object [("err".toList, .null), ("postTokenBalances".toList, .array list)]

private def answer (list : List Value) : Value :=
  .object [("blockTime".toList, .number "1700000000".toList), ("meta".toList, info list)]

private theorem sane_answer {list : List Value} (h : Distinct receiver list) (hlen : list.length < VEC_MAX) :
    Sane receiver (answer list) := by
  intro i hi key hkey l hl
  obtain rfl : info list = i := Option.some.inj hi
  rcases List.mem_cons.1 hkey with rfl | hkey
  · obtain rfl : [] = l := Option.some.inj hl
    exact ⟨List.nodup_nil, by decide⟩
  · obtain rfl := List.mem_singleton.1 hkey
    obtain rfl : list = l := Option.some.inj hl
    exact ⟨h, hlen⟩

private def moved : Value :=
  .object [("blockTime".toList, .number "1700000000".toList), ("meta".toList, .object [("err".toList, .null),
    ("preTokenBalances".toList, .array [entry "3" "10", entry "4" "5"]),
    ("postTokenBalances".toList, .array [entry "5" "7", entry "3" "40"])])]

private theorem sane_moved : Sane receiver moved := by
  intro i hi key hkey l hl
  obtain rfl := Option.some.inj hi
  rcases List.mem_cons.1 hkey with rfl | hkey
  · obtain rfl := Option.some.inj hl
    exact ⟨by decide, by decide⟩
  · obtain rfl := List.mem_singleton.1 hkey
    obtain rfl := Option.some.inj hl
    exact ⟨by decide, by decide⟩

/-- An account that gained, one that was closed and one that was opened. -/
theorem inspectPayment_net_moved : inspectPayment receiver moved = some (.ok ⟨32, 1700000000⟩) ∧
    ∀ result', Sane receiver result' → Alike receiver moved result' →
      inspectPayment receiver result' = some (.ok ⟨32, 1700000000⟩) := by
  obtain ⟨-, hpaid, halike⟩ := inspectPayment_net sane_moved
  have hmoved := (hpaid ⟨32, 1700000000⟩).2 ⟨_, [⟨3, 10, 6⟩, ⟨4, 5, 6⟩], [⟨5, 7, 6⟩, ⟨3, 40, 6⟩],
    ⟨rfl, rfl, by decide, by decide, by decide⟩, by decide, by decide, by decide, by decide⟩
  exact ⟨hmoved, fun result' h' h => (halike result' h' h).trans hmoved⟩

/-- Two accounts that gained the largest amount each: well formed, of the right decimals and a gain, and no payment. -/
theorem gain_too_large :
    Sane receiver (answer [entry "3" "18446744073709551615", entry "4" "18446744073709551615"]) ∧
      readAnswer receiver (answer [entry "3" "18446744073709551615", entry "4" "18446744073709551615"]) =
        .ok (1700000000, [], [⟨3, 18446744073709551615, 6⟩, ⟨4, 18446744073709551615, 6⟩]) ∧
      0 < held [⟨3, 18446744073709551615, 6⟩, ⟨4, 18446744073709551615, 6⟩] - held [] ∧
      inspectPayment receiver (answer [entry "3" "18446744073709551615", entry "4" "18446744073709551615"]) =
        some (.error .malformed) :=
  ⟨sane_answer (by decide) (by decide), by decide, by decide, by decide⟩

end HidraNet.Issuer
