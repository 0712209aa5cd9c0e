import HidraNet.Lib.Lists
import HidraNet.Lib.Ints
import HidraNet.Lib.Text

/-!
# The issuer's accounts

The accounts file: what a token may still have signed, as a quota for each UTC day or as a prepaid balance.  Each
operation changes one entry, the first whose token hashes to the one given (`change`), so what it does to the file
is said by what it does to that entry (`charge_cases`, `credit_cases`, `refund_cases`, `entry_setEnabled`).

A charge that is refused, for the quota or for anything else, signs nothing; one for the quota may still have moved
the account on to the day it was asked on (`AccountEntry.onDay`).
-/

namespace HidraNet.Issuer

open HidraNet.Lists Ints Text

abbrev Hash := String

abbrev Token := String

def same (a b : String) : Bool := a == b

@[simp] theorem same_iff {a b : String} : same a b = true ↔ a = b := by simp [same]

@[simp] theorem same_eq_false {a b : String} : same a b = false ↔ a ≠ b := by simp [same]

/-- The hash a token's account is kept under, `sha` being SHA-256 of a text's bytes in hex. -/
def tokenHash (sha : String → Hash) (token : Token) : Hash := sha (trim token)

structure AccountEntry where
  name : String
  tokenSha256 : Hash
  quotaPerDay : Nat
  enabled : Bool
  /-- The UTC day `used` counts. -/
  day : Int
  used : Nat
  /-- A prepaid account: how many passes it has left in all. -/
  balance : Option Nat
deriving DecidableEq

structure Accounts where
  accounts : List AccountEntry
deriving DecidableEq

/-- Why an issuance is refused. -/
inductive Refused where
  | unknownToken
  | disabled
  | quota (left : Nat)
  | balance (left : Nat)
deriving DecidableEq

def MAX_PER_REQUEST : Nat := 16

/-! ### One entry -/

namespace AccountEntry

def onDay (a : AccountEntry) (today : Int) : AccountEntry :=
  if a.day ≠ today then { a with day := today, used := 0 } else a

/-- `charge` on the account found. -/
def charge (a : AccountEntry) (n : Nat) (today : Int) : AccountEntry × Except Refused (Nat × Bool) :=
  if !a.enabled then (a, .error .disabled)
  else match a.balance with
    | some b => if n > b then (a, .error (.balance b)) else ({ a with balance := some (b - n) }, .ok (b - n, true))
    | none =>
      let a := a.onDay today
      let left := a.quotaPerDay - a.used
      if n > left then (a, .error (.quota left)) else ({ a with used := a.used + n }, .ok (left - n, false))

/-- `credit` on the account found: an account with a daily quota that buys becomes prepaid. -/
def credit (a : AccountEntry) (passes : Nat) : AccountEntry :=
  { a with balance := some (satAdd32 (a.balance.getD 0) passes) }

/-- `refund` on the account found: `n` passes counted on the day and never signed. -/
def refund (a : AccountEntry) (n : Nat) (today : Int) : AccountEntry :=
  match a.balance with
  | some b => { a with balance := some (satAdd32 b n) }
  | none => if a.day = today then { a with used := a.used - n } else a

def setEnabled (a : AccountEntry) (on : Bool) : AccountEntry := { a with enabled := on }

@[simp] theorem tokenSha256_refund (a : AccountEntry) (n : Nat) (today : Int) :
    (a.refund n today).tokenSha256 = a.tokenSha256 := by
  unfold refund
  split <;> [rfl; split <;> rfl]

@[simp] theorem quotaPerDay_refund (a : AccountEntry) (n : Nat) (today : Int) :
    (a.refund n today).quotaPerDay = a.quotaPerDay := by
  unfold refund
  split <;> [rfl; split <;> rfl]

@[simp] theorem day_refund (a : AccountEntry) (n : Nat) (today : Int) : (a.refund n today).day = a.day := by
  unfold refund
  split <;> [rfl; split <;> rfl]

theorem balance_refund_none {a : AccountEntry} (h : a.balance = none) (n : Nat) (today : Int) :
    (a.refund n today).balance = none := by
  unfold refund
  rw [h]
  dsimp only
  split <;> simp [h]

@[simp] theorem tokenSha256_onDay (a : AccountEntry) (today : Int) : (a.onDay today).tokenSha256 = a.tokenSha256 := by
  unfold onDay
  split <;> rfl

@[simp] theorem quotaPerDay_onDay (a : AccountEntry) (today : Int) : (a.onDay today).quotaPerDay = a.quotaPerDay := by
  unfold onDay
  split <;> rfl

@[simp] theorem balance_onDay (a : AccountEntry) (today : Int) : (a.onDay today).balance = a.balance := by
  unfold onDay
  split <;> rfl

@[simp] theorem day_onDay (a : AccountEntry) (today : Int) : (a.onDay today).day = today := by
  unfold onDay
  split
  · rfl
  · rename_i h
    simpa using h

theorem used_onDay (a : AccountEntry) (today : Int) :
    (a.onDay today).used = if a.day = today then a.used else 0 := by
  unfold onDay
  split <;> simp_all

/-- What a charge on an entry can do: take from a balance, take from a day's quota, or be refused, with at most the
day moved on. -/
theorem charge_cases (a : AccountEntry) (n : Nat) (today : Int) :
    (∃ b, a.balance = some b ∧ n ≤ b ∧
      a.charge n today = ({ a with balance := some (b - n) }, .ok (b - n, true))) ∨
    (a.balance = none ∧ n ≤ a.quotaPerDay - (a.onDay today).used ∧
      a.charge n today = ({ a.onDay today with used := (a.onDay today).used + n },
        .ok (a.quotaPerDay - (a.onDay today).used - n, false))) ∨
    (∃ r, a.charge n today = (a, .error r)) ∨
    (a.balance = none ∧ ∃ r, a.charge n today = (a.onDay today, .error r)) := by
  unfold charge
  split
  · exact Or.inr (Or.inr (Or.inl ⟨_, rfl⟩))
  · split
    · rename_i b hb
      split
      · exact Or.inr (Or.inr (Or.inl ⟨_, rfl⟩))
      · exact Or.inl ⟨b, hb, by omega, rfl⟩
    · rename_i hb
      simp only [quotaPerDay_onDay]
      split
      · exact Or.inr (Or.inr (Or.inr ⟨hb, _, rfl⟩))
      · exact Or.inr (Or.inl ⟨hb, by omega, rfl⟩)

@[simp] theorem tokenSha256_charge (a : AccountEntry) (n : Nat) (today : Int) :
    (a.charge n today).1.tokenSha256 = a.tokenSha256 := by
  rcases a.charge_cases n today with ⟨b, -, -, h⟩ | ⟨-, -, h⟩ | ⟨r, h⟩ | ⟨-, r, h⟩ <;> simp [h]

end AccountEntry

/-! ### The file -/

namespace Accounts

def isOf (h : Hash) (a : AccountEntry) : Bool := same a.tokenSha256 h

def entry (a : Accounts) (h : Hash) : Option AccountEntry := a.accounts.find? (isOf h)

def change (a : Accounts) (h : Hash) (f : AccountEntry → AccountEntry) : Accounts :=
  ⟨modifyFirst (isOf h) f a.accounts⟩

/-- Counts `n` passes against the account the token names, today's quota or a prepaid balance, if it may have them;
all or nothing.  How many it has left (today, or in all), and whether it is prepaid. -/
def charge (sha : String → Hash) (a : Accounts) (token : Token) (n : Nat) (today : Int) :
    Accounts × Except Refused (Nat × Bool) :=
  let h := tokenHash sha token
  match a.entry h with
  | none => (a, .error .unknownToken)
  | some e => (a.change h fun e => (e.charge n today).1, (e.charge n today).2)

/-- A name for a new account that no other has: an `x` is added until none has it.  The fuel is the number of
accounts, which is enough (`freshName_fresh`). -/
def freshName (names : List String) : Nat → String → String
  | 0, name => name
  | k + 1, name => if names.any (· == name) then freshName names k (name.push 'x') else name

/-- Credits `passes` to the account whose token hashes to `hash`, making a prepaid one if there is none; `raw` is
the random part of its name in hex, if there is randomness.  The balance now. -/
def credit (a : Accounts) (hash : Hash) (passes : Nat) (raw : Option String) : Accounts × Option Nat :=
  match a.entry hash with
  | some e => (a.change hash fun e => e.credit passes, (e.credit passes).balance)
  | none =>
    match raw with
    | none => (a, none)
    | some raw =>
      let names := a.accounts.map AccountEntry.name
      (⟨a.accounts ++ [{
        name := freshName names names.length ("paid-" ++ raw)
        tokenSha256 := hash
        quotaPerDay := 0
        enabled := true
        day := 0
        used := 0
        balance := some passes }]⟩, some passes)

def balanceOf (a : Accounts) (hash : Hash) : Option Nat := (a.entry hash).bind AccountEntry.balance

/-- Gives back `n` passes counted on `today` and never signed. -/
def refund (sha : String → Hash) (a : Accounts) (token : Token) (n : Nat) (today : Int) : Accounts :=
  a.change (tokenHash sha token) fun e => e.refund n today

def setEnabled (a : Accounts) (name : String) (on : Bool) : Option Accounts :=
  if a.accounts.any (fun e => e.name == trim name) then
    some ⟨modifyFirst (fun e => e.name == trim name) (·.setEnabled on) a.accounts⟩
  else none

/-! ### What each operation does to the entries -/

theorem entry_change_self {f : AccountEntry → AccountEntry} (hf : ∀ e, (f e).tokenSha256 = e.tokenSha256)
    (a : Accounts) (h : Hash) : (a.change h f).entry h = (a.entry h).map f :=
  find?_modifyFirst_self (fun e he => by simpa [isOf, hf e] using he) _

theorem entry_change_other {f : AccountEntry → AccountEntry} (hf : ∀ e, (f e).tokenSha256 = e.tokenSha256)
    (a : Accounts) {h h' : Hash} (hne : h ≠ h') : (a.change h f).entry h' = a.entry h' := by
  refine find?_modifyFirst_other (fun e he => ?_) _
  have hh : e.tokenSha256 = h := by simpa [isOf] using he
  constructor
  · simpa [isOf, same, hh] using hne
  · simpa [isOf, same, hf e, hh] using hne

/-- `a'` is the file `a` with the account of `h` become `e`. -/
def Sets (a' a : Accounts) (h : Hash) (e : AccountEntry) : Prop :=
  ∀ h', a'.entry h' = if h = h' then some e else a.entry h'

private theorem sets_change {f : AccountEntry → AccountEntry} (hf : ∀ e, (f e).tokenSha256 = e.tokenSha256)
    {a : Accounts} {h : Hash} {e : AccountEntry} (he : a.entry h = some e) : (a.change h f).Sets a h (f e) := by
  intro h'
  by_cases hh : h = h'
  · subst hh
    simp [entry_change_self hf, he]
  · rw [if_neg hh, entry_change_other hf a hh]

private theorem sets_append {a : Accounts} {e : AccountEntry} (hnone : a.entry e.tokenSha256 = none) :
    (Accounts.mk (a.accounts ++ [e])).Sets a e.tokenSha256 e := by
  intro h
  unfold entry at *
  rw [List.find?_append]
  by_cases hh : e.tokenSha256 = h
  · subst hh
    simp [hnone, isOf]
  · simp [isOf, same, hh]

/-- What a charge can do to the file. -/
theorem charge_cases (sha : String → Hash) (a : Accounts) (token : Token) (n : Nat) (today : Int) :
    (∃ e b a', a.entry (tokenHash sha token) = some e ∧ e.balance = some b ∧ n ≤ b ∧
      a.charge sha token n today = (a', .ok (b - n, true)) ∧
      a'.Sets a (tokenHash sha token) { e with balance := some (b - n) }) ∨
    (∃ e a', a.entry (tokenHash sha token) = some e ∧ e.balance = none ∧
      n ≤ e.quotaPerDay - (e.onDay today).used ∧
      a.charge sha token n today = (a', .ok (e.quotaPerDay - (e.onDay today).used - n, false)) ∧
      a'.Sets a (tokenHash sha token) { e.onDay today with used := (e.onDay today).used + n }) ∨
    (∃ e a' r, a.entry (tokenHash sha token) = some e ∧ e.balance = none ∧
      a.charge sha token n today = (a', .error r) ∧ a'.Sets a (tokenHash sha token) (e.onDay today)) ∨
    (∃ a' r, a.charge sha token n today = (a', .error r) ∧ ∀ h', a'.entry h' = a.entry h') := by
  unfold charge
  dsimp only
  cases he : a.entry (tokenHash sha token) with
  | none => exact Or.inr (Or.inr (Or.inr ⟨a, _, rfl, fun _ => rfl⟩))
  | some e =>
    have hsets := sets_change (fun e => AccountEntry.tokenSha256_charge e n today) he
    rcases e.charge_cases n today with ⟨b, hb, hn, h⟩ | ⟨hb, hn, h⟩ | ⟨r, h⟩ | ⟨hb, r, h⟩ <;> rw [h] at hsets
    · exact Or.inl ⟨e, b, _, rfl, hb, hn, by simp only [h], hsets⟩
    · exact Or.inr (Or.inl ⟨e, _, rfl, hb, hn, by simp only [h], hsets⟩)
    · refine Or.inr (Or.inr (Or.inr ⟨a.change (tokenHash sha token) fun e => (e.charge n today).1, r,
        by simp only [h], fun h' => ?_⟩))
      rw [hsets h']
      split
      · rename_i hh
        rw [← hh, he]
      · rfl
    · exact Or.inr (Or.inr (Or.inl ⟨e, _, r, rfl, hb, by simp only [h], hsets⟩))

/-- A purchase credits the buyer's account, or makes it, with the passes and no quota, or, with no randomness for a
name, does nothing. -/
theorem credit_cases (a : Accounts) (hash : Hash) (passes : Nat) (raw : Option String) :
    (∃ e a', a.entry hash = some e ∧ a.credit hash passes raw = (a', (e.credit passes).balance) ∧
      a'.Sets a hash (e.credit passes)) ∨
    (∃ e a', a.entry hash = none ∧ e.quotaPerDay = 0 ∧ e.balance = some passes ∧
      a.credit hash passes raw = (a', some passes) ∧ a'.Sets a hash e) ∨
    (a.entry hash = none ∧ a.credit hash passes raw = (a, none)) := by
  unfold credit
  cases he : a.entry hash with
  | some e => exact Or.inl ⟨e, _, rfl, rfl, sets_change (f := (·.credit passes)) (fun _ => rfl) he⟩
  | none =>
    cases raw with
    | none => exact Or.inr (Or.inr ⟨rfl, rfl⟩)
    | some raw => exact Or.inr (Or.inl ⟨_, _, rfl, rfl, rfl, rfl, sets_append he⟩)

/-- A refund changes the account of its token and no other. -/
theorem refund_cases (sha : String → Hash) (a : Accounts) (token : Token) (n : Nat) (today : Int) :
    (∃ e, a.entry (tokenHash sha token) = some e ∧
      (a.refund sha token n today).Sets a (tokenHash sha token) (e.refund n today)) ∨
    (a.entry (tokenHash sha token) = none ∧ ∀ h', (a.refund sha token n today).entry h' = a.entry h') := by
  unfold refund
  have htok : ∀ e : AccountEntry, (e.refund n today).tokenSha256 = e.tokenSha256 := fun e => e.tokenSha256_refund n today
  cases he : a.entry (tokenHash sha token) with
  | some e => exact Or.inl ⟨e, rfl, sets_change htok he⟩
  | none =>
    refine Or.inr ⟨rfl, fun h' => ?_⟩
    by_cases hh : tokenHash sha token = h'
    · rw [← hh, entry_change_self htok, he, Option.map_none]
    · rw [entry_change_other htok a hh]

/-- Switching accounts on and off changes nothing else of them. -/
theorem entry_setEnabled {a a' : Accounts} {name : String} {on : Bool} (hset : a.setEnabled name on = some a')
    (h : Hash) : (a'.entry h).map (fun e => { e with enabled := true }) =
      (a.entry h).map (fun e => { e with enabled := true }) := by
  unfold setEnabled at hset
  split at hset
  · rw [← Option.some.inj hset]
    exact map_find?_modifyFirst (f := (AccountEntry.setEnabled · on)) (fun e => rfl) (fun e => rfl) _
  · simp at hset

/-! ### Names -/

private theorem freshName_not_mem (names : List String) (k : Nat) (name : String)
    (hk : (names.filter fun m => name.length ≤ m.length).length ≤ k) : freshName names k name ∉ names := by
  induction k generalizing name with
  | zero =>
    intro hmem
    have : name ∈ names.filter fun m => decide (name.length ≤ m.length) := by
      simp only [freshName] at hmem
      simp [hmem]
    rw [List.length_eq_zero_iff.1 (Nat.le_zero.1 hk)] at this
    simp at this
  | succ k ih =>
    unfold freshName
    split
    · rename_i hany
      refine ih _ ?_
      -- the name itself is as long as itself and not as long as the next
      have hmem : name ∈ names := by simpa using hany
      have hsub : names.filter (fun m => decide ((name.push 'x').length ≤ m.length)) =
          (names.filter fun m => decide (name.length ≤ m.length)).filter
            fun m => decide ((name.push 'x').length ≤ m.length) := by
        rw [List.filter_filter]
        refine List.filter_congr fun m _ => ?_
        rw [String.length_push, ← Bool.decide_and]
        exact decide_eq_decide.2 (by omega)
      have hlt : (names.filter fun m => decide ((name.push 'x').length ≤ m.length)).length <
          (names.filter fun m => decide (name.length ≤ m.length)).length := by
        rw [hsub, List.length_filter_lt_length_iff_exists]
        exact ⟨name, by simp [hmem], by simp⟩
      omega
    · rename_i hany
      simpa using hany

theorem freshName_fresh (names : List String) (name : String) : freshName names names.length name ∉ names :=
  freshName_not_mem names names.length name (List.length_filter_le _ _)

end Accounts

end HidraNet.Issuer
