import HidraNet.Lib.Runs
import HidraNet.Issuer.Accounts

/-!
# Prepaid passes are conserved

The desk that signs passes, with any number of requests at once.  A request is charged in one step; later either
all its signatures are handed out, or what it was charged is given back.  Between the two steps other requests,
purchases and `account` commands change the same accounts.

* `Conserved` is what the desk owes every account: a prepaid one, that its balance, the passes signed on it and
  those of the requests still on the way add up to what was credited (`BalanceExact`); one with a daily quota, that
  no more than the quota is signed on any UTC day (`QuotaKept`); and any, that a request charged and given back
  leaves it with no more than it had (`BackNoMore`).
* The code owes this to the requests of `Meets` only.  A request charged to a quota and given back after a purchase
  made the account prepaid is given back to the balance, which it was never taken from; and a request that read the
  day before it waited for the lock, and charges an account already moved on to the next day, moves it back, and
  the quota of both days starts again (`not_conserved`).
* In every run of requests of `Meets`, with balances that fit a `u32`, the accounts are conserved
  (`conserved_of_meets`): each step keeps the books of each hash (`Books`), and `Books` says what is owed.
-/

namespace HidraNet.Issuer

open HidraNet.Lists Ints Runs

/-! ### The desk -/

/-- A request that was charged. -/
structure Ask where
  token : Token
  n : Nat
  /-- The UTC day it read before it was charged, which a refund names again. -/
  day : Int
  prepaid : Bool
deriving DecidableEq

structure Desk where
  accounts : Accounts
  asked : List Ask
  signed : List Ask
  credited : List (Hash × Nat)
deriving DecidableEq

/-- One atomic step of the issuer. -/
inductive Event where
  /-- A request for `n` passes that read the day `day` is charged. -/
  | charge (token : Token) (n : Nat) (day : Int)
  /-- The signatures of a charged request are handed out. -/
  | sign (i : Nat)
  /-- A charged request could not be signed: it is given back. -/
  | giveBack (i : Nat)
  | credit (hash : Hash) (passes : Nat) (raw : Option String)
  | setEnabled (name : String) (on : Bool)
deriving DecidableEq

namespace Desk

variable (sha : String → Hash)

def opened (a : Accounts) : Desk := ⟨a, [], [], []⟩

/-- The first half of `issue`: nothing is charged for no passes or for more than fit a request. -/
def charge (s : Desk) (token : Token) (n : Nat) (day : Int) : Desk :=
  if n = 0 ∨ n > MAX_PER_REQUEST then s
  else match s.accounts.charge sha token n day with
    | (a, .ok (_, prepaid)) => { s with accounts := a, asked := s.asked ++ [⟨token, n, day, prepaid⟩] }
    | (a, .error _) => { s with accounts := a }

/-- The second half of `issue`, when all was signed. -/
def sign (s : Desk) (i : Nat) : Desk :=
  match s.asked[i]? with
  | some ask => { s with asked := s.asked.eraseIdx i, signed := s.signed ++ [ask] }
  | none => s

/-- The second half of `issue`, when it was not. -/
def giveBack (s : Desk) (i : Nat) : Desk :=
  match s.asked[i]? with
  | some ask =>
    { s with accounts := s.accounts.refund sha ask.token ask.n ask.day, asked := s.asked.eraseIdx i }
  | none => s

def credit (s : Desk) (hash : Hash) (passes : Nat) (raw : Option String) : Desk :=
  match s.accounts.credit hash passes raw with
  | (a, some _) => { s with accounts := a, credited := s.credited ++ [(hash, passes)] }
  | (a, none) => { s with accounts := a }

def setEnabled (s : Desk) (name : String) (on : Bool) : Desk :=
  match s.accounts.setEnabled name on with
  | some a => { s with accounts := a }
  | none => s

def step (s : Desk) : Event → Desk
  | .charge token n day => s.charge sha token n day
  | .sign i => s.sign i
  | .giveBack i => s.giveBack sha i
  | .credit hash passes raw => s.credit hash passes raw
  | .setEnabled name on => s.setEnabled name on

end Desk

/-! ### What is owed -/

section Owed

variable (sha : String → Hash)

def onBalance (h : Hash) (ask : Ask) : Bool := tokenHash sha ask.token == h && ask.prepaid

def onQuota (h : Hash) (D : Int) (ask : Ask) : Bool := tokenHash sha ask.token == h && !ask.prepaid && ask.day == D

def creditedTo (h : Hash) (l : List (Hash × Nat)) : Nat := tally (·.1 == h) Prod.snd l

def Accounts.prepaid (a : Accounts) (h : Hash) : Nat := (a.balanceOf h).getD 0

def Accounts.quotaOf (a : Accounts) (h : Hash) : Nat := ((a.entry h).map AccountEntry.quotaPerDay).getD 0

/-- The passes a hash may still have signed on the day `D`. -/
def Accounts.left (a : Accounts) (h : Hash) (D : Int) : Nat :=
  match a.entry h with
  | none => 0
  | some e => match e.balance with
    | some b => b
    | none => e.quotaPerDay - if e.day = D then e.used else 0

def BalanceExact (start : Accounts) (s : Desk) : Prop :=
  ∀ h, tally (onBalance sha h) Ask.n s.signed + tally (onBalance sha h) Ask.n s.asked + s.accounts.prepaid h =
    start.prepaid h + creditedTo h s.credited

def QuotaKept (s : Desk) : Prop :=
  ∀ h D, tally (onQuota sha h D) Ask.n s.signed ≤ s.accounts.quotaOf h

def BackNoMore (a : Accounts) (token : Token) (n : Nat) (day : Int) : Prop :=
  ∀ D, day ≤ D → ((a.charge sha token n day).1.refund sha token n day).left (tokenHash sha token) D ≤
    a.left (tokenHash sha token) D

/-- What the desk owes its accounts, of the requests `ok` lets through. -/
def Conserved (ok : Desk → Event → Prop) (start : Accounts) (s : Desk) : Prop :=
  BalanceExact sha start s ∧ QuotaKept sha s ∧
    ∀ token n day, ok s (.charge token n day) → (∃ r, (s.accounts.charge sha token n day).2 = .ok r) →
      BackNoMore sha s.accounts token n day

/-- No balance reaches `2^32`. -/
def Fits (s : Desk) : Event → Prop
  | .credit hash passes _ => s.accounts.prepaid hash + passes < 2 ^ 32
  | .giveBack i => ∀ ask ∈ s.asked[i]?, s.accounts.prepaid (tokenHash sha ask.token) + ask.n < 2 ^ 32
  | _ => True

def Meets (s : Desk) : Event → Prop
  | .charge token _ day => ∀ e ∈ s.accounts.entry (tokenHash sha token), e.balance = none → e.day ≤ day
  | .giveBack i => ∀ ask ∈ s.asked[i]?, ask.prepaid = false → s.accounts.balanceOf (tokenHash sha ask.token) = none
  | _ => True

instance decidableFits (s : Desk) : ∀ e, Decidable (Fits sha s e)
  | .charge .. | .sign _ | .setEnabled .. => isTrue trivial
  | .credit hash passes _ => inferInstanceAs (Decidable (s.accounts.prepaid hash + passes < 2 ^ 32))
  | .giveBack i =>
    inferInstanceAs (Decidable (∀ ask ∈ s.asked[i]?, s.accounts.prepaid (tokenHash sha ask.token) + ask.n < 2 ^ 32))

instance decidableMeets (s : Desk) : ∀ e, Decidable (Meets sha s e)
  | .sign _ | .credit .. | .setEnabled .. => isTrue trivial
  | .charge token _ day => inferInstanceAs
    (Decidable (∀ e ∈ s.accounts.entry (tokenHash sha token), e.balance = none → e.day ≤ day))
  | .giveBack i => inferInstanceAs (Decidable
    (∀ ask ∈ s.asked[i]?, ask.prepaid = false → s.accounts.balanceOf (tokenHash sha ask.token) = none))

end Owed

/-! ### The books of one hash -/

section Books

variable {sha : String → Hash}

def onDay (sha : String → Hash) (s : Desk) (h : Hash) (D : Int) : Nat :=
  tally (onQuota sha h D) Ask.n s.signed + tally (onQuota sha h D) Ask.n s.asked

structure Books (sha : String → Hash) (start : Accounts) (s : Desk) (h : Hash) : Prop where
  balance : tally (onBalance sha h) Ask.n s.signed + tally (onBalance sha h) Ask.n s.asked + s.accounts.prepaid h =
    start.prepaid h + creditedTo h s.credited
  quota : ∀ D, onDay sha s h D ≤ s.accounts.quotaOf h
  used : ∀ e, s.accounts.entry h = some e → e.balance = none → onDay sha s h e.day ≤ e.used
  later : ∀ e, s.accounts.entry h = some e → e.balance = none → ∀ D, e.day < D → onDay sha s h D = 0
  prepaid : ∀ ask ∈ s.asked, tokenHash sha ask.token = h → ask.prepaid = true → s.accounts.balanceOf h ≠ none

theorem books_opened (a : Accounts) (h : Hash) : Books sha a (Desk.opened a) h where
  balance := by simp [Desk.opened, creditedTo]
  quota D := by simp [Desk.opened, onDay]
  used e _ _ := by simp [Desk.opened, onDay]
  later e _ _ D _ := by simp [Desk.opened, onDay]
  prepaid ask hask := by simp [Desk.opened] at hask

private theorem Books.of_entry {start : Accounts} {s : Desk} {h : Hash} (hb : Books sha start s h) {a : Accounts}
    (ha : (a.entry h).map (fun e => { e with enabled := true }) =
      (s.accounts.entry h).map (fun e => { e with enabled := true })) :
    Books sha start { s with accounts := a } h := by
  have hbal : a.balanceOf h = s.accounts.balanceOf h := by
    simpa [Accounts.balanceOf, Option.bind_map, Function.comp_def] using congrArg (Option.bind · AccountEntry.balance) ha
  have hquota : a.quotaOf h = s.accounts.quotaOf h := by
    simpa [Accounts.quotaOf, Function.comp_def] using
      congrArg (fun o => (o.map AccountEntry.quotaPerDay).getD 0) ha
  have hentry : ∀ e, a.entry h = some e → ∃ e', s.accounts.entry h = some e' ∧ e'.balance = e.balance ∧
      e'.day = e.day ∧ e'.used = e.used := by
    intro e he
    rw [he, Option.map_some, eq_comm, Option.map_eq_some_iff] at ha
    obtain ⟨e', he', heq⟩ := ha
    simp only [AccountEntry.mk.injEq] at heq
    exact ⟨e', he', heq.2.2.2.2.2.2, heq.2.2.2.2.1, heq.2.2.2.2.2.1⟩
  refine ⟨?_, fun D => ?_, fun e he hnone => ?_, fun e he hnone D hD => ?_, fun ask hask hh hpre => ?_⟩
  · have := hb.balance
    simp only [Accounts.prepaid, hbal] at this ⊢
    exact this
  · rw [hquota]
    exact hb.quota D
  · obtain ⟨e', he', hb', hd, hu⟩ := hentry e he
    rw [← hd, ← hu]
    exact hb.used e' he' (hb'.trans hnone)
  · obtain ⟨e', he', hb', hd, -⟩ := hentry e he
    exact hb.later e' he' (hb'.trans hnone) D (by omega)
  · rw [hbal]
    exact hb.prepaid ask hask hh hpre

/-! ### Each step keeps the books -/

private theorem Books.of_other {start : Accounts} {s : Desk} {h : Hash} (hb : Books sha start s h) {a : Accounts}
    {l : List Ask} (ha : a.entry h = s.accounts.entry h)
    (hbal : tally (onBalance sha h) Ask.n l = tally (onBalance sha h) Ask.n s.asked)
    (hquo : ∀ D, tally (onQuota sha h D) Ask.n l = tally (onQuota sha h D) Ask.n s.asked)
    (hmem : ∀ ask ∈ l, tokenHash sha ask.token = h → ask ∈ s.asked) :
    Books sha start { s with accounts := a, asked := l } h := by
  have hb' := hb.of_entry (a := a) (by rw [ha])
  refine ⟨?_, fun D => ?_, fun e he hn => ?_, fun e he hn D hD => ?_, fun ask hask hh => ?_⟩
  · simpa only [hbal] using hb'.balance
  · simpa only [onDay, hquo] using hb'.quota D
  · simpa only [onDay, hquo] using hb'.used e he hn
  · simpa only [onDay, hquo] using hb'.later e he hn D hD
  · exact hb'.prepaid ask (hmem ask hask hh) hh

private theorem Books.used_onDay {start : Accounts} {s : Desk} {h : Hash} (hb : Books sha start s h)
    {e : AccountEntry} (he : s.accounts.entry h = some e) (hbal : e.balance = none) {day : Int} (hday : e.day ≤ day) :
    onDay sha s h day ≤ (e.onDay day).used := by
  rw [AccountEntry.used_onDay]
  split
  · rename_i hd
    rw [← hd]
    exact hb.used e he hbal
  · exact Nat.le_of_eq (hb.later e he hbal day (by omega))

private theorem Books.take_balance {start : Accounts} {s : Desk} {a' : Accounts} {a : Ask} {e : AccountEntry}
    {b : Nat} (hb : Books sha start s (tokenHash sha a.token)) (hpre : a.prepaid = true)
    (he : s.accounts.entry (tokenHash sha a.token) = some e) (hbal : e.balance = some b) (hn : a.n ≤ b)
    (hs : a'.Sets s.accounts (tokenHash sha a.token) { e with balance := some (b - a.n) }) :
    Books sha start { s with accounts := a', asked := s.asked ++ [a] } (tokenHash sha a.token) := by
  have he' := hs (tokenHash sha a.token)
  rw [if_pos rfl] at he'
  have hbefore := hb.balance
  have hquota := hb.quota
  simp only [Accounts.prepaid, Accounts.balanceOf, Accounts.quotaOf, he, Option.bind_some, hbal,
    Option.getD_some, Option.map_some] at hbefore hquota
  refine ⟨?_, fun D => ?_, fun e₁ he₁ hn₁ => ?_, fun e₁ he₁ hn₁ => ?_, fun _ _ _ _ => ?_⟩
  · simp only [Accounts.prepaid, Accounts.balanceOf, he', Option.bind_some, Option.getD_some, tally_append,
      tally_singleton, onBalance, hpre, beq_self_eq_true, Bool.and_self, if_true] at hbefore ⊢
    omega
  · simpa [Accounts.quotaOf, he', onDay, tally_append, tally_singleton, onQuota, hpre] using hquota D
  · rw [he', Option.some.injEq] at he₁
    simp [← he₁] at hn₁
  · rw [he', Option.some.injEq] at he₁
    simp [← he₁] at hn₁
  · simp [Accounts.balanceOf, he']

private theorem Books.count_quota {start : Accounts} {s : Desk} {a' : Accounts} {a : Ask} {e : AccountEntry}
    (hb : Books sha start s (tokenHash sha a.token)) (hpre : a.prepaid = false)
    (he : s.accounts.entry (tokenHash sha a.token) = some e) (hbal : e.balance = none) (hday : e.day ≤ a.day)
    (hn : a.n ≤ e.quotaPerDay - (e.onDay a.day).used)
    (hs : a'.Sets s.accounts (tokenHash sha a.token)
      { e.onDay a.day with used := (e.onDay a.day).used + a.n }) :
    Books sha start { s with accounts := a', asked := s.asked ++ [a] } (tokenHash sha a.token) := by
  have he' := hs (tokenHash sha a.token)
  rw [if_pos rfl] at he'
  have hcount := hb.used_onDay he hbal hday
  have hnew : ∀ D, onDay sha { s with accounts := a', asked := s.asked ++ [a] } (tokenHash sha a.token) D =
      onDay sha s (tokenHash sha a.token) D + if a.day = D then a.n else 0 := by
    intro D
    simp [onDay, tally_append, tally_singleton, onQuota, hpre, Nat.add_assoc]
  refine ⟨?_, fun D => ?_, fun e₁ he₁ hn₁ => ?_, fun e₁ he₁ hn₁ D hD => ?_, fun old hmem hh hold => ?_⟩
  · have hbefore := hb.balance
    simpa [Accounts.prepaid, Accounts.balanceOf, he, he', hbal, tally_append, tally_singleton, onBalance, hpre]
      using hbefore
  · have hquota := hb.quota D
    rw [hnew]
    simp only [Accounts.quotaOf, he, he', Option.map_some, Option.getD_some,
      AccountEntry.quotaPerDay_onDay] at hquota ⊢
    split
    · rename_i hd
      subst hd
      omega
    · exact hquota
  · rw [he', Option.some.injEq] at he₁
    subst he₁
    rw [hnew]
    simp only [AccountEntry.day_onDay, if_true]
    omega
  · rw [he', Option.some.injEq] at he₁
    subst he₁
    simp only [AccountEntry.day_onDay] at hD
    rw [hnew, if_neg (by omega), Nat.add_zero]
    exact hb.later e he hbal D (by omega)
  · rcases List.mem_append.1 hmem with hmem | hmem
    · exact absurd (by simp [Accounts.balanceOf, he, hbal]) (hb.prepaid old hmem hh hold)
    · rw [List.mem_singleton.1 hmem, hpre] at hold
      cases hold

private theorem Books.turn_day {start : Accounts} {s : Desk} {h : Hash} {a' : Accounts} {e : AccountEntry} {day : Int}
    (hb : Books sha start s h) (he : s.accounts.entry h = some e) (hbal : e.balance = none) (hday : e.day ≤ day)
    (hs : a'.Sets s.accounts h (e.onDay day)) : Books sha start { s with accounts := a' } h := by
  have he' := hs h
  rw [if_pos rfl] at he'
  have hbal' : a'.balanceOf h = s.accounts.balanceOf h := by simp [Accounts.balanceOf, he, he']
  have hquota' : a'.quotaOf h = s.accounts.quotaOf h := by simp [Accounts.quotaOf, he, he']
  refine ⟨?_, fun D => ?_, fun e₁ he₁ hn₁ => ?_, fun e₁ he₁ hn₁ D hD => ?_, fun ask hask hh hpre => ?_⟩
  · have hbefore := hb.balance
    simp only [Accounts.prepaid, hbal'] at hbefore ⊢
    exact hbefore
  · rw [hquota']
    exact hb.quota D
  · rw [he', Option.some.injEq] at he₁
    subst he₁
    rw [AccountEntry.day_onDay]
    exact hb.used_onDay he hbal hday
  · rw [he', Option.some.injEq] at he₁
    subst he₁
    rw [AccountEntry.day_onDay] at hD
    exact hb.later e he hbal D (by omega)
  · rw [hbal']
    exact hb.prepaid ask hask hh hpre

private theorem Books.append_other {start : Accounts} {s : Desk} {h : Hash} (hb : Books sha start s h) {a : Accounts}
    {ask : Ask} (hne : tokenHash sha ask.token ≠ h) (ha : a.entry h = s.accounts.entry h) :
    Books sha start { s with accounts := a, asked := s.asked ++ [ask] } h := by
  refine hb.of_other ha ?_ (fun D => ?_) fun ask' hmem hh => ?_
  · simp [tally_append, tally_singleton, onBalance, hne]
  · simp [tally_append, tally_singleton, onQuota, hne]
  · rcases List.mem_append.1 hmem with hmem | hmem
    · exact hmem
    · rw [List.mem_singleton.1 hmem] at hh
      exact absurd hh hne

theorem books_charge {start : Accounts} {s : Desk} {token : Token} {n : Nat} {day : Int} {h : Hash}
    (hb : Books sha start s h) (hok : Meets sha s (.charge token n day)) :
    Books sha start (s.charge sha token n day) h := by
  unfold Desk.charge
  split
  · exact hb
  rcases s.accounts.charge_cases sha token n day with ⟨e, b, a', he, hbal, hn, hr, hs⟩ |
    ⟨e, a', he, hbal, hn, hr, hs⟩ | ⟨e, a', r, he, hbal, hr, hs⟩ | ⟨a', r, hr, hs⟩ <;> rw [hr]
  · show Books sha start { s with accounts := a', asked := s.asked ++ [⟨token, n, day, true⟩] } h
    by_cases hh : tokenHash sha token = h
    · subst hh
      exact Books.take_balance (a := ⟨token, n, day, true⟩) hb rfl he hbal hn hs
    · exact hb.append_other hh (by rw [hs h, if_neg hh])
  · show Books sha start { s with accounts := a', asked := s.asked ++ [⟨token, n, day, false⟩] } h
    by_cases hh : tokenHash sha token = h
    · subst hh
      exact Books.count_quota (a := ⟨token, n, day, false⟩) hb rfl he hbal (hok e he hbal) hn hs
    · exact hb.append_other hh (by rw [hs h, if_neg hh])
  · show Books sha start { s with accounts := a' } h
    by_cases hh : tokenHash sha token = h
    · subst hh
      exact hb.turn_day he hbal (hok e he hbal) hs
    · exact hb.of_entry (by rw [hs h, if_neg hh])
  · exact hb.of_entry (by rw [hs])

theorem books_sign {start : Accounts} {s : Desk} {i : Nat} {h : Hash} (hb : Books sha start s h) :
    Books sha start (s.sign i) h := by
  unfold Desk.sign
  cases hi : s.asked[i]? with
  | none => exact hb
  | some ask =>
    -- the request moves from one list to the other
    have hmove : ∀ p : Ask → Bool, tally p Ask.n (s.signed ++ [ask]) + tally p Ask.n (s.asked.eraseIdx i) =
        tally p Ask.n s.signed + tally p Ask.n s.asked := by
      intro p
      rw [tally_append, tally_eraseIdx (p := p) (f := Ask.n) hi]
      omega
    refine ⟨?_, fun D => ?_, fun e he hn => ?_, fun e he hn D hD => ?_, fun old hmem => ?_⟩
    · have := hb.balance
      have := hmove (onBalance sha h)
      show tally (onBalance sha h) Ask.n (s.signed ++ [ask]) + tally (onBalance sha h) Ask.n (s.asked.eraseIdx i) +
        s.accounts.prepaid h = start.prepaid h + creditedTo h s.credited
      omega
    · simpa only [onDay, hmove] using hb.quota D
    · simpa only [onDay, hmove] using hb.used e he hn
    · simpa only [onDay, hmove] using hb.later e he hn D hD
    · exact hb.prepaid old (List.mem_of_mem_eraseIdx hmem)

private theorem Books.back_balance {start : Accounts} {s : Desk} {i : Nat} {ask : Ask} (hi : s.asked[i]? = some ask)
    (hb : Books sha start s (tokenHash sha ask.token)) (hpre : ask.prepaid = true)
    (hfits : s.accounts.prepaid (tokenHash sha ask.token) + ask.n < 2 ^ 32) :
    Books sha start { s with
      accounts := s.accounts.refund sha ask.token ask.n ask.day, asked := s.asked.eraseIdx i }
      (tokenHash sha ask.token) := by
  have hsome := hb.prepaid ask (List.mem_of_getElem? hi) rfl hpre
  rcases s.accounts.refund_cases sha ask.token ask.n ask.day with ⟨e, he, hs⟩ | ⟨hnone, -⟩
  · obtain ⟨b, hbal⟩ := Option.ne_none_iff_exists'.1 hsome
    have hbal' : e.balance = some b := by simpa [Accounts.balanceOf, he] using hbal
    have he' := hs (tokenHash sha ask.token)
    simp only [Accounts.prepaid, hbal, Option.getD_some] at hfits
    rw [if_pos rfl] at he'
    simp only [AccountEntry.refund, hbal', satAdd32_of_lt hfits] at he'
    have hbefore := hb.balance
    have htaken := tally_eraseIdx (p := onBalance sha (tokenHash sha ask.token)) (f := Ask.n) hi
    simp only [tally_singleton, onBalance, hpre, beq_self_eq_true, Bool.and_self, if_true] at htaken
    have hquo : ∀ D, tally (onQuota sha (tokenHash sha ask.token) D) Ask.n (s.asked.eraseIdx i) =
        tally (onQuota sha (tokenHash sha ask.token) D) Ask.n s.asked := by
      intro D
      rw [tally_eraseIdx (p := onQuota sha (tokenHash sha ask.token) D) (f := Ask.n) hi, tally_singleton]
      simp [onQuota, hpre]
    refine ⟨?_, fun D => ?_, fun e₁ he₁ hn₁ => ?_, fun e₁ he₁ hn₁ => ?_, fun _ _ _ _ => ?_⟩
    · simp only [Accounts.prepaid, hbal, Option.getD_some] at hbefore
      have hafter : (s.accounts.refund sha ask.token ask.n ask.day).balanceOf (tokenHash sha ask.token) =
          some (b + ask.n) := by simp [Accounts.balanceOf, he']
      simp only [Accounts.prepaid, hafter, Option.getD_some]
      omega
    · have := hb.quota D
      simp only [onDay, Accounts.quotaOf, he, Option.map_some, Option.getD_some] at this
      simpa only [onDay, hquo, Accounts.quotaOf, he', Option.map_some, Option.getD_some] using this
    · rw [he', Option.some.injEq] at he₁
      simp [← he₁] at hn₁
    · rw [he', Option.some.injEq] at he₁
      simp [← he₁] at hn₁
    · simp [Accounts.balanceOf, he']
  · exact absurd (by simp [Accounts.balanceOf, hnone]) hsome

private theorem Books.back_quota {start : Accounts} {s : Desk} {i : Nat} {ask : Ask} (hi : s.asked[i]? = some ask)
    (hb : Books sha start s (tokenHash sha ask.token)) (hpre : ask.prepaid = false)
    (hok : s.accounts.balanceOf (tokenHash sha ask.token) = none) :
    Books sha start { s with
      accounts := s.accounts.refund sha ask.token ask.n ask.day, asked := s.asked.eraseIdx i }
      (tokenHash sha ask.token) := by
  have hcount : ∀ D, onDay sha s (tokenHash sha ask.token) D = tally (onQuota sha (tokenHash sha ask.token) D) Ask.n
      s.signed + tally (onQuota sha (tokenHash sha ask.token) D) Ask.n (s.asked.eraseIdx i) +
        if ask.day = D then ask.n else 0 := by
    intro D
    rw [onDay, tally_eraseIdx (p := onQuota sha (tokenHash sha ask.token) D) (f := Ask.n) hi, tally_singleton]
    simp [onQuota, hpre, Nat.add_assoc]
  have hbal : tally (onBalance sha (tokenHash sha ask.token)) Ask.n (s.asked.eraseIdx i) =
      tally (onBalance sha (tokenHash sha ask.token)) Ask.n s.asked := by
    rw [tally_eraseIdx (p := onBalance sha (tokenHash sha ask.token)) (f := Ask.n) hi, tally_singleton]
    simp [onBalance, hpre]
  have hprepaid : ∀ old ∈ s.asked.eraseIdx i, tokenHash sha old.token = tokenHash sha ask.token →
      old.prepaid = true → False := fun old hmem hh hold => hb.prepaid old (List.mem_of_mem_eraseIdx hmem) hh hold hok
  have hbefore := hb.balance
  have hquota := hb.quota
  rcases s.accounts.refund_cases sha ask.token ask.n ask.day with ⟨e, he, hs⟩ | ⟨hnone, hs⟩
  · have hnone : e.balance = none := by simpa [Accounts.balanceOf, he] using hok
    have he' := hs (tokenHash sha ask.token)
    rw [if_pos rfl] at he'
    have hused := hb.used e he hnone
    have hlater := hb.later e he hnone
    simp only [hcount] at hused hlater hquota
    refine ⟨?_, fun D => ?_, fun e₁ he₁ hn₁ => ?_, fun e₁ he₁ hn₁ D hD => ?_, fun old hmem hh hold => ?_⟩
    · simpa [Accounts.prepaid, Accounts.balanceOf, he, he', hnone, hbal, AccountEntry.balance_refund_none] using hbefore
    · have := hquota D
      simp only [onDay, Accounts.quotaOf, he, he', Option.map_some, Option.getD_some,
        AccountEntry.quotaPerDay_refund] at this ⊢
      omega
    · rw [he', Option.some.injEq] at he₁
      subst he₁
      rw [AccountEntry.day_refund]
      simp only [onDay, AccountEntry.refund, hnone]
      by_cases hd : e.day = ask.day
      · rw [if_pos hd.symm] at hused
        rw [if_pos hd]
        show _ ≤ e.used - ask.n
        omega
      · rw [if_neg hd]
        omega
    · rw [he', Option.some.injEq] at he₁
      subst he₁
      rw [AccountEntry.day_refund] at hD
      have := hlater D hD
      simp only [onDay]
      omega
    · exact (hprepaid old hmem hh hold).elim
  · have he' := hs (tokenHash sha ask.token)
    simp only [hcount] at hquota
    refine ⟨?_, fun D => ?_, fun e₁ he₁ => ?_, fun e₁ he₁ => ?_, fun old hmem hh hold => ?_⟩
    · simpa [Accounts.prepaid, Accounts.balanceOf, he', hbal] using hbefore
    · have := hquota D
      simp only [onDay, Accounts.quotaOf, he'] at this ⊢
      omega
    · rw [he', hnone] at he₁
      cases he₁
    · rw [he', hnone] at he₁
      cases he₁
    · exact (hprepaid old hmem hh hold).elim

theorem books_giveBack {start : Accounts} {s : Desk} {i : Nat} {h : Hash} (hb : Books sha start s h)
    (hok : Meets sha s (.giveBack i)) (hfits : Fits sha s (.giveBack i)) :
    Books sha start (s.giveBack sha i) h := by
  unfold Desk.giveBack
  cases hi : s.asked[i]? with
  | none => exact hb
  | some ask =>
    have hmem : ∀ old ∈ s.asked.eraseIdx i, old ∈ s.asked := fun old => List.mem_of_mem_eraseIdx
    by_cases hh : tokenHash sha ask.token = h
    · subst hh
      cases hpre : ask.prepaid with
      | true => exact hb.back_balance hi hpre (hfits ask hi)
      | false => exact hb.back_quota hi hpre (hok ask hi hpre)
    · have htaken : ∀ p : Ask → Bool, p ask = false → tally p Ask.n (s.asked.eraseIdx i) = tally p Ask.n s.asked := by
        intro p hp
        rw [tally_eraseIdx (p := p) (f := Ask.n) hi, tally_singleton, hp]
        simp
      have he : (s.accounts.refund sha ask.token ask.n ask.day).entry h = s.accounts.entry h := by
        rcases s.accounts.refund_cases sha ask.token ask.n ask.day with ⟨e, he, hs⟩ | ⟨-, hs⟩
        · rw [hs h, if_neg hh]
        · exact hs h
      exact hb.of_other he (htaken _ (by simp [onBalance, hh])) (fun D => htaken _ (by simp [onQuota, hh]))
        fun old hold _ => hmem old hold

theorem books_credit {start : Accounts} {s : Desk} {hash : Hash} {passes : Nat} {raw : Option String} {h : Hash}
    (hb : Books sha start s h) (hfits : Fits sha s (.credit hash passes raw)) :
    Books sha start (s.credit hash passes raw) h := by
  have hsum : creditedTo h (s.credited ++ [(hash, passes)]) =
      creditedTo h s.credited + if hash = h then passes else 0 := by
    simp [creditedTo, tally_append, tally_singleton]
  -- the books of the buyer, once its balance has grown and its quota is what it was
  have hbuyer : ∀ (a' : Accounts) (e : AccountEntry), a'.Sets s.accounts hash e → hash = h →
      e.quotaPerDay = s.accounts.quotaOf h → e.balance = some (s.accounts.prepaid h + passes) →
      Books sha start { s with accounts := a', credited := s.credited ++ [(hash, passes)] } h := by
    intro a' e hs hh hq hbal
    have he' := hs h
    rw [if_pos hh] at he'
    have hafter : a'.balanceOf h = some (s.accounts.prepaid h + passes) := by simp [Accounts.balanceOf, he', hbal]
    refine ⟨?_, fun D => ?_, fun e₁ he₁ hn₁ => ?_, fun e₁ he₁ hn₁ => ?_, fun _ _ _ _ => by simp [hafter]⟩
    · have hbefore := hb.balance
      simp only [Accounts.prepaid, hafter, Option.getD_some, hsum, if_pos hh] at hbefore ⊢
      omega
    · have := hb.quota D
      simpa only [onDay, Accounts.quotaOf, he', Option.map_some, Option.getD_some, hq] using this
    · rw [he', Option.some.injEq] at he₁
      simp [← he₁, hbal] at hn₁
    · rw [he', Option.some.injEq] at he₁
      simp [← he₁, hbal] at hn₁
  have hother : ∀ (a' : Accounts) (e : AccountEntry), a'.Sets s.accounts hash e → hash ≠ h →
      Books sha start { s with accounts := a', credited := s.credited ++ [(hash, passes)] } h := by
    intro a' e hs hh
    have hb' := hb.of_entry (a := a') (by rw [hs h, if_neg hh])
    refine ⟨?_, hb'.quota, hb'.used, hb'.later, hb'.prepaid⟩
    simpa only [hsum, if_neg hh, Nat.add_zero] using hb'.balance
  have hsat : satAdd32 (s.accounts.prepaid hash) passes = s.accounts.prepaid hash + passes := satAdd32_of_lt hfits
  unfold Desk.credit
  rcases s.accounts.credit_cases hash passes raw with ⟨e, a', he, hr, hs⟩ | ⟨e, a', hnone, hq, hbal, hr, hs⟩ |
    ⟨hnone, hr⟩ <;> rw [hr]
  · have hbal : (e.credit passes).balance = some (s.accounts.prepaid hash + passes) := by
      rw [← hsat]
      simp [AccountEntry.credit, Accounts.prepaid, Accounts.balanceOf, he]
    rw [hbal]
    by_cases hh : hash = h
    · exact hbuyer a' _ hs hh (by simp [← hh, Accounts.quotaOf, he, AccountEntry.credit]) (by rw [hbal, hh])
    · exact hother a' _ hs hh
  · by_cases hh : hash = h
    · refine hbuyer a' e hs hh ?_ ?_
      · simp [← hh, Accounts.quotaOf, hnone, hq]
      · simp [← hh, Accounts.prepaid, Accounts.balanceOf, hnone, hbal]
    · exact hother a' e hs hh
  · exact hb

theorem books_setEnabled {start : Accounts} {s : Desk} {name : String} {on : Bool} {h : Hash}
    (hb : Books sha start s h) : Books sha start (s.setEnabled name on) h := by
  unfold Desk.setEnabled
  cases hset : s.accounts.setEnabled name on with
  | none => exact hb
  | some a => exact hb.of_entry (Accounts.entry_setEnabled hset h)

theorem books_step {start : Accounts} {s : Desk} {ev : Event} (hb : ∀ h, Books sha start s h)
    (hok : Meets sha s ev ∧ Fits sha s ev) (h : Hash) : Books sha start (s.step sha ev) h := by
  cases ev with
  | charge token n day => exact books_charge (hb h) hok.1
  | sign i => exact books_sign (hb h)
  | giveBack i => exact books_giveBack (hb h) hok.1 hok.2
  | credit hash passes raw => exact books_credit (hb h) hok.2
  | setEnabled name on => exact books_setEnabled (hb h)

end Books

/-! ### Charging and giving back at once -/

section Back

variable {sha : String → Hash}

private theorem left_of_sets {a a' : Accounts} {h : Hash} {e : AccountEntry} (hs : a'.Sets a h e) (D : Int) :
    a'.left h D = match e.balance with
      | some b => b
      | none => e.quotaPerDay - if e.day = D then e.used else 0 := by
  unfold Accounts.left
  rw [hs h, if_pos rfl]

theorem backNoMore_of_meets {s : Desk} {token : Token} {n : Nat} {day : Int}
    (hok : Meets sha s (.charge token n day)) (hgranted : ∃ r, (s.accounts.charge sha token n day).2 = .ok r) :
    BackNoMore sha s.accounts token n day := by
  intro D hD
  obtain ⟨r, hr⟩ := hgranted
  rcases s.accounts.charge_cases sha token n day with ⟨e, b, a', he, hbal, hn, hc, hs⟩ |
    ⟨e, a', he, hbal, hn, hc, hs⟩ | ⟨e, a', r', he, hbal, hc, hs⟩ | ⟨a', r', hc, hs⟩ <;> rw [hc] at hr ⊢
  · have he' := hs (tokenHash sha token)
    rw [if_pos rfl] at he'
    rcases a'.refund_cases sha token n day with ⟨e₁, he₁, hs₁⟩ | ⟨hnone, -⟩
    · rw [he', Option.some.injEq] at he₁
      subst he₁
      rw [left_of_sets hs₁]
      simp only [AccountEntry.refund, Accounts.left, he, hbal]
      unfold satAdd32
      omega
    · rw [he'] at hnone
      cases hnone
  · have he' := hs (tokenHash sha token)
    rw [if_pos rfl] at he'
    have hday : e.day ≤ day := hok e he hbal
    rcases a'.refund_cases sha token n day with ⟨e₁, he₁, hs₁⟩ | ⟨hnone, -⟩
    · rw [he', Option.some.injEq] at he₁
      subst he₁
      rw [left_of_sets hs₁]
      simp only [AccountEntry.refund, AccountEntry.balance_onDay, hbal, AccountEntry.day_onDay, if_true,
        AccountEntry.quotaPerDay_onDay, AccountEntry.used_onDay, Accounts.left, he]
      by_cases hDday : day = D
      · subst hDday
        rw [if_pos rfl]
        omega
      · rw [if_neg hDday, if_neg (by omega)]
    · rw [he'] at hnone
      cases hnone
  · cases hr
  · cases hr

end Back

/-! ### Whole runs -/

/-- In every run of requests that meet the condition, with balances that fit, the accounts are conserved. -/
theorem conserved_of_meets (sha : String → Hash) (start : Accounts) (es : List Event)
    (h : Along (Desk.step sha) (fun s e => Meets sha s e ∧ Fits sha s e) (Desk.opened start) es) :
    Conserved sha (Meets sha) start (run (Desk.step sha) (Desk.opened start) es) := by
  have hbooks : ∀ k, Books sha start (run (Desk.step sha) (Desk.opened start) es) k :=
    run_invariant (P := fun s => ∀ k, Books sha start s k) (fun s e hs hok => books_step hs hok) h
      (books_opened start)
  refine ⟨fun k => (hbooks k).balance, fun k D => ?_, fun token n day hok hgranted => ?_⟩
  · have := (hbooks k).quota D
    unfold onDay at this
    omega
  · exact backNoMore_of_meets hok hgranted

def shaTok (s : String) : Hash :=
  if s = "tok" then "1a7674eb4ee78df7e1ac439a93c3fa8e3c945784d4dec9fd8e3011738b2f1d62" else s

/-- One account, `tok`'s, with five passes a day. -/
def fiveADay : Accounts := ⟨[{
  name := "laptop"
  tokenSha256 := "1a7674eb4ee78df7e1ac439a93c3fa8e3c945784d4dec9fd8e3011738b2f1d62"
  quotaPerDay := 5
  enabled := true
  day := 0
  used := 0
  balance := none }]⟩

theorem conserved_fiveADay : Conserved shaTok (Meets shaTok) fiveADay
    (run (Desk.step shaTok) (Desk.opened fiveADay)
      [.charge "tok" 3 20000, .sign 0, .credit (shaTok "tok") 10 none, .charge "tok" 4 20000, .charge "tok" 2 20001,
        .giveBack 0, .setEnabled "laptop" false, .sign 0]) :=
  conserved_of_meets shaTok fiveADay _ (by decide)

/-- Three passes charged to the quota and given back after ten were bought: the balance is thirteen.  Five passes
signed on a day, one charged by a request that read the day before, and five more signed.  A request of the day
before charged and given back: the five passes of the day are there again. -/
theorem not_conserved :
    (Along (Desk.step shaTok) (Fits shaTok) (Desk.opened fiveADay)
        [.charge "tok" 3 20000, .credit (shaTok "tok") 10 none, .giveBack 0] ∧
      ¬ BalanceExact shaTok fiveADay (run (Desk.step shaTok) (Desk.opened fiveADay)
        [.charge "tok" 3 20000, .credit (shaTok "tok") 10 none, .giveBack 0])) ∧
    (Along (Desk.step shaTok) (Fits shaTok) (Desk.opened fiveADay)
        [.charge "tok" 5 20001, .sign 0, .charge "tok" 1 20000, .charge "tok" 5 20001, .sign 1] ∧
      ¬ QuotaKept shaTok (run (Desk.step shaTok) (Desk.opened fiveADay)
        [.charge "tok" 5 20001, .sign 0, .charge "tok" 1 20000, .charge "tok" 5 20001, .sign 1])) ∧
    ¬ Conserved shaTok (fun _ _ => True) fiveADay
      (run (Desk.step shaTok) (Desk.opened fiveADay) [.charge "tok" 5 20001, .sign 0]) := by
  refine ⟨⟨by decide, fun h => ?_⟩, ⟨by decide, fun h => ?_⟩, fun h => ?_⟩
  · exact absurd (h (shaTok "tok")) (by decide)
  · exact absurd (h (shaTok "tok") 20001) (by decide)
  · exact absurd (h.2.2 "tok" 1 20000 trivial ⟨(4, false), by decide⟩ 20001 (by decide)) (by decide)

end HidraNet.Issuer
