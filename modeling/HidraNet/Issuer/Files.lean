import HidraNet.Issuer.Book

/-!
# The files, and writes that fail

The orders file, the lapsed file beside it and the accounts file, as the issuer and its `order credit` command change
them.  Each file is replaced whole or not at all, but for the lapsed file's appends, of which a failed one may leave
any number of whole records (`updateOrders`).

`order credit` (`creditLapsed`) writes up to four times: it takes the record out of the lapsed file, appends the
records of orders that lapsed meanwhile, saves the orders file with the transaction's mark, and credits the account; on
a failure of the last it puts the record and the mark back.

* `AllOrNothing` says that an error leaves nothing credited and no mark made, and the record it picked where the same
  command finds it again, and succeeds.
* The record is taken out of its file before the orders file is saved, so a failure in between loses it
  (`LosesRecord`); and when the account cannot be credited and putting back fails too, the mark stays
  (`KeepsMark`).  Those are the only ways (`allOrNothing_iff`); `not_allOrNothing` is the first.
* The files hold at most one record of an order (`OneRecord`), as the book's always do (`oneRecord_of_kept`).
-/

namespace HidraNet.Issuer

open HidraNet.Lists Ints Orders

/-! ### Updating the orders file -/

structure Disk where
  orders : Orders
  lapsedFile : List Lapsed
  accounts : Accounts
deriving DecidableEq

/-- Which writes of an update of the orders file fail. -/
structure UpdateFaults where
  /-- The append to the lapsed file, after so many records. -/
  append : Option Nat
  dropOld : Bool
  save : Bool
deriving DecidableEq

def UpdateFaults.none : UpdateFaults := ⟨.none, false, false⟩

inductive WriteError where
  | append
  | dropOld
  | save
deriving DecidableEq

def Orders.loaded (o : Orders) : Orders := { o with dropLapsedTo := none }

def Orders.differs (o before : Orders) : Bool :=
  o.orders ≠ before.orders || o.used ≠ before.used || o.lapsedPruned ≠ before.lapsedPruned

/-- What an update writes once the orders are `o` and the lapsed file is `file`: the records of orders that lapsed go to
the lapsed file first, so a crash between the two loses none. -/
def writeOrders {α : Type} (d : Disk) (w : UpdateFaults) (o : Orders) (file : List Lapsed) (out : α) :
    Disk × Except WriteError α :=
  match if o.lapsed = [] then none else w.append with
  | some k => ({ d with lapsedFile := file ++ o.lapsed.take k }, .error .append)
  | none =>
    if o.dropLapsedTo.isSome && w.dropOld then ({ d with lapsedFile := file ++ o.lapsed }, .error .dropOld)
    else if !o.lapsed.isEmpty || o.differs d.orders.loaded then
      if w.save then ({ d with lapsedFile := o.dropOld (file ++ o.lapsed) }, .error .save)
      else ({ d with orders := o.flushed, lapsedFile := o.dropOld (file ++ o.lapsed) }, .ok out)
    else ({ d with lapsedFile := o.dropOld (file ++ o.lapsed) }, .ok out)

def updateOrders {α : Type} (d : Disk) (w : UpdateFaults) (f : Orders → List Lapsed → Orders × List Lapsed × α) :
    Disk × Except WriteError α :=
  match f d.orders.loaded d.lapsedFile with
  | (o, file, out) => writeOrders d w o file out

/-- Whether an update that leaves `o`, which is not what the file says, fails. -/
def updateFails (o : Orders) (w : UpdateFaults) : Bool :=
  (!o.lapsed.isEmpty && w.append.isSome) || (o.dropLapsedTo.isSome && w.dropOld) || w.save

/-! ### Crediting by hand -/

/-- The writes of `order credit` that fail, and whether there is randomness for a new account's name. -/
structure CreditFaults where
  rewrite : Bool
  update : UpdateFaults
  accounts : Bool
  raw : Option String
  putBack : UpdateFaults
deriving DecidableEq

def CreditFaults.none (raw : String) : CreditFaults := ⟨false, .none, false, some raw, .none⟩

inductive CreditError where
  | notTaken (why : NotTaken)
  | notRewritten
  | orders (why : WriteError)
  | credit
  | notPutBack (why : WriteError)
deriving DecidableEq

/-- What `order credit` is given: the payment's amount and block time, whose order it was if several fit, and the
transaction. -/
structure CreditArgs where
  amountRaw : Nat
  paidAt : Int
  token : Option Hash
  sig : Hash
  now : Int
deriving DecidableEq

/-- Takes the record out of the orders' side and out of the lapsed file, or, if it cannot be taken out of the file,
puts it back. -/
def takeRecord (c : CreditArgs) (rewriteFails : Bool) (o : Orders) (file : List Lapsed) :
    Orders × List Lapsed × Except CreditError Lapsed :=
  match o.takeLapsed (readLapsed file (some c.amountRaw)) c.amountRaw c.paidAt c.token c.sig c.now with
  | (o, .error why) => (o, file, .error (.notTaken why))
  | (o, .ok (l, inFile)) =>
    if inFile then
      if rewriteFails then (o.putBack none c.sig, file, .error .notRewritten)
      else (o, file.filter (· ≠ l), .ok l)
    else (o, file, .ok l)

/-- `Accounts::update` of a credit: the file is written only if it changed. -/
def creditAccount (d : Disk) (fails : Bool) (raw : Option String) (hash : Hash) (passes : Nat) : Disk × Option Nat :=
  match d.accounts.credit hash passes raw with
  | (a, some balance) => if fails && a ≠ d.accounts then (d, none) else ({ d with accounts := a }, some balance)
  | (_, none) => (d, none)

def updateCredit (d : Disk) (w : CreditFaults) (l : Lapsed) : Disk × Option Nat :=
  creditAccount d w.accounts w.raw l.tokenSha256 l.passes

/-- `order credit`: the passes credited and the balance. -/
def creditLapsed (d : Disk) (c : CreditArgs) (w : CreditFaults) : Disk × Except CreditError (Nat × Nat) :=
  match updateOrders d w.update (takeRecord c w.rewrite) with
  | (d, .error why) => (d, .error (.orders why))
  | (d, .ok (.error why)) => (d, .error why)
  | (d, .ok (.ok l)) =>
    match updateCredit d w l with
    | (d, some balance) => (d, .ok (l.passes, balance))
    | (d, none) =>
      match updateOrders d w.putBack fun o file => (o.putBack (some l) c.sig, file, ()) with
      | (d, .error why) => (d, .error (.notPutBack why))
      | (d, .ok ()) => (d, .error .credit)

/-! ### What the command owes -/

def picked (d : Disk) (c : CreditArgs) : Option (Lapsed × Bool) :=
  match (d.orders.loaded.takeLapsed (readLapsed d.lapsedFile (some c.amountRaw)) c.amountRaw c.paidAt c.token c.sig
    c.now).2 with
  | .ok (l, inFile) => some (l, inFile)
  | .error _ => none

def Readable (d : Disk) (l : Lapsed) : Prop :=
  l ∈ readLapsed d.lapsedFile (some l.amountRaw) ∨ (∃ x ∈ d.orders.orders, x.paidSha256 = none ∧ x.toLapsed = l) ∨
    l ∈ d.orders.lapsed

/-- After an error no account has changed, no mark of the transaction was made, and the record picked is still
readable and credited by the same command when nothing fails. -/
def AllOrNothing (d : Disk) (c : CreditArgs) (w : CreditFaults) : Prop :=
  ∀ why, (creditLapsed d c w).2 = .error why →
    (creditLapsed d c w).1.accounts = d.accounts ∧
    (∀ u ∈ (creditLapsed d c w).1.orders.used, u.signatureSha256 = c.sig → u ∈ d.orders.used) ∧
    ∀ l inFile, picked d c = some (l, inFile) → Readable (creditLapsed d c w).1 l ∧
      ∀ raw, ∃ balance, (creditLapsed (creditLapsed d c w).1 c (.none raw)).2 = .ok (l.passes, balance)

def withoutRecord (d : Disk) (c : CreditArgs) (l : Lapsed) : Orders :=
  { (d.orders.loaded.prune c.now).markUsed c.sig c.now with
    lapsed := (d.orders.loaded.prune c.now).lapsed.filter (· ≠ l) }

def LosesRecord (d : Disk) (c : CreditArgs) (w : CreditFaults) : Prop :=
  ∃ l, picked d c = some (l, true) ∧ w.rewrite = false ∧ l ∉ (d.orders.loaded.prune c.now).lapsed ∧
    updateFails (withoutRecord d c l) w.update = true

def KeepsMark (d : Disk) (c : CreditArgs) (w : CreditFaults) : Prop :=
  ∃ l inFile, picked d c = some (l, inFile) ∧ (inFile = true → w.rewrite = false) ∧
    updateFails (withoutRecord d c l) w.update = false ∧ (updateCredit d w l).2 = none ∧
    (w.putBack.append.isSome || w.putBack.save) = true

def recordsAt (d : Disk) (now : Int) : List Lapsed := d.lapsedFile ++ (d.orders.loaded.prune now).lapsed

def OneRecord (d : Disk) (now : Int) : Prop :=
  ∀ l ∈ recordsAt d now, ∀ r ∈ recordsAt d now, l.tokenSha256 = r.tokenSha256 → l.amountRaw = r.amountRaw →
    l.created = r.created → l = r

/-- The book's files hold one record of an order. -/
theorem oneRecord_of_kept {s : Book} {now : Int} (h : Kept s) (hle : s.clock ≤ now) (a : Accounts) :
    OneRecord ⟨s.o, s.file, a⟩ now := by
  have hkeys := nodup_records (kept_prune h hle)
  intro l hl r hr _ hamount hcreated
  exact List.inj_on_of_nodup_map hkeys hl hr (Prod.ext hamount hcreated)

/-! ### What an update leaves -/

section Update

variable {α : Type} {d : Disk} {w : UpdateFaults} {o : Orders} {file : List Lapsed} {out : α}

theorem mem_dropOld {l : Lapsed} : l ∈ o.dropOld file ↔ l ∈ file ∧ ∀ upTo ∈ o.dropLapsedTo, upTo < l.lapsed := by
  unfold dropOld
  cases o.dropLapsedTo <;> simp

theorem writeOrders_cases (d : Disk) (w : UpdateFaults) (o : Orders) (file : List Lapsed) (out : α) :
    ∃ file', (∀ l ∈ file', l ∈ file ++ o.lapsed) ∧
      (∀ l ∈ file, (∀ upTo ∈ o.dropLapsedTo, upTo < l.lapsed) → l ∈ file') ∧
      ((∃ why, writeOrders d w o file out = ({ d with lapsedFile := file' }, .error why)) ∨
        (writeOrders d w o file out = ({ d with lapsedFile := file' }, .ok out) ∧ o.lapsed = [] ∧
          o.differs d.orders.loaded = false) ∨
        (writeOrders d w o file out = ({ d with orders := o.flushed, lapsedFile := file' }, .ok out) ∧
          ∀ l ∈ o.lapsed, (∀ upTo ∈ o.dropLapsedTo, upTo < l.lapsed) → l ∈ file')) := by
  have hdropped : (∀ l ∈ o.dropOld (file ++ o.lapsed), l ∈ file ++ o.lapsed) ∧
      ∀ l ∈ file, (∀ upTo ∈ o.dropLapsedTo, upTo < l.lapsed) → l ∈ o.dropOld (file ++ o.lapsed) :=
    ⟨fun l hl => (mem_dropOld.1 hl).1, fun l hl hnew => mem_dropOld.2 ⟨List.mem_append_left _ hl, hnew⟩⟩
  unfold writeOrders
  split
  · rename_i k _
    refine ⟨file ++ o.lapsed.take k, fun l hl => ?_, fun l hl _ => List.mem_append_left _ hl, Or.inl ⟨_, rfl⟩⟩
    rcases List.mem_append.1 hl with hl | hl
    · exact List.mem_append_left _ hl
    · exact List.mem_append_right _ (List.mem_of_mem_take hl)
  · split
    · exact ⟨file ++ o.lapsed, fun _ hl => hl, fun l hl _ => List.mem_append_left _ hl, Or.inl ⟨_, rfl⟩⟩
    · refine ⟨o.dropOld (file ++ o.lapsed), hdropped.1, hdropped.2, ?_⟩
      split
      · split
        · exact Or.inl ⟨_, rfl⟩
        · exact Or.inr (Or.inr ⟨rfl, fun l hl hnew => mem_dropOld.2 ⟨List.mem_append_right _ hl, hnew⟩⟩)
      · rename_i hsame
        simp only [Bool.or_eq_true, Bool.not_eq_true', not_or, Bool.not_eq_true, Bool.not_eq_false,
          List.isEmpty_iff] at hsame
        exact Or.inr (Or.inl ⟨rfl, hsame.1, hsame.2⟩)

theorem writeOrders_changed (d : Disk) (w : UpdateFaults) (o : Orders) (file : List Lapsed) (out : α)
    (hchanged : o.lapsed ≠ [] ∨ o.differs d.orders.loaded = true) :
    (∃ why, (writeOrders d w o file out).2 = .error why) ↔ updateFails o w = true := by
  have hsaved : (!o.lapsed.isEmpty || o.differs d.orders.loaded) = true := by
    rcases hchanged with hmoved | hdiff
    · simp [hmoved]
    · simp [hdiff]
  unfold writeOrders updateFails
  rw [hsaved]
  have hrest : (∃ why, (if o.dropLapsedTo.isSome && w.dropOld then
      ({ d with lapsedFile := file ++ o.lapsed }, .error .dropOld)
      else if true then
        if w.save then ({ d with lapsedFile := o.dropOld (file ++ o.lapsed) }, .error .save)
        else ({ d with orders := o.flushed, lapsedFile := o.dropOld (file ++ o.lapsed) }, .ok out)
      else ({ d with lapsedFile := o.dropOld (file ++ o.lapsed) }, .ok out) : Disk × Except WriteError α).2 =
        .error why) ↔ ((o.dropLapsedTo.isSome && w.dropOld) || w.save) = true := by
    cases hdrop : o.dropLapsedTo.isSome && w.dropOld <;> cases hsave : w.save <;> simp
  by_cases hmoved : o.lapsed = []
  · rw [if_pos hmoved]
    simpa only [hmoved, List.isEmpty_nil, Bool.not_true, Bool.false_and, Bool.false_or] using hrest
  · rw [if_neg hmoved]
    cases happ : w.append with
    | some k => simp [hmoved]
    | none => simpa [hmoved] using hrest

theorem writeOrders_ok (d : Disk) (w : UpdateFaults) (o : Orders) (file : List Lapsed) (out : α)
    (h : updateFails o w = false) : (writeOrders d w o file out).2 = .ok out := by
  simp only [updateFails, Bool.or_eq_false_iff] at h
  obtain ⟨⟨happend, hdrop⟩, hsave⟩ := h
  have hmoved : (if o.lapsed = [] then none else w.append) = none := by
    split
    · rfl
    · rename_i hmoved
      simpa [hmoved] using happend
  unfold writeOrders
  rw [hmoved]
  dsimp only
  rw [hdrop, hsave]
  simp only [Bool.false_eq_true, if_false]
  split <;> rfl

end Update

/-! ### The record picked, and picked again -/

variable {d d' : Disk} {c : CreditArgs} {l : Lapsed} {inFile : Bool}

theorem picked_eq_some (hpick : picked d c = some (l, inFile)) :
    (d.orders.loaded.prune c.now).isUsed c.sig = false ∧
      l ∈ readLapsed d.lapsedFile (some c.amountRaw) ++ (d.orders.loaded.prune c.now).lapsed ∧
      fitsPayment c.amountRaw c.paidAt c.token c.now l = true ∧
      (∀ r ∈ readLapsed d.lapsedFile (some c.amountRaw) ++ (d.orders.loaded.prune c.now).lapsed,
        fitsPayment c.amountRaw c.paidAt c.token c.now r = true → r = l) ∧
      (readLapsed d.lapsedFile (some c.amountRaw)).contains l = inFile ∧
      d.orders.loaded.takeLapsed (readLapsed d.lapsedFile (some c.amountRaw)) c.amountRaw c.paidAt c.token c.sig c.now =
        (withoutRecord d c l, .ok (l, inFile)) := by
  unfold picked at hpick
  rcases d.orders.loaded.takeLapsed_cases (readLapsed d.lapsedFile (some c.amountRaw)) c.amountRaw c.paidAt c.token
    c.sig c.now with ⟨why, ht⟩ | ⟨l', hused, hl, hfits, hall, ht⟩ <;> rw [ht] at hpick
  · cases hpick
  · simp only [Option.some.injEq, Prod.mk.injEq] at hpick
    obtain ⟨rfl, hin⟩ := hpick
    exact ⟨hused, hl, hfits, hall, hin, by rw [ht, hin]; rfl⟩

private theorem read_of_mem {file : List Lapsed} (hone : ∀ l ∈ file, ∀ r ∈ file, l.tokenSha256 = r.tokenSha256 →
    l.amountRaw = r.amountRaw → l.created = r.created → l = r) {l : Lapsed} (hl : l ∈ file) :
    l ∈ readLapsed file (some l.amountRaw) := by
  have hfits : l ∈ file.filter fun r => (some l.amountRaw).all (· == r.amountRaw) :=
    List.mem_filter.2 ⟨hl, by simp⟩
  obtain ⟨r, hr, hk⟩ := exists_mem_firstBy (k := fun l : Lapsed => (l.tokenSha256, l.amountRaw, l.created)) hfits
  simp only [Prod.mk.injEq] at hk
  have hr' := (List.mem_filter.1 (mem_of_mem_firstBy hr)).1
  rw [← hone r hr' l hl hk.1 hk.2.1 hk.2.2]
  rwa [hk.2.1]

private theorem fits_unique (hone : OneRecord d c.now) (hpick : picked d c = some (l, inFile)) :
    ∀ r ∈ recordsAt d c.now, fitsPayment c.amountRaw c.paidAt c.token c.now r = true → r = l := by
  obtain ⟨-, -, -, hall, -⟩ := picked_eq_some hpick
  intro r hr hfits
  refine hall r ?_ hfits
  rcases List.mem_append.1 hr with hfile | hlapsing
  · have hread := read_of_mem (fun l hl r hr => hone l (List.mem_append_left _ hl) r (List.mem_append_left _ hr)) hfile
    have hamount : r.amountRaw = c.amountRaw := by
      simp only [fitsPayment, Bool.and_eq_true, beq_iff_eq] at hfits
      exact hfits.1.1.1
    rw [hamount] at hread
    exact List.mem_append_left _ hread
  · exact List.mem_append_right _ hlapsing

theorem creditAccount_ok (d : Disk) (raw : String) (hash : Hash) (passes : Nat) :
    ∃ a balance, creditAccount d false (some raw) hash passes = ({ d with accounts := a }, some balance) := by
  unfold creditAccount
  rcases d.accounts.credit_cases hash passes (some raw) with ⟨e, a, -, hr, -⟩ | ⟨e, a, -, -, -, hr, -⟩ | ⟨hnone, hr⟩
  · rw [hr]
    exact ⟨a, satAdd32 (e.balance.getD 0) passes, rfl⟩
  · rw [hr]
    exact ⟨a, passes, rfl⟩
  · simp [Accounts.credit, hnone] at hr

private theorem credited_again (hone : OneRecord d c.now) (hpick : picked d c = some (l, inFile))
    (hused : (d'.orders.loaded.prune c.now).isUsed c.sig = false)
    (hsub : ∀ r ∈ recordsAt d' c.now, r ∈ recordsAt d c.now) (hl : l ∈ recordsAt d' c.now) :
    Readable d' l ∧ ∀ raw, ∃ balance, (creditLapsed d' c (.none raw)).2 = .ok (l.passes, balance) := by
  obtain ⟨-, -, hfits, -⟩ := picked_eq_some hpick
  have hamount : l.amountRaw = c.amountRaw := by
    simp only [fitsPayment, Bool.and_eq_true, beq_iff_eq] at hfits
    exact hfits.1.1.1
  have hread : ∀ r ∈ d'.lapsedFile, r ∈ readLapsed d'.lapsedFile (some r.amountRaw) := fun r hr =>
    read_of_mem (fun l hl r hr => hone l (hsub l (List.mem_append_left _ hl)) r (hsub r (List.mem_append_left _ hr))) hr
  constructor
  · rcases List.mem_append.1 hl with hfile | hlapsing
    · exact Or.inl (hread l hfile)
    · rcases List.mem_append.1 (List.mem_filter.1 hlapsing).1 with hold | hnew
      · exact Or.inr (Or.inr hold)
      · obtain ⟨x, hx, hxl⟩ := List.mem_map.1 hnew
        have hx' := List.mem_filter.1 hx
        simp only [Order.lapses, Bool.and_eq_true, Option.isNone_iff_eq_none] at hx'
        exact Or.inr (Or.inl ⟨x, hx'.1, hx'.2.1, hxl⟩)
  · intro raw
    have hmem : l ∈ readLapsed d'.lapsedFile (some c.amountRaw) ++ (d'.orders.loaded.prune c.now).lapsed := by
      rcases List.mem_append.1 hl with hfile | hlapsing
      · exact List.mem_append_left _ (hamount ▸ hread l hfile)
      · exact List.mem_append_right _ hlapsing
    have hfound : firstBy id ((readLapsed d'.lapsedFile (some c.amountRaw) ++
        (d'.orders.loaded.prune c.now).lapsed).filter (fitsPayment c.amountRaw c.paidAt c.token c.now)) = [l] := by
      refine firstBy_id_eq_singleton.2 ⟨List.mem_filter.2 ⟨hmem, hfits⟩, fun r hr => ?_⟩
      obtain ⟨hr, hrfits⟩ := List.mem_filter.1 hr
      refine fits_unique hone hpick r (hsub r ?_) hrfits
      rcases List.mem_append.1 hr with hr | hr
      · exact List.mem_append_left _ (List.mem_filter.1 (mem_of_mem_firstBy hr)).1
      · exact List.mem_append_right _ hr
    have htake : ∃ file, takeRecord c false d'.orders.loaded d'.lapsedFile = (withoutRecord d' c l, file, .ok l) := by
      unfold takeRecord Orders.takeLapsed
      dsimp only
      rw [hused, hfound]
      dsimp only
      cases (readLapsed d'.lapsedFile (some c.amountRaw)).contains l
      · exact ⟨d'.lapsedFile, rfl⟩
      · exact ⟨d'.lapsedFile.filter (· ≠ l), rfl⟩
    obtain ⟨file, htake⟩ := htake
    obtain ⟨d₁, hup⟩ : ∃ d₁, updateOrders d' UpdateFaults.none (takeRecord c false) = (d₁, .ok (.ok l)) := by
      unfold updateOrders
      rw [htake]
      dsimp only
      unfold writeOrders UpdateFaults.none
      simp only [ite_self, Bool.and_false, Bool.false_eq_true, if_false]
      split <;> exact ⟨_, rfl⟩
    obtain ⟨a, balance, hcredit⟩ := creditAccount_ok d₁ raw l.tokenSha256 l.passes
    refine ⟨balance, ?_⟩
    unfold creditLapsed
    have hcredit' : updateCredit d₁ (CreditFaults.none raw) l = ({ d₁ with accounts := a }, some balance) := hcredit
    simp only [CreditFaults.none] at hcredit' ⊢
    rw [hup]
    dsimp only
    rw [hcredit']

/-! ### The command, step by step -/

theorem takeRecord_picked (hpick : picked d c = some (l, inFile)) (rewriteFails : Bool) :
    takeRecord c rewriteFails d.orders.loaded d.lapsedFile =
      if inFile && rewriteFails then ((withoutRecord d c l).putBack none c.sig, d.lapsedFile, .error .notRewritten)
      else (withoutRecord d c l, if inFile then d.lapsedFile.filter (· ≠ l) else d.lapsedFile, .ok l) := by
  obtain ⟨-, -, -, -, -, ht⟩ := picked_eq_some hpick
  unfold takeRecord
  rw [ht]
  cases inFile <;> cases rewriteFails <;> rfl

theorem takeRecord_none (hpick : picked d c = none) (rewriteFails : Bool) :
    ∃ why, takeRecord c rewriteFails d.orders.loaded d.lapsedFile =
      (d.orders.loaded.prune c.now, d.lapsedFile, .error (.notTaken why)) := by
  unfold picked at hpick
  unfold takeRecord
  rcases d.orders.loaded.takeLapsed_cases (readLapsed d.lapsedFile (some c.amountRaw)) c.amountRaw c.paidAt c.token
    c.sig c.now with ⟨why, ht⟩ | ⟨l, -, -, -, -, ht⟩
  · rw [ht]
    exact ⟨why, rfl⟩
  · rw [ht] at hpick
    cases hpick

private theorem creditLapsed_none (hpick : picked d c = none) (w : CreditFaults) :
    (∃ why, (creditLapsed d c w).2 = .error why) ∧ (creditLapsed d c w).1.accounts = d.accounts ∧
      ((creditLapsed d c w).1.orders = d.orders ∨
        (creditLapsed d c w).1.orders = (d.orders.loaded.prune c.now).flushed) := by
  obtain ⟨why, ht⟩ := takeRecord_none hpick w.rewrite
  have hup : updateOrders d w.update (takeRecord c w.rewrite) =
      writeOrders d w.update (d.orders.loaded.prune c.now) d.lapsedFile (.error (.notTaken why)) := by
    unfold updateOrders
    rw [ht]
  unfold creditLapsed
  rw [hup]
  obtain ⟨file', -, -, ⟨why', hw⟩ | ⟨hw, -⟩ | ⟨hw, -⟩⟩ := writeOrders_cases d w.update (d.orders.loaded.prune c.now)
    d.lapsedFile (Except.error (CreditError.notTaken why) : Except CreditError Lapsed) <;> rw [hw]
  · exact ⟨⟨_, rfl⟩, rfl, Or.inl rfl⟩
  · exact ⟨⟨_, rfl⟩, rfl, Or.inl rfl⟩
  · exact ⟨⟨_, rfl⟩, rfl, Or.inr rfl⟩

private theorem withoutRecord_putBack (hpick : picked d c = some (l, inFile)) (r : Option Lapsed) :
    (withoutRecord d c l).putBack r c.sig =
      { d.orders.loaded.prune c.now with
        lapsed := (d.orders.loaded.prune c.now).lapsed.filter (· ≠ l) ++ r.toList } := by
  obtain ⟨hused, -⟩ := picked_eq_some hpick
  have hback : ((d.orders.loaded.prune c.now).markUsed c.sig c.now).unuse c.sig = d.orders.loaded.prune c.now :=
    unuse_markUsed hused
  have hmarks := congrArg Orders.used hback
  simp only [Orders.markUsed, Orders.unuse] at hmarks
  unfold Orders.putBack withoutRecord
  simp only [Orders.markUsed, Orders.unuse, hmarks]

private theorem lapsed_flushed_prune {o o' : Orders} {now : Int} (h : o'.orders = (o.prune now).orders) :
    (o'.flushed.loaded.prune now).lapsed = [] := by
  have hnone : o'.orders.filter (Order.lapses now) = [] := by
    rw [h, List.filter_eq_nil_iff]
    intro x hx
    have hstays := (mem_prune.1 hx).2
    unfold Order.stays at hstays
    unfold Order.lapses
    split at hstays
    · simp [hstays]
    · simp [*]
  unfold Orders.prune flushed Orders.loaded
  simp [hnone]

private theorem not_old (hpick : picked d c = some (l, inFile)) :
    ∀ upTo ∈ (d.orders.loaded.prune c.now).dropLapsedTo, upTo < l.lapsed := by
  obtain ⟨-, -, hfits, -⟩ := picked_eq_some hpick
  intro upTo hto
  unfold Orders.prune Orders.loaded at hto
  dsimp only at hto
  simp only [fitsPayment, Bool.and_eq_true, decide_eq_true_eq] at hfits
  have hnow := hfits.1.1.2
  split at hto
  · rw [Option.mem_some_iff] at hto
    omega
  · cases hto

private theorem differs_withoutRecord (hpick : picked d c = some (l, inFile)) :
    (withoutRecord d c l).differs d.orders.loaded = true := by
  obtain ⟨hused, -⟩ := picked_eq_some hpick
  have hne : (withoutRecord d c l).used ≠ d.orders.loaded.used := by
    intro heq
    have hmark : (⟨c.sig, c.now⟩ : Used) ∈ d.orders.loaded.used := by
      rw [← heq]
      exact List.mem_append_right _ (List.mem_singleton_self _)
    -- a mark made now would still be there
    have : (d.orders.loaded.prune c.now).isUsed c.sig = true := by
      refine List.any_eq_true.2 ⟨⟨c.sig, c.now⟩, List.mem_filter.2 ⟨hmark, ?_⟩, by simp⟩
      simp [KEEP_PAID, ORDER_LIFETIME, CLOCK_SLACK]
    rw [hused] at this
    cases this
  unfold Orders.differs
  simp [hne]

private theorem recordsAt_sub_of_file {file : List Lapsed} (hpick : picked d c = some (l, inFile))
    (hfile : ∀ r ∈ d'.lapsedFile, r ∈ file ++ ((d.orders.loaded.prune c.now).lapsed.filter (· ≠ l) ++ [l]))
    (hsub : ∀ r ∈ file, r ∈ d.lapsedFile)
    (horders : (d'.orders.loaded.prune c.now).lapsed = (d.orders.loaded.prune c.now).lapsed ∨
      (d'.orders.loaded.prune c.now).lapsed = []) :
    ∀ r ∈ recordsAt d' c.now, r ∈ recordsAt d c.now := by
  obtain ⟨-, hl, -⟩ := picked_eq_some hpick
  have hl' : l ∈ recordsAt d c.now := by
    rcases List.mem_append.1 hl with hl | hl
    · exact List.mem_append_left _ (List.mem_filter.1 (mem_of_mem_firstBy hl)).1
    · exact List.mem_append_right _ hl
  intro r hr
  rcases List.mem_append.1 hr with hr | hr
  · rcases List.mem_append.1 (hfile r hr) with hr | hr
    · exact List.mem_append_left _ (hsub r hr)
    · rcases List.mem_append.1 hr with hr | hr
      · exact List.mem_append_right _ (List.mem_filter.1 hr).1
      · rw [List.mem_singleton.1 hr]
        exact hl'
  · rcases horders with h | h <;> rw [h] at hr
    · exact List.mem_append_right _ hr
    · cases hr

/-- A command that leaves the accounts, makes no mark and has the record still among its own. -/
private theorem allOrNothing_of_left {w : CreditFaults} (hone : OneRecord d c.now) (hpick : picked d c = some (l, inFile))
    (haccounts : (creditLapsed d c w).1.accounts = d.accounts)
    (hmarks : ∀ u ∈ (creditLapsed d c w).1.orders.used, u ∈ d.orders.used)
    (hsub : ∀ r ∈ recordsAt (creditLapsed d c w).1 c.now, r ∈ recordsAt d c.now)
    (hl : l ∈ recordsAt (creditLapsed d c w).1 c.now) : AllOrNothing d c w := by
  intro why hwhy
  refine ⟨haccounts, fun u hu _ => hmarks u hu, fun l₁ inFile₁ hpick₁ => ?_⟩
  obtain ⟨rfl, -⟩ := Prod.mk.inj (Option.some.inj (hpick₁.symm.trans hpick))
  refine credited_again hone hpick (eq_false_of_ne_true fun hmarked => ?_) hsub hl
  obtain ⟨u, hu, hsig⟩ := List.any_eq_true.1 hmarked
  obtain ⟨hu, hkept⟩ := List.mem_filter.1 hu
  have hused : (d.orders.loaded.prune c.now).isUsed c.sig = true :=
    List.any_eq_true.2 ⟨u, List.mem_filter.2 ⟨hmarks u hu, hkept⟩, hsig⟩
  rw [(picked_eq_some hpick).1] at hused
  cases hused

private theorem allOrNothing_notRewritten {w : CreditFaults} (hone : OneRecord d c.now)
    (hpick : picked d c = some (l, true)) (hrw : w.rewrite = true) : AllOrNothing d c w := by
  obtain ⟨-, -, -, -, hin, -⟩ := picked_eq_some hpick
  have hlfile : l ∈ d.lapsedFile := by
    have hread : l ∈ readLapsed d.lapsedFile (some c.amountRaw) := by simpa using hin
    exact (List.mem_filter.1 (mem_of_mem_firstBy hread)).1
  have hback := withoutRecord_putBack hpick none
  have htake := takeRecord_picked hpick w.rewrite
  rw [hrw, hback] at htake
  simp only [Bool.and_self, if_true, Option.toList_none, List.append_nil] at htake
  have hup : updateOrders d w.update (takeRecord c w.rewrite) = writeOrders d w.update
      { d.orders.loaded.prune c.now with lapsed := (d.orders.loaded.prune c.now).lapsed.filter (· ≠ l) } d.lapsedFile
      (.error .notRewritten) := by
    unfold updateOrders
    rw [hrw, htake]
  have hres : ∀ d₁ out, updateOrders d w.update (takeRecord c w.rewrite) = (d₁, out) →
      (∀ l', out ≠ .ok (.ok l')) → (creditLapsed d c w).1 = d₁ := by
    intro d₁ out h hnot
    unfold creditLapsed
    rw [h]
    cases out with
    | error why => rfl
    | ok out =>
      cases out with
      | error why => rfl
      | ok l' => exact absurd rfl (hnot l')
  obtain ⟨file', hfile', hkept, hw⟩ := writeOrders_cases d w.update
    { d.orders.loaded.prune c.now with lapsed := (d.orders.loaded.prune c.now).lapsed.filter (· ≠ l) } d.lapsedFile
    (Except.error CreditError.notRewritten : Except CreditError Lapsed)
  rw [← hup] at hw
  have hl := hkept l hlfile (not_old hpick)
  have hsub : ∀ r ∈ file', r ∈ d.lapsedFile ++ ((d.orders.loaded.prune c.now).lapsed.filter (· ≠ l) ++ [l]) := by
    intro r hr
    rw [← List.append_assoc]
    exact List.mem_append_left _ (hfile' r hr)
  have hsame : ∀ out, updateOrders d w.update (takeRecord c w.rewrite) = ({ d with lapsedFile := file' }, out) →
      (∀ l', out ≠ .ok (.ok l')) → AllOrNothing d c w := by
    intro out h hnot
    have hdisk := hres _ _ h hnot
    refine allOrNothing_of_left hone hpick (by rw [hdisk]) (by rw [hdisk]; exact fun _ hu => hu) ?_ ?_ <;> rw [hdisk]
    · exact recordsAt_sub_of_file hpick hsub (fun _ hr => hr) (Or.inl rfl)
    · exact List.mem_append_left _ hl
  rcases hw with ⟨why', hw⟩ | ⟨hw, -⟩ | ⟨hw, -⟩
  · exact hsame _ hw (by simp)
  · exact hsame _ hw (by simp)
  · have hdisk := hres _ _ hw (by simp)
    refine allOrNothing_of_left hone hpick (by rw [hdisk]) ?_ ?_ ?_ <;> rw [hdisk]
    · exact fun u hu => (List.mem_filter.1 hu).1
    · exact recordsAt_sub_of_file hpick hsub (fun _ hr => hr) (Or.inr (lapsed_flushed_prune rfl))
    · exact List.mem_append_left _ hl

private theorem updateOrders_taken {w : CreditFaults} (hpick : picked d c = some (l, inFile))
    (hrw : inFile = true → w.rewrite = false) :
    updateOrders d w.update (takeRecord c w.rewrite) = writeOrders d w.update (withoutRecord d c l)
      (if inFile then d.lapsedFile.filter (· ≠ l) else d.lapsedFile) (.ok l) := by
  have hnot : (inFile && w.rewrite) = false := by
    cases inFile
    · rfl
    · simp [hrw rfl]
  unfold updateOrders
  rw [takeRecord_picked hpick, hnot]
  rfl

private theorem allOrNothing_notSaved {w : CreditFaults} (hone : OneRecord d c.now)
    (hpick : picked d c = some (l, inFile)) (hrw : inFile = true → w.rewrite = false)
    (hfails : updateFails (withoutRecord d c l) w.update = true) :
    AllOrNothing d c w ↔ (inFile = true → l ∈ (d.orders.loaded.prune c.now).lapsed) := by
  obtain ⟨-, hl, -, -, hin, -⟩ := picked_eq_some hpick
  have hup := updateOrders_taken hpick hrw
  obtain ⟨why, herr⟩ := (writeOrders_changed d w.update (withoutRecord d c l)
    (if inFile then d.lapsedFile.filter (· ≠ l) else d.lapsedFile) (Except.ok l : Except CreditError Lapsed)
    (Or.inr (differs_withoutRecord hpick))).2 hfails
  obtain ⟨file', hfile', -, hw⟩ := writeOrders_cases d w.update (withoutRecord d c l)
    (if inFile then d.lapsedFile.filter (· ≠ l) else d.lapsedFile) (Except.ok l : Except CreditError Lapsed)
  rw [← hup] at hw herr
  have hres : (creditLapsed d c w).1 = { d with lapsedFile := file' } ∧ ∃ why, (creditLapsed d c w).2 = .error why := by
    rcases hw with ⟨why', hw⟩ | ⟨hw, -⟩ | ⟨hw, -⟩
    · unfold creditLapsed
      rw [hw]
      exact ⟨rfl, _, rfl⟩
    · rw [hw] at herr
      cases herr
    · rw [hw] at herr
      cases herr
  obtain ⟨hdisk, why', hwhy⟩ := hres
  have hfirst : ∀ r ∈ (if inFile then d.lapsedFile.filter (· ≠ l) else d.lapsedFile), r ∈ d.lapsedFile := by
    intro r hr
    split at hr
    · exact (List.mem_filter.1 hr).1
    · exact hr
  have hsub : ∀ r ∈ recordsAt { d with lapsedFile := file' } c.now, r ∈ recordsAt d c.now := by
    refine recordsAt_sub_of_file hpick (fun r hr => ?_) hfirst (Or.inl rfl)
    rw [← List.append_assoc]
    exact List.mem_append_left _ (hfile' r hr)
  constructor
  · -- a record in the file alone is in no file now, so nothing is there to credit
    intro hall' hinFile
    by_contra hgone
    obtain ⟨-, -, hagain⟩ := hall' why' hwhy
    obtain ⟨-, hretry⟩ := hagain l inFile hpick
    obtain ⟨balance, hretry⟩ := hretry ""
    rw [hdisk] at hretry
    have hnone : picked { d with lapsedFile := file' } c = none := by
      unfold picked
      rcases ({ d with lapsedFile := file' } : Disk).orders.loaded.takeLapsed_cases (readLapsed file' (some c.amountRaw))
        c.amountRaw c.paidAt c.token c.sig c.now with ⟨why, ht⟩ | ⟨r, -, hr, hrfits, -, ht⟩
      · rw [ht]
      · exfalso
        have hr' : r ∈ recordsAt { d with lapsedFile := file' } c.now := by
          rcases List.mem_append.1 hr with hr | hr
          · exact List.mem_append_left _ (List.mem_filter.1 (mem_of_mem_firstBy hr)).1
          · exact List.mem_append_right _ hr
        obtain rfl := fits_unique hone hpick r (hsub r hr') hrfits
        rcases List.mem_append.1 hr' with hr' | hr'
        · rcases List.mem_append.1 (hfile' r hr') with hr' | hr'
          · rw [if_pos hinFile] at hr'
            simpa using (List.mem_filter.1 hr').2
          · simpa using (List.mem_filter.1 hr').2
        · exact hgone hr'
    obtain ⟨⟨why₂, hwhy₂⟩, -⟩ := creditLapsed_none hnone (CreditFaults.none "")
    rw [hwhy₂] at hretry
    cases hretry
  · intro hlapsing
    refine allOrNothing_of_left hone hpick (by rw [hdisk]) (by rw [hdisk]; exact fun _ hu => hu)
      (by rw [hdisk]; exact hsub) ?_
    rw [hdisk]
    refine List.mem_append_right _ ?_
    cases inFile with
    | true => exact hlapsing rfl
    | false =>
      rcases List.mem_append.1 hl with hl | hl
      · simp only [List.contains_eq_mem, decide_eq_false_iff_not] at hin
        exact absurd hl hin
      · exact hl

private theorem updateOrders_saved {w : CreditFaults} (hpick : picked d c = some (l, inFile))
    (hrw : inFile = true → w.rewrite = false) (hfails : updateFails (withoutRecord d c l) w.update = false) :
    ∃ file', (∀ r ∈ file', r ∈ d.lapsedFile ++ (d.orders.loaded.prune c.now).lapsed.filter (· ≠ l)) ∧
      updateOrders d w.update (takeRecord c w.rewrite) =
        ({ d with orders := (withoutRecord d c l).flushed, lapsedFile := file' }, .ok (.ok l)) := by
  have hdiff := differs_withoutRecord hpick
  rw [updateOrders_taken hpick hrw]
  obtain ⟨file', hfile', -, hw⟩ := writeOrders_cases d w.update (withoutRecord d c l)
    (if inFile then d.lapsedFile.filter (· ≠ l) else d.lapsedFile) (Except.ok l : Except CreditError Lapsed)
  refine ⟨file', fun r hr => ?_, ?_⟩
  · rcases List.mem_append.1 (hfile' r hr) with hr | hr
    · refine List.mem_append_left _ ?_
      split at hr
      · exact (List.mem_filter.1 hr).1
      · exact hr
    · exact List.mem_append_right _ hr
  · rcases hw with ⟨why, hw⟩ | ⟨-, -, hsame⟩ | ⟨hw, -⟩
    · have := (writeOrders_changed _ _ _ _ _ (Or.inr hdiff)).1 ⟨why, congrArg Prod.snd hw⟩
      rw [hfails] at this
      cases this
    · rw [hdiff] at hsame
      cases hsame
    · exact hw

private theorem updateCredit_accounts (d d' : Disk) (haccounts : d'.accounts = d.accounts) (w : CreditFaults) (l : Lapsed) :
    (updateCredit d' w l).2 = (updateCredit d w l).2 ∧ ((updateCredit d w l).2 = none → (updateCredit d' w l).1 = d') := by
  unfold updateCredit creditAccount
  rw [haccounts]
  cases d.accounts.credit l.tokenSha256 l.passes w.raw with
  | mk a balance =>
    cases balance with
    | none => exact ⟨rfl, fun _ => rfl⟩
    | some balance =>
      dsimp only
      split
      · exact ⟨rfl, fun _ => rfl⟩
      · exact ⟨rfl, fun h => by cases h⟩

private theorem allOrNothing_credited {w : CreditFaults}
    (hpick : picked d c = some (l, inFile)) (hrw : inFile = true → w.rewrite = false)
    (hfails : updateFails (withoutRecord d c l) w.update = false) {balance : Nat}
    (hcredit : (updateCredit d w l).2 = some balance) : AllOrNothing d c w := by
  obtain ⟨file', -, hup⟩ := updateOrders_saved hpick hrw hfails
  have hsame := (updateCredit_accounts d { d with
    orders := (withoutRecord d c l).flushed, lapsedFile := file' } rfl w l).1
  intro why hwhy
  exfalso
  unfold creditLapsed at hwhy
  rw [hup] at hwhy
  dsimp only at hwhy
  rw [hcredit] at hsame
  split at hwhy
  · cases hwhy
  · rename_i hnone
    rw [hnone] at hsame
    cases hsame

private theorem allOrNothing_notCredited {w : CreditFaults} (hone : OneRecord d c.now)
    (hpick : picked d c = some (l, inFile)) (hrw : inFile = true → w.rewrite = false)
    (hfails : updateFails (withoutRecord d c l) w.update = false) (hcredit : (updateCredit d w l).2 = none) :
    AllOrNothing d c w ↔ (w.putBack.append.isSome || w.putBack.save) = false := by
  obtain ⟨file', hfile', hup⟩ := updateOrders_saved hpick hrw hfails
  obtain ⟨hsame, hdisk⟩ := updateCredit_accounts d { d with
    orders := (withoutRecord d c l).flushed, lapsedFile := file' } rfl w l
  have hstays := hdisk hcredit
  rw [hcredit] at hsame
  have hnot : updateCredit { d with orders := (withoutRecord d c l).flushed, lapsedFile := file' } w l =
      ({ d with orders := (withoutRecord d c l).flushed, lapsedFile := file' }, none) := Prod.ext hstays hsame
  -- the orders with the record and the mark put back
  have hback : (withoutRecord d c l).flushed.loaded.putBack (some l) c.sig =
      { d.orders.loaded.prune c.now with lapsed := [l], dropLapsedTo := none } := by
    have := withoutRecord_putBack hpick (some l)
    have hmarks := congrArg Orders.used this
    simp only [Orders.putBack, Orders.unuse] at hmarks
    unfold Orders.putBack flushed Orders.loaded Orders.unuse
    dsimp only
    rw [hmarks]
    rfl
  have hres : creditLapsed d c w =
      match writeOrders { d with orders := (withoutRecord d c l).flushed, lapsedFile := file' } w.putBack
        { d.orders.loaded.prune c.now with lapsed := [l], dropLapsedTo := none } file' () with
      | (d, .error why) => (d, .error (.notPutBack why))
      | (d, .ok ()) => (d, .error .credit) := by
    unfold creditLapsed
    rw [hup]
    dsimp only
    rw [hnot]
    dsimp only
    unfold updateOrders
    dsimp only
    rw [hback]
  have hchanged := writeOrders_changed { d with orders := (withoutRecord d c l).flushed, lapsedFile := file' } w.putBack
    { d.orders.loaded.prune c.now with lapsed := [l], dropLapsedTo := none } file' () (Or.inl (by simp))
  have hfails' : updateFails { d.orders.loaded.prune c.now with lapsed := [l], dropLapsedTo := none } w.putBack =
      (w.putBack.append.isSome || w.putBack.save) := by
    simp [updateFails]
  rw [hfails'] at hchanged
  obtain ⟨file₂, hfile₂, hkept₂, hw⟩ := writeOrders_cases
    { d with orders := (withoutRecord d c l).flushed, lapsedFile := file' } w.putBack
    { d.orders.loaded.prune c.now with lapsed := [l], dropLapsedTo := none } file' ()
  cases hb : w.putBack.append.isSome || w.putBack.save with
  | true =>
    -- the mark stays, so the same command finds the transaction used
    obtain ⟨why, herr⟩ := hchanged.2 hb
    have hleft : writeOrders { d with orders := (withoutRecord d c l).flushed, lapsedFile := file' } w.putBack
        { d.orders.loaded.prune c.now with lapsed := [l], dropLapsedTo := none } file' () =
          ({ d with orders := (withoutRecord d c l).flushed, lapsedFile := file₂ }, .error why) := by
      rcases hw with ⟨why', hw⟩ | ⟨hw, -⟩ | ⟨hw, -⟩ <;> rw [hw] at herr ⊢
      · exact Prod.ext rfl herr
      · cases herr
      · cases herr
    rw [hleft] at hres
    refine ⟨fun hall => ?_, fun h => by cases h⟩
    obtain ⟨-, -, hagain⟩ := hall (.notPutBack why) (by rw [hres])
    obtain ⟨balance, hretry⟩ := (hagain l inFile hpick).2 ""
    rw [hres] at hretry
    have hmarked : ({ d with orders := (withoutRecord d c l).flushed, lapsedFile := file₂ } : Disk).orders.loaded.prune
        c.now |>.isUsed c.sig := by
      refine List.any_eq_true.2 ⟨⟨c.sig, c.now⟩, List.mem_filter.2 ⟨List.mem_append_right _
        (List.mem_singleton_self _), ?_⟩, by simp⟩
      simp [KEEP_PAID, ORDER_LIFETIME, CLOCK_SLACK]
    have hnone : picked { d with orders := (withoutRecord d c l).flushed, lapsedFile := file₂ } c = none := by
      cases hp : picked { d with orders := (withoutRecord d c l).flushed, lapsedFile := file₂ } c with
      | none => rfl
      | some p =>
        have := (picked_eq_some hp).1
        rw [hmarked] at this
        cases this
    obtain ⟨⟨why₂, hwhy₂⟩, -⟩ := creditLapsed_none hnone (CreditFaults.none "")
    rw [hwhy₂] at hretry
    cases hretry
  | false =>
    refine ⟨fun _ => rfl, fun _ => ?_⟩
    rcases hw with ⟨why', hw⟩ | ⟨-, hnil, -⟩ | ⟨hw, hlapsed⟩
    · have := hchanged.1 ⟨why', congrArg Prod.snd hw⟩
      rw [hb] at this
      cases this
    · cases hnil
    · rw [hw] at hres
      have hdisk := congrArg Prod.fst hres
      refine allOrNothing_of_left hone hpick (by rw [hdisk]) ?_ ?_ ?_ <;> rw [hdisk]
      · exact fun u hu => (List.mem_filter.1 hu).1
      · refine recordsAt_sub_of_file hpick (fun r hr => ?_) (fun _ hr => hr) (Or.inr (lapsed_flushed_prune rfl))
        rcases List.mem_append.1 (hfile₂ r hr) with hr | hr
        · rw [← List.append_assoc]
          exact List.mem_append_left _ (hfile' r hr)
        · exact List.mem_append_right _ (List.mem_append_right _ hr)
      · exact List.mem_append_left _ (hlapsed l (List.mem_singleton_self _) (by simp))

/-- An `order credit` that fails has credited nothing and can be made again, unless the orders file was not saved after
the record was taken out of the lapsed file, or the account could not be credited and the mark not taken back. -/
theorem allOrNothing_iff (d : Disk) (c : CreditArgs) (w : CreditFaults) (hone : OneRecord d c.now) :
    AllOrNothing d c w ↔ ¬ LosesRecord d c w ∧ ¬ KeepsMark d c w := by
  cases hpick : picked d c with
  | none =>
    obtain ⟨-, haccounts, horders⟩ := creditLapsed_none hpick w
    have hno : ∀ l inFile, picked d c ≠ some (l, inFile) := fun l inFile h => by rw [hpick] at h; cases h
    refine ⟨fun _ => ⟨fun ⟨l, h, _⟩ => hno l true h, fun ⟨l, inFile, h, _⟩ => hno l inFile h⟩, fun _ why hwhy => ?_⟩
    refine ⟨haccounts, fun u hu _ => ?_, fun l inFile h => absurd h (hno l inFile)⟩
    rcases horders with h | h <;> rw [h] at hu
    · exact hu
    · exact (List.mem_filter.1 hu).1
  | some p =>
    obtain ⟨l, inFile⟩ := p
    have hsame : ∀ {l' inFile'}, picked d c = some (l', inFile') → l' = l ∧ inFile' = inFile := fun h =>
      Prod.mk.inj (Option.some.inj (h.symm.trans hpick))
    by_cases hrw : inFile = true → w.rewrite = false
    · cases hfails : updateFails (withoutRecord d c l) w.update with
      | true =>
        rw [allOrNothing_notSaved hone hpick hrw hfails]
        constructor
        · intro h
          refine ⟨fun ⟨l', hp, _, hnot, _⟩ => ?_, fun ⟨l', inFile', hp, _, hf, _⟩ => ?_⟩
          · obtain ⟨rfl, rfl⟩ := hsame hp
            exact hnot (h rfl)
          · obtain ⟨rfl, rfl⟩ := hsame hp
            rw [hfails] at hf
            cases hf
        · rintro ⟨hloses, -⟩ rfl
          by_contra hnot
          exact hloses ⟨l, hpick, hrw rfl, hnot, hfails⟩
      | false =>
        have hnoloss : ¬ LosesRecord d c w := by
          rintro ⟨l', hp, -, -, hf⟩
          obtain ⟨rfl, rfl⟩ := hsame hp
          rw [hfails] at hf
          cases hf
        cases hcredit : (updateCredit d w l).2 with
        | some balance =>
          refine ⟨fun _ => ⟨hnoloss, ?_⟩, fun _ => allOrNothing_credited hpick hrw hfails hcredit⟩
          rintro ⟨l', inFile', hp, -, -, hc, -⟩
          obtain ⟨rfl, rfl⟩ := hsame hp
          rw [hcredit] at hc
          cases hc
        | none =>
          rw [allOrNothing_notCredited hone hpick hrw hfails hcredit]
          constructor
          · intro hback
            refine ⟨hnoloss, ?_⟩
            rintro ⟨l', inFile', -, -, -, -, hb⟩
            rw [hback] at hb
            cases hb
          · rintro ⟨-, hkeeps⟩
            refine eq_false_of_ne_true fun hb => hkeeps ⟨l, inFile, hpick, hrw, hfails, hcredit, hb⟩
    · have hboth : inFile = true ∧ w.rewrite = true := by
        cases inFile <;> cases hw : w.rewrite <;> simp_all
      obtain ⟨rfl, hrw'⟩ := hboth
      refine ⟨fun _ => ⟨?_, ?_⟩, fun _ => allOrNothing_notRewritten hone hpick hrw'⟩
      · rintro ⟨l', hp, hw, -⟩
        rw [hrw'] at hw
        cases hw
      · rintro ⟨l', inFile', hp, hw, -⟩
        obtain ⟨rfl, rfl⟩ := hsame hp
        exact hrw hw

def oneLapsed : Disk where
  orders := { Orders.empty with lapsedPruned := 100000 }
  lapsedFile := [⟨"b", 10, 1000007, 90000, 97200, false⟩]
  accounts := ⟨[]⟩

def creditOne : CreditArgs := ⟨1000007, 90100, none, "s", 100100⟩

/-- A credit whose account write fails: the record is put back. -/
theorem allOrNothing_oneLapsed :
    AllOrNothing oneLapsed creditOne ⟨false, .none, true, some "0a0b0c0d", .none⟩ :=
  (allOrNothing_iff oneLapsed creditOne _ (by unfold OneRecord; decide)).2 ⟨by
    rintro ⟨l, -, -, -, hfails⟩
    exact absurd hfails (by simp [updateFails, UpdateFaults.none]), by
    rintro ⟨l, inFile, -, -, -, -, hback⟩
    exact absurd hback (by decide)⟩

/-- The orders file cannot be saved: the record is in neither file, and the same command finds none. -/
theorem not_allOrNothing :
    (creditLapsed oneLapsed creditOne ⟨false, ⟨none, false, true⟩, false, some "0a0b0c0d", .none⟩).2 =
      .error (.orders .save) ∧
    (creditLapsed oneLapsed creditOne ⟨false, ⟨none, false, true⟩, false, some "0a0b0c0d", .none⟩).1.lapsedFile = [] ∧
    ¬ AllOrNothing oneLapsed creditOne ⟨false, ⟨none, false, true⟩, false, some "0a0b0c0d", .none⟩ := by
  refine ⟨by decide, by decide, fun h => ?_⟩
  obtain ⟨-, -, hagain⟩ := h (.orders .save) (by decide)
  obtain ⟨-, hretry⟩ := hagain ⟨"b", 10, 1000007, 90000, 97200, false⟩ true (by decide)
  obtain ⟨balance, hretry⟩ := hretry "0a0b0c0d"
  have hnone : (creditLapsed (creditLapsed oneLapsed creditOne
    ⟨false, ⟨none, false, true⟩, false, some "0a0b0c0d", .none⟩).1 creditOne (.none "0a0b0c0d")).2 =
      .error (.notTaken .noneFits) := by decide
  rw [hnone] at hretry
  cases hretry

end HidraNet.Issuer
