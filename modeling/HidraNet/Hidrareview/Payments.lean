import HidraNet.Hidrareview.Owners

/-!
# Which payment confirms which listing

A listing states the amount it was to pay; the page takes it that the wallet's last output of that amount is the
listing's, if the amount ends in the three digits that the listing's name hashes to.  Those digits are not one name's
own, and the last output of an amount hides the others: so one output confirms one listing, and a listing that paid is
confirmed, just when no two listings of the same digits state one amount that is paid, and what was paid last of each
asked amount is confirmed (`onePayment_iff`).
-/

namespace HidraNet.Hidrareview

open Maps Runs

/-! ### The amount a listing is to pay -/

/-- A text in UTF-16 units, as `charCodeAt` has them. -/
def charCodes (s : String) : List Nat :=
  s.toList.flatMap fun c =>
    if c.toNat < 0x10000 then [c.toNat]
    else [0xd800 + (c.toNat - 0x10000) / 0x400, 0xdc00 + (c.toNat - 0x10000) % 0x400]

/-- One round of the hash; `^` and `Math.imul` take their numbers in 32 bits. -/
def saltRound (h : Int) (code : Nat) : Int := ((BitVec.ofInt 32 h ^^^ BitVec.ofNat 32 code) * 16777619#32).toInt

def saltOf (slug : String) : Nat := ((charCodes slug).foldl saltRound 2166136261).natAbs % 10000

def BADGE_USD : ℚ := 10

/-- What `Math.round` makes of a number: of two that are as near, the higher. -/
def mathRound (q : ℚ) : Int := ⌊q + 1 / 2⌋

def satsFor (slug : String) (price : ℚ) : Option Int :=
  if price = 0 then none else some (mathRound (BADGE_USD / price * 10 ^ 8 / 1000) * 1000 + (saltOf slug % 1000 : Nat))

/-! ### What the chain reports -/

def BTC_ADDR : String := "bc1ql68lqgkcurm7mv5zjdnprq6ya5ydq4a7pwuvsx"

structure Output where
  scriptpubkey_address : String
  value : ℚ
deriving DecidableEq

structure Tx where
  txid : String
  vout : List Output
  confirmed : Bool
deriving DecidableEq

/-- What the page keeps of an output. -/
structure Payment where
  txid : String
  confirmed : Bool
deriving DecidableEq

def loadPayments (txs : List Tx) : Map ℚ Payment :=
  txs.foldl (fun seen tx => tx.vout.foldl (fun seen o =>
    if o.scriptpubkey_address = BTC_ADDR then seen.set o.value ⟨tx.txid, tx.confirmed⟩ else seen) seen) .empty

/-- Whether a listing bears the badge; there are no payments before they are loaded. -/
def isVerified (biz : Map String Biz) (paidSats : Option (Map ℚ Payment)) (slug : String) : Bool :=
  match biz.get? slug, paidSats with
  | some rec, some paid =>
    if rec.sats = 0 then false
    else if rec.sats.num.tmod 1000 ≠ (saltOf slug % 1000 : Nat) then false
    else (paid.get? rec.sats).any Payment.confirmed
  | _, _ => false

example : saltOf "tacos" = 7367 ∧ saltOf "grill" = 367 ∧ saltOf "" = 6261 := by decide

/-! ### What is to hold -/

def outputs (txs : List Tx) : List (Tx × Output) := txs.flatMap fun tx => tx.vout.map (tx, ·)

def Pays (v : ℚ) (p : Tx × Output) : Prop := p.2.scriptpubkey_address = BTC_ADDR ∧ p.2.value = v

instance (v : ℚ) (p : Tx × Output) : Decidable (Pays v p) := inferInstanceAs (Decidable (_ ∧ _))

def ConfirmedBy (biz : Map String Biz) (txs : List Tx) (slug : String) (i : Nat) : Prop :=
  isVerified biz (some (loadPayments txs)) slug = true ∧ ∃ rec before p after, biz.get? slug = some rec ∧
    outputs txs = before ++ p :: after ∧ before.length = i ∧ Pays rec.sats p ∧ ∀ q ∈ after, ¬ Pays rec.sats q

/-- One payment confirms one listing, and who paid is confirmed. -/
structure OnePayment (biz : Map String Biz) (txs : List Tx) : Prop where
  one : ∀ slug slug' i, ConfirmedBy biz txs slug i → ConfirmedBy biz txs slug' i → slug = slug'
  found : ∀ slug rec price sats, biz.get? slug = some rec → satsFor slug price = some sats → rec.sats = sats →
    (∃ p ∈ outputs txs, Pays sats p ∧ p.1.confirmed = true) → isVerified biz (some (loadPayments txs)) slug = true

/-! ### When -/

def LastConfirmed (txs : List Tx) (v : ℚ) : Prop :=
  ∃ p, (outputs txs).reverse.find? (fun p => decide (Pays v p)) = some p ∧ p.1.confirmed = true

def Apart (biz : Map String Biz) (txs : List Tx) : Prop :=
  ∀ slug slug' rec rec', biz.get? slug = some rec → biz.get? slug' = some rec' → slug ≠ slug' → rec.sats = rec'.sats →
    rec.sats ≠ 0 → rec.sats.num.tmod 1000 = (saltOf slug % 1000 : Nat) →
    rec.sats.num.tmod 1000 = (saltOf slug' % 1000 : Nat) → ¬ LastConfirmed txs rec.sats

def PaidLast (biz : Map String Biz) (txs : List Tx) : Prop :=
  ∀ slug rec price sats, biz.get? slug = some rec → satsFor slug price = some sats → rec.sats = sats →
    (∃ p ∈ outputs txs, Pays sats p ∧ p.1.confirmed = true) → sats ≠ 0 ∧ LastConfirmed txs sats

/-! ### The last output of an amount -/

section

variable {txs : List Tx} {v : ℚ}

theorem get?_foldl_put (outs : List (Tx × Output)) (m : Map ℚ Payment) :
    (outs.foldl (fun seen p => if p.2.scriptpubkey_address = BTC_ADDR then
      seen.set p.2.value ⟨p.1.txid, p.1.confirmed⟩ else seen) m).get? v =
      ((outs.reverse.find? fun p => decide (Pays v p)).map fun p => ⟨p.1.txid, p.1.confirmed⟩).or (m.get? v) := by
  induction outs generalizing m with
  | nil => rfl
  | cons p outs ih =>
    rw [List.foldl_cons, ih, List.reverse_cons, List.find?_append]
    cases outs.reverse.find? fun p => decide (Pays v p) with
    | some q => rfl
    | none =>
      unfold Pays
      by_cases haddress : p.2.scriptpubkey_address = BTC_ADDR
      · by_cases hvalue : p.2.value = v
        · simp [haddress, hvalue, Map.get?_set]
        · simp [haddress, hvalue, Map.get?_set_other, Ne.symm hvalue]
      · simp [haddress]

theorem get?_loadPayments : (loadPayments txs).get? v =
    ((outputs txs).reverse.find? fun p => decide (Pays v p)).map fun p => ⟨p.1.txid, p.1.confirmed⟩ := by
  have hloop : loadPayments txs = (outputs txs).foldl (fun seen p => if p.2.scriptpubkey_address = BTC_ADDR then
      seen.set p.2.value ⟨p.1.txid, p.1.confirmed⟩ else seen) .empty := by
    unfold loadPayments outputs
    rw [List.foldl_flatMap]
    simp only [List.foldl_map]
  rw [hloop, get?_foldl_put]
  exact Option.or_none

theorem LastConfirmed.place (h : LastConfirmed txs v) : ∃ before p after, outputs txs = before ++ p :: after ∧ Pays v p ∧
    ∀ q ∈ after, ¬ Pays v q := by
  obtain ⟨p, hfind, -⟩ := h
  obtain ⟨hpays, as, bs, heq, hno⟩ := List.find?_eq_some_iff_append.1 hfind
  refine ⟨bs.reverse, p, as.reverse, ?_, of_decide_eq_true hpays, ?_⟩
  · rw [← List.reverse_reverse (outputs txs), heq]
    simp
  · intro q hq
    simpa using hno q (List.mem_reverse.1 hq)

end

/-! ### A badge -/

section

variable {biz : Map String Biz} {txs : List Tx} {slug : String}

theorem isVerified_iff : isVerified biz (some (loadPayments txs)) slug = true ↔ ∃ rec, biz.get? slug = some rec ∧
    rec.sats ≠ 0 ∧ rec.sats.num.tmod 1000 = (saltOf slug % 1000 : Nat) ∧ LastConfirmed txs rec.sats := by
  have hpaid (v : ℚ) : ((loadPayments txs).get? v).any Payment.confirmed = true ↔ LastConfirmed txs v := by
    rw [get?_loadPayments, Option.any_map, Option.any_eq_true]
    rfl
  unfold isVerified
  cases biz.get? slug with
  | none => simp
  | some rec =>
    by_cases hzero : rec.sats = 0
    · simp [hzero]
    · dsimp only
      rw [if_neg hzero]
      by_cases hdigits : rec.sats.num.tmod 1000 = (saltOf slug % 1000 : Nat)
      · rw [if_neg (not_not.2 hdigits), hpaid]
        exact ⟨fun h => ⟨rec, rfl, hzero, hdigits, h⟩, fun ⟨r, hr, _, _, h⟩ => by cases hr; exact h⟩
      · rw [if_pos hdigits]
        refine ⟨nofun, ?_⟩
        rintro ⟨r, hr, -, h, -⟩
        cases hr
        exact absurd h hdigits

theorem satsFor_digits {price : ℚ} {sats : Int} (h : satsFor slug price = some sats) :
    sats % 1000 = (saltOf slug % 1000 : Nat) := by
  unfold satsFor at h
  split at h
  · cases h
  · obtain rfl := Option.some.inj h
    omega

theorem sats_eq_of_confirmedBy {slug' : String} {i : Nat} (h : ConfirmedBy biz txs slug i)
    (h' : ConfirmedBy biz txs slug' i) :
    ∃ rec rec', biz.get? slug = some rec ∧ biz.get? slug' = some rec' ∧ rec.sats = rec'.sats := by
  obtain ⟨-, rec, before, p, after, hget, heq, hlen, hpays, -⟩ := h
  obtain ⟨-, rec', before', p', after', hget', heq', hlen', hpays', -⟩ := h'
  rw [heq] at heq'
  obtain ⟨-, hrest⟩ := List.append_inj heq' (hlen.trans hlen'.symm)
  obtain ⟨rfl, -⟩ := List.cons.inj hrest
  exact ⟨rec, rec', hget, hget', hpays.2.symm.trans hpays'.2⟩

def Positive (biz : Map String Biz) : Prop := ∀ slug rec, biz.get? slug = some rec → 0 ≤ rec.sats

theorem onePayment_iff (hpos : Positive biz) : OnePayment biz txs ↔ Apart biz txs ∧ PaidLast biz txs := by
  constructor
  · intro h
    constructor
    · intro slug slug' rec rec' hget hget' hne hsats hzero hdigits hdigits' hlast
      obtain ⟨before, p, after, heq, hpays, hno⟩ := hlast.place
      refine hne (h.one slug slug' before.length ?_ ?_)
      · exact ⟨isVerified_iff.2 ⟨rec, hget, hzero, hdigits, hlast⟩, rec, before, p, after, hget, heq, rfl, hpays, hno⟩
      · rw [hsats] at hzero hdigits' hlast hpays hno
        exact ⟨isVerified_iff.2 ⟨rec', hget', hzero, hdigits', hlast⟩, rec', before, p, after, hget', heq, rfl, hpays, hno⟩
    · intro slug rec price sats hget hprice hsats hpaid
      obtain ⟨rec', hget', hzero, -, hlast⟩ := isVerified_iff.1 (h.found slug rec price sats hget hprice hsats hpaid)
      rw [hget] at hget'
      obtain rfl := Option.some.inj hget'
      rw [hsats] at hzero hlast
      exact ⟨by exact_mod_cast hzero, hlast⟩
  · rintro ⟨hapart, hlast⟩
    constructor
    · intro slug slug' i hby hby'
      by_contra hne
      obtain ⟨rec, rec', hget, hget', hsats⟩ := sats_eq_of_confirmedBy hby hby'
      obtain ⟨r, hr, hzero, hdigits, hconfirmed⟩ := isVerified_iff.1 hby.1
      obtain ⟨r', hr', -, hdigits', -⟩ := isVerified_iff.1 hby'.1
      rw [hget] at hr
      rw [hget'] at hr'
      obtain rfl := Option.some.inj hr
      obtain rfl := Option.some.inj hr'
      exact hapart slug slug' rec rec' hget hget' hne hsats hzero hdigits (hsats ▸ hdigits') hconfirmed
    · intro slug rec price sats hget hprice hsats hpaid
      obtain ⟨hzero, hconfirmed⟩ := hlast slug rec price sats hget hprice hsats hpaid
      refine isVerified_iff.2 ⟨rec, hget, ?_, ?_, ?_⟩
      · rw [hsats]
        exact_mod_cast hzero
      · have hnonneg : 0 ≤ sats := by
          have hrec := hpos slug rec hget
          rw [hsats] at hrec
          exact_mod_cast hrec
        rw [hsats, Rat.num_intCast, Int.tmod_eq_emod_of_nonneg hnonneg]
        exact satsFor_digits hprice
      · rw [hsats]
        exact hconfirmed

end

/-! ### What the page may hold -/

theorem cleanBiz_nonneg {b : Browser} {o : Hidrarelay.Json} {rec : Biz} (h : cleanBiz b o = some rec) : 0 ≤ rec.sats := by
  unfold cleanBiz at h
  split at h
  · obtain rfl := Option.some.inj h
    dsimp only
    split_ifs with hsats
    · exact hsats.2.le
    · exact le_refl _
  · cases h

theorem biz_settle (b : Browser) (p : Page) (slug opk : String) :
    ((p.rememberOwner slug opk).settle b slug opk).biz = p.biz := by
  unfold Page.settle Page.rememberOwner
  split <;> rfl

theorem positive_set {biz : Map String Biz} (h : Positive biz) (slug : String) {rec : Biz} (hrec : 0 ≤ rec.sats) :
    Positive (biz.set slug rec) := by
  intro slug' rec' hget
  obtain ⟨-, rfl⟩ | ⟨-, hget⟩ := Map.get?_set_some.1 hget
  · exact hrec
  · exact h slug' rec' hget

theorem positive_listing {b : Browser} {p : Page} (h : Positive p.biz) (slug s : String) :
    Positive (p.listing b slug s).biz := by
  unfold Page.listing
  by_cases hempty : s = ""
  · simp only [if_pos hempty]
    split
    · exact fun slug' rec hget => h slug' rec (Map.get?_remove_some.1 hget).2
    · exact h
  · simp only [if_neg hempty]
    split
    · exact h
    · rename_i rec hread
      obtain ⟨o, -, hclean⟩ := Option.bind_eq_some_iff.1 hread
      have hrec := cleanBiz_nonneg hclean
      split
      · split
        · split
          · exact h
          · dsimp only
            rw [biz_settle]
            exact positive_set h slug hrec
        · exact h
      · split
        · exact h
        · exact positive_set h slug hrec

theorem biz_reply (b : Browser) (p : Page) (slug id s : String) : (p.reply b slug id s).biz = p.biz := by
  unfold Page.reply
  dsimp only
  split
  · split <;> rfl
  · split
    · rfl
    · split
      · split <;> rfl
      · split <;> rfl

theorem biz_review (b : Browser) (p : Page) (slug id s : String) : (p.review b slug id s).biz = p.biz := by
  unfold Page.review
  split
  · rfl
  · split <;> rfl

theorem biz_photo (b : Browser) (p : Page) (slug pid s : String) : (p.photo b slug pid s).biz = p.biz := by
  unfold Page.photo
  dsimp only
  split
  · split <;> rfl
  · split
    · rfl
    · split
      · split <;> rfl
      · split <;> rfl

theorem positive_step {b : Browser} {p : Page} (h : Positive p.biz) (e : Event) : Positive (step b p e).biz := by
  cases e with
  | reload =>
    intro slug rec hget
    cases hget
  | message topic s =>
    show Positive (p.handle b topic s).biz
    unfold Page.handle
    split
    · rw [biz_reply]
      exact h
    · exact positive_listing h _ _
    · rw [biz_review]
      exact h
    · rw [biz_photo]
      exact h
    · exact h

/-- Whatever was published and whatever the chain reports, one payment confirms one listing and every listing that paid
is confirmed, just when no paid amount is that of two listings, and what was paid last of an asked amount is confirmed. -/
theorem onePayment_run (b : Browser) (owners : Map String String) (es : List Event) (txs : List Tx) :
    OnePayment (run (step b) (.opened owners) es).biz txs ↔
      Apart (run (step b) (.opened owners) es).biz txs ∧ PaidLast (run (step b) (.opened owners) es).biz txs := by
  have hstart : Positive (Page.opened owners).biz := by
    intro slug rec hget
    cases hget
  exact onePayment_iff (run_always (P := fun p : Page => Positive p.biz) (fun _ e hp => positive_step hp e) hstart es)

/-! ### Two listings of the same digits -/

def sameDigits : Browser := reading fun _ => some (.obj [("sats", .int 13367)])

example : satsFor "tacos" 76923 = some 13367 ∧ satsFor "grill" 76923 = some 13367 := by decide +kernel

def payment : Tx := ⟨"t1", [⟨BTC_ADDR, 13367⟩], true⟩

def bothListed : List Event :=
  [.message ["hreview", "b", "tacos"] "listing", .message ["hreview", "b", "grill"] "listing"]

private theorem confirmedBy_payment {biz : Map String Biz} {slug : String}
    (hshown : isVerified biz (some (loadPayments [payment])) slug = true)
    (hsats : (biz.get? slug).map Biz.sats = some 13367) : ConfirmedBy biz [payment] slug 0 := by
  obtain ⟨rec, hget, hrec⟩ := Option.map_eq_some_iff.1 hsats
  exact ⟨hshown, rec, [], (payment, ⟨BTC_ADDR, 13367⟩), [], hget, rfl, rfl, ⟨rfl, hrec.symm⟩, nofun⟩

/-- Two listings are confirmed by one payment. -/
theorem badge_shared : ¬ OnePayment (run (step sameDigits) (.opened .empty) bothListed).biz [payment] := by
  intro h
  have htacos : ConfirmedBy (run (step sameDigits) (.opened .empty) bothListed).biz [payment] "tacos" 0 :=
    confirmedBy_payment (by decide) (by decide)
  have hgrill : ConfirmedBy (run (step sameDigits) (.opened .empty) bothListed).biz [payment] "grill" 0 :=
    confirmedBy_payment (by decide) (by decide)
  exact absurd (h.one "tacos" "grill" 0 htacos hgrill) (by decide)

end HidraNet.Hidrareview
