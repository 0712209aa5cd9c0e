import HidraNet.Issuer.PaysOnce

/-!
# No paid claim is lost

The till with claims alone.  A claim that stops between its mark and the credit, or whose mark cannot be taken back
when the account could not be credited, leaves an order paid for which nothing was credited, and every later claim is
told that it was (`not_noneLost`).

* `NoneLost` says that whoever is told so was credited once, and that a claim of a transaction for which nothing was
  credited, while the order it pays is open, has the order's pack credited once.
* `Good` is what the orders file says of the credits between claims, `ClaimInv` the invariant: while a claim is at work,
  the file is good for its credit and, with the mark taken back, for none.
* `noneLost_run` is the result, for runs in which neither of the two happens (`Undone`).
-/

namespace HidraNet.Issuer

open HidraNet.Lists Runs Orders

namespace TillStep

/-- The steps of quotes and claims, without those of `order credit`. -/
def OfClaims : TillStep → Prop
  | .take .. | .creditTaken .. | .putBack .. | .crashTaken .. => False
  | _ => True

instance decidableOfClaims : ∀ e, Decidable (OfClaims e)
  | .take .. | .creditTaken .. | .putBack .. | .crashTaken .. => isFalse id
  | .quote .. | .hold .. | .beforeClaim .. | .mark .. | .credit .. | .unmark .. | .crash => isTrue trivial

end TillStep

namespace Till

def Undone (s : Till) : TillStep → Prop
  | .crash => s.marked = none
  | .unmark w => ∀ m ∈ s.marked,
      updateFails (s.disk.orders.loaded.unmark m.due.hash m.due.amountRaw m.due.sig) w = false
  | _ => True

instance decidableUndone (s : Till) : ∀ e, Decidable (s.Undone e)
  | .crash => inferInstanceAs (Decidable (s.marked = none))
  | .unmark w => inferInstanceAs (Decidable (∀ m ∈ s.marked,
      updateFails (s.disk.orders.loaded.unmark m.due.hash m.due.amountRaw m.due.sig) w = false))
  | .quote .. | .hold .. | .beforeClaim .. | .mark .. | .credit .. | .take .. | .creditTaken .. | .putBack ..
  | .crashTaken .. => isTrue trivial

def claim (chain : Hash → Option Payment) (s : Till) (hash sig : Hash) (now : Int) (raw : String) : Till :=
  run (step chain) s [.beforeClaim hash sig now .none, .mark s.asked.length now .none, .credit false (some raw)]

end Till

/-- With no claim at work: a claim told that its transaction paid before was credited, once; and one of a transaction
nothing was credited for, that pays an open order of the token and brings the tries of its open orders to thirty at
most, is credited the order's pack. -/
structure NoneLost (chain : Hash → Option Payment) (s : Till) : Prop where
  alreadyPaid : s.marked = none → ∀ hash sig now passes amountRaw, s.clock ≤ now →
    (s.disk.orders.loaded.beforeClaim hash sig now).2 = .ok (.alreadyPaid passes amountRaw) →
    (∃ d ∈ s.credited, d.sig = sig ∧ d.hash = hash) ∧ (s.credited.map Due.sig).count sig = 1
  credited : s.marked = none → ∀ hash sig now raw x p, s.clock ≤ now → x ∈ s.disk.orders.orders →
    x.openAt now = true → x.tokenSha256 = hash → chain sig = some p → p.pays x.amountRaw x.created = true →
    sig ∉ s.credited.map Due.sig →
    ((s.disk.orders.loaded.openOf hash now).map fun y => y.tries + 1).sum ≤ MAX_CLAIM_TRIES →
    (s.claim chain hash sig now raw).credited = s.credited ++ [⟨hash, x.passes, x.amountRaw, sig, now⟩]

/-! ### What the orders file says of the credits -/

/-- No two unpaid orders share an amount, for every mark its transaction was credited, and for every paid order its
token was for the transaction that paid it. -/
structure Good (o : Orders) (credited : List Due) : Prop where
  apart : o.Apart
  used : ∀ u ∈ o.used, ∃ d ∈ credited, d.sig = u.signatureSha256
  paid : ∀ x ∈ o.orders, ∀ sig, x.paidSha256 = some sig → ∃ d ∈ credited, d.sig = sig ∧ d.hash = x.tokenSha256

section Good

variable {o o' : Orders} {credited : List Due} {now : Int} {hash sig : Hash}

theorem Good.congr (h : Good o credited) (horders : o'.orders = o.orders) (hused : o'.used = o.used) :
    Good o' credited := by
  refine ⟨?_, ?_, ?_⟩
  · unfold Apart
    rw [horders]
    exact h.apart
  · rw [hused]
    exact h.used
  · rw [horders]
    exact h.paid

private theorem Good.of_less (h : Good o credited) (hapart : o'.Apart) (hused : ∀ u ∈ o'.used, u ∈ o.used)
    (hpaid : ∀ x ∈ o'.orders, x.paidSha256 ≠ none →
      ∃ y ∈ o.orders, y.paidSha256 = x.paidSha256 ∧ y.tokenSha256 = x.tokenSha256) : Good o' credited := by
  refine ⟨hapart, fun u hu => h.used u (hused u hu), fun x hx sig hsig => ?_⟩
  obtain ⟨y, hy, hp, ht⟩ := hpaid x hx (by simp [hsig])
  rw [← ht]
  exact h.paid y hy sig (hp.trans hsig)

private theorem Good.prune (h : Good o credited) (now : Int) : Good (o.prune now) credited :=
  h.of_less (h.apart.prune now) (fun _ hu => (List.mem_filter.1 hu).1)
    fun x hx _ => ⟨x, (mem_prune.1 hx).1, rfl, rfl⟩

private theorem Good.of_plain (h : Good o credited) (hos : o'.orders.map Order.plain = o.orders.map Order.plain)
    (hused : o'.used = o.used) : Good o' credited := by
  refine h.of_less (h.apart.of_plain hos) (fun u hu => hused ▸ hu) fun x hx _ => ?_
  have hx' : (x.paidSha256, x.tokenSha256) ∈ o'.orders.map fun y => (y.paidSha256, y.tokenSha256) :=
    List.mem_map.2 ⟨x, hx, rfl⟩
  rw [map_of_plain (fun _ => rfl) hos] at hx'
  obtain ⟨y, hy, heq⟩ := List.mem_map.1 hx'
  exact ⟨y, hy, (Prod.mk.inj heq).1, (Prod.mk.inj heq).2⟩

private theorem Good.hold (h : Good o credited) (hash : Hash) (now : Int) : Good (o.hold hash now) credited :=
  (h.prune now).of_plain (map_hold fun _ _ _ => rfl) rfl

private theorem Good.beforeClaim (h : Good o credited) (hash sig : Hash) (now : Int) :
    Good (o.beforeClaim hash sig now).1 credited := by
  rcases o.beforeClaim_state hash sig now with ho | ho <;> rw [ho]
  · exact h.prune now
  · exact (h.hold hash now).of_plain (map_tryOnce fun _ _ => rfl) rfl

private theorem Good.openOrder (h : Good o credited) (hash : Hash) (pack : Pack) (now : Int) (decimals : Nat)
    (raws : Nat → Option Nat) : Good (o.openOrder hash pack now decimals raws).1 credited := by
  have hapart := h.apart.openOrder hash pack now decimals raws
  rcases o.openOrder_cases hash pack now decimals raws with ⟨full, -, ho⟩ | ⟨-, ho | ho | ⟨amountRaw, -, ho⟩⟩ <;>
    rw [ho] at hapart ⊢
  · exact h.prune now
  · exact h.prune now
  · exact h.prune now
  · refine (h.prune now).of_less hapart (fun _ hu => hu) fun x hx hpaid => ?_
    rcases List.mem_append.1 hx with hx | hx
    · exact ⟨x, hx, rfl, rfl⟩
    · rw [List.mem_singleton.1 hx] at hpaid
      exact absurd rfl hpaid

private theorem Good.markPaid (h : Good o credited) {d : Due} {o' : Orders}
    (hm : o.markPaid d.hash d.amountRaw d.sig now = (o', .ok ())) : Good o' (credited ++ [d]) := by
  have hapart := h.apart.markPaid d.hash d.amountRaw d.sig now
  rcases o.markPaid_cases d.hash d.amountRaw d.sig now with ⟨why, hc⟩ | ⟨-, x, hx, hc⟩ <;> rw [hc] at hm hapart
  · cases hm
  · rw [← (Prod.mk.inj hm).1]
    have hlast : d ∈ credited ++ [d] := List.mem_append_right _ (List.mem_singleton_self d)
    refine ⟨hapart, fun u hu => ?_, fun y hy sig hsig => ?_⟩
    · rcases List.mem_append.1 hu with hu | hu
      · obtain ⟨e, he, hs⟩ := h.used u hu
        exact ⟨e, List.mem_append_left _ he, hs⟩
      · rw [List.mem_singleton.1 hu]
        exact ⟨d, hlast, rfl⟩
    · rcases mem_modifyFirst hy with hy | ⟨z, -, hz, rfl⟩
      · obtain ⟨e, he, hs⟩ := h.paid y hy sig hsig
        exact ⟨e, List.mem_append_left _ he, hs⟩
      · simp only [marks, Order.isOf, Bool.and_eq_true, same_iff] at hz
        exact ⟨d, hlast, Option.some.inj hsig, hz.2.symm⟩

end Good

/-! ### A step keeps it -/

variable {chain : Hash → Option Payment} {s : Till}

/-- Between claims the orders file is good for what was credited.  While one is at work it is good for that and the
claim's credit, and with the mark taken back for what was credited. -/
structure ClaimInv (chain : Hash → Option Payment) (s : Till) : Prop where
  pay : PayInv chain s
  good : s.marked = none → Good s.disk.orders s.credited
  marked : ∀ m ∈ s.marked, Good s.disk.orders (s.credited ++ [m.due]) ∧
    Good (s.disk.orders.unmark m.due.hash m.due.amountRaw m.due.sig) s.credited

private theorem claimInv_of_none {s' : Till} (hpay : PayInv chain s') (hnone : s'.marked = none)
    (hgood : Good s'.disk.orders s'.credited) : ClaimInv chain s' := by
  refine ⟨hpay, fun _ => hgood, fun m hm => ?_⟩
  rw [hnone] at hm
  cases hm

private theorem good_update {α : Type} {credited : List Due} (h : Good s.disk.orders credited) (w : UpdateFaults)
    (f : Orders → List Lapsed → Orders × List Lapsed × α)
    (hf : Good (f s.disk.orders.loaded s.disk.lapsedFile).1 credited) :
    Good (updateOrders s.disk w f).1.orders credited := by
  obtain ⟨-, ⟨-, ho⟩ | ⟨-, ho, hused⟩⟩ := updateOrders_cases s.disk w f
  · rw [ho]
    exact h
  · exact hf.congr ho hused

private theorem good_loaded {o : Orders} {credited : List Due} (h : Good o credited) : Good o.loaded credited :=
  h.congr rfl rfl

private theorem good_beforeClaim (h : Good s.disk.orders s.credited) (hash sig : Hash) (now : Int) (w : UpdateFaults) :
    Good (s.beforeClaim hash sig now w).disk.orders s.credited ∧
      (s.beforeClaim hash sig now w).credited = s.credited ∧ (s.beforeClaim hash sig now w).marked = s.marked := by
  have hup := good_update h w
    (fun o file => ((o.beforeClaim hash sig now).1, file, (o.beforeClaim hash sig now).2))
    ((good_loaded h).beforeClaim hash sig now)
  unfold Till.beforeClaim
  split
  · rename_i d candidates hd
    rw [hd] at hup
    exact ⟨hup, rfl, rfl⟩
  · rename_i d r hd
    rw [hd] at hup
    exact ⟨hup, rfl, rfl⟩

private theorem unmark_congr {o o' : Orders} (horders : o'.orders = o.orders) (hused : o'.used = o.used) (hash : Hash)
    (amountRaw : Nat) (sig : Hash) : (o'.unmark hash amountRaw sig).orders = (o.unmark hash amountRaw sig).orders ∧
      (o'.unmark hash amountRaw sig).used = (o.unmark hash amountRaw sig).used := by
  simp only [unmark, unuse, horders, hused, and_self]

private theorem claimInv_mark (h : ClaimInv chain s) (i : Nat) {now : Int} (w : UpdateFaults)
    (hok : s.Allowed chain (.mark i now w)) (hpay : PayInv chain (s.mark chain i now w)) :
    ClaimInv chain (s.mark chain i now w) := by
  have hgood := h.good hok.1
  unfold Till.mark at hpay ⊢
  split
  · exact h
  · rename_i a ha
    rw [ha] at hpay
    dsimp only at hpay ⊢
    split
    · rename_i hx
      rw [hx] at hpay
      exact claimInv_of_none hpay hok.1 hgood
    · rename_i x hx
      rw [hx] at hpay
      dsimp only at hpay ⊢
      have hcases := updateOrders_cases s.disk w fun o file =>
        ((o.markPaid a.hash x.amountRaw a.sig a.since).1, file, (o.markPaid a.hash x.amountRaw a.sig a.since).2)
      generalize updateOrders s.disk w _ = up at hcases hpay ⊢
      obtain ⟨d, r⟩ := up
      dsimp only at hcases
      obtain ⟨-, ⟨⟨why, rfl⟩, ho⟩ | ⟨rfl, horders, hused⟩⟩ := hcases
      · exact claimInv_of_none hpay hok.1 (by rw [ho]; exact hgood)
      · rcases s.disk.orders.loaded.markPaid_cases a.hash x.amountRaw a.sig a.since with ⟨why, hm⟩ | ⟨hnot, y, -, hm⟩
        · rw [hm] at horders hused hpay ⊢
          exact claimInv_of_none hpay hok.1 (hgood.congr horders hused)
        · rw [hm] at hpay ⊢
          refine ⟨hpay, fun hnone => (nomatch hnone), fun m hmm => ?_⟩
          rw [← Option.some.inj hmm]
          have hunpaid : ∀ z ∈ s.disk.orders.loaded.orders, z.paidSha256 = some a.sig →
              s.disk.orders.loaded.isUsed a.sig = true := by
            intro z hz hsig
            obtain ⟨d, hd, hs, -⟩ := hgood.paid z hz a.sig hsig
            exact absurd hs (not_due h.pay hok ha hx hnot d (List.mem_append_right _ hd))
          have hback := unmark_markPaid hunpaid hm
          constructor
          · have := (good_loaded hgood).markPaid (d := Due.mk a.hash x.passes x.amountRaw a.sig a.since) hm
            rw [hm] at horders hused
            exact this.congr horders hused
          · rw [hm] at horders hused
            obtain ⟨ho, hu⟩ := unmark_congr horders hused a.hash x.amountRaw a.sig
            rw [hback] at ho hu
            exact hgood.congr ho hu

private theorem claimInv_credit (h : ClaimInv chain s) (fails : Bool) (raw : Option String)
    (hpay : PayInv chain (s.credit fails raw)) : ClaimInv chain (s.credit fails raw) := by
  unfold Till.credit at hpay ⊢
  split
  · exact h
  · rename_i m hm
    rw [hm] at hpay
    obtain ⟨hcredited, hundone⟩ := h.marked m hm
    have hd := creditAccount_orders s.disk fails raw m.due.hash m.due.passes
    dsimp only at hpay
    split
    · rename_i d _ heq
      rw [heq] at hd hpay
      have hd' : d.orders = s.disk.orders := hd
      exact claimInv_of_none hpay rfl (hcredited.congr (by rw [hd']) (by rw [hd']))
    · rename_i d heq
      rw [heq] at hd hpay
      have hd' : d.orders = s.disk.orders := hd
      refine ⟨hpay, fun hnone => (nomatch hnone), fun m' hm' => ?_⟩
      rw [← Option.some.inj hm']
      show Good d.orders _ ∧ Good (d.orders.unmark _ _ _) _
      rw [hd']
      exact ⟨hcredited, hundone⟩

private theorem claimInv_unmark (h : ClaimInv chain s) (w : UpdateFaults) (hok : s.Undone (.unmark w))
    (hpay : PayInv chain (s.unmark w)) : ClaimInv chain (s.unmark w) := by
  unfold Till.unmark at hpay ⊢
  split
  · exact h
  · rename_i m hm
    rw [hm] at hpay
    obtain ⟨-, hundone⟩ := h.marked m hm
    refine claimInv_of_none hpay rfl ?_
    obtain ⟨d, hd, ho, hu⟩ := updateOrders_ok s.disk w
      (fun o file => (o.unmark m.due.hash m.due.amountRaw m.due.sig, file, ())) (hok m hm)
    dsimp only
    rw [hd]
    exact hundone.congr ho hu

theorem claimInv_step (h : ClaimInv chain s) {e : TillStep} (hok : s.Allowed chain e) (hof : e.OfClaims)
    (hundone : s.Undone e) : ClaimInv chain (s.step chain e) := by
  have hpay : PayInv chain (s.step chain e) := by
    refine payInv_step h.pay hok ?_
    cases e with
    | take => exact hof.elim
    | _ => trivial
  cases e with
  | quote hash pack decimals raws now w =>
    refine claimInv_of_none hpay ?_ ?_
    · show (s.quote hash pack decimals raws now w).marked = none
      unfold Till.quote
      split <;> exact hok.1
    · show Good (s.quote hash pack decimals raws now w).disk.orders (s.quote hash pack decimals raws now w).credited
      unfold Till.quote
      split
      · exact h.good hok.1
      · exact good_update (h.good hok.1) w _ ((good_loaded (h.good hok.1)).openOrder hash pack now decimals raws)
  | hold hash now w =>
    exact claimInv_of_none hpay hok.1 (good_update (h.good hok.1) w _ ((good_loaded (h.good hok.1)).hold hash now))
  | beforeClaim hash sig now w =>
    obtain ⟨hgood, hcredited, hmarked⟩ := good_beforeClaim (h.good hok.1) hash sig now w
    exact claimInv_of_none hpay (hmarked.trans hok.1) (hcredited.symm ▸ hgood)
  | mark i now w => exact claimInv_mark h i w hok hpay
  | credit fails raw => exact claimInv_credit h fails raw hpay
  | unmark w => exact claimInv_unmark h w hundone hpay
  | crash => exact claimInv_of_none hpay rfl (h.good hundone)
  | take => exact hof.elim
  | creditTaken => exact hof.elim
  | putBack => exact hof.elim
  | crashTaken => exact hof.elim

/-! ### A claim that nothing comes between -/

theorem beforeClaim_open {o : Orders} {hash sig : Hash} {now : Int}
    (hpaid : ∀ x ∈ o.orders, x.tokenSha256 = hash → x.paidSha256 ≠ some sig) (hused : o.isUsed sig = false)
    (hopen : (((o.hold hash now).tryOnce hash now).openOf hash now) ≠ [])
    (htries : ((o.openOf hash now).map fun y => y.tries + 1).sum ≤ MAX_CLAIM_TRIES) :
    o.beforeClaim hash sig now = ((o.hold hash now).tryOnce hash now,
      .ok (.openOrders (((o.hold hash now).tryOnce hash now).openOf hash now))) := by
  rcases o.beforeClaim_cases hash sig now with ⟨x, hx, hof, hsig, -⟩ | ⟨hu, -⟩ | ⟨hnone, -⟩ |
    ⟨hmany, -⟩ | hc
  · exact absurd hsig (hpaid x (mem_prune.1 hx).1 hof)
  · rw [isUsed_prune hu] at hused
    cases hused
  · exact absurd hnone hopen
  · rw [map_openOf o hash now (k := Order.tries) fun _ => rfl] at hmany
    have hsum : ((o.openOf hash now).map fun y => Ints.satAdd32 y.tries 1).sum ≤
        ((o.openOf hash now).map fun y => y.tries + 1).sum := List.sum_le_sum fun y _ => Nat.min_le_left _ _
    exact absurd (hmany.trans_le ((Nat.mod_le _ _).trans (hsum.trans htries))) (Nat.lt_irrefl _)
  · exact hc

private theorem updateFails_none (o : Orders) : updateFails o .none = false := by
  simp [updateFails, UpdateFaults.none]

private theorem markPaid_ok {o : Orders} {hash sig : Hash} {amountRaw : Nat} {now : Int} (hused : o.isUsed sig = false)
    {x : Order} (hx : x ∈ o.orders) (hmarks : marks hash amountRaw now x = true) :
    (o.markPaid hash amountRaw sig now).2 = .ok () := by
  have hany : o.orders.any (marks hash amountRaw now) = true := List.any_eq_true.2 ⟨x, hx, hmarks⟩
  unfold markPaid
  rw [hused, hany]
  rfl

private theorem paid_unique {o : Orders} (hapart : o.Apart) {hash sig : Hash} {now since : Int} {x : Order}
    (hx : x ∈ o.openOf hash now) {p : Payment} (hpays : p.pays x.amountRaw x.created = true) :
    Asked.paid ⟨hash, sig, since, o.openOf hash now⟩ p = some x := by
  have hsome : (Asked.paid ⟨hash, sig, since, o.openOf hash now⟩ p).isSome = true :=
    List.find?_isSome.2 ⟨x, hx, hpays⟩
  obtain ⟨y, hy⟩ := Option.isSome_iff_exists.1 hsome
  obtain ⟨hmem, hpays'⟩ := Asked.of_paid hy
  have hunpaid : ∀ z ∈ o.openOf hash now, z ∈ o.orders.filter Order.isUnpaid := by
    intro z hz
    obtain ⟨hz, hopen⟩ := List.mem_filter.1 hz
    simp only [Bool.and_eq_true, Order.openAt_iff] at hopen
    exact List.mem_filter.2 ⟨hz, by simp [Order.isUnpaid, hopen.1.1]⟩
  have hamount : y.amountRaw = x.amountRaw := by
    simp only [Payment.pays, Bool.and_eq_true, beq_iff_eq] at hpays hpays'
    omega
  rw [hy, List.inj_on_of_nodup_map hapart (hunpaid y hmem) (hunpaid x hx) hamount]

private theorem credited_claim (h : Good s.disk.orders s.credited) {hash sig : Hash} {now : Int}
    {raw : String} {x : Order} {p : Payment} (hx : x ∈ s.disk.orders.orders) (hopen : x.openAt now = true)
    (hof : x.tokenSha256 = hash) (hp : chain sig = some p) (hpays : p.pays x.amountRaw x.created = true)
    (hnew : sig ∉ s.credited.map Due.sig)
    (htries : ((s.disk.orders.loaded.openOf hash now).map fun y => y.tries + 1).sum ≤ MAX_CLAIM_TRIES) :
    (s.claim chain hash sig now raw).credited = s.credited ++ [⟨hash, x.passes, x.amountRaw, sig, now⟩] := by
  have hfree : ∀ d ∈ s.credited, d.sig ≠ sig := fun d hd hs => hnew (hs ▸ List.mem_map_of_mem hd)
  have hused : s.disk.orders.loaded.isUsed sig = false := by
    refine eq_false_of_ne_true fun hu => ?_
    obtain ⟨u, hu, hs⟩ := List.any_eq_true.1 hu
    obtain ⟨d, hd, hds⟩ := h.used u hu
    exact hfree d hd (hds.trans (same_iff.1 hs))
  have hpaid : ∀ y ∈ s.disk.orders.loaded.orders, y.tokenSha256 = hash → y.paidSha256 ≠ some sig := by
    intro y hy _ hsig
    obtain ⟨d, hd, hds, -⟩ := h.paid y hy sig hsig
    exact hfree d hd hds
  -- the order as the claim finds it, held and tried once more
  obtain ⟨x', hx', hterms⟩ : ∃ x' ∈ ((s.disk.orders.loaded.hold hash now).tryOnce hash now).openOf hash now,
      (x'.passes, x'.amountRaw, x'.created) = (x.passes, x.amountRaw, x.created) := by
    have hmap := map_openOf s.disk.orders.loaded hash now (k := fun y => (y.passes, y.amountRaw, y.created))
      fun _ => rfl
    have hx₀ : x ∈ s.disk.orders.loaded.openOf hash now := List.mem_filter.2 ⟨hx, by simp [hopen, Order.isOf, hof]⟩
    have hmem : (x.passes, x.amountRaw, x.created) ∈
        (s.disk.orders.loaded.openOf hash now).map fun y => (y.passes, y.amountRaw, y.created) :=
      List.mem_map.2 ⟨x, hx₀, rfl⟩
    rw [← hmap] at hmem
    exact List.mem_map.1 hmem
  simp only [Prod.mk.injEq] at hterms
  have hbefore := beforeClaim_open hpaid hused (List.ne_nil_of_mem hx') htries
  -- the claim gets its candidates
  obtain ⟨d, hd, hdo, hdu⟩ := updateOrders_ok s.disk .none (fun o file =>
    ((o.beforeClaim hash sig now).1, file, (o.beforeClaim hash sig now).2)) (updateFails_none _)
  have hasked : s.beforeClaim hash sig now .none = { s with disk := d, clock := now, asked := s.asked ++
      [⟨hash, sig, now, ((s.disk.orders.loaded.hold hash now).tryOnce hash now).openOf hash now⟩] } := by
    unfold Till.beforeClaim
    rw [hd, hbefore]
  rw [hbefore] at hdo hdu
  -- the order is marked
  have happrt : ((s.disk.orders.loaded.hold hash now).tryOnce hash now).Apart :=
    (((good_loaded h).hold hash now).of_plain (map_tryOnce fun _ _ => rfl) rfl).apart
  have hpaying : Asked.paid ⟨hash, sig, now,
      ((s.disk.orders.loaded.hold hash now).tryOnce hash now).openOf hash now⟩ p = some x' :=
    paid_unique happrt hx' (by rw [hterms.2.1, hterms.2.2]; exact hpays)
  have hmarked : (d.orders.loaded.markPaid hash x'.amountRaw sig now).2 = .ok () := by
    have hnot : d.orders.loaded.isUsed sig = false := by
      refine eq_false_of_ne_true fun hu => ?_
      have hu' : (s.disk.orders.loaded.prune now).isUsed sig = true := by
        unfold isUsed at hu ⊢
        rwa [show d.orders.loaded.used = (s.disk.orders.loaded.prune now).used from hdu] at hu
      rw [isUsed_prune hu'] at hused
      cases hused
    obtain ⟨hmem, hfits⟩ := List.mem_filter.1 hx'
    refine markPaid_ok hnot (x := x') (by rw [show d.orders.loaded.orders = _ from hdo]; exact hmem) ?_
    simpa [marks] using hfits
  obtain ⟨d', hd', -, -⟩ := updateOrders_ok d .none (fun o file =>
    ((o.markPaid hash x'.amountRaw sig now).1, file, (o.markPaid hash x'.amountRaw sig now).2)) (updateFails_none _)
  -- the account is credited
  obtain ⟨a, balance, hcredit⟩ := creditAccount_ok d' raw hash x'.passes
  have hlast : (s.asked ++ [Asked.mk hash sig now
      (((s.disk.orders.loaded.hold hash now).tryOnce hash now).openOf hash now)])[s.asked.length]? = some ⟨hash, sig, now,
      ((s.disk.orders.loaded.hold hash now).tryOnce hash now).openOf hash now⟩ := by simp
  unfold Till.claim
  simp only [run_cons, run_nil, Till.step, hasked, Till.mark, hlast, hp, Option.bind_some, hpaying, hd', hmarked,
    Till.credit, hcredit]
  rw [hterms.1, hterms.2.1]

/-! ### Whole runs -/

private theorem claimInv_start (chain : Hash → Option Payment) (a : Accounts) (t₀ : Int) :
    ClaimInv chain (Till.start ⟨Orders.empty, [], a⟩ t₀) := by
  refine claimInv_of_none (payInv_start chain _ t₀) rfl ⟨List.nodup_nil, fun u hu => ?_, fun x hx => ?_⟩
  · cases hu
  · cases hx

private theorem noneLost_of_inv (h : ClaimInv chain s) : NoneLost chain s := by
  refine ⟨fun hnone hash sig now passes amountRaw _ hpaid => ?_,
    fun hnone hash sig now raw x p _ hx hopen hof hp hpays hnew htries =>
      credited_claim (h.good hnone) hx hopen hof hp hpays hnew htries⟩
  have hgood := h.good hnone
  obtain ⟨d, hd, hds, hdh⟩ : ∃ d ∈ s.credited, d.sig = sig ∧ d.hash = hash := by
    rcases s.disk.orders.loaded.beforeClaim_cases hash sig now with ⟨y, hy, hof, hsig, -⟩ | ⟨-, hc⟩ |
      ⟨-, hc⟩ | ⟨-, hc⟩ | hc
    · obtain ⟨d, hd, hds, hdh⟩ := hgood.paid y (mem_prune.1 hy).1 sig hsig
      exact ⟨d, hd, hds, hdh.trans hof⟩
    · rw [hc] at hpaid
      cases hpaid
    · rw [hc] at hpaid
      cases hpaid
    · rw [hc] at hpaid
      cases hpaid
    · rw [hc] at hpaid
      cases hpaid
  refine ⟨⟨d, hd, hds, hdh⟩, ?_⟩
  have hnodup : (s.credited.map Due.sig).Nodup := by
    have := h.pay.once.nodup
    rw [List.map_map] at this
    exact this.sublist ((List.sublist_append_right _ _).map _)
  exact List.count_eq_one_of_mem hnodup (hds ▸ List.mem_map_of_mem hd)

/-- In every run of quotes and claims from empty orders files, with any other writes failing and the issuer stopping
anywhere else, no paid claim is lost. -/
theorem noneLost_run (chain : Hash → Option Payment) (a : Accounts) (t₀ : Int) (es : List TillStep)
    (h : Along (Till.step chain) (fun s e => s.Allowed chain e ∧ e.OfClaims ∧ s.Undone e)
      (Till.start ⟨Orders.empty, [], a⟩ t₀) es) :
    NoneLost chain (run (Till.step chain) (Till.start ⟨Orders.empty, [], a⟩ t₀) es) := by
  have hinv : ClaimInv chain (run (Till.step chain) (Till.start ⟨Orders.empty, [], a⟩ t₀) es) :=
    run_invariant (P := ClaimInv chain) (fun s e hs hok => claimInv_step hs hok.1 hok.2.1 hok.2.2) h
      (claimInv_start chain a t₀)
  exact noneLost_of_inv hinv

private def onePayment (sig : Hash) : Option Payment := if sig = "s" then some ⟨1000008, 5⟩ else none

/-- The account cannot be credited, and the mark is taken back. -/
theorem noneLost_refused : NoneLost onePayment
    (run (Till.step onePayment) (Till.start ⟨Orders.empty, [], ⟨[]⟩⟩ 0) [
      .quote "a" ⟨10, 1000000⟩ 6 (fun _ => some 7) 0 .none, .beforeClaim "a" "s" 10 .none, .mark 0 12 .none,
      .credit true (some "00"), .unmark .none]) :=
  noneLost_run onePayment ⟨[]⟩ 0 _ (by decide)

/-- The issuer stops between the mark and the credit: the next claim is told that the transaction paid, and nothing was
credited for it. -/
theorem not_noneLost : ∃ (chain : Hash → Option Payment) (a : Accounts) (t₀ : Int) (es : List TillStep),
    Along (Till.step chain) (fun s e => s.Allowed chain e ∧ e.OfClaims) (Till.start ⟨Orders.empty, [], a⟩ t₀) es ∧
      ¬ NoneLost chain (run (Till.step chain) (Till.start ⟨Orders.empty, [], a⟩ t₀) es) := by
  refine ⟨onePayment, ⟨[]⟩, 0, [.quote "a" ⟨10, 1000000⟩ 6 (fun _ => some 7) 0 .none,
    .beforeClaim "a" "s" 10 .none, .mark 0 12 .none, .crash], by decide, fun h => ?_⟩
  obtain ⟨⟨d, hd, -⟩, -⟩ := h.alreadyPaid (by decide) "a" "s" 20 10 1000008 (by decide) (by decide)
  have hnone : (run (Till.step onePayment) (Till.start ⟨Orders.empty, [], ⟨[]⟩⟩ 0) [
      .quote "a" ⟨10, 1000000⟩ 6 (fun _ => some 7) 0 .none, .beforeClaim "a" "s" 10 .none, .mark 0 12 .none,
      .crash]).credited = [] := by decide
  rw [hnone] at hd
  cases hd

end HidraNet.Issuer
