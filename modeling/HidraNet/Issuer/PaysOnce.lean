import HidraNet.Lib.Marks
import HidraNet.Issuer.Till

/-!
# A transaction pays once

Whether a transaction is ever the reason for two credits, in any run of the till.  A mark keeps a second credit away
for `KEEP_PAID`; after that an order it could pay has lapsed, since an order is paid no earlier than `CLOCK_SLACK`
before it is made and lives at most `ORDER_LIFETIME` (`claim_fresh`).  A record of a lapsed order is kept longer, for
`LAPSED_KEPT` from when it lapsed: an `order credit` that names a transaction forgotten by then credits it again
(`not_paysOnce`).

* `PayInv` is the invariant: what is being credited or is credited was marked once (`Marks.Once`), each for a payment
  not much younger than its mark, and a claim under way began while its candidates were open.
* `paysOnce_run` is the result, for runs in which no `order credit` names such a transaction (`NotForgotten`).
-/

namespace HidraNet.Issuer

open HidraNet.Lists Runs Marks Orders

def Used.mark (u : Used) : Hash × Int := (u.signatureSha256, u.since)

def Due.mark (d : Due) : Hash × Int := (d.sig, d.since)

/-- A mark made at `since` is forgotten. -/
def Forgotten (since t : Int) : Prop := since + KEEP_PAID ≤ t

namespace Till

def crediting (s : Till) : List Due := s.marked.toList.map Marked.due ++ s.taken.map Taken.due

def dues (s : Till) : List Due := s.crediting ++ s.credited

/-- No `order credit` names a transaction credited, or about to be, so long ago that its mark is forgotten. -/
def NotForgotten (s : Till) : TillStep → Prop
  | .take c _ _ => ∀ d ∈ s.dues, d.sig = c.sig → c.now < d.since + KEEP_PAID
  | _ => True

instance decidableNotForgotten (s : Till) : ∀ e, Decidable (s.NotForgotten e)
  | .take c _ _ => inferInstanceAs (Decidable (∀ d ∈ s.dues, d.sig = c.sig → c.now < d.since + KEEP_PAID))
  | .quote .. | .hold .. | .beforeClaim .. | .mark .. | .credit .. | .unmark .. | .crash | .creditTaken ..
  | .putBack .. | .crashTaken .. => isTrue trivial

end Till

variable {chain : Hash → Option Payment} {s : Till}

structure PayInv (chain : Hash → Option Payment) (s : Till) : Prop where
  once : Once Forgotten (s.disk.orders.used.map Used.mark) (s.dues.map Due.mark) s.clock
  paid : ∀ d ∈ s.dues, ∀ p ∈ chain d.sig, p.blockTime < d.since + UNDER_WAY + CLOCK_SLACK
  asked : ∀ a ∈ s.asked, ∀ x ∈ a.candidates, a.since < x.created + ORDER_LIFETIME

/-! ### The marks -/

section Marks

variable {o o' : Orders} {done : List (Hash × Int)} {clock now : Int} {sig : Hash}

private theorem forgotten_mono {u t t' : Int} (hle : t ≤ t') (h : Forgotten u t) : Forgotten u t' :=
  Int.le_trans h hle

private theorem not_marked (h : o.isUsed sig = false) : ∀ m ∈ o.used.map Used.mark, m.1 ≠ sig := by
  intro m hm
  obtain ⟨u, hu, rfl⟩ := List.mem_map.1 hm
  have := List.any_eq_false.1 h u hu
  simpa [Used.mark] using this

private theorem once_clock (h : Once Forgotten (o.used.map Used.mark) done clock) (hle : clock ≤ now)
    (hused : o'.used = o.used) : Once Forgotten (o'.used.map Used.mark) done now := by
  rw [hused]
  exact h.later (fun _ => forgotten_mono hle) (fun _ hm _ => hm)

private theorem once_prune (h : Once Forgotten (o.used.map Used.mark) done clock) (hle : clock ≤ now)
    (hused : o'.used = (o.prune now).used) : Once Forgotten (o'.used.map Used.mark) done now := by
  rw [hused]
  refine h.later (fun _ => forgotten_mono hle) fun m hm hnot => ?_
  obtain ⟨u, hu, rfl⟩ := List.mem_map.1 hm
  refine List.mem_map.2 ⟨u, List.mem_filter.2 ⟨hu, ?_⟩, rfl⟩
  rw [decide_eq_true_eq]
  exact Int.not_le.1 hnot

private theorem once_unuse {since : Int} (h : Once Forgotten (o.used.map Used.mark) ((sig, since) :: done) clock) :
    Once Forgotten ((o.unuse sig).used.map Used.mark) done clock := by
  have hused : (o.unuse sig).used.map Used.mark = (o.used.map Used.mark).filter (·.1 ≠ sig) := by
    unfold unuse
    rw [List.filter_map]
    refine congrArg _ (List.filter_congr fun u _ => ?_)
    by_cases hs : u.signatureSha256 = sig <;> simp [Used.mark, hs]
  rw [hused]
  exact h.undo

end Marks

theorem used_beforeClaim (o : Orders) (hash sig : Hash) (now : Int) :
    (o.beforeClaim hash sig now).1.used = (o.prune now).used := by
  rcases o.beforeClaim_state hash sig now with ho | ho
  · rw [ho]
  · rw [ho]
    rfl

theorem used_openOrder (o : Orders) (hash : Hash) (pack : Pack) (now : Int) (decimals : Nat) (raws : Nat → Option Nat) :
    (o.openOrder hash pack now decimals raws).1.used = (o.prune now).used := by
  rcases o.openOrder_cases hash pack now decimals raws with ⟨full, -, ho⟩ | ⟨-, ho | ho | ⟨amountRaw, -, ho⟩⟩ <;>
    rw [ho]

theorem used_takeRecord (c : CreditArgs) (rewriteFails : Bool) (o : Orders) (file : List Lapsed) :
    ((∃ why, (takeRecord c rewriteFails o file).2.2 = .error why) ∧
      (takeRecord c rewriteFails o file).1.used = (o.prune c.now).used) ∨
    ∃ l, (o.prune c.now).isUsed c.sig = false ∧ (takeRecord c rewriteFails o file).2.2 = .ok l ∧
      (takeRecord c rewriteFails o file).1.used = (o.prune c.now).used ++ [⟨c.sig, c.now⟩] := by
  unfold takeRecord
  rcases o.takeLapsed_cases (readLapsed file (some c.amountRaw)) c.amountRaw c.paidAt c.token c.sig c.now with
    ⟨why, ht⟩ | ⟨l, hnot, -, -, -, ht⟩ <;> rw [ht] <;> dsimp only
  · exact Or.inl ⟨⟨_, rfl⟩, rfl⟩
  · split
    · split
      · refine Or.inl ⟨⟨_, rfl⟩, ?_⟩
        have hback : (((o.prune c.now).markUsed c.sig c.now).unuse c.sig).used = (o.prune c.now).used := by
          rw [unuse_markUsed hnot]
        exact hback
      · exact Or.inr ⟨l, hnot, rfl, rfl⟩
    · exact Or.inr ⟨l, hnot, rfl, rfl⟩

theorem candidates_open {o : Orders} {hash sig : Hash} {now : Int} {candidates : List Order}
    (h : (o.beforeClaim hash sig now).2 = .ok (.openOrders candidates)) : ∀ x ∈ candidates, x.openAt now = true := by
  rcases o.beforeClaim_cases hash sig now with ⟨x, -, -, -, hc⟩ | ⟨-, hc⟩ | ⟨-, hc⟩ | ⟨-, hc⟩ | hc <;>
    rw [hc] at h
  · cases h
  · cases h
  · cases h
  · cases h
  · cases h
    intro x hx
    have hfits := (List.mem_filter.1 hx).2
    simp only [Bool.and_eq_true] at hfits
    exact hfits.1

/-- A claim's payment is of a transaction not marked so long ago: it pays an order that was open when the claim began. -/
private theorem claim_fresh {a : Asked} {x : Order} {p : Payment} {d : Due} {now : Int}
    (hopen : a.since < x.created + ORDER_LIFETIME) (hpays : p.pays x.amountRaw x.created = true)
    (hpaid : p.blockTime < d.since + UNDER_WAY + CLOCK_SLACK) (hunder : now < a.since + UNDER_WAY) :
    ¬ Forgotten d.since now := by
  simp only [Payment.pays, Bool.and_eq_true, Bool.not_eq_true', decide_eq_false_iff_not, beq_iff_eq] at hpays
  have hblock := hpays.1
  unfold Forgotten
  unfold UNDER_WAY KEEP_PAID ORDER_LIFETIME CLOCK_SLACK at *
  omega

private theorem mark_fresh (h : PayInv chain s) {i : Nat} {now : Int} {w : UpdateFaults}
    (hok : s.Allowed chain (.mark i now w)) {a : Asked} (ha : s.asked[i]? = some a) {x : Order}
    (hx : (chain a.sig).bind a.paid = some x) : ∀ d ∈ s.dues, d.sig = a.sig → ¬ Forgotten d.since now := by
  obtain ⟨p, hp, hpaid⟩ := Option.bind_eq_some_iff.1 hx
  obtain ⟨hmem, hpays⟩ := Asked.of_paid hpaid
  intro d hd hsig
  refine claim_fresh (h.asked a (List.mem_of_getElem? ha) x hmem) hpays (h.paid d hd p ?_) (hok.2.2 a ha).1
  rw [hsig]
  exact hp

theorem not_due (h : PayInv chain s) {i : Nat} {now : Int} {w : UpdateFaults} (hok : s.Allowed chain (.mark i now w))
    {a : Asked} (ha : s.asked[i]? = some a) {x : Order} (hx : (chain a.sig).bind a.paid = some x)
    (hnot : s.disk.orders.isUsed a.sig = false) : ∀ d ∈ s.dues, d.sig ≠ a.sig := by
  intro d hd hsig
  rcases h.once.kept d.mark (List.mem_map_of_mem hd) with hm | hf
  · exact not_marked hnot d.mark hm hsig
  · exact mark_fresh h hok ha hx d hd hsig (forgotten_mono hok.2.1 hf)

/-! ### A step keeps them -/

private theorem payInv_update {α : Type} (h : PayInv chain s) {now : Int} (hle : s.clock ≤ now) (w : UpdateFaults)
    (f : Orders → List Lapsed → Orders × List Lapsed × α)
    (hf : (f s.disk.orders.loaded s.disk.lapsedFile).1.used = (s.disk.orders.loaded.prune now).used ∨
      (f s.disk.orders.loaded s.disk.lapsedFile).1.used = s.disk.orders.loaded.used) :
    PayInv chain { s with disk := (updateOrders s.disk w f).1, clock := now } := by
  refine ⟨?_, h.paid, h.asked⟩
  show Once Forgotten ((updateOrders s.disk w f).1.orders.used.map Used.mark) (s.dues.map Due.mark) now
  obtain ⟨-, ⟨-, ho⟩ | ⟨-, -, hused⟩⟩ := updateOrders_cases s.disk w f
  · exact once_clock h.once hle (by rw [ho])
  · rcases hf with hf | hf
    · exact once_prune h.once hle (hused.trans hf)
    · exact once_clock h.once hle (hused.trans hf)

private theorem payInv_quote (h : PayInv chain s) (hash : Hash) (pack : Pack) (decimals : Nat) (raws : Nat → Option Nat)
    {now : Int} (hle : s.clock ≤ now) (w : UpdateFaults) : PayInv chain (s.quote hash pack decimals raws now w) := by
  unfold Till.quote
  split
  · exact ⟨once_clock h.once hle rfl, h.paid, h.asked⟩
  · exact payInv_update h hle w _ (Or.inl (used_openOrder ..))

private theorem payInv_beforeClaim (h : PayInv chain s) (hash sig : Hash) {now : Int} (hle : s.clock ≤ now)
    (w : UpdateFaults) : PayInv chain (s.beforeClaim hash sig now w) := by
  have hup := payInv_update h hle w
    (fun o file => ((o.beforeClaim hash sig now).1, file, (o.beforeClaim hash sig now).2))
    (Or.inl (used_beforeClaim ..))
  have hcases := updateOrders_cases s.disk w
    (fun o file => ((o.beforeClaim hash sig now).1, file, (o.beforeClaim hash sig now).2))
  unfold Till.beforeClaim
  split
  · rename_i d candidates hd
    rw [hd] at hup hcases
    refine ⟨hup.once, hup.paid, fun a ha => ?_⟩
    rcases List.mem_append.1 ha with ha | ha
    · exact h.asked a ha
    · rw [List.mem_singleton.1 ha]
      obtain ⟨-, ⟨⟨why, hwhy⟩, -⟩ | ⟨hr, -, -⟩⟩ := hcases
      · cases hwhy
      · intro x hx
        have hopen := candidates_open (Except.ok.inj hr).symm x hx
        have := x.lapsesAt_le
        have := (Order.openAt_iff.1 hopen).2
        show now < x.created + ORDER_LIFETIME
        omega
  · rename_i d r hd
    rw [hd] at hup
    exact hup

private theorem payInv_due (h : PayInv chain s) {d : Due} {disk : Disk} {now : Int} {asked : List Asked}
    {marked : Option Marked} {taken : List Taken}
    (hdues : (marked.toList.map Marked.due ++ taken.map Taken.due).Perm (s.crediting ++ [d]))
    (honce : Once Forgotten (disk.orders.used.map Used.mark) (s.dues.map Due.mark ++ [d.mark]) now)
    (hpaid : ∀ p ∈ chain d.sig, p.blockTime < d.since + UNDER_WAY + CLOCK_SLACK)
    (hasked : ∀ a ∈ asked, a ∈ s.asked) :
    PayInv chain { s with disk, clock := now, asked, marked, taken } := by
  have hperm : (Till.dues { s with disk, clock := now, asked, marked, taken }).Perm (s.dues ++ [d]) := by
    show (marked.toList.map Marked.due ++ taken.map Taken.due ++ s.credited).Perm (s.crediting ++ s.credited ++ [d])
    refine (hdues.append_right _).trans ?_
    rw [List.append_assoc, List.append_assoc]
    exact List.perm_append_comm.append_left _
  refine ⟨honce.fewer ?_, fun e he => ?_, fun a ha => h.asked a (hasked a ha)⟩
  · have := (hperm.map Due.mark).subperm
    rwa [List.map_append] at this
  · rcases List.mem_append.1 (hperm.mem_iff.1 he) with he | he
    · exact h.paid e he
    · rw [List.mem_singleton.1 he]
      exact hpaid

private theorem payInv_fewer (h : PayInv chain s) {s' : Till} (hclock : s'.clock = s.clock)
    (hasked : ∀ a ∈ s'.asked, a ∈ s.asked) (hused : s'.disk.orders.used = s.disk.orders.used)
    (hdues : s'.dues.Subperm s.dues) : PayInv chain s' := by
  refine ⟨?_, fun d hd => h.paid d (hdues.subset hd), fun a ha => h.asked a (hasked a ha)⟩
  rw [hclock, hused]
  exact h.once.fewer (subperm_map Due.mark hdues)

private theorem payInv_mark (h : PayInv chain s) (i : Nat) {now : Int} (w : UpdateFaults)
    (hok : s.Allowed chain (.mark i now w)) : PayInv chain (s.mark chain i now w) := by
  obtain ⟨hnone, hle, hunder⟩ := id hok
  have hmem : ∀ a ∈ s.asked.eraseIdx i, a ∈ s.asked := fun a ha => (List.eraseIdx_sublist ..).mem ha
  have hidle : ∀ d : Disk, d.orders.used = s.disk.orders.used →
      PayInv chain { s with clock := now, asked := s.asked.eraseIdx i, disk := d } := fun d hd =>
    ⟨once_clock h.once hle hd, h.paid, fun a ha => h.asked a (hmem a ha)⟩
  unfold Till.mark
  split
  · exact h
  · rename_i a ha
    obtain ⟨hunder, hblock⟩ := hunder a ha
    dsimp only
    split
    · exact hidle s.disk rfl
    · rename_i x hx
      obtain ⟨p, hp, -⟩ := Option.bind_eq_some_iff.1 hx
      have hcases := updateOrders_cases s.disk w fun o file =>
        ((o.markPaid a.hash x.amountRaw a.sig a.since).1, file, (o.markPaid a.hash x.amountRaw a.sig a.since).2)
      generalize updateOrders s.disk w _ = up at hcases ⊢
      obtain ⟨d, r⟩ := up
      dsimp only at hcases
      obtain ⟨-, ⟨⟨why, rfl⟩, ho⟩ | ⟨rfl, -, hused⟩⟩ := hcases
      · exact hidle d (by rw [ho])
      · rcases s.disk.orders.loaded.markPaid_cases a.hash x.amountRaw a.sig a.since with ⟨why, hm⟩ | ⟨hnot, y, -, hm⟩ <;>
          rw [hm] at hused ⊢
        · exact hidle d hused
        · have hcrediting : s.crediting = s.taken.map Taken.due := by
            unfold Till.crediting
            rw [hnone]
            rfl
          refine payInv_due h (d := Due.mk a.hash x.passes x.amountRaw a.sig a.since) ?_ ?_ (fun q hq => ?_) hmem
          · rw [hcrediting]
            exact (List.perm_append_singleton _ _).symm
          · rw [hused]
            show Once Forgotten ((s.disk.orders.used ++ [Used.mk a.sig a.since]).map Used.mark) _ now
            rw [List.map_append]
            refine (once_clock h.once hle rfl).mark (not_marked hnot) fun e he hsig => ?_
            obtain ⟨d, hd, rfl⟩ := List.mem_map.1 he
            exact mark_fresh h hok ha hx d hd hsig
          · rw [Option.mem_def, hp] at hq
            rw [← Option.some.inj hq]
            have := hblock p hp
            show p.blockTime < a.since + UNDER_WAY + CLOCK_SLACK
            omega

private theorem payInv_credit (h : PayInv chain s) (fails : Bool) (raw : Option String) :
    PayInv chain (s.credit fails raw) := by
  unfold Till.credit
  split
  · exact h
  · rename_i m hm
    have hd := creditAccount_orders s.disk fails raw m.due.hash m.due.passes
    split
    · rename_i d _ heq
      rw [heq] at hd
      refine payInv_fewer h rfl (fun _ ha => ha) (congrArg Orders.used hd) ?_
      -- what was due is credited
      show (s.taken.map Taken.due ++ (s.credited ++ [m.due])).Subperm
        (s.marked.toList.map Marked.due ++ s.taken.map Taken.due ++ s.credited)
      rw [hm, ← List.append_assoc]
      exact List.perm_append_comm.subperm
    · rename_i d heq
      rw [heq] at hd
      refine payInv_fewer h rfl (fun _ ha => ha) (congrArg Orders.used hd) ?_
      unfold Till.dues Till.crediting
      rw [hm]
      exact List.Subperm.refl _

private theorem payInv_undo (h : PayInv chain s) {d : Due} {s' : Till} (hclock : s'.clock = s.clock)
    (hasked : s'.asked = s.asked) (hdues : s.dues.Perm (d :: s'.dues)) (w : UpdateFaults)
    (f : Orders → List Lapsed → Orders × List Lapsed × Unit)
    (hf : (f s.disk.orders.loaded s.disk.lapsedFile).1.used = (s.disk.orders.unuse d.sig).used)
    (hdisk : s'.disk = (updateOrders s.disk w f).1) : PayInv chain s' := by
  have hfewer : s'.dues.Subperm s.dues :=
    (List.subperm_cons_self ..).trans hdues.symm.subperm
  obtain ⟨-, ⟨-, ho⟩ | ⟨-, -, hused⟩⟩ := updateOrders_cases s.disk w f
  · exact payInv_fewer h hclock (fun _ ha => hasked ▸ ha) (by rw [hdisk, ho]) hfewer
  · refine ⟨?_, fun e he => h.paid e (hfewer.subset he), fun a ha => h.asked a (hasked ▸ ha)⟩
    rw [hdisk, hclock, hused, hf]
    have hfewer' : ((d.sig, d.since) :: s'.dues.map Due.mark).Subperm (s.dues.map Due.mark) :=
      (hdues.map Due.mark).symm.subperm
    exact once_unuse (h.once.fewer hfewer')

private theorem payInv_unmark (h : PayInv chain s) (w : UpdateFaults) : PayInv chain (s.unmark w) := by
  unfold Till.unmark
  split
  · exact h
  · rename_i m hm
    refine payInv_undo h (d := m.due) rfl rfl ?_ w _ rfl rfl
    unfold Till.dues Till.crediting
    rw [hm]
    exact List.Perm.refl _

private theorem dues_eraseIdx {i : Nat} {t : Taken} (ht : s.taken[i]? = some t) :
    s.dues.Perm (t.due :: Till.dues { s with taken := s.taken.eraseIdx i }) := by
  have hperm := (perm_eraseIdx ht).map Taken.due
  show (s.marked.toList.map Marked.due ++ s.taken.map Taken.due ++ s.credited).Perm
    (t.due :: (s.marked.toList.map Marked.due ++ (s.taken.eraseIdx i).map Taken.due ++ s.credited))
  refine ((hperm.append_left _).append_right _).trans ?_
  rw [List.map_cons, ← List.cons_append]
  exact List.perm_middle.append_right _

private theorem payInv_creditTaken (h : PayInv chain s) (i : Nat) (fails : Bool) (raw : Option String) :
    PayInv chain (s.creditTaken i fails raw) := by
  unfold Till.creditTaken
  split
  · exact h
  · rename_i t ht
    have hd := creditAccount_orders s.disk fails raw t.record.tokenSha256 t.record.passes
    split
    · rename_i d _ heq
      rw [heq] at hd
      refine payInv_fewer h rfl (fun _ ha => ha) (congrArg Orders.used hd) ?_
      refine List.Perm.subperm (List.Perm.trans ?_ (dues_eraseIdx ht).symm)
      show (s.marked.toList.map Marked.due ++ (s.taken.eraseIdx i).map Taken.due ++ (s.credited ++ [t.due])).Perm
        (t.due :: (s.marked.toList.map Marked.due ++ (s.taken.eraseIdx i).map Taken.due ++ s.credited))
      rw [← List.append_assoc]
      exact List.perm_append_singleton _ _
    · rename_i d heq
      rw [heq] at hd
      refine payInv_fewer h rfl (fun _ ha => ha) (congrArg Orders.used hd) ?_
      have hset : (s.taken.set i { t with refused := true }).map Taken.due = s.taken.map Taken.due :=
        map_set_of ht rfl
      unfold Till.dues Till.crediting
      dsimp only
      rw [hset]

private theorem payInv_putBack (h : PayInv chain s) (i : Nat) (w : UpdateFaults) : PayInv chain (s.putBack i w) := by
  unfold Till.putBack
  split
  · exact h
  · rename_i t ht
    exact payInv_undo h (d := t.due) rfl rfl (dues_eraseIdx ht) w _ rfl rfl

private theorem payInv_take (h : PayInv chain s) (c : CreditArgs) (rewriteFails : Bool) (w : UpdateFaults)
    (hok : s.Allowed chain (.take c rewriteFails w)) (hfresh : s.NotForgotten (.take c rewriteFails w)) :
    PayInv chain (s.take c rewriteFails w) := by
  obtain ⟨hle, hchain, hblock⟩ := hok
  have hcases := updateOrders_cases s.disk w (takeRecord c rewriteFails)
  unfold Till.take
  generalize updateOrders s.disk w _ = up at hcases ⊢
  obtain ⟨d, r⟩ := up
  dsimp only at hcases
  obtain ⟨-, ⟨⟨why, rfl⟩, ho⟩ | ⟨rfl, -, hused⟩⟩ := hcases
  · exact ⟨once_clock h.once hle (by rw [ho]), h.paid, h.asked⟩
  · rcases used_takeRecord c rewriteFails s.disk.orders.loaded s.disk.lapsedFile with ⟨⟨why, hr⟩, ht⟩ |
      ⟨l, hnot, hr, ht⟩ <;> rw [hr] <;> rw [ht] at hused
    · exact ⟨once_prune h.once hle hused, h.paid, h.asked⟩
    · refine payInv_due h (d := Due.mk l.tokenSha256 l.passes l.amountRaw c.sig c.now) ?_ ?_ (fun p hp => ?_)
        (fun _ ha => ha)
      · unfold Till.crediting
        rw [List.map_append, ← List.append_assoc]
        exact List.Perm.refl _
      · rw [hused, List.map_append]
        refine (once_prune h.once hle rfl).mark (not_marked hnot) fun e he hsig => ?_
        obtain ⟨d, hd, rfl⟩ := List.mem_map.1 he
        exact Int.not_le.2 (hfresh d hd hsig)
      · rw [Option.mem_def, hchain] at hp
        rw [← Option.some.inj hp]
        show c.paidAt < c.now + UNDER_WAY + CLOCK_SLACK
        have : 0 < UNDER_WAY := by decide
        omega

/-! ### Whole runs -/

theorem payInv_start (chain : Hash → Option Payment) (d : Disk) (t₀ : Int) :
    PayInv chain (Till.start d t₀) :=
  ⟨once_nil _ _ _, fun _ hd => by simp [Till.dues, Till.crediting, Till.start] at hd, fun _ ha => by simp [Till.start] at ha⟩

theorem payInv_step (h : PayInv chain s) {e : TillStep} (hok : s.Allowed chain e) (hfresh : s.NotForgotten e) :
    PayInv chain (s.step chain e) := by
  cases e with
  | quote hash pack decimals raws now w => exact payInv_quote h hash pack decimals raws hok.2 w
  | hold hash now w => exact payInv_update h hok.2 w _ (Or.inl rfl)
  | beforeClaim hash sig now w => exact payInv_beforeClaim h hash sig hok.2 w
  | mark i now w => exact payInv_mark h i w hok
  | credit fails raw => exact payInv_credit h fails raw
  | unmark w => exact payInv_unmark h w
  | crash =>
    refine payInv_fewer h rfl (fun a ha => by cases ha) rfl ?_
    exact ((List.sublist_append_right _ _).append_right _).subperm
  | take c rewriteFails w => exact payInv_take h c rewriteFails w hok hfresh
  | creditTaken i fails raw => exact payInv_creditTaken h i fails raw
  | putBack i w => exact payInv_putBack h i w
  | crashTaken i =>
    refine payInv_fewer h rfl (fun _ ha => ha) rfl ?_
    exact ((((List.eraseIdx_sublist ..).map _).append_left _).append_right _).subperm

/-- In every run of the till, with any writes failing and either process stopping anywhere, in which no `order credit`
names a transaction whose mark is forgotten, no transaction is the reason for two credits. -/
theorem paysOnce_run (chain : Hash → Option Payment) (d : Disk) (t₀ : Int) (es : List TillStep)
    (h : Along (Till.step chain) (fun s e => s.Allowed chain e ∧ s.NotForgotten e) (Till.start d t₀) es) :
    ((run (Till.step chain) (Till.start d t₀) es).credited.map Due.sig).Nodup := by
  have hinv : PayInv chain (run (Till.step chain) (Till.start d t₀) es) :=
    run_invariant (P := PayInv chain) (fun s e hs hok => payInv_step hs hok.1 hok.2) h (payInv_start chain d t₀)
  have hnodup := hinv.once.nodup
  rw [List.map_map] at hnodup
  exact hnodup.sublist ((List.sublist_append_right _ _).map _)

private def twoPayments (sig : Hash) : Option Payment :=
  if sig = "s" then some ⟨1000008, 5⟩ else if sig = "r" then some ⟨1000008, 25⟩ else none

/-- One order is claimed and the next, lapsed, is credited by hand. -/
theorem paysOnce_twoOrders : ((run (Till.step twoPayments) (Till.start ⟨Orders.empty, [], ⟨[]⟩⟩ 0) [
    .quote "a" ⟨10, 1000000⟩ 6 (fun _ => some 7) 0 .none, .beforeClaim "a" "s" 10 .none, .mark 0 10 .none,
    .credit false (some "00"), .quote "a" ⟨10, 1000000⟩ 6 (fun _ => some 7) 20 .none,
    .take ⟨1000008, 25, none, "r", 9000⟩ false .none, .creditTaken 0 false none]).credited.map Due.sig).Nodup :=
  paysOnce_run twoPayments _ 0 _ (by decide)

/-- A transaction is claimed for an order; a second order of the amount lapses unpaid; and two days on the transaction
is credited by hand for that one. -/
theorem not_paysOnce : ∃ (chain : Hash → Option Payment) (d : Disk) (t₀ : Int) (es : List TillStep),
    Along (Till.step chain) (Till.Allowed chain) (Till.start d t₀) es ∧
      ¬ ((run (Till.step chain) (Till.start d t₀) es).credited.map Due.sig).Nodup :=
  ⟨fun _ => some ⟨1000008, 5⟩, ⟨Orders.empty, [], ⟨[]⟩⟩, 0, [
    .quote "a" ⟨10, 1000000⟩ 6 (fun _ => some 7) 0 .none, .beforeClaim "a" "s" 10 .none, .mark 0 10 .none,
    .credit false (some "00"), .quote "a" ⟨10, 1000000⟩ 6 (fun _ => some 7) 20 .none,
    .take ⟨1000008, 5, none, "s", 173200⟩ false .none, .creditTaken 0 false none], by decide, by decide⟩

end HidraNet.Issuer
