import HidraNet.Client.Ways

/-!
# What becomes of a redeemed pass

A pass taken out of the wallet to join a node goes back into it, is refused by the node, or wins an invite for the
pocket.  The invite that was won is lost where the pocket does not take it: the pass is spent by then
(`Machine.accountedFor_iff`).
-/

open HidraNet.Core HidraNet.Net HidraNet.Text

namespace HidraNet.Client

variable {Key Pk : Type} {c : Crypto Pk} {lib : KeyLib Key} {w : World Key}

/-! ### What the pocket takes -/

def Room (p : Pocket) (name key : String) : Prop :=
  (∃ i ∈ p.admitted, i.key = key) ∨ (trim name ≠ "" ∧ ∀ i ∈ p.admitted, trim i.nodeName = trim name → i.key = key)

theorem add_eq {p : Pocket} {slot : Slot} {invite : Invite} (hvalid : invite.validate c = .ok ())
    (hname : trim invite.nodeName ≠ "")
    (hfree : ∀ i ∈ p.admitted, trim i.nodeName = trim invite.nodeName → i.key = invite.key)
    (hslot : ∀ i ∈ p.list slot, i.key ≠ invite.key) :
    p.add c slot invite = (.ok (), (p.setList slot (p.list slot ++ [invite])).forgetKnown invite.key) := by
  unfold Pocket.add
  rw [hvalid]
  dsimp only
  rw [if_neg hname, if_neg, if_neg]
  · simp only [List.any_eq_true, decide_eq_true_eq]
    rintro ⟨i, hi, hkey⟩
    exact hslot i hi hkey
  · simp only [List.any_eq_true, Bool.and_eq_true, decide_eq_true_eq]
    rintro ⟨i, hi, hsame, hkey⟩
    exact hkey (hfree i hi hsame)

theorem slotsForRole_ne_nil (role : Option String) : slotsForRole role ≠ [] := by
  unfold slotsForRole
  split <;> simp

theorem mem_addEach_of_mem {p : Pocket} {invite i : Invite} {slots : List Slot} (h : i ∈ p.admitted) :
    i ∈ (p.addEach c invite slots).2.admitted := by
  induction slots generalizing p with
  | nil => exact h
  | cons slot slots ih =>
    unfold Pocket.addEach
    rcases Pocket.add_cases p slot invite with ⟨e, hadd⟩ | ⟨-, -, -, hadd⟩
    · rw [hadd]
      exact h
    · rw [hadd]
      apply ih
      obtain ⟨slot', hi⟩ := Pocket.mem_admitted.1 h
      refine Pocket.mem_admitted.2 ⟨slot', ?_⟩
      show i ∈ (p.setList slot (p.list slot ++ [invite])).list slot'
      by_cases hslot : slot' = slot
      · subst hslot
        rw [Pocket.list_setList_self]
        exact List.mem_append_left _ hi
      · rw [Pocket.list_setList_other hslot]
        exact hi

theorem replace_of_placed {p : Pocket} {invite : Invite} (hvalid : invite.validate c = .ok ())
    (hdirect : invite.directPass.isSome = true) (h : ∃ i ∈ p.admitted, i.key = invite.key) :
    invite ∈ (p.replace c invite).2.admitted := by
  obtain ⟨i, hi, hkey⟩ := h
  have hplaced : (p.admitted.any fun i => i.key = invite.key) = true := List.any_eq_true.2 ⟨i, hi, decide_eq_true hkey⟩
  have hnone : invite.directPass.isNone = false := by
    cases hpass : invite.directPass with
    | none =>
      rw [hpass] at hdirect
      cases hdirect
    | some b => rfl
  -- what a direct pass won takes the place of anything
  have hput : (if i.key = invite.key ∧
      (!((invite.pass.isSome && invite.directPass.isNone) && i.directPass.isSome)) = true then invite else i) =
        invite := by
    rw [hnone, if_pos ⟨hkey, by simp⟩]
  unfold Pocket.replace
  rw [hvalid]
  dsimp only
  rw [if_pos hplaced]
  show invite ∈ List.map _ p.entries ++ List.map _ p.exits
  rw [← List.map_append]
  exact List.mem_map.2 ⟨i, hi, hput⟩

theorem replace_holds_iff {p : Pocket} {invite : Invite} (hvalid : invite.validate c = .ok ())
    (hdirect : invite.directPass.isSome = true) :
    invite ∈ (p.replace c invite).2.admitted ↔ Room p invite.nodeName invite.key := by
  by_cases hkey : ∃ i ∈ p.admitted, i.key = invite.key
  · exact ⟨fun _ => .inl hkey, fun _ => replace_of_placed hvalid hdirect hkey⟩
  · have hplaced : ¬ (p.admitted.any fun i => i.key = invite.key) = true := by
      rw [List.any_eq_true]
      rintro ⟨i, hi, h⟩
      exact hkey ⟨i, hi, of_decide_eq_true h⟩
    have hafter : (p.replace c invite).2.admitted = (p.addEach c invite (slotsForRole invite.role)).2.admitted := by
      unfold Pocket.replace
      rw [hvalid]
      dsimp only
      rw [if_neg hplaced]
      rcases p.addEach c invite (slotsForRole invite.role) with ⟨_ | _, q⟩
      · rfl
      · rfl
    rw [hafter]
    obtain ⟨slot, slots, hslots⟩ := List.exists_cons_of_ne_nil (slotsForRole_ne_nil invite.role)
    rw [hslots]
    have hslot : ∀ i ∈ p.list slot, i.key ≠ invite.key := by
      intro i hi h
      exact hkey ⟨i, Pocket.mem_admitted.2 ⟨slot, hi⟩, h⟩
    constructor
    · intro h
      -- the first slot refuses it, or there is a place
      rcases Pocket.add_cases p slot invite with ⟨e, hadd⟩ | ⟨-, hfree, -, hadd⟩
      · unfold Pocket.addEach at h
        rw [hadd] at h
        exact absurd ⟨invite, h, rfl⟩ hkey
      · refine .inr ⟨?_, ?_⟩
        · intro hname
          unfold Pocket.add at hadd
          rw [hvalid] at hadd
          dsimp only at hadd
          rw [if_pos hname] at hadd
          cases hadd
        · intro i hi hsame
          by_contra hne
          exact hfree i hi hne hsame
    · rintro (h | ⟨hname, hfree⟩)
      · exact absurd h hkey
      · unfold Pocket.addEach
        rw [add_eq hvalid hname hfree hslot]
        apply mem_addEach_of_mem
        refine Pocket.mem_admitted.2 ⟨slot, ?_⟩
        show invite ∈ (p.setList slot (p.list slot ++ [invite])).list slot
        rw [Pocket.list_setList_self]
        exact List.mem_append_right _ (List.mem_singleton.2 rfl)

/-! ### What the node answers -/

def CountryOk (record : NodeRecord) : Prop := record.country.all (fun c => (normaliseCountry c).isOk) = true

def Admits (c : Crypto Pk) (lib : KeyLib Key) (w : World Key) (record : NodeRecord) (pass : Pass) (tick : Nat) : Prop :=
  (∃ client, clientKeyFromBase64 c lib pass.clientSecret = .ok client) ∧
    ∃ a invite, (w.moment tick).reply = .answered a ∧ a.status = 200 ∧ checkedInvite c record a = .ok invite

theorem checkedInvite_holds {record : NodeRecord} {a : Answer} {invite : Invite}
    (h : checkedInvite c record a = .ok invite) :
    (∃ e, parseSocketAddr record.endpoint.toList = some e) ∧ invite.nodeName = record.nodeName ∧
      invite.key = record.key ∧
      ∀ b, ({ invite with pass := b } : Invite).validate c = .ok () ↔ CountryOk record := by
  unfold checkedInvite at h
  obtain ⟨endpoint, hendpoint, h⟩ := ok_of_bind h
  obtain ⟨i, -, h⟩ := ok_of_bind h
  obtain ⟨_, hvalid, h⟩ := ok_of_bind h
  obtain ⟨_, hkey, h⟩ := ok_of_bind h
  obtain ⟨_, -, h⟩ := ok_of_bind h
  obtain ⟨_, -, h⟩ := ok_of_bind h
  cases h
  refine ⟨⟨endpoint, of_elim_error hendpoint⟩, rfl, of_ensure hkey, ?_⟩
  intro b
  obtain ⟨hshape, hdns⟩ := Invite.validate_ok_iff.1 (of_context hvalid)
  obtain ⟨hpublic, haddr, hip, hip6, -, hmtu⟩ := Invite.validateShape_ok_iff.1 hshape
  rw [Invite.validate_ok_iff, Invite.validateShape_ok_iff]
  constructor
  · rintro ⟨⟨-, -, -, -, hcountry, -⟩, -⟩
    exact hcountry
  · intro hcountry
    exact ⟨⟨hpublic, haddr, hip, hip6, hcountry, hmtu⟩, hdns⟩

theorem redeemPass_admits {record : NodeRecord} {pass : Pass} (way : Way) {d : Desk}
    (hkey : pass.key = record.key) (h : Admits c lib w record pass d.tick) :
    ∃ invite d', redeemPass c lib w record pass way d = (.ok invite, d') := by
  obtain ⟨⟨client, hclient⟩, a, invite, hreply, hstatus, hchecked⟩ := h
  obtain ⟨⟨e, hendpoint⟩, -⟩ := checkedInvite_holds hchecked
  unfold redeemPass
  rw [if_neg (not_not.2 hkey), hendpoint, hclient]
  dsimp only
  rw [hreply]
  dsimp only
  rw [if_neg (not_not.2 hstatus), hchecked]
  exact ⟨_, _, rfl⟩

theorem admits_of_redeemPass {record : NodeRecord} {pass : Pass} {way : Way} {d d' : Desk} {invite : Invite}
    (h : redeemPass c lib w record pass way d = (.ok invite, d')) : Admits c lib w record pass d.tick ∧
      ∃ a won b, checkedInvite c record a = .ok won ∧ invite = { won with pass := some b } ∧
        b.clientSecret = pass.clientSecret ∧ b.behind = some (decide (way = .behind)) := by
  unfold redeemPass at h
  by_cases hkey : pass.key = record.key
  · rw [if_neg (not_not.2 hkey)] at h
    cases hendpoint : parseSocketAddr record.endpoint.toList with
    | none =>
      rw [hendpoint] at h
      cases h
    | some e =>
      cases hclient : clientKeyFromBase64 c lib pass.clientSecret with
      | error why =>
        rw [hendpoint, hclient] at h
        cases h
      | ok client =>
        rw [hendpoint, hclient] at h
        dsimp only at h
        cases hreply : (w.moment d.tick).reply with
        | cancelled received =>
          rw [hreply] at h
          cases h
        | failed why received =>
          rw [hreply] at h
          cases h
        | answered a =>
          rw [hreply] at h
          dsimp only at h
          by_cases hstatus : a.status = 200
          · rw [if_neg (not_not.2 hstatus)] at h
            cases hchecked : checkedInvite c record a with
            | error why =>
              rw [hchecked] at h
              cases h
            | ok won =>
              rw [hchecked] at h
              cases h
              exact ⟨⟨⟨client, hclient⟩, a, won, hreply, hstatus, hchecked⟩, a, won, _, hchecked, rfl, rfl, rfl⟩
          · rw [if_pos hstatus] at h
            cases h
  · rw [if_pos hkey] at h
    cases h

/-! ### The pass afterwards -/

namespace Machine

def Bound (pass : Pass) (key : String) (i : Invite) : Prop :=
  i.key = key ∧ ∃ b, i.pass = some b ∧ b.clientSecret = pass.clientSecret

def Holds (p : Pocket) (pass : Pass) (key : String) : Prop := ∃ i ∈ p.admitted, Bound pass key i

/-- The pass is back in the wallet, or the node refused it, or the pocket holds an invite bound to it; and an invite
that stands is kept. -/
def AccountedFor (r : Keyring Key Pk) (s : Machine) (record : NodeRecord) (w : World Key) (pass : Pass) (rest : Desk) :
    Prop :=
  ((s.redeemInto r record w).2.wallet.Perm s.wallet ∨
    (∃ e d, redeemPass r.c r.lib w record pass .direct rest = (.error e, d) ∧ e.refused = true) ∨
    Holds (s.redeemInto r record w).2.pocket pass record.key) ∧
  (Admits r.c r.lib w record pass rest.tick → Holds (s.redeemInto r record w).2.pocket pass record.key)

variable {r : Keyring Key Pk} {s : Machine} {record : NodeRecord} {pass : Pass} {rest d : Desk} {invite : Invite}

theorem redeemInto_won (htake : s.desk.takeFor record.nodePublicKey = some (pass, rest))
    (hredeem : redeemPass r.c r.lib w record pass .direct rest = (.ok invite, d)) :
    (s.redeemInto r record w).2.wallet = rest.wallet ∧
      (s.redeemInto r record w).2.pocket = (s.pocket.replace r.c invite).2 := by
  obtain ⟨l₁, l₂, -, -, -, hrest⟩ := Desk.takeFor_some htake
  have hpurse : d.toPurse = rest.toPurse := by
    have h : (redeemPass r.c r.lib w record pass .direct rest).2.toPurse = rest.toPurse :=
      purse_redeemPass record pass .direct rest
    rwa [hredeem] at h
  have hwon : d.won = [] := by
    rw [show d.won = rest.won from congrArg Purse.won hpurse, hrest]
    rfl
  have hwallet : d.wallet = rest.wallet := congrArg Purse.wallet hpurse
  unfold redeemInto
  rw [htake]
  dsimp only
  rw [hredeem]
  dsimp only
  refine ⟨hwallet, ?_⟩
  show (d.won ++ [invite]).foldl (fun p i => (p.replace r.c i).2) s.pocket = _
  rw [hwon]
  rfl

theorem redeemInto_failed {e : Failure} (htake : s.desk.takeFor record.nodePublicKey = some (pass, rest))
    (hredeem : redeemPass r.c r.lib w record pass .direct rest = (.error e, d)) (hkept : e.refused = false) :
    (s.redeemInto r record w).2.wallet.Perm s.wallet := by
  obtain ⟨l₁, l₂, hwallet, -, -, hrest⟩ := Desk.takeFor_some htake
  have hpurse : d.toPurse = rest.toPurse := by
    have h : (redeemPass r.c r.lib w record pass .direct rest).2.toPurse = rest.toPurse :=
      purse_redeemPass record pass .direct rest
    rwa [hredeem] at h
  have hd : d.wallet = l₁ ++ l₂ := by
    rw [show d.wallet = rest.wallet from congrArg Purse.wallet hpurse, hrest]
  have hs : s.wallet = l₁ ++ pass :: l₂ := hwallet
  unfold redeemInto
  rw [htake]
  dsimp only
  rw [hredeem]
  dsimp only
  unfold close Desk.afterFailure
  rw [hkept, if_neg (by simp)]
  show (d.wallet ++ [pass]).Perm s.wallet
  rw [hd, hs, List.append_assoc]
  exact List.Perm.append_left _ List.perm_append_comm

theorem holds_replace_iff {won : Invite} {b : PassBinding} {a : Answer}
    (hchecked : checkedInvite r.c record a = .ok won) (hinvite : invite = { won with pass := some b })
    (hsecret : b.clientSecret = pass.clientSecret)
    (hdirect : b.behind = some false) (p : Pocket) :
    Holds (p.replace r.c invite).2 pass record.key ↔
      Holds p pass record.key ∨ (CountryOk record ∧ Room p record.nodeName record.key) := by
  obtain ⟨-, hname, hkey, hvalid⟩ := checkedInvite_holds hchecked
  have hkey' : invite.key = record.key := by
    rw [hinvite]
    exact hkey
  have hname' : invite.nodeName = record.nodeName := by
    rw [hinvite]
    exact hname
  have hbound : Bound pass record.key invite := ⟨hkey', b, by rw [hinvite], hsecret⟩
  have hpass : invite.directPass.isSome = true := by
    rw [hinvite]
    simp [Invite.directPass, PassBinding.direct, hdirect]
  by_cases hcountry : CountryOk record
  · have hok : invite.validate r.c = .ok () := by
      rw [hinvite]
      exact (hvalid _).2 hcountry
    have hmem := replace_holds_iff hok hpass (p := p)
    rw [hname', hkey'] at hmem
    constructor
    · rintro ⟨i, hi, hib⟩
      rcases mem_replace hi with hi | rfl
      · exact .inl ⟨i, hi, hib⟩
      · exact .inr ⟨hcountry, hmem.1 hi⟩
    · rintro (⟨i, hi, hib⟩ | ⟨-, hroom⟩)
      · exact ⟨invite, hmem.2 (.inl ⟨i, hi, hib.1⟩), hbound⟩
      · exact ⟨invite, hmem.2 hroom, hbound⟩
  · have hafter : (p.replace r.c invite).2 = p := by
      cases hv : invite.validate r.c with
      | ok u =>
        cases u
        rw [hinvite] at hv
        exact absurd ((hvalid _).1 hv) hcountry
      | error e =>
        unfold Pocket.replace
        rw [hv]
    rw [hafter]
    constructor
    · exact .inl
    · rintro (h | ⟨h, -⟩)
      · exact h
      · exact absurd h hcountry

/-- A pass is lost exactly if the node admits with it and the pocket has no place for the invite, or the record names
no country an invite may name, and nothing bound to the pass was there before. -/
theorem accountedFor_iff (htake : s.desk.takeFor record.nodePublicKey = some (pass, rest)) :
    AccountedFor r s record w pass rest ↔ (Admits r.c r.lib w record pass rest.tick →
      Holds s.pocket pass record.key ∨ (CountryOk record ∧ Room s.pocket record.nodeName record.key)) := by
  obtain ⟨-, -, -, hkey, -, -⟩ := Desk.takeFor_some htake
  unfold AccountedFor
  rcases hredeem : redeemPass r.c r.lib w record pass .direct rest with ⟨e | invite, d⟩
  · have hnot : ¬ Admits r.c r.lib w record pass rest.tick := by
      intro hadmits
      obtain ⟨invite, d', hok⟩ := redeemPass_admits .direct hkey hadmits
      rw [hredeem] at hok
      cases hok
    constructor
    · intro _ hadmits
      exact absurd hadmits hnot
    · intro _
      refine ⟨?_, fun hadmits => absurd hadmits hnot⟩
      cases hrefused : e.refused with
      | true => exact .inr (.inl ⟨e, d, rfl, hrefused⟩)
      | false => exact .inl (redeemInto_failed htake hredeem hrefused)
  · obtain ⟨hadmits, a, won, b, hchecked, hinvite, hsecret, hbehind⟩ := admits_of_redeemPass hredeem
    obtain ⟨hafter, hpocket⟩ := redeemInto_won htake hredeem
    have hholds := holds_replace_iff hchecked hinvite hsecret hbehind s.pocket
    rw [← hpocket] at hholds
    rw [hholds]
    constructor
    · rintro ⟨-, h⟩
      exact h
    · intro h
      exact ⟨.inr (.inr (h hadmits)), h⟩

private def tollKey : String := "AAAAAAAAAAAAAAAAAAAAAAAAAAAAAAAAAAAAAAAAAAA="
private def namesakeKey : String := "AQEBAQEBAQEBAQEBAQEBAQEBAQEBAQEBAQEBAQEBAQE="
private def tollSecret : String := "AgICAgICAgICAgICAgICAgICAgICAgICAgICAgICAgI="

private def tollKeys : Keyring Bytes Unit :=
  ⟨⟨fun s => if s = tollKey then some (List.replicate 32 0) else if s = namesakeKey then some (List.replicate 32 1)
    else if s = tollSecret then some (List.replicate 32 2) else none, id, fun _ => .ok (), fun _ => [],
    fun _ _ _ _ => true⟩, ⟨id, hexEncode, fun salt key node => salt ++ key ++ node⟩, [7], [tollKey]⟩

private def toll : NodeRecord :=
  ⟨"ger", tollKey, "203.0.113.10:51820", none, none, some "exit", some "pass", none, some "DE", []⟩

private def tollInvite (name key : String) : Invite :=
  ⟨name, key, "203.0.113.10:51820", "10.77.0.2/16", none, 172818433, ["0.0.0.0/0"], 1420, 25, none, none, none, none,
    none, false, [], none⟩

private def tollPass : Pass := ⟨"key", tollKey, tollSecret, "", "", ""⟩

private def taking : World Bytes :=
  ⟨fun _ => ⟨1000, false, .ok (), .ok (), .ok (), .answered ⟨200, some (tollInvite "ger" tollKey), none, ""⟩,
    .error "no randomness"⟩, false⟩

example : (tollInvite "ger" tollKey).validate tollKeys.c = .ok () := by decide +kernel

private def withOne (name : String) : Machine :=
  ⟨⟨[], [tollInvite name namesakeKey], [], 0, none⟩, [tollPass], [], [], []⟩

private def took : Desk := ⟨⟨[], [], [tollPass], [], []⟩, [], 0, []⟩

private theorem toll_answered : ((withOne "ger").desk.takeFor toll.nodePublicKey = some (tollPass, took) ∧
      (withOne "fin").desk.takeFor toll.nodePublicKey = some (tollPass, took)) ∧
    (redeemPass tollKeys.c tollKeys.lib taking toll tollPass .direct took).1.isOk = true ∧
    ((withOne "ger").redeemInto tollKeys toll taking).2.wallet = [] ∧
    ((withOne "ger").redeemInto tollKeys toll taking).2.pocket.admitted = [tollInvite "ger" namesakeKey] := by
  refine ⟨⟨rfl, rfl⟩, ?_⟩
  decide +kernel

/-- The one pass is accounted for while the other node has another name. -/
theorem accountedFor_iff_other : AccountedFor tollKeys (withOne "fin") toll taking tollPass took := by
  refine (accountedFor_iff toll_answered.1.2).2 fun _ => .inr ⟨?_, .inr ⟨?_, ?_⟩⟩
  · unfold CountryOk
    decide +kernel
  · decide +kernel
  · intro i hi
    rw [show i = tollInvite "fin" namesakeKey from List.mem_singleton.1 hi]
    decide +kernel

/-- The pass of a node that has the name of another node in the pocket is spent, and wins nothing. -/
theorem pass_lost : ¬ ∀ (s : Machine) (record : NodeRecord) (w : World Bytes) (pass : Pass) (rest : Desk),
    s.desk.takeFor record.nodePublicKey = some (pass, rest) → AccountedFor tollKeys s record w pass rest := by
  intro h
  obtain ⟨hback | ⟨e, d, hrefused, -⟩ | ⟨i, hi, hib⟩, -⟩ :=
    h (withOne "ger") toll taking tollPass took toll_answered.1.1
  · rw [toll_answered.2.2.1] at hback
    exact absurd hback.length_eq (by decide)
  · have hok := toll_answered.2.1
    rw [hrefused] at hok
    cases hok
  · rw [toll_answered.2.2.2, List.mem_singleton] at hi
    rw [hi] at hib
    exact absurd hib.1 (by decide +kernel)

end Machine

end HidraNet.Client
