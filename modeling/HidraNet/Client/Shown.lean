import HidraNet.Client.Keyring

/-!
# What a circuit shows its nodes

While a circuit is being prepared no key comes to belong to both ways, and the tunnels of a circuit that is ready show
every node a key of the way it is reached (`Keyring.kept_prepare`).  No pass may be redeemed one way that had been put
back after its node received it the other way (`Desk.Unspoiled`).
-/

namespace HidraNet.Client

open HidraNet.Core Net Text

def Purse.Clean (p : Purse) (node : String) (way : Way) : Prop :=
  ∀ q ∈ p.wallet.find? (fun q => q.key = node), ∀ said ∈ p.returned, said.1 = q → said.2 = way

instance (p : Purse) (node : String) (way : Way) : Decidable (p.Clean node way) :=
  inferInstanceAs (Decidable (∀ q ∈ p.wallet.find? (fun q => q.key = node), ∀ said ∈ p.returned, said.1 = q →
    said.2 = way))

/-- No pass this connection is about to redeem was put back after its node had received it the other way.  The first
hop's pass is looked for after the hold, where there is one. -/
structure Desk.Unspoiled {Key : Type} (d : Desk) (exit : Invite) (entry : Option Invite) (held : List SocketAddr)
    (w : World Key) : Prop where
  first : (entry.getD exit).admitsSessions = false → (entry.getD exit).takesPasses = true →
    ((entry.getD exit).directPass.any fun p =>
      p.fresh (w.moment (if held.isEmpty then d.tick else d.tick + 1)).now.toNat) = false →
    d.toPurse.Clean (entry.getD exit).key .direct
  exit : entry.isSome = true → exit.admitsOpenly = false → exit.takesPasses = true →
    d.toPurse.Clean exit.key .behind

/-- Nothing about the passes for a node is different. -/
structure Purse.SameFor (node : String) (p p' : Purse) : Prop where
  next : p'.wallet.find? (fun q => q.key = node) = p.wallet.find? fun q => q.key = node
  returned : ∀ said ∈ p'.returned, said.1.key = node → said ∈ p.returned

namespace Purse.SameFor

variable {node nodePublic : String} {way : Way} {p p' p₁ : Purse} {d d' : Desk} {pass : Pass}

theorem of_eq (h : p' = p) : SameFor node p p' := by
  subst h
  exact ⟨rfl, fun _ h _ => h⟩

theorem trans (h : SameFor node p p₁) (h' : SameFor node p₁ p') : SameFor node p p' := by
  refine ⟨h'.next.trans h.next, ?_⟩
  intro said hsaid hnode
  exact h.returned said (h'.returned said hsaid hnode) hnode

theorem clean (h : SameFor node p p') (hp : p.Clean node way) : p'.Clean node way := by
  intro q hq said hsaid heq
  rw [h.next] at hq
  have hnode : q.key = node := by simpa using List.find?_some hq
  apply hp q hq said ?_ heq
  apply h.returned said hsaid
  rw [heq, hnode]

theorem takeFor (h : d.takeFor nodePublic = some (pass, d')) (hother : trim nodePublic ≠ node) :
    SameFor node d.toPurse d'.toPurse ∧ pass.key = trim nodePublic := by
  obtain ⟨l₁, l₂, hl, hkey, -, rfl⟩ := Desk.takeFor_some h
  have hpass : pass.key ≠ node := by
    rw [hkey]
    exact hother
  refine ⟨⟨?_, fun _ h _ => h⟩, hkey⟩
  rw [hl]
  simp [hpass]

theorem afterFailure (hother : pass.key ≠ node) (way : Way) (e : Failure) :
    SameFor node d.toPurse (d.afterFailure pass way e).toPurse := by
  unfold Desk.afterFailure
  split
  · exact ⟨rfl, fun _ h _ => h⟩
  · constructor
    · simp [hother]
    · intro said hsaid hnode
      dsimp only at hsaid
      split at hsaid
      · rcases List.mem_append.1 hsaid with hsaid | hsaid
        · exact hsaid
        · rw [List.mem_singleton.1 hsaid] at hnode
          exact absurd hnode hother
      · exact hsaid

end Purse.SameFor

def Way.shownKey {Key : Type} : Way → ShownKey Key
  | .direct => .direct
  | .behind => .behind

def CircuitSpec.exitWay {Key : Type} (s : CircuitSpec Key) : Way := if s.entry.isSome then .behind else .direct

def Ask.said (ask : Ask) (e : Failure) : List (Pass × Way) :=
  match ask with
  | .session => []
  | .pass p => saidBy p .behind e

namespace Keyring

variable {Key Pk : Type} {r : Keyring Key Pk} {gen : Nat → Except String Key} {W : List Invite} {hand : List Pass}
  {said : List (Pass × Way)} {w : World Key} {d d' d₁ : Desk} {pass : Pass} {way : Way}

/-! ### What asking gives -/

/-- What a node gave: the key it was asked with belongs to the way it was asked. -/
structure Got (r : Keyring Key Pk) (W : List Invite) (way : Way) (got : Invite × Option Key) (d : Desk) : Prop where
  told : r.Told W got.1 d
  fresh : ∀ x, got.2 = some x → r.Spoken (W ++ d.won) d.shown (r.lib.publicBase64 x) way
  won : got.2 = none → got.1.pass.isSome = true

def Fits (r : Keyring Key Pk) (W : List Invite) (i : Invite) (shown : ShownKey Key) (way : Way) (d : Desk) : Prop :=
  ∀ x, nodeKey r.c r.lib i r.key shown = .ok x → r.Spoken (W ++ d.won) d.shown (r.lib.publicBase64 x) way

theorem Leads.got {got : Invite × Option Key} (h : r.Leads gen W hand said d d') (hgot : r.Got W way got d) :
    r.Got W way got d' := by
  refine ⟨h.told hgot.told, ?_, hgot.won⟩
  intro x hx
  exact h.grows _ _ (hgot.fresh x hx)

theorem Leads.fits {i : Invite} {shown : ShownKey Key} (h : r.Leads gen W hand said d d')
    (hi : r.Fits W i shown way d) : r.Fits W i shown way d' := by
  intro x hx
  exact h.grows _ _ (hi x hx)

theorem Told.fits {i : Invite} (h : r.Told W i d) (hnode : i.pass = none → i.nodePublicKey ∈ r.nodes) (way : Way) :
    r.Fits W i way.shownKey way d := by
  have hbound : ∀ b x, i.pass = some b → b.behind = some (decide (way = .behind)) →
      clientKeyFromBase64 r.c r.lib b.clientSecret = .ok x →
      r.Spoken (W ++ d.won) d.shown (r.lib.publicBase64 x) way := by
    intro b x hb hbehind hx
    apply h
    refine ⟨b, hb, ?_, hbehind⟩
    unfold publicOf
    rw [hx]
  intro x hx
  cases way with
  | direct =>
    rcases nodeKey_direct hx with ⟨b, hb, hbehind, hx⟩ | ⟨hnone, hx⟩
    · exact hbound b x hb hbehind hx
    · refine .derived i.nodePublicKey (hnode hnone) ?_
      unfold derivedKey
      dsimp only
      rw [hx]
  | behind =>
    rcases nodeKey_behind hx with ⟨b, hb, hbehind, hx⟩ | ⟨hnone, hx⟩
    · exact hbound b x hb hbehind hx
    · refine .derived i.nodePublicKey (hnode hnone) ?_
      unfold derivedKey
      dsimp only
      rw [hx]

theorem Got.fits {got : Invite × Option Key} (h : r.Got W way got d) :
    r.Fits W got.1 (got.2.elim way.shownKey .exact) way d := by
  cases hfresh : got.2 with
  | none =>
    apply h.told.fits
    intro hnone
    have hsome := h.won hfresh
    rw [hnone] at hsome
    cases hsome
  | some k =>
    intro x hx
    unfold nodeKey at hx
    rw [← Except.ok.inj hx]
    exact h.fresh k hfresh

theorem kept_made {node : Invite} {fresh : Key} {reply : Except Failure Invite} (hapart : r.Apart w.made)
    (hd : r.Kept w.made W hand said d) (hmade : w.made d.tick = .ok fresh) (hwait : d.next.Waits d₁)
    (h : requestAdmission r.c w (recordOf node) (r.lib.publicBase64 fresh) true way d₁ = (reply, d')) :
    r.Leads w.made W hand said d d' ∧ ∀ i, reply = .ok i → r.Got W way (i, some fresh) d' := by
  have hnext := hd.next.trans (hd.next.kept.wait hwait)
  obtain ⟨hlead, hok⟩ := kept_requestAdmission hnext.kept ((hd.sayable_made hapart hmade way).wait hwait) h
  refine ⟨hnext.trans hlead, ?_⟩
  intro i hi
  obtain ⟨hspoken, hnone⟩ := hok i hi
  refine ⟨told_of_none hnone, ?_, ?_⟩
  · intro x hx
    cases hx
    exact hspoken
  · intro hno
    cases hno

theorem generate_cases {reply : Except Failure Key} (h : generate w d = (reply, d')) :
    d' = d.next ∧ ∀ fresh, reply = .ok fresh → w.made d.tick = .ok fresh := by
  unfold generate lift at h
  unfold World.made
  cases hmade : (w.moment d.tick).generated with
  | error e =>
    rw [hmade] at h
    cases h
    exact ⟨rfl, fun fresh hfresh => by cases hfresh⟩
  | ok x =>
    rw [hmade] at h
    cases h
    refine ⟨rfl, ?_⟩
    intro fresh hfresh
    cases hfresh
    rfl

theorem kept_askSession {node : Invite} {reply : Except Failure (Invite × Key)} (hapart : r.Apart w.made)
    (hd : r.Kept w.made W hand said d) (h : askSession r.c r.lib w node way d = (reply, d')) :
    r.Leads w.made W hand said d d' ∧ ∀ got, reply = .ok got → r.Got W way (got.1, some got.2) d' := by
  unfold askSession at h
  split at h
  · rename_i e d₁ hmade
    obtain ⟨rfl, -⟩ := generate_cases hmade
    cases h
    exact ⟨hd.next, fun got hgot => by cases hgot⟩
  · rename_i fresh d₁ hmade
    obtain ⟨rfl, hfresh⟩ := generate_cases hmade
    split at h
    · rename_i e d₂ hrequest
      cases h
      refine ⟨(kept_made hapart hd (hfresh fresh rfl) (Desk.Waits.refl _) hrequest).1, ?_⟩
      intro got hgot
      cases hgot
    · rename_i invite d₂ hrequest
      cases h
      obtain ⟨hlead, hok⟩ := kept_made hapart hd (hfresh fresh rfl) (Desk.Waits.refl _) hrequest
      refine ⟨hlead, ?_⟩
      intro got hgot
      cases hgot
      exact hok invite rfl

theorem kept_askDirect {node : Invite} {how : String} {reply : Except Failure (Invite × Key)}
    (hapart : r.Apart w.made) (hd : r.Kept w.made W hand said d)
    (h : askDirect r.c r.lib w node how d = (reply, d')) :
    r.Leads w.made W hand said d d' ∧ ∀ got, reply = .ok got → r.Got W .direct (got.1, some got.2) d' := by
  unfold askDirect at h
  split at h
  · rename_i e d₁ hmade
    obtain ⟨rfl, -⟩ := generate_cases hmade
    cases h
    exact ⟨hd.next, fun got hgot => by cases hgot⟩
  · rename_i fresh d₁ hmade
    obtain ⟨rfl, hfresh⟩ := generate_cases hmade
    split at h
    · rename_i e d₂ hrequest
      cases h
      refine ⟨?_, fun got hgot => by cases hgot⟩
      rcases cancelOr_cases hrequest with ⟨-, rfl⟩ | hrequest
      · exact hd.next.trans hd.next.kept.next
      · exact (kept_made hapart hd (hfresh fresh rfl) (Desk.waits_next _) hrequest).1
    · rename_i invite d₂ hrequest
      cases h
      rcases cancelOr_cases hrequest with ⟨hno, -⟩ | hrequest
      · cases hno
      · obtain ⟨hlead, hok⟩ := kept_made hapart hd (hfresh fresh rfl) (Desk.waits_next _) hrequest
        refine ⟨hlead, ?_⟩
        intro got hgot
        cases hgot
        exact hok invite rfl

/-! ### Through an entry -/

theorem kept_bridgeTo {entry exit : Invite} {entryShown : ShownKey Key} (hd : r.Kept gen W hand said d)
    (hfits : r.Fits W entry entryShown .direct d)
    (h : bridgeTo r.c r.lib w entry entryShown exit r.key d = (.ok (), d')) : r.Leads gen W hand said d d' := by
  unfold bridgeTo at h
  split at h
  · cases h
  · rename_i shown hchecked
    obtain ⟨_, -, hchecked⟩ := ok_of_bind hchecked
    obtain ⟨_, -, hchecked⟩ := ok_of_bind hchecked
    obtain ⟨_, -, hchecked⟩ := ok_of_bind hchecked
    obtain ⟨_, -, hchecked⟩ := ok_of_bind hchecked
    obtain ⟨_, -, hchecked⟩ := ok_of_bind hchecked
    have hspoken := hfits shown (of_context hchecked)
    split at h
    · cases h
    · cases h
      have hnext := hd.next
      exact hnext.trans (hnext.kept.say (hd.sayable hspoken).next (List.Subset.refl _) entry.key)

theorem kept_askBehind {exit : Invite} {how : String} {ask : Ask} {reply : Except Failure (Invite × Option Key)}
    (hapart : r.Apart w.made) (hd : r.Kept w.made W ask.hand [] d)
    (hway : ∀ p, ask = .pass p → ∀ way', (p, way') ∈ d.returned → way' = .behind)
    (h : askBehind r.c r.lib w exit how ask d = (reply, d')) :
    (∀ e, reply = .error e → r.Leads w.made W ask.hand (ask.said e) d d') ∧
      ∀ got, reply = .ok got → r.Leads w.made W [] [] d d' ∧ r.Got W .behind got d' := by
  have hnothing : ∀ why, ask.said (failure why) = [] := by
    intro why
    cases ask <;> rfl
  unfold askBehind at h
  split at h
  · rename_i why hroute
    cases h
    constructor
    · intro e he
      cases he
      rw [hnothing]
      exact hd.next
    · intro got hgot
      cases hgot
  · cases ask with
    | session =>
      dsimp only at h
      split at h
      · rename_i e d₁ hask
        cases h
        constructor
        · intro e' he'
          cases he'
          exact hd.next.trans (kept_askSession hapart hd.next.kept hask).1
        · intro got hgot
          cases hgot
      · rename_i invite fresh d₁ hask
        cases h
        obtain ⟨hlead, hgot⟩ := kept_askSession hapart hd.next.kept hask
        constructor
        · intro e he
          cases he
        · intro got hgot'
          cases hgot'
          exact ⟨hd.next.trans hlead, hgot _ rfl⟩
    | pass p =>
      dsimp only at h
      have hway' : ∀ way', (p, way') ∈ d.next.returned → way' = .behind := hway p rfl
      split at h
      · rename_i e d₁ hredeem
        cases h
        constructor
        · intro e' he'
          cases he'
          exact hd.next.trans ((kept_redeemPass hd.next.kept hway' hredeem).1 e rfl)
        · intro got hgot
          cases hgot
      · rename_i invite d₁ hredeem
        cases h
        obtain ⟨hlead, htold, hsome⟩ := (kept_redeemPass hd.next.kept hway' hredeem).2 invite rfl
        constructor
        · intro e he
          cases he
        · intro got hgot
          cases hgot
          refine ⟨hd.next.trans hlead, htold, ?_, fun _ => hsome⟩
          intro x hx
          cases hx

theorem kept_askAfterFailure {ask : Ask} {e : Failure} (h : r.Kept gen W ask.hand (ask.said e) d) :
    r.Leads gen W [] [] d (ask.afterFailure e d) := by
  cases ask with
  | session => exact h.leads
  | pass p => exact Kept.afterFailure h

theorem kept_admitBehind {entry exit : Invite} {entryShown : ShownKey Key} {ask : Ask}
    {reply : Except Failure (Invite × Option Key)} (hapart : r.Apart w.made) (hd : r.Kept w.made W ask.hand [] d)
    (hfits : r.Fits W entry entryShown .direct d)
    (hway : ∀ p, ask = .pass p → ∀ way', (p, way') ∈ d.returned → way' = .behind)
    (h : admitBehind r.c r.lib w entry entryShown exit r.key ask d = (reply, d')) :
    r.Leads w.made W [] [] d d' ∧ ∀ got, reply = .ok got → r.Got W .behind got d' := by
  have hnothing : ∀ why, ask.said (failure why) = [] := by
    intro why
    cases ask <;> rfl
  rcases admitBehind_cases h with ⟨why, d₁, rfl, hwait, rfl⟩ | ⟨how, d₁, d₂, hbridge, hasked, hout⟩
  · have hlead := hd.wait hwait
    rw [← hnothing why] at hlead
    refine ⟨hlead.trans (kept_askAfterFailure hlead.kept), ?_⟩
    intro got hgot
    cases hgot
  · have hlead := kept_bridgeTo hd hfits hbridge
    have hpurse : d₁.toPurse = d.toPurse := by
      have hbridged : (bridgeTo r.c r.lib w entry entryShown exit r.key d).2.toPurse = d.toPurse :=
        purse_bridgeTo _ _ _ _ _
      rwa [hbridge] at hbridged
    have hway₁ : ∀ p, ask = .pass p → ∀ way', (p, way') ∈ d₁.next.returned → way' = .behind := by
      intro p hp way' hreturned
      apply hway p hp
      rwa [Desk.toPurse_next, hpurse] at hreturned
    have hfailed : ∀ e, reply = .error e → r.Leads w.made W ask.hand (ask.said e) d d₂ := by
      intro e he
      rcases cancelOr_cases hasked with ⟨hcancelled, rfl⟩ | hasked
      · rw [hcancelled] at he
        cases he
        rw [hnothing]
        exact hlead.trans hlead.kept.next
      · exact hlead.trans (hlead.kept.next.trans ((kept_askBehind hapart hlead.kept.next.kept hway₁ hasked).1 e he))
    rcases hout with ⟨e, rfl, rfl⟩ | ⟨⟨got, rfl⟩, rfl⟩
    · have hsaid := hfailed e rfl
      refine ⟨hsaid.trans (kept_askAfterFailure hsaid.kept), ?_⟩
      intro got hgot
      cases hgot
    · rcases cancelOr_cases hasked with ⟨hno, -⟩ | hasked
      · cases hno
      · obtain ⟨hgained, hgot⟩ := (kept_askBehind hapart hlead.kept.next.kept hway₁ hasked).2 got rfl
        refine ⟨hlead.trans (hlead.kept.next.trans hgained), ?_⟩
        intro got' hgot'
        cases hgot'
        exact hgot

theorem kept_sessionAgain {entry exit : Invite} {entryShown : ShownKey Key} {session : Bool} {tries : Nat}
    {got : Invite × Option Key} {reply : Except Failure (Invite × Option Key)} (hapart : r.Apart w.made)
    (hd : r.Kept w.made W [] [] d) (hfits : r.Fits W entry entryShown .direct d) (hgot : r.Got W .behind got d)
    (h : sessionAgain r.c r.lib w entry entryShown exit r.key session tries got d = (reply, d')) :
    r.Leads w.made W [] [] d d' ∧ ∀ got', reply = .ok got' → r.Got W .behind got' d' := by
  have hdone : ∀ {got : Invite × Option Key} {d : Desk}, r.Kept w.made W [] [] d → r.Got W .behind got d →
      (.ok got, d) = (reply, d') → r.Leads w.made W [] [] d d' ∧ ∀ got', reply = .ok got' → r.Got W .behind got' d' := by
    intro got d hd hgot h
    cases h
    refine ⟨hd.leads, ?_⟩
    intro got' hgot'
    cases hgot'
    exact hgot
  induction tries generalizing got d with
  | zero => exact hdone hd hgot h
  | succ tries ih =>
    unfold sessionAgain at h
    split at h
    · have hsession : r.Kept w.made W Ask.session.hand [] d := hd
      split at h
      · rename_i e d₁ hadmit
        cases h
        refine ⟨(kept_admitBehind hapart hsession hfits (by simp) hadmit).1, ?_⟩
        intro got' hgot'
        cases hgot'
      · rename_i got₁ d₁ hadmit
        obtain ⟨hlead, hok⟩ := kept_admitBehind hapart hsession hfits (by simp) hadmit
        obtain ⟨hlead', hok'⟩ := ih hlead.kept (hlead.fits hfits) (hok got₁ rfl) h
        exact ⟨hlead.trans hlead', hok'⟩
    · exact hdone hd hgot h

/-! ### Directly -/

theorem holdAdmitting_cases {node : Invite} {why : String} {reply : Except Failure Unit}
    (h : holdAdmitting w node why d = (reply, d')) : d.Waits d' ∧ (reply = .ok () → d'.tick = d.tick + 1) := by
  unfold holdAdmitting at h
  split at h
  · cases h
    exact ⟨Desk.Waits.refl _, fun hno => by cases hno⟩
  · split at h
    · cases h
      exact ⟨d.waits_next, fun _ => rfl⟩
    · cases h
      exact ⟨d.waits_next, fun _ => rfl⟩

theorem kept_entrySessionAgain {entry : Invite} {reply : Except Failure (Invite × Key)} (hapart : r.Apart w.made)
    (hd : r.Kept w.made W [] [] d) (h : entrySessionAgain r.c r.lib w entry d = (reply, d')) :
    r.Leads w.made W [] [] d d' ∧ ∀ got, reply = .ok got → r.Got W .direct (got.1, some got.2) d' := by
  unfold entrySessionAgain at h
  split at h
  · rename_i e d₁ hhold
    cases h
    refine ⟨hd.wait (holdAdmitting_cases hhold).1, ?_⟩
    intro got hgot
    cases hgot
  · rename_i d₁ hhold
    have hlead := hd.wait (holdAdmitting_cases hhold).1
    obtain ⟨hlead', hok⟩ := kept_askDirect hapart hlead.kept h
    exact ⟨hlead.trans hlead', hok⟩

def FitsEntry (r : Keyring Key Pk) (W : List Invite) (spec : CircuitSpec Key) (d : Desk) : Prop :=
  ∀ e, spec.entry = some e → r.Fits W e spec.entryShown .direct d

theorem Got.fitsEntry {spec : CircuitSpec Key} {got : Invite × Option Key} (h : r.Got W .direct got d) :
    r.FitsEntry W { spec with entry := some got.1, entryKey := got.2 } d := by
  intro e he
  cases he
  have hfits := h.fits
  unfold CircuitSpec.entryShown
  cases hfresh : got.2 with
  | none =>
    rw [hfresh] at hfits
    exact hfits
  | some x =>
    rw [hfresh] at hfits
    exact hfits

theorem kept_entryAgain {first invite : Invite} {session : Bool} {tries : Nat} {spec : CircuitSpec Key}
    {reply : Except Failure (CircuitSpec Key)} (hapart : r.Apart w.made) (hd : r.Kept w.made W [] [] d)
    (hfits : r.FitsEntry W spec d)
    (h : entryAgain r.c r.lib w first session invite tries spec d = (reply, d')) :
    r.Leads w.made W [] [] d d' ∧ ∀ spec', reply = .ok spec' →
      r.FitsEntry W spec' d' ∧ (spec.entry.isSome = true → spec'.entry.isSome = true) := by
  have hdone : ∀ {spec : CircuitSpec Key} {d : Desk}, r.Kept w.made W [] [] d → r.FitsEntry W spec d →
      (.ok spec, d) = (reply, d') → r.Leads w.made W [] [] d d' ∧ ∀ spec', reply = .ok spec' →
        r.FitsEntry W spec' d' ∧ (spec.entry.isSome = true → spec'.entry.isSome = true) := by
    intro spec d hd hfits h
    cases h
    refine ⟨hd.leads, ?_⟩
    intro spec' hspec'
    cases hspec'
    exact ⟨hfits, id⟩
  induction tries generalizing spec d with
  | zero => exact hdone hd hfits h
  | succ tries ih =>
    unfold entryAgain at h
    split at h
    · split at h
      · rename_i e d₁ hagain
        cases h
        refine ⟨(kept_entrySessionAgain hapart hd hagain).1, ?_⟩
        intro spec' hspec'
        cases hspec'
      · rename_i again againKey d₁ hagain
        obtain ⟨hlead, hok⟩ := kept_entrySessionAgain hapart hd hagain
        obtain ⟨hlead', hok'⟩ := ih hlead.kept (hok _ rfl).fitsEntry h
        refine ⟨hlead.trans hlead', ?_⟩
        intro spec' hspec'
        obtain ⟨hfits', hentry⟩ := hok' spec' hspec'
        exact ⟨hfits', fun _ => hentry rfl⟩
    · exact hdone hd hfits h

theorem kept_firstHopPass {node : Invite} {reply : Except Failure (Option Invite)} (hd : r.Kept w.made W [] [] d)
    (hun : (node.directPass.any fun p => p.fresh (w.moment d.tick).now.toNat) = false →
      d.toPurse.Clean node.key .direct)
    (h : firstHopPass r.c r.lib w node d = (reply, d')) :
    r.Leads w.made W [] [] d d' ∧ ∀ i, reply = .ok (some i) → r.Got W .direct (i, none) d' := by
  rcases firstHopPass_cases h with ⟨hwait, hno⟩ | ⟨pass, d₁, hfresh, htake, hout⟩
  · refine ⟨hd.wait hwait, ?_⟩
    intro i hi
    exact absurd hi (hno i)
  · obtain ⟨htaken, hreturned, hfind⟩ := hd.next.kept.takeFor htake
    have hlead := hd.next.trans htaken
    have hway : ∀ way', (pass, way') ∈ d₁.next.returned → way' = .direct := by
      intro way' hback
      change (pass, way') ∈ d₁.returned at hback
      rw [hreturned] at hback
      exact hun hfresh pass hfind (pass, way') hback rfl
    rcases hout with ⟨invite, hredeem, rfl⟩ | ⟨e, d₂, hredeem, hwait, hno⟩
    · rcases cancelOr_cases hredeem with ⟨hcancelled, -⟩ | hredeem
      · cases hcancelled
      · have hnext := hlead.kept.next
        obtain ⟨hgained, htold, hsome⟩ := (kept_redeemPass hnext.kept hway hredeem).2 invite rfl
        refine ⟨hlead.trans (hnext.trans hgained), ?_⟩
        intro i hi
        cases hi
        refine ⟨htold, ?_, fun _ => hsome⟩
        intro x hx
        cases hx
    · have hsaid : r.Leads w.made W [pass] (saidBy pass .direct e) d d₂ := by
        rcases cancelOr_cases hredeem with ⟨hcancelled, rfl⟩ | hredeem
        · cases hcancelled
          exact hlead.trans hlead.kept.next
        · have hnext := hlead.kept.next
          exact hlead.trans (hnext.trans ((kept_redeemPass hnext.kept hway hredeem).1 e rfl))
      have hback := hsaid.trans hsaid.kept.afterFailure
      refine ⟨hback.trans (hback.kept.wait hwait), ?_⟩
      intro i hi
      exact absurd hi (hno i)

theorem kept_askFirst {first : Invite} {held : List SocketAddr}
    {reply : Except Failure (Option (Invite × Option Key))} (hapart : r.Apart w.made) (hd : r.Kept w.made W [] [] d)
    (hun : first.admitsSessions = false → first.takesPasses = true →
      (first.directPass.any fun p =>
        p.fresh (w.moment (if held.isEmpty then d.tick else d.tick + 1)).now.toNat) = false →
      d.toPurse.Clean first.key .direct)
    (h : askFirst r.c r.lib w first held d = (reply, d')) :
    r.Leads w.made W [] [] d d' ∧ ∀ got, reply = .ok (some got) → r.Got W .direct got d' := by
  have hhold : ∀ {reply₁ d₁}, (if (first.admitsSessions || first.takesPasses) && !held.isEmpty then
      holdAdmitting w first "could not hold the kill switch to ask the first node for admission" d
      else (.ok (), d)) = (reply₁, d₁) → d.Waits d₁ ∧
        (reply₁ = .ok () → first.takesPasses = true → d₁.tick = if held.isEmpty then d.tick else d.tick + 1) := by
    intro reply₁ d₁ h
    split at h
    · rename_i hheld
      obtain ⟨hwait, htick⟩ := holdAdmitting_cases h
      refine ⟨hwait, ?_⟩
      intro hok _
      rw [htick hok]
      simp only [Bool.and_eq_true, Bool.not_eq_true'] at hheld
      simp [hheld.2]
    · rename_i hheld
      cases h
      refine ⟨Desk.Waits.refl _, ?_⟩
      intro _ htakes
      rw [htakes] at hheld
      simp at hheld
      simp [hheld]
  unfold askFirst at h
  split at h
  · rename_i e d₁ heq
    cases h
    refine ⟨hd.wait (hhold heq).1, ?_⟩
    intro got hgot
    cases hgot
  · rename_i d₁ heq
    obtain ⟨hwait, htick⟩ := hhold heq
    have hlead := hd.wait hwait
    split at h
    · split at h
      · rename_i e d₂ hask
        cases h
        refine ⟨hlead.trans (kept_askDirect hapart hlead.kept hask).1, ?_⟩
        intro got hgot
        cases hgot
      · rename_i invite fresh d₂ hask
        cases h
        obtain ⟨hlead', hok⟩ := kept_askDirect hapart hlead.kept hask
        refine ⟨hlead.trans hlead', ?_⟩
        intro got hgot
        cases hgot
        exact hok _ rfl
    · rename_i hsessions
      split at h
      · rename_i htakes
        have hun₁ : (first.directPass.any fun p => p.fresh (w.moment d₁.tick).now.toNat) = false →
            d₁.toPurse.Clean first.key .direct := by
          rw [htick rfl htakes, hwait.purse]
          exact hun (by simpa using hsessions) htakes
        split at h
        · rename_i e d₂ hpass
          cases h
          refine ⟨hlead.trans (kept_firstHopPass hlead.kept hun₁ hpass).1, ?_⟩
          intro got hgot
          cases hgot
        · rename_i d₂ hpass
          cases h
          refine ⟨hlead.trans (kept_firstHopPass hlead.kept hun₁ hpass).1, ?_⟩
          intro got hgot
          cases hgot
        · rename_i invite d₂ hpass
          cases h
          obtain ⟨hlead', hok⟩ := kept_firstHopPass hlead.kept hun₁ hpass
          have hgot := hok invite rfl
          have hwin := hlead'.kept.win hgot.told
          refine ⟨hlead.trans (hlead'.trans hwin), ?_⟩
          intro got hgot'
          cases hgot'
          exact hwin.got hgot
      · cases h
        refine ⟨hlead, ?_⟩
        intro got hgot
        cases hgot

theorem sameFor_askFirst {first : Invite} {held : List SocketAddr} {node : String}
    {reply : Except Failure (Option (Invite × Option Key))} (hother : first.key ≠ node)
    (h : askFirst r.c r.lib w first held d = (reply, d')) : Purse.SameFor node d.toPurse d'.toPurse := by
  have hpass : ∀ {reply₁ d₁ d₂}, firstHopPass r.c r.lib w first d₁ = (reply₁, d₂) →
      Purse.SameFor node d₁.toPurse d₂.toPurse := by
    intro reply₁ d₁ d₂ h
    rcases firstHopPass_cases h with ⟨hwait, -⟩ | ⟨pass, d₃, -, htake, hout⟩
    · exact .of_eq hwait.purse
    · obtain ⟨htaken, hkey⟩ := Purse.SameFor.takeFor htake hother
      have hredeemed : ∀ d, (cancelOr w (redeemPass r.c r.lib w (recordOf first) pass .direct) d).2.toPurse = d.toPurse :=
        purse_cancelOr (purse_redeemPass _ _ _)
      have hthere := hredeemed d₃
      rcases hout with ⟨invite, hredeem, -⟩ | ⟨e, d₄, hredeem, hwait, -⟩
      · rw [hredeem] at hthere
        exact htaken.trans (.of_eq hthere)
      · rw [hredeem] at hthere
        have hback : Purse.SameFor node d₄.toPurse (d₄.afterFailure pass .direct e).toPurse := by
          apply Purse.SameFor.afterFailure
          rw [hkey]
          exact hother
        exact htaken.trans ((Purse.SameFor.of_eq hthere).trans (hback.trans (.of_eq hwait.purse)))
  unfold askFirst at h
  have hhold : (if (first.admitsSessions || first.takesPasses) && !held.isEmpty then
      holdAdmitting w first "could not hold the kill switch to ask the first node for admission" d
      else (.ok (), d)).2.toPurse = d.toPurse := by
    split
    · exact purse_holdAdmitting _ _ _
    · rfl
  split at h
  · rename_i e d₁ heq
    rw [heq] at hhold
    cases h
    exact .of_eq hhold
  · rename_i d₁ heq
    rw [heq] at hhold
    refine (Purse.SameFor.of_eq hhold).trans ?_
    split at h
    · have hask : (askDirect r.c r.lib w first ("asking " ++ first.nodeName ++ " for admission") d₁).2.toPurse =
          d₁.toPurse := purse_askDirect _ _ _
      split at h <;>
      · rename_i heq
        rw [heq] at hask
        cases h
        exact .of_eq hask
    · split at h
      · split at h
        · rename_i e d₂ heq
          cases h
          exact hpass heq
        · rename_i d₂ heq
          cases h
          exact hpass heq
        · rename_i invite d₂ heq
          cases h
          have hsame := hpass heq
          exact ⟨hsame.next, hsame.returned⟩
      · cases h
        exact .of_eq rfl

/-! ### The whole circuit -/

/-- The tunnels of a circuit show every node a key of the way it is reached. -/
structure Ready (r : Keyring Key Pk) (W : List Invite) (spec : CircuitSpec Key) (d : Desk) : Prop where
  entry : r.FitsEntry W spec d
  exit : r.Fits W spec.exit spec.exitShown spec.exitWay d

theorem kept_askExit {first exit entry : Invite} {spec : CircuitSpec Key} {ask : Ask}
    {reply : Except Failure (CircuitSpec Key)} (hapart : r.Apart w.made) (hd : r.Kept w.made W ask.hand [] d)
    (hentry : spec.entry = some entry) (hfits : r.FitsEntry W spec d)
    (hway : ∀ p, ask = .pass p → ∀ way', (p, way') ∈ d.returned → way' = .behind)
    (h : askExit r.c r.lib w first exit r.key spec entry ask d = (reply, d')) :
    r.Leads w.made W [] [] d d' ∧ ∀ spec', reply = .ok spec' → r.Ready W spec' d' := by
  unfold askExit at h
  split at h
  · rename_i e d₁ hadmit
    cases h
    refine ⟨(kept_admitBehind hapart hd (hfits entry hentry) hway hadmit).1, ?_⟩
    intro spec' hspec'
    cases hspec'
  · rename_i got d₁ hadmit
    obtain ⟨hlead, hok⟩ := kept_admitBehind hapart hd (hfits entry hentry) hway hadmit
    have hgot := hok got rfl
    have hfits₁ := hlead.fits (hfits entry hentry)
    split at h
    · rename_i e d₂ hagain
      cases h
      refine ⟨hlead.trans (kept_sessionAgain hapart hlead.kept hfits₁ hgot hagain).1, ?_⟩
      intro spec' hspec'
      cases hspec'
    · rename_i invite fresh d₂ hagain
      obtain ⟨hlead₂, hok₂⟩ := kept_sessionAgain hapart hlead.kept hfits₁ hgot hagain
      have hgot₂ := hok₂ _ rfl
      have hwin : r.Leads w.made W [] [] d₂ (if invite.pass.isSome then d₂.win invite else d₂) := by
        split
        · exact hlead₂.kept.win hgot₂.told
        · exact hlead₂.kept.leads
      dsimp only at h
      generalize (if invite.pass.isSome then d₂.win invite else d₂) = d₃ at h hwin
      have hlead₃ := hlead.trans (hlead₂.trans hwin)
      have hfits₃ : r.FitsEntry W spec d₃ := fun e he => hlead₃.fits (hfits e he)
      split at h
      · rename_i e d₄ hloop
        cases h
        refine ⟨hlead₃.trans (kept_entryAgain hapart hlead₃.kept hfits₃ hloop).1, ?_⟩
        intro spec' hspec'
        cases hspec'
      · rename_i spec₁ d₄ hloop
        cases h
        obtain ⟨hlead₄, hok₄⟩ := kept_entryAgain hapart hlead₃.kept hfits₃ hloop
        obtain ⟨hfits₄, htwo⟩ := hok₄ spec₁ rfl
        have htwo₁ := htwo (by rw [hentry]; rfl)
        refine ⟨hlead₃.trans hlead₄, ?_⟩
        intro spec' hspec'
        cases hspec'
        refine ⟨hfits₄, ?_⟩
        have hexit := (hlead₄.got (hwin.got hgot₂)).fits
        unfold CircuitSpec.exitShown CircuitSpec.exitWay
        rw [if_pos htwo₁]
        cases fresh with
        | some x => exact hexit
        | none =>
          obtain ⟨e, he⟩ := Option.isSome_iff_exists.1 htwo₁
          dsimp only
          rw [he]
          exact hexit

theorem ready_withFirst {exit : Invite} {entry : Option Invite} {admitted : Option (Invite × Option Key)}
    (hhops : ∀ i ∈ hops exit entry, r.Told W i d ∧ (i.pass = none → i.nodePublicKey ∈ r.nodes))
    (hgot : ∀ got, admitted = some got → r.Got W .direct got d) :
    r.Ready W ((CircuitSpec.new exit entry).withFirst admitted) d := by
  have hexit : ∀ way : Way, r.Fits W exit way.shownKey way d := by
    intro way
    obtain ⟨htold, hnode⟩ := hhops exit (by simp [hops])
    exact htold.fits hnode way
  cases admitted with
  | none =>
    constructor
    · intro e he
      obtain ⟨htold, hnode⟩ := hhops e (by simp [hops, show entry = some e from he])
      exact htold.fits hnode .direct
    · cases entry with
      | none => exact hexit .direct
      | some e => exact hexit .behind
  | some got =>
    have hfirst := hgot got rfl
    cases entry with
    | none =>
      constructor
      · intro e he
        cases he
      · have hfits := hfirst.fits
        obtain ⟨invite, fresh⟩ := got
        cases fresh with
        | none => exact hfits
        | some x => exact hfits
    | some e => exact ⟨hfirst.fitsEntry, hexit .behind⟩

theorem isSome_withFirst (exit : Invite) (entry : Option Invite) (admitted : Option (Invite × Option Key)) :
    ((CircuitSpec.new exit entry).withFirst admitted).entry.isSome = entry.isSome := by
  cases admitted with
  | none => rfl
  | some got => cases entry <;> rfl

theorem kept_prepare {exit : Invite} {entry : Option Invite} {held : List SocketAddr}
    {reply : Except Failure (CircuitSpec Key)} (hapart : r.Apart w.made) (hd : r.Kept w.made W [] [] d)
    (hhops : ∀ i ∈ hops exit entry, r.Told W i d ∧ (i.pass = none → i.nodePublicKey ∈ r.nodes))
    (htwo : ∀ e, entry = some e → e.key ≠ exit.key)
    (hun : checkPlan exit entry d.wallet = .ok () → d.Unspoiled exit entry held w)
    (h : prepare r.c r.lib w exit entry r.key held d = (reply, d')) :
    r.Leads w.made W [] [] d d' ∧ ∀ spec, reply = .ok spec → r.Ready W spec d' := by
  unfold prepare at h
  dsimp only at h
  split at h
  · cases h
    refine ⟨hd.leads, ?_⟩
    intro spec hspec
    cases hspec
  · rename_i hplan
    obtain ⟨hunFirst, hunExit⟩ := hun hplan
    split at h
    · rename_i e d₁ hask
      cases h
      refine ⟨(kept_askFirst hapart hd hunFirst hask).1, ?_⟩
      intro spec hspec
      cases hspec
    · rename_i admitted d₁ hask
      obtain ⟨hlead, hok⟩ := kept_askFirst hapart hd hunFirst hask
      have hready : r.Ready W ((CircuitSpec.new exit entry).withFirst admitted) d₁ := by
        apply ready_withFirst
        · intro i hi
          obtain ⟨htold, hnode⟩ := hhops i hi
          exact ⟨hlead.told htold, hnode⟩
        · intro got hgot
          apply hok
          rw [hgot]
      split at h
      · cases h
        refine ⟨hlead, ?_⟩
        intro spec hspec
        cases hspec
        exact hready
      · rename_i entry' hentry
        have hsome : entry.isSome = true := by
          rw [← isSome_withFirst exit entry admitted, hentry]
          rfl
        obtain ⟨e, rfl⟩ := Option.isSome_iff_exists.1 hsome
        split at h
        · rename_i e' d₂ hfor
          rcases askFor_cases hfor with ⟨rfl, -⟩ | ⟨_, _, _, _, hno⟩
          · cases h
            refine ⟨hlead, ?_⟩
            intro spec hspec
            cases hspec
          · cases hno
        · rename_i d₂ hfor
          rcases askFor_cases hfor with ⟨rfl, -⟩ | ⟨_, _, _, _, hno⟩
          · cases h
            refine ⟨hlead, ?_⟩
            intro spec hspec
            cases hspec
            exact hready
          · cases hno
        · rename_i ask d₂ hfor
          rcases askFor_cases hfor with ⟨rfl, hno | hno | hsession⟩ | ⟨pass, htakes, hopen, htake, hpass⟩
          · obtain ⟨_, hno⟩ := hno
            cases hno
          · cases hno
          · cases hsession
            have hhand : r.Kept w.made W Ask.session.hand [] d₂ := hlead.kept
            obtain ⟨hlead', hok'⟩ := kept_askExit hapart hhand hentry hready.entry (by simp) h
            exact ⟨hlead.trans hlead', hok'⟩
          · cases hpass
            obtain ⟨htaken, hreturned, hfind⟩ := hlead.kept.takeFor htake
            have hclean : d₁.toPurse.Clean exit.key .behind :=
              (sameFor_askFirst (htwo e rfl) hask).clean (hunExit rfl hopen htakes)
            have hway : ∀ p, Ask.pass pass = .pass p → ∀ way', (p, way') ∈ d₂.returned → way' = .behind := by
              intro p hp way' hback
              cases hp
              rw [hreturned] at hback
              exact hclean pass hfind (pass, way') hback rfl
            have hhand : r.Kept w.made W (Ask.pass pass).hand [] d₂ := htaken.kept
            have hfits : r.FitsEntry W ((CircuitSpec.new exit (some e)).withFirst admitted) d₂ :=
              fun e' he' => htaken.fits (hready.entry e' he')
            obtain ⟨hlead', hok'⟩ := kept_askExit hapart hhand hentry hfits hway h
            exact ⟨hlead.trans (htaken.trans hlead'), hok'⟩

end Keyring

end HidraNet.Client
