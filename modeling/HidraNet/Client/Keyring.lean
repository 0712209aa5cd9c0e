import HidraNet.Client.Passes

/-!
# The keys of a client

A key belongs to a way once it was shown that way, once an invite is bound to it, or because it is derived for that way
(`Keyring.Spoken`).

What is kept of the keys while nodes are asked (`Keyring.Kept`): no key belongs to both ways, a key of the wallet was
shown only if its pass is noted as put back, and a key not yet made belongs to no way.  One lemma for each thing that
is done with a key: it waits, it is shown, its pass is taken, redeemed, spent or put back, and an invite is won with it.
-/

namespace HidraNet.Client

open HidraNet.Core Net Text

def saidBy (pass : Pass) (way : Way) (e : Failure) : List (Pass × Way) := if e.received then [(pass, way)] else []

def World.made {Key : Type} (w : World Key) (t : Nat) : Except String Key := (w.moment t).generated

/-- A client's master key, and the nodes it deals with. -/
structure Keyring (Key Pk : Type) where
  c : Crypto Pk
  lib : KeyLib Key
  key : Key
  nodes : List String

namespace Keyring

variable {Key Pk : Type} (r : Keyring Key Pk)

def publicOf (secret : String) : Option String :=
  match clientKeyFromBase64 r.c r.lib secret with
  | .ok k => some (r.lib.publicBase64 k)
  | .error _ => none

def passKey (p : Pass) : Option String := r.publicOf p.clientSecret

/-- The public key of what is derived for a node reached this way. -/
def derivedKey (way : Way) (node : String) : Option String :=
  match (match way with
    | .direct => forNodeBase64 r.c r.lib r.key node
    | .behind => forNodeBehindBase64 r.c r.lib r.key node) with
  | .ok x => some (r.lib.publicBase64 x)
  | .error _ => none

def Bound (i : Invite) (k : String) (way : Way) : Prop :=
  ∃ b, i.pass = some b ∧ r.publicOf b.clientSecret = some k ∧ b.behind = some (decide (way = .behind))

/-- A key belongs to a way. -/
inductive Spoken (won : List Invite) (shown : List Shown) (k : String) (way : Way) : Prop where
  | shown (node : String) (mem : ⟨node, k, way⟩ ∈ shown)
  | bound (i : Invite) (mem : i ∈ won) (bound : r.Bound i k way)
  | derived (node : String) (mem : node ∈ r.nodes) (derived : r.derivedKey way node = some k)

theorem Spoken.mono {won won' : List Invite} {shown shown' : List Shown} {k : String} {way : Way}
    (h : r.Spoken won shown k way) (hwon : won ⊆ won') (hshown : shown ⊆ shown') : r.Spoken won' shown' k way := by
  cases h with
  | shown node mem => exact .shown node (hshown mem)
  | bound i mem bound => exact .bound i (hwon mem) bound
  | derived node mem derived => exact .derived node mem derived

theorem spoken_show' {won : List Invite} {shown : List Shown} {node k₀ k : String} {way₀ way : Way} :
    r.Spoken won (shown ++ [⟨node, k₀, way₀⟩]) k way ↔ r.Spoken won shown k way ∨ (k = k₀ ∧ way = way₀) := by
  constructor
  · intro h
    cases h with
    | shown node' mem =>
      rcases List.mem_append.1 mem with h | h
      · exact Or.inl (.shown node' h)
      · right
        simp only [List.mem_singleton, Shown.mk.injEq] at h
        exact ⟨h.2.1, h.2.2⟩
    | bound i mem bound => exact Or.inl (.bound i mem bound)
    | derived node' mem derived => exact Or.inl (.derived node' mem derived)
  · rintro (h | ⟨rfl, rfl⟩)
    · exact h.mono r (List.Subset.refl _) (List.subset_append_left _ _)
    · exact .shown node (by simp)

/-! ### What is kept -/

section

variable (gen : Nat → Except String Key) (W : List Invite) (hand : List Pass) (said : List (Pass × Way))

/-- The keys of a connection, `W` the invites won before it, `hand` the passes in hand and `said` the ways they were
shown while in hand; `gen` are the keys it makes. -/
structure Kept (d : Desk) : Prop where
  one : Relator.RightUnique (r.Spoken (W ++ d.won) d.shown)
  pool : ((hand ++ d.wallet).filterMap r.passKey).Nodup
  back : ∀ p ∈ hand ++ d.wallet, ∀ k way, r.passKey p = some k → r.Spoken (W ++ d.won) d.shown k way →
    (p, way) ∈ d.returned ++ said
  unborn : ∀ t, d.tick ≤ t → ∀ x, gen t = .ok x → (∀ way, ¬ r.Spoken (W ++ d.won) d.shown (r.lib.publicBase64 x) way) ∧
    ∀ p ∈ hand ++ d.wallet, r.passKey p ≠ some (r.lib.publicBase64 x)

/-- What a desk leads to: the keys are kept, and what belonged to a way still does. -/
structure Leads (d d' : Desk) : Prop where
  kept : r.Kept gen W hand said d'
  grows : ∀ k way, r.Spoken (W ++ d.won) d.shown k way → r.Spoken (W ++ d'.won) d'.shown k way

/-- A key that may be shown this way. -/
structure Sayable (k : String) (way : Way) (d : Desk) : Prop where
  single : ∀ way', r.Spoken (W ++ d.won) d.shown k way' → way' = way
  pool : ∀ p ∈ hand ++ d.wallet, r.passKey p = some k → (p, way) ∈ d.returned ++ said
  born : ∀ t, d.tick ≤ t → ∀ x, gen t = .ok x → r.lib.publicBase64 x ≠ k

def Apart : Prop :=
  ∀ t u x y, gen t = .ok x → gen u = .ok y → r.lib.publicBase64 x = r.lib.publicBase64 y → t = u

end

variable {r} {gen : Nat → Except String Key} {W : List Invite} {hand : List Pass} {said said' : List (Pass × Way)}
  {d d' d₁ : Desk} {pass : Pass} {k node : String} {way : Way}

theorem Leads.trans {hand' : List Pass} (h : r.Leads gen W hand' said' d d₁) (h' : r.Leads gen W hand said d₁ d') :
    r.Leads gen W hand said d d' := by
  refine ⟨h'.kept, ?_⟩
  intro k way hk
  exact h'.grows k way (h.grows k way hk)

theorem Kept.leads (h : r.Kept gen W hand said d) : r.Leads gen W hand said d d := ⟨h, fun _ _ hk => hk⟩

theorem Kept.wait (h : r.Kept gen W hand said d) (hwait : d.Waits d') : r.Leads gen W hand said d d' := by
  obtain ⟨⟨wallet, won, taken, refused, returned⟩, notes, tick, shown⟩ := d
  obtain ⟨purse', notes', tick', shown'⟩ := d'
  obtain ⟨hpurse, hshown, htick⟩ := hwait
  dsimp only at hpurse hshown htick
  subst hpurse hshown
  refine ⟨⟨h.one, h.pool, h.back, ?_⟩, ?_⟩
  · intro t ht x hx
    exact h.unborn t (htick.trans ht) x hx
  · intro k way hk
    exact hk

theorem Kept.next (h : r.Kept gen W hand said d) : r.Leads gen W hand said d d.next := h.wait d.waits_next

theorem Kept.sayable (h : r.Kept gen W hand said d) (hk : r.Spoken (W ++ d.won) d.shown k way) :
    r.Sayable gen W hand said k way d := by
  constructor
  · intro way' hk'
    exact h.one hk' hk
  · intro p hp hkey
    exact h.back p hp k way hkey hk
  · intro t ht x hx heq
    apply (h.unborn t ht x hx).1 way
    rw [heq]
    exact hk

theorem Kept.sayable_made (h : r.Kept gen W hand said d) (hapart : r.Apart gen) {x : Key} (hx : gen d.tick = .ok x)
    (way : Way) : r.Sayable gen W hand said (r.lib.publicBase64 x) way d.next := by
  obtain ⟨hfree, hpool⟩ := h.unborn d.tick (Nat.le_refl _) x hx
  constructor
  · intro way' hk
    exact absurd hk (hfree way')
  · intro p hp hkey
    exact absurd hkey (hpool p hp)
  · intro t ht y hy heq
    have hlater : d.tick + 1 ≤ t := ht
    have hsame := hapart t d.tick y x hy hx heq
    omega

theorem Kept.say (h : r.Kept gen W hand said d) (hk : r.Sayable gen W hand said' k way d) (hsaid : said ⊆ said')
    (node : String) : r.Leads gen W hand said' d (d.show' node k way) := by
  refine ⟨⟨?_, h.pool, ?_, ?_⟩, ?_⟩
  · intro a b b' hb hb'
    rcases (r.spoken_show').1 hb with hb | ⟨rfl, rfl⟩
    · rcases (r.spoken_show').1 hb' with hb' | ⟨rfl, rfl⟩
      · exact h.one hb hb'
      · exact hk.single b hb
    · rcases (r.spoken_show').1 hb' with hb' | ⟨-, rfl⟩
      · exact (hk.single b' hb').symm
      · rfl
  · intro p hp a b ha hb
    rcases (r.spoken_show').1 hb with hb | ⟨rfl, rfl⟩
    · have hback := h.back p hp a b ha hb
      rw [List.mem_append] at hback ⊢
      exact hback.imp_right fun hp => hsaid hp
    · exact hk.pool p hp ha
  · intro t ht x hx
    obtain ⟨hfree, hpool⟩ := h.unborn t ht x hx
    refine ⟨?_, hpool⟩
    intro b hb
    rcases (r.spoken_show').1 hb with hb | ⟨heq, -⟩
    · exact hfree b hb
    · exact hk.born t ht x hx heq
  · intro a b hb
    exact (r.spoken_show').2 (Or.inl hb)

theorem Sayable.show' (hk : r.Sayable gen W hand said k way d) (node : String) :
    r.Sayable gen W hand said k way (d.show' node k way) := by
  refine ⟨?_, hk.pool, hk.born⟩
  intro way' h
  rcases (r.spoken_show').1 h with h | ⟨-, rfl⟩
  · exact hk.single way' h
  · rfl

theorem Sayable.wait (hk : r.Sayable gen W hand said k way d) (hwait : d.Waits d') :
    r.Sayable gen W hand said k way d' := by
  obtain ⟨hpurse, hshown, htick⟩ := hwait
  refine ⟨?_, ?_, ?_⟩
  · rw [hpurse, hshown]
    exact hk.single
  · rw [hpurse]
    exact hk.pool
  · intro t ht
    exact hk.born t (htick.trans ht)

theorem Sayable.next (hk : r.Sayable gen W hand said k way d) : r.Sayable gen W hand said k way d.next :=
  hk.wait d.waits_next

theorem Kept.sent (h : r.Kept gen W hand said d) (hk : r.Sayable gen W hand said' k way d) (hsaid : said ⊆ said')
    (node : String) : r.Leads gen W hand said' d (d.sent node k way true) :=
  h.next.trans (h.next.kept.say hk.next hsaid node)

/-! ### Passes in hand -/

theorem Kept.spent (h : r.Kept gen W [pass] said d) (hsaid : ∀ q ∈ said, q.1 = pass) : r.Leads gen W [] [] d d := by
  refine ⟨⟨h.one, ?_, ?_, ?_⟩, fun _ _ hk => hk⟩
  · have hpool := h.pool
    rw [List.filterMap_append] at hpool
    exact (List.nodup_append.1 hpool).2.1
  · intro p hp a b ha hb
    have hback := h.back p (List.mem_append_right _ hp) a b ha hb
    rw [List.append_nil]
    rcases List.mem_append.1 hback with hback | hback
    · exact hback
    · -- the same pass twice would be one key twice
      have hsame : p = pass := hsaid _ hback
      subst hsame
      have hpool := h.pool
      rw [List.singleton_append, List.filterMap_cons_some ha, List.nodup_cons] at hpool
      exact absurd (List.mem_filterMap.2 ⟨p, hp, ha⟩) hpool.1
  · intro t ht x hx
    obtain ⟨hfree, hpool⟩ := h.unborn t ht x hx
    exact ⟨hfree, fun p hp => hpool p (List.mem_append_right _ hp)⟩

theorem Kept.takeFor (h : r.Kept gen W [] [] d) (htake : d.takeFor node = some (pass, d')) :
    r.Leads gen W [pass] [] d d' ∧ d'.returned = d.returned ∧
      d.wallet.find? (fun p => p.key = trim node) = some pass := by
  obtain ⟨l₁, l₂, hl, -, hfind, rfl⟩ := Desk.takeFor_some htake
  have hperm : ([pass] ++ (l₁ ++ l₂)).Perm ([] ++ d.wallet) := by
    rw [hl, List.nil_append, List.singleton_append]
    exact List.perm_middle.symm
  refine ⟨⟨⟨h.one, ?_, ?_, ?_⟩, fun _ _ hk => hk⟩, rfl, hfind⟩
  · exact (hperm.filterMap _).nodup_iff.2 h.pool
  · intro q hq
    exact h.back q (hperm.mem_iff.1 hq)
  · intro t ht x hx
    obtain ⟨hfree, hpool⟩ := h.unborn t ht x hx
    exact ⟨hfree, fun q hq => hpool q (hperm.mem_iff.1 hq)⟩

theorem Kept.afterFailure {e : Failure} (h : r.Kept gen W [pass] (saidBy pass way e) d) :
    r.Leads gen W [] [] d (d.afterFailure pass way e) := by
  have hsaid : ∀ q ∈ saidBy pass way e, q.1 = pass := by
    intro q hq
    unfold saidBy at hq
    split at hq
    · rw [List.mem_singleton.1 hq]
    · cases hq
  have hspent := h.spent hsaid
  unfold Desk.afterFailure
  split
  · exact ⟨⟨hspent.kept.one, hspent.kept.pool, hspent.kept.back, hspent.kept.unborn⟩, hspent.grows⟩
  · have hperm : ([] ++ (d.wallet ++ [pass])).Perm ([pass] ++ d.wallet) := List.perm_append_singleton _ _
    have hreturned : (if e.received then d.returned ++ [(pass, way)] else d.returned) ++ [] =
        d.returned ++ saidBy pass way e := by
      unfold saidBy
      split <;> simp
    refine ⟨⟨h.one, ?_, ?_, ?_⟩, fun _ _ hk => hk⟩
    · exact (hperm.filterMap _).nodup_iff.2 h.pool
    · intro p hp a b ha hb
      rw [hreturned]
      exact h.back p (hperm.mem_iff.1 hp) a b ha hb
    · intro t ht x hx
      obtain ⟨hfree, hpool⟩ := h.unborn t ht x hx
      exact ⟨hfree, fun p hp => hpool p (hperm.mem_iff.1 hp)⟩

def Told (r : Keyring Key Pk) (W : List Invite) (i : Invite) (d : Desk) : Prop :=
  ∀ k way, r.Bound i k way → r.Spoken (W ++ d.won) d.shown k way

theorem told_of_none {i : Invite} (h : i.pass = none) : r.Told W i d := by
  rintro k way ⟨b, hb, -⟩
  rw [h] at hb
  cases hb

theorem Leads.told {i : Invite} (h : r.Leads gen W hand said d d') (hi : r.Told W i d) : r.Told W i d' := by
  intro k way hk
  exact h.grows k way (hi k way hk)

theorem Kept.win {i : Invite} (h : r.Kept gen W hand said d) (hi : r.Told W i d) :
    r.Leads gen W hand said d (d.win i) := by
  have hsame : ∀ k way, r.Spoken (W ++ (d.win i).won) (d.win i).shown k way ↔ r.Spoken (W ++ d.won) d.shown k way := by
    intro k way
    constructor
    · intro hk
      cases hk with
      | shown node mem => exact .shown node mem
      | bound j mem bound =>
        have hwon : (d.win i).won = d.won ++ [i] := rfl
        rw [hwon, ← List.append_assoc] at mem
        rcases List.mem_append.1 mem with mem | mem
        · exact .bound j mem bound
        · rw [List.mem_singleton.1 mem] at bound
          exact hi k way bound
      | derived node mem derived => exact .derived node mem derived
    · intro hk
      refine hk.mono r ?_ (List.Subset.refl _)
      intro j hj
      rw [List.mem_append] at hj ⊢
      exact hj.imp_right fun hj => List.mem_append_left _ hj
  refine ⟨⟨?_, h.pool, ?_, ?_⟩, fun k way hk => (hsame k way).2 hk⟩
  · intro a b b' hb hb'
    exact h.one ((hsame a b).1 hb) ((hsame a b').1 hb')
  · intro p hp a b ha hb
    exact h.back p hp a b ha ((hsame a b).1 hb)
  · intro t ht x hx
    obtain ⟨hfree, hpool⟩ := h.unborn t ht x hx
    exact ⟨fun b hb => hfree b ((hsame _ b).1 hb), hpool⟩

/-! ### Requests -/

variable {w : World Key}

theorem Kept.request (h : r.Kept gen W hand said d) (hk : r.Sayable gen W hand said k way d) (node : String)
    (received : Bool) : r.Leads gen W hand said d (d.sent node k way received) ∧
      r.Sayable gen W hand said k way (d.sent node k way received) ∧
      (received = true → r.Spoken (W ++ d.won) (d.sent node k way received).shown k way) := by
  cases received with
  | true =>
    refine ⟨h.sent hk (List.Subset.refl _) node, hk.next.show' node, ?_⟩
    intro _
    exact (r.spoken_show').2 (Or.inr ⟨rfl, rfl⟩)
  | false =>
    refine ⟨h.next, hk.next, ?_⟩
    intro hno
    cases hno

theorem kept_requested {client : String} {received : Bool} (hd : r.Kept gen W hand said d)
    (hk : r.Sayable gen W hand said client way d) (h : Requested w node client way d received d') :
    r.Leads gen W hand said d d' ∧ (received = true → r.Spoken (W ++ d'.won) d'.shown client way) := by
  induction h with
  | last d =>
    obtain ⟨hlead, -, hshown⟩ := hd.request hk node (w.moment d.tick).reply.received
    refine ⟨hlead, ?_⟩
    rw [Desk.toPurse_sent]
    exact hshown
  | again _ ih =>
    obtain ⟨hlead, hk', -⟩ := hd.request hk node (w.moment _).reply.received
    obtain ⟨hlead', hshown⟩ := ih hlead.kept hk'
    exact ⟨hlead.trans hlead', hshown⟩

theorem kept_requestAdmission {record : NodeRecord} {client : String} {session : Bool}
    {reply : Except Failure Invite} (hd : r.Kept gen W hand said d) (hk : r.Sayable gen W hand said client way d)
    (h : requestAdmission r.c w record client session way d = (reply, d')) :
    r.Leads gen W hand said d d' ∧
      ∀ i, reply = .ok i → r.Spoken (W ++ d'.won) d'.shown client way ∧ i.pass = none := by
  rcases requestAdmission_requested h with ⟨⟨e, rfl⟩, rfl⟩ | ⟨received, hrequested, hok⟩
  · refine ⟨hd.leads, ?_⟩
    intro i hi
    cases hi
  · obtain ⟨hlead, hshown⟩ := kept_requested hd hk hrequested
    refine ⟨hlead, ?_⟩
    intro i hi
    obtain ⟨hreceived, hnone⟩ := hok i hi
    exact ⟨hshown hreceived, hnone⟩

theorem kept_redeemPass {record : NodeRecord} {reply : Except Failure Invite} (hd : r.Kept gen W [pass] [] d)
    (hway : ∀ way', (pass, way') ∈ d.returned → way' = way)
    (h : redeemPass r.c r.lib w record pass way d = (reply, d')) :
    (∀ e, reply = .error e → r.Leads gen W [pass] (saidBy pass way e) d d') ∧
      ∀ i, reply = .ok i → r.Leads gen W [] [] d d' ∧ r.Told W i d' ∧ i.pass.isSome = true := by
  rcases redeemPass_cases h with ⟨⟨why, rfl⟩, rfl⟩ | ⟨client, received, hclient, rfl, herror, hok⟩
  · constructor
    · intro e he
      cases he
      exact hd.leads
    · intro i hi
      cases hi
  · have hkey : r.passKey pass = some (r.lib.publicBase64 client) := by
      unfold passKey publicOf
      rw [hclient]
    have hsayable : r.Sayable gen W [pass] [(pass, way)] (r.lib.publicBase64 client) way d := by
      refine ⟨?_, ?_, ?_⟩
      · intro way' hk
        apply hway
        have hback := hd.back pass (by simp) _ way' hkey hk
        simpa using hback
      · intro p hp hpkey
        rcases List.mem_append.1 hp with hp | hp
        · rw [List.mem_singleton.1 hp]
          simp
        · -- the wallet has no second pass with this key
          have hpool := hd.pool
          rw [List.singleton_append, List.filterMap_cons_some hkey, List.nodup_cons] at hpool
          exact absurd (List.mem_filterMap.2 ⟨p, hp, hpkey⟩) hpool.1
      · intro t ht x hx heq
        apply (hd.unborn t ht x hx).2 pass (by simp)
        rw [hkey, heq]
    have hsent := hd.sent hsayable (List.nil_subset _) record.key
    constructor
    · intro e he
      unfold saidBy
      rw [herror e he]
      cases received with
      | true => exact hsent
      | false => exact hd.next
    · intro i hi
      obtain ⟨rfl, b, hb, hsecret, hbehind⟩ := hok i hi
      have hspent : r.Leads gen W [] [] d (d.sent record.key (r.lib.publicBase64 client) way true) :=
        hsent.trans (hsent.kept.spent (by simp))
      refine ⟨hspent, ?_, by rw [hb]; rfl⟩
      rintro k way' ⟨b', hb', hk, hbehind'⟩
      rw [hb] at hb'
      cases hb'
      rw [hsecret] at hk
      have hsame : k = r.lib.publicBase64 client := Option.some.inj (hk.symm.trans hkey)
      have hsameWay : way' = way := by
        rw [hbehind] at hbehind'
        cases way <;> cases way' <;> simp at hbehind' ⊢
      rw [hsame, hsameWay]
      exact (r.spoken_show').2 (Or.inr ⟨rfl, rfl⟩)

end Keyring

end HidraNet.Client
