import HidraNet.Client.Circuit

/-!
# No pass is lost or doubled

Whatever becomes of a connection being prepared, every pass of the wallet is afterwards in the wallet, bound to an
invite that was won, or refused by its node (`prepare_accounted`).  A pass in hand is accounted for beside the purse.

One pass is taken at most for each hop asked; the two hops of one node take two (`not_onePerNode`).
-/

namespace HidraNet.Client

open HidraNet.Core Net Text

def boundSecret (i : Invite) : Option String := i.pass.map (·.clientSecret)

/-- Every pass of the wallet `W` is accounted for, the ones in hand included, and the passes taken were for nodes
asked, one each. -/
structure Accounted (W : List Pass) (V : List Invite) (asked : List String) (hand : List Pass) (p : Purse) : Prop where
  kept : ∃ redeemed new, W.Perm (hand ++ (p.wallet ++ redeemed ++ p.refused)) ∧ p.won = V ++ new ∧
    new.map boundSecret = redeemed.map fun q => some q.clientSecret
  taken : (p.taken.map Pass.key).Sublist asked

namespace Accounted

variable {W : List Pass} {V : List Invite} {asked asked' : List String} {hand : List Pass} {d d' : Desk} {pass : Pass}

theorem more (h : Accounted W V asked hand d.toPurse) (hasked : asked.Sublist asked') :
    Accounted W V asked' hand d.toPurse := ⟨h.kept, h.taken.trans hasked⟩

theorem takeFor (h : Accounted W V asked [] d.toPurse) {nodePublic : String}
    (htake : d.takeFor nodePublic = some (pass, d')) :
    Accounted W V (asked ++ [trim nodePublic]) [pass] d'.toPurse := by
  obtain ⟨redeemed, new, hperm, hwon, hnew⟩ := h.kept
  obtain ⟨l₁, l₂, hl, hkey, -, rfl⟩ := Desk.takeFor_some htake
  constructor
  · refine ⟨redeemed, new, ?_, hwon, hnew⟩
    rw [List.perm_iff_count]
    intro q
    have hq := hperm.count_eq q
    rw [hl] at hq
    simp only [List.count_append, List.count_cons, List.count_nil] at hq ⊢
    omega
  · dsimp only
    rw [List.map_append, List.map_cons, List.map_nil, hkey]
    exact h.taken.append (List.Sublist.refl _)

theorem afterFailure (h : Accounted W V asked [pass] d.toPurse) (way : Way) (e : Failure) :
    Accounted W V asked [] (d.afterFailure pass way e).toPurse := by
  obtain ⟨redeemed, new, hperm, hwon, hnew⟩ := h.kept
  have hback : ∀ wallet refused : List Pass, (wallet ++ refused).Perm (pass :: (d.wallet ++ d.refused)) →
      W.Perm ([] ++ (wallet ++ redeemed ++ refused)) := by
    intro wallet refused hwallet
    rw [List.perm_iff_count]
    intro q
    have hq := hperm.count_eq q
    have hq' := hwallet.count_eq q
    simp only [List.count_append, List.count_cons, List.count_nil] at hq hq' ⊢
    omega
  unfold Desk.afterFailure
  split
  · refine ⟨⟨redeemed, new, hback _ _ ?_, hwon, hnew⟩, h.taken⟩
    rw [← List.append_assoc]
    exact List.perm_append_singleton _ _
  · refine ⟨⟨redeemed, new, hback _ _ ?_, hwon, hnew⟩, h.taken⟩
    rw [List.append_assoc]
    exact List.perm_middle

theorem back (h : Accounted W V asked [pass] d.toPurse) :
    Accounted W V asked [] { d.toPurse with wallet := d.wallet ++ [pass] } :=
  h.afterFailure .direct (failure "")

theorem win (h : Accounted W V asked [pass] d.toPurse) {invite : Invite}
    (hinvite : boundSecret invite = some pass.clientSecret) : Accounted W V asked [] (d.win invite).toPurse := by
  obtain ⟨redeemed, new, hperm, hwon, hnew⟩ := h.kept
  refine ⟨⟨redeemed ++ [pass], new ++ [invite], ?_, ?_, ?_⟩, h.taken⟩
  · rw [List.perm_iff_count]
    intro q
    have hq := hperm.count_eq q
    unfold Desk.win
    simp only [List.count_append, List.count_cons, List.count_nil] at hq ⊢
    omega
  · unfold Desk.win
    dsimp only
    rw [hwon, List.append_assoc]
  · simp only [List.map_append, hnew, List.map_cons, List.map_nil, hinvite]

end Accounted

/-! ### Asking leaves the purse alone -/

section

variable {Key Pk : Type} {c : Crypto Pk} {lib : KeyLib Key} {w : World Key}

theorem purse_cancelOr {α : Type} {f : Desk → Except Failure α × Desk} (hf : ∀ d, (f d).2.toPurse = d.toPurse)
    (d : Desk) : (cancelOr w f d).2.toPurse = d.toPurse := by
  unfold cancelOr
  split
  · rfl
  · rw [hf, Desk.toPurse_next]

theorem purse_generate (d : Desk) : (generate w d).2.toPurse = d.toPurse := rfl

theorem purse_askSession (node : Invite) (way : Way) (d : Desk) :
    (askSession c lib w node way d).2.toPurse = d.toPurse := by
  have hmade := purse_generate (w := w) d
  unfold askSession
  split
  · rename_i e d' h
    rwa [h] at hmade
  · rename_i fresh d' h
    rw [h] at hmade
    have hask := purse_requestAdmission (c := c) (w := w) (recordOf node) (lib.publicBase64 fresh) true way d'
    split <;>
    · rename_i h'
      rw [h'] at hask
      exact hask.trans hmade

theorem purse_askDirect (node : Invite) (how : String) (d : Desk) :
    (askDirect c lib w node how d).2.toPurse = d.toPurse := by
  have hmade := purse_generate (w := w) d
  unfold askDirect
  split
  · rename_i e d' h
    rwa [h] at hmade
  · rename_i fresh d' h
    rw [h] at hmade
    have hask := purse_cancelOr (w := w) (f := requestAdmission c w (recordOf node) (lib.publicBase64 fresh) true .direct)
      (purse_requestAdmission _ _ _ _) d'
    split <;>
    · rename_i h'
      rw [h'] at hask
      exact hask.trans hmade

theorem purse_holdAdmitting (node : Invite) (why : String) (d : Desk) :
    (holdAdmitting w node why d).2.toPurse = d.toPurse := by
  unfold holdAdmitting
  split
  · rfl
  · split <;> rfl

theorem purse_bridgeTo (entry : Invite) (entryShown : ShownKey Key) (exit : Invite) (key : Key) (d : Desk) :
    (bridgeTo c lib w entry entryShown exit key d).2.toPurse = d.toPurse := by
  unfold bridgeTo
  split
  · rfl
  · split <;> rfl

theorem purse_entryAgain (first : Invite) (session : Bool) (invite : Invite) (tries : Nat) (spec : CircuitSpec Key)
    (d : Desk) : (entryAgain c lib w first session invite tries spec d).2.toPurse = d.toPurse := by
  induction tries generalizing spec d with
  | zero => rfl
  | succ tries ih =>
    have hagain : (entrySessionAgain c lib w first d).2.toPurse = d.toPurse := by
      have hhold := purse_holdAdmitting (w := w) first
        "could not hold the kill switch to ask the entry for another session" d
      unfold entrySessionAgain
      split
      · rename_i e d' h
        rwa [h] at hhold
      · rename_i d' h
        rw [h] at hhold
        rw [purse_askDirect, hhold]
    unfold entryAgain
    split
    · split
      · rename_i e d' h
        rwa [h] at hagain
      · rename_i again againKey d' h
        rw [h] at hagain
        rw [ih, hagain]
    · rfl

end

/-! ### What is asked of the nodes -/

def Ask.Wins (ask : Ask) (invite : Invite) : Prop := boundSecret invite = ask.hand.head?.map (·.clientSecret)

section

variable {Key Pk : Type} {c : Crypto Pk} {lib : KeyLib Key} {w : World Key} {W : List Pass} {V : List Invite}
  {asked : List String} {d d' : Desk}

theorem wins_askBehind {exit : Invite} {how : String} {ask : Ask} {got : Invite × Option Key}
    (h : (askBehind c lib w exit how ask d).1 = .ok got) : ask.Wins got.1 := by
  unfold askBehind at h
  split at h
  · cases h
  · split at h
    · split at h
      · cases h
      · rename_i invite fresh d' hask
        cases h
        unfold askSession at hask
        split at hask
        · cases hask
        · split at hask
          · cases hask
          · rename_i invite' d'' hrequest
            cases hask
            have hnone := requestAdmission_ok (congrArg Prod.fst hrequest)
            unfold Ask.Wins boundSecret
            rw [hnone]
            rfl
    · split at h
      · cases h
      · rename_i pass invite d' hredeem
        cases h
        obtain ⟨b, hb, hsecret, -⟩ := redeemPass_ok (congrArg Prod.fst hredeem)
        unfold Ask.Wins boundSecret
        rw [hb]
        simp [Ask.hand, hsecret]

theorem purse_askBehind (exit : Invite) (how : String) (ask : Ask) (d : Desk) :
    (askBehind c lib w exit how ask d).2.toPurse = d.toPurse := by
  unfold askBehind
  split
  · rfl
  · split
    · have hask : (askSession c lib w exit .behind d.next).2.toPurse = d.next.toPurse := purse_askSession _ _ _
      split <;>
      · rename_i h
        rwa [h] at hask
    · rename_i pass
      have hredeem : (redeemPass c lib w (recordOf exit) pass .behind d.next).2.toPurse = d.next.toPurse :=
        purse_redeemPass _ _ _ _
      split <;>
      · rename_i h
        rwa [h] at hredeem

theorem accounted_admitBehind {entry exit : Invite} {entryShown : ShownKey Key} {key : Key} {ask : Ask}
    {r : Except Failure (Invite × Option Key)} (hd : Accounted W V asked ask.hand d.toPurse)
    (h : admitBehind c lib w entry entryShown exit key ask d = (r, d')) :
    (∀ e, r = .error e → Accounted W V asked [] d'.toPurse) ∧
      ∀ got, r = .ok got → Accounted W V asked ask.hand d'.toPurse ∧ ask.Wins got.1 := by
  have hbridge : (bridgeTo c lib w entry entryShown exit key d).2.toPurse = d.toPurse := purse_bridgeTo _ _ _ _ _
  unfold admitBehind at h
  split at h
  · rename_i e d₁ hto
    rw [hto] at hbridge
    cases ask with
    | session =>
      cases h
      constructor
      · intro e' _
        rw [hbridge]
        exact hd
      · intro got hgot
        cases hgot
    | pass pass =>
      cases h
      constructor
      · intro e' _
        change Accounted W V asked [] { d₁.toPurse with wallet := d₁.wallet ++ [pass] }
        rw [hbridge]
        exact hd.back
      · intro got hgot
        cases hgot
  · rename_i d₁ hto
    rw [hto] at hbridge
    have hd₁ : Accounted W V asked ask.hand d₁.toPurse := by
      rw [hbridge]
      exact hd
    dsimp only at h
    have hasked := purse_cancelOr (w := w) (f := askBehind c lib w exit
      ("asking " ++ exit.nodeName ++ " for admission through " ++ entry.nodeName) ask) (purse_askBehind _ _ _) d₁
    have hwins : ∀ got, (cancelOr w (askBehind c lib w exit
        ("asking " ++ exit.nodeName ++ " for admission through " ++ entry.nodeName) ask) d₁).1 = .ok got →
        ask.Wins got.1 := by
      intro got hgot
      unfold cancelOr at hgot
      split at hgot
      · cases hgot
      · exact wins_askBehind hgot
    generalize cancelOr w (askBehind c lib w exit
      ("asking " ++ exit.nodeName ++ " for admission through " ++ entry.nodeName) ask) d₁ = out at h hasked hwins
    obtain ⟨r₂, d₂⟩ := out
    have hd₂ : Accounted W V asked ask.hand d₂.toPurse := by
      change d₂.toPurse = d₁.toPurse at hasked
      rw [hasked]
      exact hd₁
    cases r₂ with
    | ok got =>
      cases h
      constructor
      · intro e he
        cases he
      · intro got' hgot'
        cases hgot'
        exact ⟨hd₂, hwins got rfl⟩
    | error e =>
      constructor
      · intro _ _
        cases ask with
        | session =>
          cases h
          exact hd₂
        | pass pass =>
          cases h
          exact hd₂.afterFailure .behind e
      · intro got hgot
        subst hgot
        cases ask <;> cases h

theorem accounted_sessionAgain {entry exit : Invite} {entryShown : ShownKey Key} {key : Key} {ask : Ask} {tries : Nat}
    {got : Invite × Option Key} {r : Except Failure (Invite × Option Key)}
    (hd : Accounted W V asked ask.hand d.toPurse) (hgot : ask.Wins got.1)
    (h : sessionAgain c lib w entry entryShown exit key ask.isSession tries got d = (r, d')) :
    (∀ e, r = .error e → Accounted W V asked [] d'.toPurse) ∧
      ∀ got', r = .ok got' → Accounted W V asked ask.hand d'.toPurse ∧ ask.Wins got'.1 := by
  have hdone : (.ok got, d) = (r, d') → (∀ e, r = .error e → Accounted W V asked [] d'.toPurse) ∧
      ∀ got', r = .ok got' → Accounted W V asked ask.hand d'.toPurse ∧ ask.Wins got'.1 := by
    intro h
    cases h
    constructor
    · intro e he
      cases he
    · intro got' hgot'
      cases hgot'
      exact ⟨hd, hgot⟩
  induction tries generalizing got d with
  | zero => exact hdone h
  | succ tries ih =>
    unfold sessionAgain at h
    split at h
    · rename_i hagain
      cases ask with
      | pass pass => exact absurd hagain.2.1 (by simp [Ask.isSession])
      | session =>
        split at h
        · rename_i e d₁ hadmit
          cases h
          have hd₁ := (accounted_admitBehind hd hadmit).1 e rfl
          constructor
          · intro _ _
            exact hd₁
          · intro got' hgot'
            cases hgot'
        · rename_i got₁ d₁ hadmit
          obtain ⟨hd₁, hgot₁⟩ := (accounted_admitBehind hd hadmit).2 got₁ rfl
          refine ih hd₁ hgot₁ h ?_
          intro h'
          cases h'
          constructor
          · intro e he
            cases he
          · intro got' hgot'
            cases hgot'
            exact ⟨hd₁, hgot₁⟩
    · exact hdone h

theorem accounted_askExit {first exit entry : Invite} {key : Key} {spec : CircuitSpec Key} {ask : Ask}
    {r : Except Failure (CircuitSpec Key)} (hd : Accounted W V asked ask.hand d.toPurse)
    (h : askExit c lib w first exit key spec entry ask d = (r, d')) : Accounted W V asked [] d'.toPurse := by
  unfold askExit at h
  split at h
  · rename_i e d₁ hadmit
    cases h
    exact (accounted_admitBehind hd hadmit).1 e rfl
  · rename_i got d₁ hadmit
    obtain ⟨hd₁, hgot⟩ := (accounted_admitBehind hd hadmit).2 got rfl
    split at h
    · rename_i e d₂ hagain
      cases h
      exact (accounted_sessionAgain hd₁ hgot hagain).1 e rfl
    · rename_i invite fresh d₂ hagain
      obtain ⟨hd₂, hinvite⟩ := (accounted_sessionAgain hd₁ hgot hagain).2 _ rfl
      have hwon : Accounted W V asked [] (if invite.pass.isSome then d₂.win invite else d₂).toPurse := by
        unfold Ask.Wins boundSecret at hinvite
        cases ask with
        | session =>
          have hnone : invite.pass = none := by simpa [Ask.hand] using hinvite
          rw [hnone]
          exact hd₂
        | pass pass =>
          have hsome : invite.pass.isSome = true := by
            cases hpass : invite.pass with
            | none => simp [hpass, Ask.hand] at hinvite
            | some b => rfl
          rw [if_pos hsome]
          exact hd₂.win hinvite
      dsimp only at h
      generalize (if invite.pass.isSome then d₂.win invite else d₂) = d₄ at h hwon
      have hentry : (entryAgain c lib w first ask.isSession invite 3 spec d₄).2.toPurse = d₄.toPurse :=
        purse_entryAgain _ _ _ _ _ _
      split at h <;>
      · rename_i hloop
        cases h
        rw [hloop] at hentry
        rw [hentry]
        exact hwon

theorem accounted_firstHopPass {node : Invite} {r : Except Failure (Option Invite)}
    (hd : Accounted W V asked [] d.toPurse) (h : firstHopPass c lib w node d = (r, d')) :
    (∀ invite, r = .ok (some invite) → Accounted W V (asked ++ [node.key]) [] (d'.win invite).toPurse) ∧
      ((∀ invite, r ≠ .ok (some invite)) → Accounted W V (asked ++ [node.key]) [] d'.toPurse) := by
  have hmore : ∀ {d : Desk}, Accounted W V asked [] d.toPurse → Accounted W V (asked ++ [node.key]) [] d.toPurse :=
    fun h => h.more (List.sublist_append_left _ _)
  have hnone : ∀ {r' : Except Failure (Option Invite)} {d₁ : Desk}, (r', d₁) = (r, d') → (∀ i, r' ≠ .ok (some i)) →
      Accounted W V (asked ++ [node.key]) [] d₁.toPurse →
      (∀ invite, r = .ok (some invite) → Accounted W V (asked ++ [node.key]) [] (d'.win invite).toPurse) ∧
        ((∀ invite, r ≠ .ok (some invite)) → Accounted W V (asked ++ [node.key]) [] d'.toPurse) := by
    intro r' d₁ heq hr' hd₁
    cases heq
    constructor
    · intro invite hinvite
      exact absurd hinvite (hr' invite)
    · intro _
      exact hd₁
  unfold firstHopPass at h
  dsimp only at h
  split at h
  · exact hnone h (by simp) (hmore hd)
  · split at h
    · split at h
      · exact hnone h (by simp) (hmore hd)
      · split at h
        · exact hnone h (by simp) (hmore hd)
        · exact hnone h (by simp) (hmore hd)
    · rename_i pass d₁ htake
      have hd₁ : Accounted W V (asked ++ [node.key]) [pass] d₁.toPurse := Accounted.takeFor (d := d.next) hd htake
      have hredeem := purse_cancelOr (w := w) (f := redeemPass c lib w (recordOf node) pass .direct)
        (purse_redeemPass _ _ _) d₁
      split at h
      · rename_i invite d₂ hok
        rw [hok] at hredeem
        cases h
        have hd₂ : Accounted W V (asked ++ [node.key]) [pass] d'.toPurse := by
          change d'.toPurse = d₁.toPurse at hredeem
          rw [hredeem]
          exact hd₁
        constructor
        · intro invite' hinvite'
          cases hinvite'
          refine hd₂.win ?_
          unfold cancelOr at hok
          split at hok
          · cases hok
          · obtain ⟨b, hb, hsecret, -⟩ := redeemPass_ok (congrArg Prod.fst hok)
            simp [boundSecret, hb, hsecret]
        · intro hno
          exact absurd rfl (hno invite)
      · rename_i e d₂ herror
        rw [herror] at hredeem
        have hd₂ : Accounted W V (asked ++ [node.key]) [pass] d₂.toPurse := by
          change d₂.toPurse = d₁.toPurse at hredeem
          rw [hredeem]
          exact hd₁
        have hback := hd₂.afterFailure .direct e
        split at h
        · exact hnone h (by simp) hback
        · exact hnone h (by simp) hback

theorem accounted_askFirst {first : Invite} {held : List SocketAddr}
    {r : Except Failure (Option (Invite × Option Key))} (hd : Accounted W V asked [] d.toPurse)
    (h : askFirst c lib w first held d = (r, d')) : Accounted W V (asked ++ [first.key]) [] d'.toPurse := by
  have hmore : ∀ {d : Desk}, Accounted W V asked [] d.toPurse → Accounted W V (asked ++ [first.key]) [] d.toPurse :=
    fun h => h.more (List.sublist_append_left _ _)
  have hhold : (if (first.admitsSessions || first.takesPasses) && !held.isEmpty then
      holdAdmitting w first "could not hold the kill switch to ask the first node for admission" d
      else (.ok (), d)).2.toPurse = d.toPurse := by
    split
    · exact purse_holdAdmitting _ _ _
    · rfl
  unfold askFirst at h
  split at h
  · rename_i e d₁ heq
    rw [heq] at hhold
    cases h
    apply hmore
    change d'.toPurse = d.toPurse at hhold
    rw [hhold]
    exact hd
  · rename_i d₁ heq
    rw [heq] at hhold
    have hd₁ : Accounted W V asked [] d₁.toPurse := by
      change d₁.toPurse = d.toPurse at hhold
      rw [hhold]
      exact hd
    split at h
    · have hask : (askDirect c lib w first ("asking " ++ first.nodeName ++ " for admission") d₁).2.toPurse =
          d₁.toPurse := purse_askDirect _ _ _
      split at h <;>
      · rename_i heq
        rw [heq] at hask
        cases h
        apply hmore
        rw [hask]
        exact hd₁
    · split at h
      · split at h
        · rename_i e d₂ heq
          cases h
          exact (accounted_firstHopPass hd₁ heq).2 (by simp)
        · rename_i d₂ heq
          cases h
          exact (accounted_firstHopPass hd₁ heq).2 (by simp)
        · rename_i invite d₂ heq
          cases h
          exact (accounted_firstHopPass hd₁ heq).1 invite rfl
      · cases h
        exact hmore hd₁

def hops (exit : Invite) (entry : Option Invite) : List Invite := entry.toList ++ [exit]

def Desk.start (wallet : List Pass) (won : List Invite) : Desk := ⟨⟨wallet, won, [], [], []⟩, [], 0, []⟩

theorem accounted_start (wallet : List Pass) (won : List Invite) :
    Accounted wallet won [] [] (Desk.start wallet won).toPurse := by
  refine ⟨⟨[], [], ?_, ?_, rfl⟩, List.Sublist.refl _⟩
  · simp [Desk.start]
  · simp [Desk.start]

theorem accounted_prepare {exit : Invite} {entry : Option Invite} {key : Key} {held : List SocketAddr}
    {r : Except Failure (CircuitSpec Key)} (hd : Accounted W V [] [] d.toPurse)
    (h : prepare c lib w exit entry key held d = (r, d')) :
    Accounted W V ((hops exit entry).map Invite.key) [] d'.toPurse := by
  unfold prepare at h
  dsimp only at h
  split at h
  · cases h
    exact hd.more (List.nil_sublist _)
  · have hfirst : ∀ {d₁ : Desk}, Accounted W V [(entry.getD exit).key] [] d₁.toPurse →
        Accounted W V ((hops exit entry).map Invite.key) [] d₁.toPurse := by
      intro d₁ hd₁
      refine hd₁.more ?_
      cases entry with
      | none => exact List.Sublist.refl _
      | some e => exact List.sublist_append_left [e.key] [exit.key]
    split at h
    · rename_i e d₁ hask
      cases h
      exact hfirst (accounted_askFirst hd hask)
    · rename_i admitted d₁ hask
      have hd₁ := accounted_askFirst hd hask
      rw [List.nil_append] at hd₁
      split at h
      · cases h
        exact hfirst hd₁
      · rename_i entry' hentry
        -- only two hops have an entry
        have htwo : ∃ e, entry = some e := by
          cases entry with
          | some e => exact ⟨e, rfl⟩
          | none =>
            unfold CircuitSpec.withFirst CircuitSpec.new at hentry
            cases admitted <;> simp at hentry
        obtain ⟨e, rfl⟩ := htwo
        have hboth : ∀ {d₂ : Desk}, Accounted W V ([e.key] ++ [exit.key]) [] d₂.toPurse →
            Accounted W V ((hops exit (some e)).map Invite.key) [] d₂.toPurse := id
        unfold askFor at h
        split at h
        · rename_i e' d₂ hfor
          split at hfor
          · cases hfor
          · split at hfor
            · split at hfor
              · cases hfor
                cases h
                exact hfirst hd₁
              · cases hfor
            · cases hfor
        · rename_i d₂ hfor
          cases h
          split at hfor
          · cases hfor
          · split at hfor
            · split at hfor <;> cases hfor
            · cases hfor
              exact hfirst hd₁
        · rename_i ask d₂ hfor
          split at hfor
          · cases hfor
            have hsession : Accounted W V ((hops exit (some e)).map Invite.key) Ask.session.hand d₁.toPurse := hfirst hd₁
            exact accounted_askExit hsession h
          · split at hfor
            · split at hfor
              · cases hfor
              · rename_i pass d₃ htake
                cases hfor
                have hpass : Accounted W V ([e.key] ++ [exit.key]) (Ask.pass pass).hand d₂.toPurse := hd₁.takeFor htake
                exact hboth (accounted_askExit hpass h)
            · cases hfor

end

section

variable {Key Pk : Type}

/-- Whatever becomes of the connection, the passes of the wallet are in the wallet, bound to the invites won, or
refused, and one is taken at most for each hop. -/
theorem prepare_accounted (c : Crypto Pk) (lib : KeyLib Key) (w : World Key) (exit : Invite) (entry : Option Invite)
    (key : Key) (held : List SocketAddr) (wallet : List Pass) (won : List Invite) :
    let d := (prepare c lib w exit entry key held (Desk.start wallet won)).2
    (∃ redeemed new, wallet.Perm (d.wallet ++ redeemed ++ d.refused) ∧ d.won = won ++ new ∧
      new.map boundSecret = redeemed.map fun p => some p.clientSecret) ∧
    ∀ node, (d.taken.map Pass.key).count node ≤ ((hops exit entry).map Invite.key).count node := by
  intro d
  have hd : Accounted wallet won ((hops exit entry).map Invite.key) [] d.toPurse :=
    accounted_prepare (accounted_start wallet won) rfl
  constructor
  · exact hd.kept
  · intro node
    exact hd.taken.count_le node

end

private def oneKey : Crypto Unit :=
  ⟨fun s => if s = "AAAAAAAAAAAAAAAAAAAAAAAAAAAAAAAAAAAAAAAAAAA=" then some (List.replicate 32 0) else none,
    id, fun _ => .ok (), fun _ => [], fun _ _ _ _ => true⟩

private def bytesLib : KeyLib Bytes := ⟨id, hexEncode, fun salt key node => salt ++ key ++ node⟩

private def passNode : Invite :=
  ⟨"fin", "AAAAAAAAAAAAAAAAAAAAAAAAAAAAAAAAAAAAAAAAAAA=", "203.0.113.10:51820", "10.77.0.2/16", none, 172818433,
    ["0.0.0.0/0", "::/0"], 1420, 25, none, none, none, some "pass", none, false, ["admission-relay"], none⟩

private def passOf (nonce : String) : Pass := ⟨"key", passNode.nodePublicKey, passNode.nodePublicKey, nonce, "", ""⟩

private def willing : World Bytes :=
  ⟨fun _ => ⟨1000, false, .ok (), .ok (), .ok (), .answered ⟨200, some passNode, none, ""⟩, .ok []⟩, false⟩

/-- Two hops of one node take two of its passes. -/
theorem not_onePerNode :
    ¬ ∀ node, ((prepare oneKey bytesLib willing passNode (some passNode) [] []
      (Desk.start [passOf "1", passOf "2"] [])).2.taken.map Pass.key).count node ≤ 1 := by
  intro h
  have hnode := h passNode.key
  revert hnode
  decide +kernel

end HidraNet.Client
