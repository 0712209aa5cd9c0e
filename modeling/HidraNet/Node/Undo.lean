import HidraNet.Node.MainLoop

/-!
# Admissions undone

What a pass admission that fails, or that nobody waits for, leaves of the pass and of the leases.

* A client told 500 or more is to keep its pass.  It is free again then, except when the journal was torn and the
  snapshot could not be written: the tag stays (`TornUnsaved`, `not_usable`).  A client that stopped waiting has been
  told 503 whatever the answer, and its pass stays spent too when it cannot be forgotten (`LateUnforgotten`).  Those
  are the only ways (`usable_iff`).
* Undoing an admission takes away the key's leases, also one it held before (`not_leasesKept`); nothing else is lost
  (`leasesKept_iff`).
-/

namespace HidraNet.Node

open Text

variable {Invite : Type}

def status : Except (Nat × String) Invite → Nat
  | .ok _ => 200
  | .error (status, _) => status

def Served.told : Served Invite → Nat
  | .skipped => 503
  | .answered answer true => status answer
  | .answered _ false => 503

def Usable (cfg : NodeConfig Invite) (s : NodeState) (req : Admit) (p : SpentPass) (now : Nat) (f : ServeFaults) :
    Prop :=
  ∀ answer reached, (s.serve cfg req now f).2 = .answered answer reached → status answer ≥ 500 →
    (s.serve cfg req now f).1.spent.contains p.tag = false

def UsableWhenTold (cfg : NodeConfig Invite) (s : NodeState) (req : Admit) (p : SpentPass) (now : Nat) (f : ServeFaults) :
    Prop :=
  (s.serve cfg req now f).2.told ≥ 500 → (s.serve cfg req now f).1.spent.contains p.tag = false

def TornUnsaved (cfg : NodeConfig Invite) (s : NodeState) (req : Admit) (now : Nat) (f : ServeFaults) : Prop :=
  f.closed = false ∧ (∃ lease leases, Reaches cfg s req now f lease leases) ∧ s.spent.journalTorn = true ∧
    f.record.snapshot ≠ none

def LateUnforgotten (cfg : NodeConfig Invite) (s : NodeState) (req : Admit) (now : Nat) (f : ServeFaults) : Prop :=
  f.closed = false ∧ (∃ lease leases, Reaches cfg s req now f lease leases) ∧ s.spent.Recordable f.record ∧
    f.gone = true ∧ f.forget ≠ none

variable {cfg : NodeConfig Invite} {s : NodeState} {req : Admit} {p : SpentPass} {now : Nat} {f : ServeFaults}

/-! ### Undoing -/

theorem contains_of_tags {t t' : SpentPasses} {tag : String} (h : t'.tags = t.tags) :
    t'.contains tag = t.contains tag := by
  unfold SpentPasses.contains
  rw [h]

private theorem forgetPass_cases (s : NodeState) (p : SpentPass) (why : String) (f : ServeFaults) :
    (s.forgetPass (some p) why f).1.leases = s.leases ∧
      ((∃ why', (s.forgetPass (some p) why f).2 = (503, why') ∧
          (s.forgetPass (some p) why f).1.spent.contains p.tag = false ∧
          (s.spent.contains p.tag = true → f.forget = none)) ∨
        ∃ why', (s.forgetPass (some p) why f).2 = (409, why') ∧
          (s.forgetPass (some p) why f).1.spent.contains p.tag = true ∧ f.forget ≠ none ∧
          s.spent.contains p.tag = true) := by
  unfold NodeState.forgetPass
  dsimp only
  rcases s.spent.forget_cases p.tag f.forget with ⟨s', htags, hr, hok⟩ | ⟨e, v, s', hmem, htags, hr, he⟩ <;>
    rw [hr]
  · refine ⟨rfl, Or.inl ⟨why, rfl, ?_, hok⟩⟩
    show s'.contains p.tag = false
    unfold SpentPasses.contains
    rw [htags, List.any_eq_false]
    intro t ht
    simpa using (List.mem_filter.1 ht).2
  · refine ⟨rfl, Or.inr ⟨_, rfl, ?_, by rw [he]; exact Option.some_ne_none e, SpentPasses.contains_iff.2 ⟨v, hmem⟩⟩⟩
    refine SpentPasses.contains_iff.2 ⟨v, ?_⟩
    show (p.tag, v) ∈ s'.tags
    rw [htags]
    exact List.mem_append_right _ (List.mem_singleton_self _)

private theorem undoAdmission_cases (s : NodeState) (undo : Undo) (hundo : ∀ refused, undo ≠ .nothing refused)
    (p : SpentPass)
    (f : ServeFaults) :
    (∃ why, (s.undoAdmission undo (some p) f).2 = (503, why) ∧
      (s.undoAdmission undo (some p) f).1.spent.contains p.tag = false ∧
      (s.spent.contains p.tag = true → f.forget = none)) ∨
    ∃ why, (s.undoAdmission undo (some p) f).2 = (409, why) ∧
      (s.undoAdmission undo (some p) f).1.spent.contains p.tag = true ∧ f.forget ≠ none ∧
      s.spent.contains p.tag = true := by
  cases undo with
  | nothing refused => exact absurd rfl (hundo refused)
  | spent why => exact (forgetPass_cases s p why f).2
  | admitted key why =>
    unfold NodeState.undoAdmission
    dsimp only
    have hspent : (s.removePeer key f.removePeer).spent = s.spent := by
      unfold NodeState.removePeer
      split <;> rfl
    have hcases := (forgetPass_cases { s.removePeer key f.removePeer with
      leases := ((s.removePeer key f.removePeer).leases.update f.revoke none () fun ls _ =>
        ((ls.revoke key).1, (), (), (ls.revoke key).2)).1 } p why f).2
    rw [hspent] at hcases
    exact hcases

/-! ### The pass -/

private theorem answer_cases (cfg : NodeConfig Invite) (s : NodeState) (now : Nat) (f : ServeFaults)
    (hpass : req.pass = some p) (hfree : s.spent.contains p.tag = false) :
    (¬ ((∃ lease leases, Reaches cfg s req now f lease leases) ∧
        (s.spent.Recordable f.record ∨ s.spent.journalTorn = true)) ∧
      ∃ refused, (s.answer cfg req now f).2 = .error refused ∧
        (s.answer cfg req now f).1.spent.contains p.tag = false) ∨
    ((∃ lease leases, Reaches cfg s req now f lease leases) ∧ ¬ s.spent.Recordable f.record ∧
      s.spent.journalTorn = true ∧ ∃ why, (s.answer cfg req now f).2 = .error (503, why) ∧
        (s.answer cfg req now f).1.spent.contains p.tag = true) ∨
    ((∃ lease leases, Reaches cfg s req now f lease leases) ∧ s.spent.Recordable f.record ∧
      ((∃ invite, (s.answer cfg req now f).2 = .ok invite ∧ (s.answer cfg req now f).1.spent.contains p.tag = true) ∨
        (∃ why, (s.answer cfg req now f).2 = .error (503, why) ∧
          (s.answer cfg req now f).1.spent.contains p.tag = false ∧ f.forget = none) ∨
        ∃ why, (s.answer cfg req now f).2 = .error (409, why) ∧
          (s.answer cfg req now f).1.spent.contains p.tag = true ∧ f.forget ≠ none)) := by
  have hinsert : ∀ {t : SpentPasses}, t.tags = (s.spent.insert p.tag p.validUntil).tags → t.contains p.tag = true :=
    fun htags => (contains_of_tags htags).trans (SpentPasses.contains_insert ..)
  -- of an admission that is undone once the pass is written down
  have hundone : ∀ (s' : NodeState) (undo : Undo),
      (∀ refused, undo ≠ .nothing refused) → s'.spent.contains p.tag = true →
      (∃ why, (s'.undoAdmission undo (some p) f).2 = (503, why) ∧
        (s'.undoAdmission undo (some p) f).1.spent.contains p.tag = false ∧ f.forget = none) ∨
      ∃ why, (s'.undoAdmission undo (some p) f).2 = (409, why) ∧
        (s'.undoAdmission undo (some p) f).1.spent.contains p.tag = true ∧ f.forget ≠ none := by
    intro s' undo hundo hspent
    rcases undoAdmission_cases s' undo hundo p f with ⟨why, hr, hc, hok⟩ | ⟨why, hr, hc, hno, -⟩
    · exact Or.inl ⟨why, hr, hc, hok hspent⟩
    · exact Or.inr ⟨why, hr, hc, hno⟩
  unfold NodeState.answer
  simp only [hpass, Option.any_some, hfree, Bool.false_eq_true, if_false]
  unfold NodeState.admitted
  rcases leaseFor_cases cfg s now f hpass with ⟨hnone, ⟨refused, hl⟩ | ⟨e, hl⟩⟩ |
    ⟨lease, leases, hreach, ⟨hrec, spent, why, hkept, htorn, hl⟩ | ⟨hrec, spent, htags, ⟨e, -, hl⟩ | ⟨-, hl⟩⟩⟩ <;> rw [hl] <;>
    dsimp only
  · exact Or.inl ⟨fun h => hnone h.1, refused, rfl, hfree⟩
  · refine Or.inl ⟨fun h => hnone h.1, _, rfl, ?_⟩
    rcases (forgetPass_cases s p ("could not write the leases: " ++ e) f).2 with ⟨why, -, hc, -⟩ | ⟨why, -, -, -, hc⟩
    · exact hc
    · rw [hfree] at hc
      cases hc
  · by_cases htorn' : s.spent.journalTorn = true
    · refine Or.inr (Or.inl ⟨⟨lease, leases, hreach⟩, hrec, htorn', why, rfl, ?_⟩)
      rw [htorn htorn']
      exact SpentPasses.contains_insert ..
    · refine Or.inl ⟨fun h => ?_, _, rfl, (contains_of_tags (hkept (eq_false_of_ne_true htorn'))).trans hfree⟩
      rcases h.2 with h | h
      · exact hrec h
      · exact htorn' h
  · refine Or.inr (Or.inr ⟨⟨lease, leases, hreach⟩, hrec, Or.inr ?_⟩)
    rcases hundone { s with spent } (.spent ("could not write the leases: " ++ e)) (fun _ h => by cases h)
      (hinsert htags) with ⟨why, hr, hc, hf⟩ | ⟨why, hr, hc, hf⟩
    · exact Or.inl ⟨why, by rw [hr], hc, hf⟩
    · exact Or.inr ⟨why, by rw [hr], hc, hf⟩
  · refine Or.inr (Or.inr ⟨⟨lease, leases, hreach⟩, hrec, ?_⟩)
    have hsaved : ∀ (s' : NodeState) (why : String), s'.spent = spent →
        (∃ why', (s'.undoAdmission (.admitted lease.publicKey why) (some p) f).2 = (503, why') ∧
          (s'.undoAdmission (.admitted lease.publicKey why) (some p) f).1.spent.contains p.tag = false ∧
          f.forget = none) ∨
        ∃ why', (s'.undoAdmission (.admitted lease.publicKey why) (some p) f).2 = (409, why') ∧
          (s'.undoAdmission (.admitted lease.publicKey why) (some p) f).1.spent.contains p.tag = true ∧
          f.forget ≠ none := fun s' why hs =>
      hundone s' _ (fun _ h => by cases h) (by rw [hs]; exact hinsert htags)
    cases hadd : f.addPeer with
    | some e =>
      refine Or.inr ?_
      rcases hsaved { s with spent, leases } ("could not admit: " ++ e) rfl with ⟨why, hr, hc, hf⟩ | ⟨why, hr, hc, hf⟩
      · exact Or.inl ⟨why, congrArg Except.error hr, hc, hf⟩
      · exact Or.inr ⟨why, congrArg Except.error hr, hc, hf⟩
    | none =>
      cases hinvite : cfg.inviteFor lease with
      | ok invite =>
        unfold NodeState.addPeer
        dsimp only
        exact Or.inl ⟨invite, rfl, hinsert htags⟩
      | error why =>
        unfold NodeState.addPeer
        dsimp only
        refine Or.inr ?_
        rcases hsaved (NodeState.addPeer { s with spent, leases } lease.publicKey lease.ip none).1 why rfl with
          ⟨why', hr, hc, hf⟩ | ⟨why', hr, hc, hf⟩
        · exact Or.inl ⟨why', congrArg Except.error hr, hc, hf⟩
        · exact Or.inr ⟨why', congrArg Except.error hr, hc, hf⟩

private theorem snapshot_of_torn (htorn : s.spent.journalTorn = true) :
    s.spent.Recordable f.record ↔ f.record.snapshot = none := by
  unfold SpentPasses.Recordable
  rw [if_pos htorn]

private theorem not_torn_of_recordable (hrec : s.spent.Recordable f.record) : ¬ TornUnsaved cfg s req now f := by
  rintro ⟨-, -, htorn, hsnapshot⟩
  exact hsnapshot ((snapshot_of_torn htorn).1 hrec)

/-- For a pass that is not spent: the main loop's answer of 500 or more leaves it usable except when it was put down on
a torn journal and the snapshot could not be written; and a client told 500 or more can use it except then, or when it
stopped waiting and the pass could not be forgotten. -/
theorem usable_iff (cfg : NodeConfig Invite) (s : NodeState) (req : Admit) (p : SpentPass) (now : Nat) (f : ServeFaults)
    (hpass : req.pass = some p) (hfree : s.spent.contains p.tag = false) :
    (Usable cfg s req p now f ↔ ¬ TornUnsaved cfg s req now f) ∧
      (UsableWhenTold cfg s req p now f ↔ ¬ TornUnsaved cfg s req now f ∧ ¬ LateUnforgotten cfg s req now f) := by
  unfold Usable UsableWhenTold NodeState.serve
  cases hclosed : f.closed with
  | true =>
    simp only [if_true]
    have hnot : ¬ TornUnsaved cfg s req now f ∧ ¬ LateUnforgotten cfg s req now f := by
      constructor <;> rintro ⟨hopen, -⟩ <;> rw [hclosed] at hopen <;> cases hopen
    exact ⟨⟨fun _ => hnot.1, fun _ _ _ h => nomatch h⟩, fun _ => hnot, fun _ _ => hfree⟩
  | false =>
    have hcases := answer_cases cfg s now f hpass hfree
    simp only [Bool.false_eq_true, if_false, hpass, Option.isSome_some, if_true]
    generalize s.answer cfg req now f = r at hcases ⊢
    obtain ⟨s', r⟩ := r
    dsimp only at hcases
    rcases hcases with ⟨hnot, refused, rfl, hc⟩ | ⟨hreach, hrec, htorn, why, rfl, hc⟩ |
      ⟨hreach, hrec, ⟨invite, rfl, hc⟩ | ⟨why, rfl, hc, hforget⟩ | ⟨why, rfl, hc, hforget⟩⟩
    · -- refused, with the pass free
      have htorn : ¬ TornUnsaved cfg s req now f := fun h => hnot ⟨h.2.1, Or.inr h.2.2.1⟩
      have hlate : ¬ LateUnforgotten cfg s req now f := fun h => hnot ⟨h.2.1, Or.inl h.2.2.1⟩
      exact ⟨⟨fun _ => htorn, fun _ _ _ _ _ => hc⟩, fun _ => ⟨htorn, hlate⟩, fun _ _ => hc⟩
    · -- the torn journal
      have hboth : TornUnsaved cfg s req now f :=
        ⟨hclosed, hreach, htorn, fun hnone => hrec ((snapshot_of_torn htorn).2 hnone)⟩
      refine ⟨⟨fun h => ?_, fun h => absurd hboth h⟩, fun h => ?_, fun h => absurd hboth h.1⟩
      · have hfree' := h (.error (503, why)) (!f.gone) rfl (by show 503 ≥ 500; omega)
        rw [hc] at hfree'
        cases hfree'
      · have hfree' := h (by cases f.gone <;> show 503 ≥ 500 <;> omega)
        rw [hc] at hfree'
        cases hfree'
    · -- an invite: when nobody waits the pass is forgotten, or it cannot be
      have htorn : ¬ TornUnsaved cfg s req now f := not_torn_of_recordable hrec
      refine ⟨⟨fun _ => htorn, fun _ answer reached h => ?_⟩, ?_⟩
      · intro h200
        have hanswer : answer = .ok invite := by
          cases hgone : f.gone <;> rw [hgone] at h <;> cases h <;> rfl
        rw [hanswer] at h200
        exact absurd h200 (by show ¬ 200 ≥ 500; omega)
      · cases hgone : f.gone with
        | false =>
          refine ⟨fun _ => ⟨htorn, fun h => ?_⟩, fun _ h200 => absurd h200 (by show ¬ 200 ≥ 500; omega)⟩
          rw [h.2.2.2.1] at hgone
          cases hgone
        | true =>
          simp only [if_true]
          rcases undoAdmission_cases s' (.admitted req.publicKey "no one was waiting")
            (fun _ h => by cases h) p f with ⟨why, -, hfree', hok⟩ | ⟨why, -, hc', hno, -⟩
          · exact ⟨fun _ => ⟨htorn, fun h => h.2.2.2.2 (hok hc)⟩, fun _ _ => hfree'⟩
          · refine ⟨fun h => ?_, fun h => absurd ⟨hclosed, hreach, hrec, hgone, hno⟩ h.2⟩
            have hfree' := h (by show 503 ≥ 500; omega)
            rw [hc'] at hfree'
            cases hfree'
    · -- undone
      have htorn : ¬ TornUnsaved cfg s req now f := not_torn_of_recordable hrec
      exact ⟨⟨fun _ => htorn, fun _ _ _ _ _ => hc⟩, fun _ => ⟨htorn, fun h => h.2.2.2.2 hforget⟩, fun _ _ => hc⟩
    · -- not undone, and said so
      have htorn : ¬ TornUnsaved cfg s req now f := not_torn_of_recordable hrec
      refine ⟨⟨fun _ => htorn, fun _ answer reached h h409 => ?_⟩, ?_⟩
      · cases h
        exact absurd h409 (by show ¬ 409 ≥ 500; omega)
      · cases hgone : f.gone with
        | false =>
          refine ⟨fun _ => ⟨htorn, fun h => ?_⟩, fun _ h409 => absurd h409 (by show ¬ 409 ≥ 500; omega)⟩
          rw [h.2.2.2.1] at hgone
          cases hgone
        | true =>
          refine ⟨fun h => ?_, fun h => absurd ⟨hclosed, hreach, hrec, hgone, hforget⟩ h.2⟩
          have hfree' := h (by show 503 ≥ 500; omega)
          rw [hc] at hfree'
          cases hfree'

private def unused (journalTorn : Bool) : NodeState := ⟨⟨[]⟩, ⟨[], 0, journalTorn⟩, []⟩

private def plain : NodeConfig Unit := ⟨⟨0, 24⟩, 8, false, fun _ => true, fun _ => .ok ()⟩

private def unsaved : ServeFaults := { ServeFaults.none with leasesSave := some "disk full" }

/-- The leases cannot be written, nor, the second time, the pass forgotten. -/
theorem usable_unsaved :
    Usable plain (unused false) ⟨"k", "a", false, some ⟨"t", 5⟩⟩ ⟨"t", 5⟩ 0 unsaved ∧
      ¬ UsableWhenTold plain (unused false) ⟨"k", "a", false, some ⟨"t", 5⟩⟩ ⟨"t", 5⟩ 0
        { ServeFaults.none with gone := true, forget := some "disk full" } := by
  constructor
  · refine (usable_iff plain (unused false) _ _ 0 unsaved rfl (by decide)).1.2 ?_
    rintro ⟨-, -, htorn, -⟩
    cases htorn
  · intro h
    refine ((usable_iff plain (unused false) _ _ 0 _ rfl (by decide)).2.1 h).2 ⟨rfl, ⟨⟨"a", "k", 2, 0, "pass", 0⟩,
      ⟨[⟨"a", "k", 2, 0, "pass", 0⟩]⟩, ⟨rfl, by decide, by decide⟩⟩, ⟨rfl, rfl⟩, rfl, ?_⟩
    exact Option.some_ne_none _

/-- On a torn journal a pass is put down and its snapshot not written: the client is told 503, and the pass is spent. -/
theorem not_usable : ∃ (cfg : NodeConfig Unit) (s : NodeState) (req : Admit) (p : SpentPass) (now : Nat)
    (f : ServeFaults),
    req.pass = some p ∧ s.spent.contains p.tag = false ∧ ¬ Usable cfg s req p now f := by
  refine ⟨plain, unused true, ⟨"k", "a", false, some ⟨"t", 5⟩⟩, ⟨"t", 5⟩, 0,
    { ServeFaults.none with record := ⟨none, none, some "disk full"⟩ }, rfl, by decide, fun h => ?_⟩
  have hfree := h (.error (503, "could not write the pass down: disk full")) true rfl (by decide)
  revert hfree
  decide

/-! ### The leases -/

def EndsUndone (cfg : NodeConfig Invite) (s : NodeState) (req : Admit) (now : Nat) (f : ServeFaults) : Prop :=
  f.closed = false ∧ (∀ p ∈ req.pass, s.spent.contains p.tag = false) ∧
    ((∃ key why, (s.admitted cfg req now f).2 = .error (.admitted key why)) ∨
      (∃ invite, (s.admitted cfg req now f).2 = .ok invite) ∧ f.gone = true)

def LeasesKept (cfg : NodeConfig Invite) (s : NodeState) (req : Admit) (now : Nat) (f : ServeFaults) : Prop :=
  ∀ l ∈ s.leases.leases, l ∈ (s.serve cfg req now f).1.leases.leases

theorem leases_forgetPass (s : NodeState) (pass : Option SpentPass) (why : String) (f : ServeFaults) :
    (s.forgetPass pass why f).1.leases = s.leases := by
  cases pass with
  | none => rfl
  | some p => exact (forgetPass_cases s p why f).1

theorem mem_undoAdmitted {key why : String} {pass : Option SpentPass} {l : Lease} :
    l ∈ (s.undoAdmission (.admitted key why) pass f).1.leases.leases ↔
      l ∈ s.leases.leases ∧ (f.revoke ≠ none ∨ l.publicKey ≠ trim key) := by
  unfold NodeState.undoAdmission
  dsimp only
  have hleases : (s.removePeer key f.removePeer).leases = s.leases := by
    unfold NodeState.removePeer
    split <;> rfl
  rw [leases_forgetPass, hleases]
  unfold Leases.update
  cases f.revoke with
  | some e => simp
  | none =>
    dsimp only
    have hrevoke : l ∈ (s.leases.revoke key).1.leases ↔ _ := Leases.mem_revoke
    cases hkept : (s.leases.revoke key).2 with
    | true => simpa using hrevoke
    | false =>
      -- no lease went: the file is left as it is
      have hsame : (s.leases.revoke key).1.leases = s.leases.leases := by
        unfold Leases.revoke at hkept ⊢
        have hlen := of_decide_eq_false hkept
        exact List.filter_eq_self.2 (List.length_filter_eq_length_iff.1 (not_not.1 hlen))
      rw [hsame] at hrevoke
      simpa using hrevoke

theorem admitted_cases (cfg : NodeConfig Invite) (s : NodeState) (now : Nat) (f : ServeFaults)
    (hpass : req.pass = some p) :
    (∃ s' undo, (∀ key why, undo ≠ .admitted key why) ∧ s'.leases = s.leases ∧
      (s'.spent.tags = s.spent.tags ∨ s'.spent.tags = (s.spent.insert p.tag p.validUntil).tags) ∧
      s.admitted cfg req now f = (s', .error undo)) ∨
    ∃ s', (∀ l ∈ s.leases.leases, l ∈ s'.leases.leases) ∧ s'.spent.tags = (s.spent.insert p.tag p.validUntil).tags ∧
      ((∃ key why, trim key = trim req.publicKey ∧ s.admitted cfg req now f = (s', .error (.admitted key why))) ∨
        ∃ invite, s.admitted cfg req now f = (s', .ok invite)) := by
  unfold NodeState.admitted
  rcases leaseFor_cases cfg s now f hpass with ⟨-, ⟨refused, hl⟩ | ⟨e, hl⟩⟩ |
    ⟨lease, leases, hreach, ⟨-, spent, why, hkept, htorn, hl⟩ | ⟨-, spent, htags, ⟨e, -, hl⟩ | ⟨-, hl⟩⟩⟩ <;> rw [hl] <;>
    dsimp only
  · exact Or.inl ⟨s, .nothing refused, fun _ _ h => (by cases h), rfl, Or.inl rfl, rfl⟩
  · exact Or.inl ⟨s, .spent _, fun _ _ h => (by cases h), rfl, Or.inl rfl, rfl⟩
  · refine Or.inl ⟨{ s with spent }, .nothing (503, why), fun _ _ h => (by cases h), rfl, ?_, rfl⟩
    cases h : s.spent.journalTorn with
    | false => exact Or.inl (hkept h)
    | true => exact Or.inr (congrArg SpentPasses.tags (htorn h))
  · exact Or.inl ⟨{ s with spent }, .spent _, fun _ _ h => (by cases h), rfl, Or.inr htags, rfl⟩
  · obtain ⟨hall, hkey⟩ : (∀ l ∈ s.leases.leases, l ∈ leases.leases) ∧ trim lease.publicKey = trim req.publicKey := by
      have hadmit := hreach.admitted
      unfold Leases.admitPass at hadmit
      rcases Leases.admitAs_cases s.leases cfg.isKey req.name req.publicKey cfg.net now "pass" with ⟨e, h⟩ |
        ⟨l, hfind, h⟩ | ⟨-, ip, h⟩ <;> rw [h] at hadmit
      · cases hadmit
      · cases hadmit
        rw [(Leases.publicKey_of_find hfind).2, trim_trim]
        exact ⟨fun _ hl => hl, rfl⟩
      · cases hadmit
        exact ⟨fun _ hl => List.mem_append_left _ hl, trim_trim _⟩
    refine Or.inr ?_
    cases f.addPeer with
    | some e => exact ⟨{ s with spent, leases }, hall, htags, Or.inl ⟨lease.publicKey, _, hkey, rfl⟩⟩
    | none =>
      refine ⟨(NodeState.addPeer { s with spent, leases } lease.publicKey lease.ip none).1, hall, htags, ?_⟩
      unfold NodeState.addPeer
      dsimp only
      cases cfg.inviteFor lease with
      | ok invite => exact Or.inr ⟨invite, rfl⟩
      | error why => exact Or.inl ⟨lease.publicKey, why, hkey, rfl⟩

private theorem undone_iff {s' : NodeState} {key why : String} {pass : Option SpentPass}
    (hall : ∀ l ∈ s.leases.leases, l ∈ s'.leases.leases) (hkey : trim key = trim req.publicKey) :
    (∀ l ∈ s.leases.leases, l ∈ (s'.undoAdmission (.admitted key why) pass f).1.leases.leases) ↔
      s.leases.find req.publicKey = none ∨ f.revoke ≠ none := by
  simp only [mem_undoAdmitted, hkey, Leases.find_eq_none]
  constructor
  · intro h
    by_cases hrevoke : f.revoke = none
    · refine Or.inl fun l hl => ?_
      rcases (h l hl).2 with hno | hne
      · exact absurd hrevoke hno
      · exact hne
    · exact Or.inr hrevoke
  · rintro (h | h) l hl
    · exact ⟨hall l hl, Or.inr (h l hl)⟩
    · exact ⟨hall l hl, Or.inl h⟩

/-- The leases there were before a redemption are there after it, but for one that ends undone: of those, just when its
key had no lease, or the lease could not be taken back. -/
theorem leasesKept_iff (cfg : NodeConfig Invite) (s : NodeState) (req : Admit) (now : Nat) (f : ServeFaults)
    (hpass : req.pass ≠ none) :
    (EndsUndone cfg s req now f →
      (LeasesKept cfg s req now f ↔ s.leases.find req.publicKey = none ∨ f.revoke ≠ none)) ∧
    (¬ EndsUndone cfg s req now f → LeasesKept cfg s req now f) := by
  obtain ⟨p, hpass⟩ := Option.ne_none_iff_exists'.1 hpass
  unfold EndsUndone LeasesKept NodeState.serve
  simp only [hpass, Option.mem_some_iff, forall_eq', Option.isSome_some, if_true]
  cases f.closed with
  | true => simp
  | false =>
    unfold NodeState.answer
    simp only [hpass, Option.any_some, Bool.false_eq_true, if_false, true_and]
    cases s.spent.contains p.tag with
    | true => simp
    | false =>
      simp only [Bool.false_eq_true, if_false, true_and]
      rcases admitted_cases cfg s now f hpass with ⟨s', undo, hnot, hsame, -, hadm⟩ |
        ⟨s', hall, -, ⟨key, why, hkey, hadm⟩ | ⟨invite, hadm⟩⟩ <;> rw [hadm] <;> dsimp only
      · refine ⟨?_, fun _ l hl => ?_⟩
        · rintro (⟨key, why, h⟩ | ⟨⟨invite, h⟩, -⟩) <;> cases h
          exact absurd rfl (hnot key why)
        · cases undo with
          | nothing refused => exact hsame.symm ▸ hl
          | spent why =>
            show l ∈ (s'.forgetPass (some p) why f).1.leases.leases
            rw [leases_forgetPass, hsame]
            exact hl
          | admitted key why => exact absurd rfl (hnot key why)
      · exact ⟨fun _ => undone_iff hall hkey, fun h => absurd (Or.inl ⟨key, why, rfl⟩) h⟩
      · cases f.gone with
        | true => exact ⟨fun _ => undone_iff hall rfl, fun h => absurd (Or.inr ⟨⟨invite, rfl⟩, rfl⟩) h⟩
        | false =>
          refine ⟨?_, fun _ => hall⟩
          rintro (⟨key, why, h⟩ | ⟨-, h⟩) <;> cases h

private def manualOnly : NodeState := ⟨⟨[⟨"laptop", "k", 2, 0, manual, 0⟩]⟩, ⟨[], 0, false⟩, []⟩

/-- The peer of another key cannot be added. -/
theorem leasesKept_otherKey :
    LeasesKept plain manualOnly ⟨"other", "a", false, some ⟨"t", 5⟩⟩ 0
      { ServeFaults.none with addPeer := some "no such device" } := by
  refine ((leasesKept_iff plain manualOnly ⟨"other", "a", false, some ⟨"t", 5⟩⟩ 0 _ (by decide)).1
    ⟨rfl, by decide, Or.inl ⟨"other", "could not admit: no such device", rfl⟩⟩).2 (Or.inl (by decide))

/-- A key let in by hand redeems a pass and its peer cannot be added: it is let in no more. -/
theorem not_leasesKept : ∃ (cfg : NodeConfig Unit) (s : NodeState) (req : Admit) (now : Nat) (f : ServeFaults),
    req.pass ≠ none ∧ EndsUndone cfg s req now f ∧ ¬ LeasesKept cfg s req now f := by
  refine ⟨plain, manualOnly, ⟨"k", "a", false, some ⟨"t", 5⟩⟩, 0,
    { ServeFaults.none with addPeer := some "no such device" }, by decide,
    ⟨rfl, by decide, Or.inl ⟨"k", "could not admit: no such device", rfl⟩⟩, ?_⟩
  unfold LeasesKept
  decide

end HidraNet.Node
