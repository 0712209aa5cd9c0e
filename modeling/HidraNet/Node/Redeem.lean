import HidraNet.Lib.Marks
import HidraNet.Lib.Runs
import HidraNet.Core.Pass
import HidraNet.Node.Undo

/-!
# Redemptions

The admission service checks a pass when its request is read (`redeem`) and puts it to the main loop, which serves the
waiting requests one by one and forgets, every now and then, the tags of passes that are past their end (`reap`).

A pass is answered with an invite at most once (`spentOnce_run`), except when a second request for it, checked in time,
is served after the reaper has run past its end: the tag is forgotten by then (`not_spentOnce`).
-/

namespace HidraNet.Node

open HidraNet.Core Marks Runs

/-- What the admission service needs of a node's settings. -/
structure RedeemConfig (Pk : Type) where
  admission : String
  passKeys : List PassKeyRecord
  publicKey : Except String String
  crypto : Crypto Pk

def RedeemConfig.admitsWithPasses {Pk : Type} (cfg : RedeemConfig Pk) : Bool :=
  eqIgnoreAsciiCase (Text.trim cfg.admission) "pass"

/-- A redemption read: refused, or the request put to the main loop.  `body` is none when it is not a pass. -/
def redeem {Pk : Type} (cfg : RedeemConfig Pk) (body : Option Redemption) (now : Int) (counter : Nat) :
    Except (Nat × String) Admit :=
  if !cfg.admitsWithPasses then .error (403, "this node does not admit with passes")
  else
    match body with
    | none => .error (400, "the request is not a pass")
    | some r =>
      match cfg.publicKey with
      | .error _ => .error (500, "this node cannot read its own key")
      | .ok me =>
        match r.verify cfg.crypto cfg.passKeys me now with
        | .error e => .error (403, "the pass is refused: " ++ e)
        | .ok _ =>
          let validUntil := match findKey cfg.passKeys r.keyId with
            | some k => match rfc3339ToUnix k.notAfter with
              | .ok t => t
              | .error _ => now
            | none => now
          .ok ⟨r.clientPublicKey, "pass-" ++ toString counter, false, some ⟨r.spentTag cfg.crypto, validUntil⟩⟩

/-! ### Requests waiting, and the reaper -/

structure Redeeming where
  node : NodeState
  clock : Nat
  counter : Nat
  waiting : List Admit
  reaped : Nat
  invited : List SpentPass
deriving DecidableEq

inductive RedeemStep where
  | redeem (body : Option Redemption) (now : Nat)
  /-- A request for an openly admitted key, or for a key for one connection. -/
  | ask (req : Admit)
  /-- The request at place `i` is served; the channel has the first one served first, which is not used. -/
  | serve (i : Nat) (now : Nat) (f : ServeFaults)
  | reap (now : Nat) (save : Option String)
  /-- The operator's commands and the expiry of leases, whatever they leave. -/
  | others (leases : Leases) (peers : List (String × Nat))
deriving DecidableEq

namespace Redeeming

def start (node : NodeState) (clock : Nat) : Redeeming := ⟨node, clock, 0, [], 0, []⟩

variable {Pk Invite : Type} (rc : RedeemConfig Pk) (cfg : NodeConfig Invite)

def redeemed (s : Redeeming) (body : Option Redemption) (now : Nat) : Redeeming :=
  match redeem rc body now s.counter with
  | .ok req => { s with clock := now, counter := (s.counter + 1) % 2 ^ 64, waiting := s.waiting ++ [req] }
  | .error _ => { s with clock := now }

/-- A pass has won an invite when the answer reached who asked, or when it did not and the pass stays spent. -/
def served (s : Redeeming) (i : Nat) (now : Nat) (f : ServeFaults) : Redeeming :=
  match s.waiting[i]? with
  | none => s
  | some req =>
    let (node, r) := s.node.serve cfg req now f
    let won := match req.pass, r with
      | some p, .answered (.ok _) reached => if reached || node.spent.contains p.tag then [p] else []
      | _, _ => []
    { s with node, clock := now, waiting := s.waiting.eraseIdx i, invited := s.invited ++ won }

def reap (s : Redeeming) (now : Nat) (save : Option String) : Redeeming :=
  let spent := s.node.spent.prune now
  let spent := if spent.tags.length < s.node.spent.tags.length || spent.needsCompacting then (spent.save save).1 else spent
  { s with node := { s.node with spent }, clock := now, reaped := now }

def step (s : Redeeming) : RedeemStep → Redeeming
  | .redeem body now => s.redeemed rc body now
  | .ask req => { s with waiting := s.waiting ++ [req] }
  | .serve i now f => s.served cfg i now f
  | .reap now save => s.reap now save
  | .others leases peers => { s with node := { s.node with leases, peers } }

/-- The clock does not go back, and what is asked for without a pass has none. -/
def Allowed (s : Redeeming) : RedeemStep → Prop
  | .redeem _ now => s.clock ≤ now
  | .ask req => req.pass = none
  | .serve _ now _ => s.clock ≤ now
  | .reap now _ => s.clock ≤ now
  | .others _ _ => True

def InTime (s : Redeeming) : RedeemStep → Prop
  | .serve i _ _ => ∀ req ∈ s.waiting[i]?, ∀ p ∈ req.pass, ∀ q ∈ s.invited, q.tag = p.tag → s.reaped ≤ q.validUntil
  | _ => True

instance (s : Redeeming) (e : RedeemStep) : Decidable (s.Allowed e) := by
  cases e <;> unfold Allowed <;> infer_instance

instance (s : Redeeming) (e : RedeemStep) : Decidable (s.InTime e) := by
  cases e <;> unfold InTime <;> infer_instance

end Redeeming

/-! ### What serving leaves of the tags -/

section Tags

variable {Invite : Type} {cfg : NodeConfig Invite} {s : NodeState} {req : Admit} {p : SpentPass} {now : Nat}
  {f : ServeFaults}

private theorem tags_undoAdmission (s : NodeState) (undo : Undo) (p : SpentPass) (f : ServeFaults) :
    (∀ m ∈ s.spent.tags, m.1 ≠ p.tag → m ∈ (s.undoAdmission undo (some p) f).1.spent.tags) ∧
      ∀ v, (p.tag, v) ∈ (s.undoAdmission undo (some p) f).1.spent.tags → (p.tag, v) ∈ s.spent.tags := by
  have hforget : ∀ (s : NodeState) (why : String),
      (∀ m ∈ s.spent.tags, m.1 ≠ p.tag → m ∈ (s.forgetPass (some p) why f).1.spent.tags) ∧
        ∀ v, (p.tag, v) ∈ (s.forgetPass (some p) why f).1.spent.tags → (p.tag, v) ∈ s.spent.tags := by
    intro s why
    unfold NodeState.forgetPass
    dsimp only
    rcases s.spent.forget_cases p.tag f.forget with ⟨s', htags, hr, -⟩ | ⟨e, v, s', hmem, htags, hr, -⟩ <;> rw [hr] <;>
      dsimp only <;> rw [htags]
    · constructor
      · intro m hm hne
        exact List.mem_filter.2 ⟨hm, by simpa using hne⟩
      · intro v hv
        exact List.mem_of_mem_filter hv
    · constructor
      · intro m hm hne
        exact List.mem_append_left _ (List.mem_filter.2 ⟨hm, by simpa using hne⟩)
      · intro v' hv
        rcases List.mem_append.1 hv with hv | hv
        · exact List.mem_of_mem_filter hv
        · cases List.mem_singleton.1 hv
          exact hmem
  cases undo with
  | nothing refused => exact ⟨fun _ hm _ => hm, fun _ hv => hv⟩
  | spent why => exact hforget s why
  | admitted key why =>
    unfold NodeState.undoAdmission
    dsimp only
    have hspent : (s.removePeer key f.removePeer).spent = s.spent := by
      unfold NodeState.removePeer
      split <;> rfl
    have hforgotten := hforget { s.removePeer key f.removePeer with
      leases := ((s.removePeer key f.removePeer).leases.update f.revoke none () fun ls _ =>
        ((ls.revoke key).1, (), (), (ls.revoke key).2)).1 } why
    rw [hspent] at hforgotten
    exact hforgotten

theorem serve_of_contains (cfg : NodeConfig Invite) (now : Nat) (f : ServeFaults) (hpass : req.pass = some p)
    (hspent : s.spent.contains p.tag = true) :
    (s.serve cfg req now f).1 = s ∧ ∀ invite reached, (s.serve cfg req now f).2 ≠ .answered (.ok invite) reached := by
  unfold NodeState.serve NodeState.answer
  simp only [hpass, Option.any_some, hspent, if_true]
  cases f.closed <;> simp

theorem serve_tags (cfg : NodeConfig Invite) (now : Nat) (f : ServeFaults) (hpass : req.pass = some p)
    (hfree : s.spent.contains p.tag = false) :
    (∀ m ∈ s.spent.tags, m.1 ≠ p.tag → m ∈ (s.serve cfg req now f).1.spent.tags) ∧
      ∀ invite reached, (s.serve cfg req now f).2 = .answered (.ok invite) reached →
        (reached || (s.serve cfg req now f).1.spent.contains p.tag) = true →
        (p.tag, p.validUntil) ∈ (s.serve cfg req now f).1.spent.tags := by
  have hothers : ∀ m ∈ s.spent.tags, m.1 ≠ p.tag → m ∈ (s.spent.insert p.tag p.validUntil).tags := fun m hm hne =>
    List.mem_append_left _ (List.mem_filter.2 ⟨hm, by simpa using hne⟩)
  have hown : ∀ v, (p.tag, v) ∈ (s.spent.insert p.tag p.validUntil).tags → v = p.validUntil := by
    intro v hv
    rcases List.mem_append.1 hv with hv | hv
    · have hne := (List.mem_filter.1 hv).2
      simp at hne
    · cases List.mem_singleton.1 hv
      rfl
  unfold NodeState.serve NodeState.answer
  simp only [hpass, Option.any_some, hfree, Bool.false_eq_true, if_false, Option.isSome_some, if_true]
  cases f.closed with
  | true => exact ⟨fun _ hm _ => hm, fun _ _ h => by cases h⟩
  | false =>
    simp only [Bool.false_eq_true, if_false]
    rcases admitted_cases cfg s now f hpass with ⟨s', undo, -, -, htags, hadm⟩ |
      ⟨s', -, htags, ⟨key, why, -, hadm⟩ | ⟨invite, hadm⟩⟩ <;> rw [hadm] <;> dsimp only
    · refine ⟨fun m hm hne => (tags_undoAdmission s' undo p f).1 m ?_ hne, fun _ _ h => by cases h⟩
      rcases htags with h | h <;> rw [h]
      · exact hm
      · exact hothers m hm hne
    · refine ⟨fun m hm hne => (tags_undoAdmission s' _ p f).1 m ?_ hne, fun _ _ h => by cases h⟩
      rw [htags]
      exact hothers m hm hne
    · have hhas : (p.tag, p.validUntil) ∈ s'.spent.tags := by
        rw [htags]
        exact List.mem_append_right _ (List.mem_singleton_self _)
      cases f.gone with
      | false =>
        refine ⟨fun m hm hne => ?_, fun _ _ _ _ => hhas⟩
        show m ∈ s'.spent.tags
        rw [htags]
        exact hothers m hm hne
      | true =>
        simp only [if_true]
        obtain ⟨hkept, hnew⟩ := tags_undoAdmission s' (.admitted req.publicKey "no one was waiting") p f
        refine ⟨fun m hm hne => hkept m (by rw [htags]; exact hothers m hm hne) hne, fun _ reached h hc => ?_⟩
        cases h
        -- its tag is there: with the end it was put down with
        obtain ⟨v, hv⟩ := SpentPasses.contains_iff.1 (by simpa using hc)
        have hend := hnew v hv
        rw [htags] at hend
        rw [hown v hend] at hv
        exact hv

theorem spent_serve_of_none (hpass : req.pass = none) : (s.serve cfg req now f).1.spent = s.spent := by
  have hlease : (s.leaseFor cfg req now f).1.spent = s.spent := by
    unfold NodeState.leaseFor
    simp only [hpass]
    refine Leases.update_env ?_
    (repeat' split) <;> rfl
  have hadmitted : (s.admitted cfg req now f).1.spent = s.spent := by
    rw [← hlease]
    unfold NodeState.admitted NodeState.addPeer
    generalize s.leaseFor cfg req now f = r
    obtain ⟨s', e | refused | lease⟩ := r
    · rfl
    · rfl
    · cases f.addPeer with
      | some e => rfl
      | none =>
        dsimp only
        cases cfg.inviteFor lease <;> rfl
  have hundo : ∀ (s : NodeState) (undo : Undo), (s.undoAdmission undo none f).1.spent = s.spent := by
    intro s undo
    unfold NodeState.undoAdmission NodeState.forgetPass NodeState.removePeer
    cases undo <;> dsimp only
    split <;> rfl
  unfold NodeState.serve NodeState.answer
  simp only [hpass, Option.any_none, Bool.false_eq_true, if_false, Option.isSome_none]
  cases f.closed with
  | true => rfl
  | false =>
    simp only [Bool.false_eq_true, if_false]
    cases hadm : s.admitted cfg req now f with
    | mk s' r =>
      rw [hadm] at hadmitted
      cases r with
      | ok invite => cases f.gone <;> exact hadmitted
      | error undo => exact (hundo s' undo).trans hadmitted

end Tags

/-! ### A pass is spent once -/

section SpentOnce

variable {Pk Invite : Type} {rc : RedeemConfig Pk} {cfg : NodeConfig Invite} {s : Redeeming}

def SpentOnce (s : Redeeming) : Prop := (s.invited.map SpentPass.tag).Nodup

def SpentInv (s : Redeeming) : Prop :=
  Once (fun (validUntil : Int) (reaped : Nat) => validUntil < reaped) s.node.spent.tags
    (s.invited.map fun p => (p.tag, p.validUntil)) s.reaped ∧ s.reaped ≤ s.clock

private theorem spentInv_start (node : NodeState) (clock : Nat) : SpentInv (Redeeming.start node clock) :=
  ⟨once_nil _ _ _, Nat.zero_le _⟩

private theorem spentInv_served (h : SpentInv s) {i now : Nat} {f : ServeFaults} (hclock : s.clock ≤ now)
    (hok : ∀ req ∈ s.waiting[i]?, ∀ p ∈ req.pass, ∀ q ∈ s.invited, q.tag = p.tag → s.reaped ≤ q.validUntil) :
    SpentInv (s.served cfg i now f) := by
  unfold Redeeming.served
  cases hreq : s.waiting[i]? with
  | none => exact h
  | some req =>
    dsimp only
    refine ⟨?_, h.2.trans hclock⟩
    dsimp only
    cases hpass : req.pass with
    | none =>
      rw [spent_serve_of_none hpass, List.append_nil]
      exact h.1
    | some p =>
      cases hspent : s.node.spent.contains p.tag with
      | true =>
        obtain ⟨hsame, hno⟩ := serve_of_contains cfg now f hpass hspent
        rw [hsame]
        cases hr : (s.node.serve cfg req now f).2 with
        | skipped => simpa using h.1
        | answered answer reached =>
          cases answer with
          | ok invite => exact absurd hr (hno invite reached)
          | error e => simpa using h.1
      | false =>
        obtain ⟨hothers, hown⟩ := serve_tags cfg now f hpass hspent
        have hend : ∀ d ∈ s.invited.map (fun p => (p.tag, p.validUntil)), d.1 = p.tag → ¬ d.2 < (s.reaped : Int) := by
          intro d hd htag
          obtain ⟨q, hq, rfl⟩ := List.mem_map.1 hd
          exact not_lt.2 (hok req hreq p hpass q hq htag)
        have hnot : ∀ m ∈ s.node.spent.tags, m.1 ≠ p.tag := by
          intro m hm htag
          have hcontains : s.node.spent.contains p.tag = true := by
            rw [← htag]
            exact SpentPasses.contains_iff.2 ⟨m.2, hm⟩
          rw [hspent] at hcontains
          cases hcontains
        have hkept : ∀ m ∈ s.node.spent.tags, m ∈ (s.node.serve cfg req now f).1.spent.tags := fun m hm =>
          hothers m hm (hnot m hm)
        have hsame : Once (fun (validUntil : Int) (reaped : Nat) => validUntil < reaped)
            (s.node.serve cfg req now f).1.spent.tags (s.invited.map fun p => (p.tag, p.validUntil)) s.reaped :=
          h.1.later (fun _ hp => hp) fun m hm _ => hkept m hm
        cases hr : (s.node.serve cfg req now f).2 with
        | skipped => simpa using hsame
        | answered answer reached =>
          cases answer with
          | error e => simpa using hsame
          | ok invite =>
            dsimp only
            split
            · rename_i hwon
              rw [List.map_append]
              refine (h.1.mark (u := p.validUntil) hnot hend).later (fun _ hp => hp) fun m hm _ => ?_
              rcases List.mem_append.1 hm with hm | hm
              · exact hkept m hm
              · rw [List.mem_singleton.1 hm]
                exact hown invite reached hr hwon
            · simpa using hsame

private theorem spentInv_reap (h : SpentInv s) {now : Nat} {save : Option String} (hclock : s.clock ≤ now) :
    SpentInv (s.reap now save) := by
  unfold Redeeming.reap
  refine ⟨?_, le_refl now⟩
  dsimp only
  have hpruned : Once (fun (validUntil : Int) (reaped : Nat) => validUntil < reaped) (s.node.spent.prune now).tags
      (s.invited.map fun p => (p.tag, p.validUntil)) now := by
    refine h.1.later (fun validUntil hp => ?_) fun m hm hnot => ?_
    · have := h.2.trans hclock
      omega
    · exact List.mem_filter.2 ⟨hm, by simpa using hnot⟩
  split
  · have htags : ((s.node.spent.prune now).save save).1.tags = (s.node.spent.prune now).tags := by
      unfold SpentPasses.save
      cases save <;> rfl
    rw [htags]
    exact hpruned
  · exact hpruned

private theorem spentInv_step (s : Redeeming) (e : RedeemStep) (h : SpentInv s) (hok : s.Allowed e ∧ s.InTime e) :
    SpentInv (s.step rc cfg e) := by
  cases e with
  | redeem body now =>
    unfold Redeeming.step Redeeming.redeemed
    dsimp only
    split <;> exact ⟨h.1, h.2.trans hok.1⟩
  | ask req => exact h
  | serve i now f => exact spentInv_served h hok.1 hok.2
  | reap now save => exact spentInv_reap h hok.1
  | others leases peers => exact h

/-- In every run in which no request is served for a pass that won an invite and whose tag the reaper may have
forgotten since, no two requests with the same tag win an invite. -/
theorem spentOnce_run (rc : RedeemConfig Pk) (cfg : NodeConfig Invite) (node : NodeState) (clock : Nat)
    (es : List RedeemStep)
    (h : Along (Redeeming.step rc cfg) (fun s e => s.Allowed e ∧ s.InTime e) (Redeeming.start node clock) es) :
    SpentOnce (run (Redeeming.step rc cfg) (Redeeming.start node clock) es) := by
  have hinv := run_invariant (P := SpentInv) spentInv_step h (spentInv_start node clock)
  have hnodup := hinv.1.nodup
  rw [List.map_map] at hnodup
  exact hnodup

private def trusting : Crypto Unit :=
  ⟨fun s => some (List.replicate (if s = "signature" then 256 else 32) 0), fun b => b, fun _ => .ok (),
    fun _ => List.replicate 256 1, fun _ _ _ _ => true⟩

private def takesPasses : RedeemConfig Unit :=
  ⟨"pass", [⟨"486964726156504e", "key", "1970-01-01T00:00:02Z"⟩], .ok "node", trusting⟩

private def anyKey : NodeConfig Unit := ⟨⟨0, 24⟩, 8, false, fun _ => true, fun _ => .ok ()⟩

private def aPass : Redemption := ⟨"486964726156504e", "node", "client", "nonce", "randomizer", "signature"⟩

set_option maxRecDepth 20000 in
/-- Both requests wait when the first is served; the second is refused. -/
theorem spentOnce_secondRefused :
    SpentOnce (run (Redeeming.step takesPasses anyKey) (Redeeming.start ⟨⟨[]⟩, ⟨[], 0, false⟩, []⟩ 0)
      [.redeem (some aPass) 1, .redeem (some aPass) 2, .serve 0 2 .none, .serve 0 2 .none, .reap 3 none]) :=
  spentOnce_run takesPasses anyKey _ 0 _ (by decide)

set_option maxRecDepth 20000 in
/-- A pass redeemed twice by its end: the second request is served after the reaper has run past it. -/
theorem not_spentOnce : ∃ (rc : RedeemConfig Unit) (cfg : NodeConfig Unit) (node : NodeState) (clock : Nat)
    (es : List RedeemStep), Along (Redeeming.step rc cfg) Redeeming.Allowed (Redeeming.start node clock) es ∧
      ¬ SpentOnce (run (Redeeming.step rc cfg) (Redeeming.start node clock) es) := by
  refine ⟨takesPasses, anyKey, ⟨⟨[]⟩, ⟨[], 0, false⟩, []⟩, 0,
    [.redeem (some aPass) 1, .redeem (some aPass) 2, .serve 0 2 .none, .reap 3 none, .serve 0 3 .none], by decide, ?_⟩
  unfold SpentOnce
  decide

end SpentOnce

end HidraNet.Node
