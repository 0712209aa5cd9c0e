import HidraNet.Node.LeaseTable
import HidraNet.Node.Redeem

/-!
# The shares of a node's places

However requests, expiry and revocations follow one another, a node holds no more leases than it admits clients, no
more lasting ones won openly than their share, and as an entry none of those.  A key that has a lease is answered with
it, and the table stays as it is, unless its pass was spent before (`shares_run`, `not_answeredWithLease`).
-/

namespace HidraNet.Node

open Runs Text

variable {Invite : Type}

inductive LoopStep where
  | serve (req : Admit) (now : Nat) (f : ServeFaults)
  | expire (now : Nat) (ages : List (String × Option Nat)) (active : List String) (w : IdleWindows)
    (read save : Option String) (stuck : List String)
  | revoke (publicKey : String) (read save : Option String)
deriving DecidableEq

namespace NodeState

/-- What the reaper does to the leases and to the tunnel device; `stuck` are the peers that cannot be removed. -/
def expire (s : NodeState) (now : Nat) (ages : List (String × Option Nat)) (active : List String) (w : IdleWindows)
    (read save : Option String) (stuck : List String) : NodeState :=
  let (leases, _, r) := s.leases.update read save () fun ls _ =>
    let (ls, shook) := ls.noteHandshakes now ages
    let (ls, sent) := ls.noteTraffic now active
    let (ls, gone) := ls.expireIdle now w
    (ls, (), gone, shook || sent || !gone.isEmpty)
  match r with
  | .error _ => { s with leases }
  | .ok gone =>
    { s with leases, peers := s.peers.filter fun p => !(gone.map Lease.publicKey).contains p.1 || stuck.contains p.1 }

/-- The operator's `revoke`, on the leases. -/
def revoke (s : NodeState) (publicKey : String) (read save : Option String) : NodeState :=
  { s with leases := (s.leases.update read save () fun ls _ =>
      ((ls.revoke publicKey).1, (), (), (ls.revoke publicKey).2)).1 }

def step (cfg : NodeConfig Invite) (s : NodeState) : LoopStep → NodeState
  | .serve req now f => (s.serve cfg req now f).1
  | .expire now ages active w read save stuck => s.expire now ages active w read save stuck
  | .revoke key read save => s.revoke key read save

end NodeState

/-- Within the node's shares. -/
structure WithinShares (cfg : NodeConfig Invite) (s : NodeState) : Prop where
  clients : s.leases.len ≤ cfg.maxClients
  lasting : s.leases.countSource "open" ≤ cfg.lastingOpenCap

def Admit.source (req : Admit) : String :=
  if req.pass.isSome then "pass" else if req.session then "session" else "open"

variable {cfg : NodeConfig Invite} {s : NodeState} {req : Admit} {now : Nat} {f : ServeFaults}

/-! ### What a step does to the table -/

theorem Leases.of_update {σ α : Type} {P : Leases → Prop} {ls : Leases} {read save : Option String} {env : σ}
    {f : Leases → σ → Leases × σ × α × Bool} (hsame : P ls) (hnew : P (f ls env).1) :
    P (ls.update read save env f).1 := by
  unfold update
  cases read with
  | some e => exact hsame
  | none =>
    revert hnew
    obtain ⟨ls', env', out, changed⟩ := f ls env
    intro hnew
    cases changed with
    | false => exact hsame
    | true =>
      cases save with
      | some e => exact hsame
      | none => exact hnew

private theorem admit_eq_admitAs (isKey : String → Bool) (ls : Leases) (net : TunnelNet) (req : Admit) (now : Nat) :
    (if req.pass.isSome = true then ls.admitPass isKey req.name req.publicKey net now
      else ls.admitOpen isKey req.name req.publicKey net now req.session) =
      ls.admitAs isKey req.name req.publicKey net now req.source := by
  unfold Leases.admitPass Leases.admitOpen Admit.source
  split <;> rfl

private theorem room_of_not_refused {ls : Leases} {key : String} {net : TunnelNet} {maxClients : Nat}
    {lasting : Option Nat} (h : ls.refusalForRoom key net maxClients lasting = none) (hnew : ls.find key = none) :
    ls.len < maxClients ∧ ∀ cap ∈ lasting, ls.countSource "open" < cap := by
  unfold Leases.refusalForRoom at h
  rw [hnew] at h
  simp only [Option.isSome_none, Bool.false_eq_true, if_false] at h
  split at h
  · cases h
  · rename_i hroom
    simp only [Bool.or_eq_true, decide_eq_true_eq, not_or, not_le] at hroom
    refine ⟨hroom.1, fun cap hcap => ?_⟩
    cases hcap
    dsimp only at h
    split at h
    · cases h
    · rename_i hcap
      exact not_le.1 hcap

private theorem lasting_of_open (h : req.source = "open") : (req.pass.isNone && !req.session) = true := by
  unfold Admit.source at h
  cases hpass : req.pass with
  | some p => simp [hpass] at h
  | none =>
    cases hsession : req.session with
    | true => simp [hpass, hsession] at h
    | false => rfl

/-- One more lease for a request whose key has none, when it is not refused. -/
structure NewLease (cfg : NodeConfig Invite) (s : NodeState) (req : Admit) (l : Lease) : Prop where
  key : l.publicKey = trim req.publicKey
  source : l.source = req.source
  absent : s.leases.find req.publicKey = none
  room : s.leases.refusalForRoom req.publicKey cfg.net cfg.maxClients
    (if req.pass.isNone && !req.session then some cfg.lastingOpenCap else none) = none

theorem NewLease.below {l : Lease} (h : NewLease cfg s req l) :
    s.leases.len < cfg.maxClients ∧ (req.source = "open" → s.leases.countSource "open" < cfg.lastingOpenCap) := by
  obtain ⟨hclients, hlasting⟩ := room_of_not_refused h.room h.absent
  refine ⟨hclients, fun hopen => ?_⟩
  exact hlasting _ (by rw [if_pos (lasting_of_open hopen)]; rfl)

theorem leaseFor_leases (cfg : NodeConfig Invite) (s : NodeState) (req : Admit) (now : Nat) (f : ServeFaults) :
    (s.leaseFor cfg req now f).1.leases = s.leases ∨
      ∃ l, (s.leaseFor cfg req now f).1.leases.leases = s.leases.leases ++ [l] ∧ NewLease cfg s req l := by
  unfold NodeState.leaseFor
  dsimp only
  refine Leases.of_update (P := fun ls => ls = s.leases ∨ ∃ l, ls.leases = s.leases.leases ++ [l] ∧
    NewLease cfg s req l) (Or.inl rfl) ?_
  rw [admit_eq_admitAs]
  split
  · exact Or.inl rfl
  · rename_i hroom
    rcases s.leases.admitAs_cases cfg.isKey req.name req.publicKey cfg.net now req.source with ⟨e, h⟩ | ⟨l, -, h⟩ |
      ⟨hnew, ip, h⟩ <;> rw [h] <;> dsimp only
    · exact Or.inl rfl
    · left
      (repeat' split) <;> rfl
    · right
      refine ⟨⟨trim req.name, trim req.publicKey, ip, now, req.source, 0⟩, ?_, rfl, rfl, hnew, hroom⟩
      (repeat' split) <;> rfl

theorem sublist_undoAdmission (s : NodeState) (undo : Undo) (pass : Option SpentPass) (f : ServeFaults) :
    (s.undoAdmission undo pass f).1.leases.leases.Sublist s.leases.leases := by
  cases undo with
  | nothing refused => exact List.Sublist.refl _
  | spent why =>
    show (s.forgetPass pass why f).1.leases.leases.Sublist _
    rw [leases_forgetPass]
  | admitted key why =>
    unfold NodeState.undoAdmission
    dsimp only
    rw [leases_forgetPass]
    have hleases : (s.removePeer key f.removePeer).leases = s.leases := by
      unfold NodeState.removePeer
      split <;> rfl
    rw [hleases]
    exact Leases.of_update (P := fun ls => ls.leases.Sublist s.leases.leases) (List.Sublist.refl _) List.filter_sublist

theorem answer_leases (cfg : NodeConfig Invite) (s : NodeState) (req : Admit) (now : Nat) (f : ServeFaults) :
    (s.answer cfg req now f).1.leases.leases.Sublist s.leases.leases ∨
      ∃ l, (s.answer cfg req now f).1.leases.leases.Sublist (s.leases.leases ++ [l]) ∧ NewLease cfg s req l := by
  have hadmitted : (s.admitted cfg req now f).1.leases = (s.leaseFor cfg req now f).1.leases := by
    unfold NodeState.admitted NodeState.addPeer
    generalize s.leaseFor cfg req now f = r
    obtain ⟨s', e | refused | lease⟩ := r
    · rfl
    · rfl
    · cases f.addPeer with
      | some e => rfl
      | none =>
        dsimp only
        cases cfg.inviteFor lease <;> rfl
  have hanswer : (s.answer cfg req now f).1.leases.leases.Sublist s.leases.leases ∨
      (s.answer cfg req now f).1.leases.leases.Sublist (s.leaseFor cfg req now f).1.leases.leases := by
    rw [← hadmitted]
    unfold NodeState.answer
    by_cases hspent : (req.pass.any fun p => s.spent.contains p.tag) = true
    · rw [if_pos hspent]
      exact Or.inl (List.Sublist.refl _)
    · rw [if_neg hspent]
      right
      obtain ⟨s', undo | invite⟩ := s.admitted cfg req now f
      · exact sublist_undoAdmission s' undo req.pass f
      · exact List.Sublist.refl _
  rcases hanswer with h | h
  · exact Or.inl h
  · rcases leaseFor_leases cfg s req now f with hsame | ⟨l, hnew, hl⟩
    · rw [hsame] at h
      exact Or.inl h
    · rw [hnew] at h
      exact Or.inr ⟨l, h, hl⟩

theorem sublist_serve (cfg : NodeConfig Invite) (s : NodeState) (req : Admit) (now : Nat) (f : ServeFaults) :
    (s.serve cfg req now f).1.leases.leases.Sublist s.leases.leases ∨
      (s.serve cfg req now f).1.leases.leases.Sublist (s.answer cfg req now f).1.leases.leases := by
  unfold NodeState.serve
  cases f.closed with
  | true => exact Or.inl (List.Sublist.refl _)
  | false =>
    right
    simp only [Bool.false_eq_true, if_false]
    obtain ⟨s', refused | invite⟩ := s.answer cfg req now f
    · exact List.Sublist.refl _
    · cases f.gone with
      | false => exact List.Sublist.refl _
      | true =>
        simp only [if_true]
        split
        · exact sublist_undoAdmission s' _ req.pass f
        · exact List.Sublist.refl _

theorem serve_leases (cfg : NodeConfig Invite) (s : NodeState) (req : Admit) (now : Nat) (f : ServeFaults) :
    (s.serve cfg req now f).1.leases.leases.Sublist s.leases.leases ∨
      ∃ l, (s.serve cfg req now f).1.leases.leases.Sublist (s.leases.leases ++ [l]) ∧ NewLease cfg s req l := by
  rcases sublist_serve cfg s req now f with h | h
  · exact Or.inl h
  · rcases answer_leases cfg s req now f with hsub | ⟨l, hsub, hl⟩
    · exact Or.inl (h.trans hsub)
    · exact Or.inr ⟨l, h.trans hsub, hl⟩

/-! ### The shares over a run -/

private theorem withinShares_of_sublist {leases : Leases} (h : WithinShares cfg s)
    (hsub : (leases.leases.map Lease.source).Sublist (s.leases.leases.map Lease.source)) {s' : NodeState}
    (hs' : s'.leases = leases) : WithinShares cfg s' := by
  have hcount : ∀ ls : Leases, ls.countSource "open" = (ls.leases.map Lease.source).count "open" := by
    intro ls
    unfold Leases.countSource List.count
    rw [List.countP_map]
    rfl
  constructor
  · rw [hs']
    have hlen := hsub.length_le
    rw [List.length_map, List.length_map] at hlen
    exact hlen.trans h.clients
  · rw [hs', hcount]
    have hlasting := h.lasting
    rw [hcount] at hlasting
    exact (hsub.count_le _).trans hlasting

private theorem withinShares_serve (h : WithinShares cfg s) (req : Admit) (now : Nat) (f : ServeFaults) :
    WithinShares cfg (s.serve cfg req now f).1 := by
  rcases serve_leases cfg s req now f with hsub | ⟨l, hsub, hl⟩
  · exact withinShares_of_sublist h (hsub.map _) rfl
  · obtain ⟨hclients, hlasting⟩ := hl.below
    constructor
    · have hlen := hsub.length_le
      rw [List.length_append, List.length_singleton] at hlen
      unfold Leases.len at hclients ⊢
      omega
    · have hcount : (s.serve cfg req now f).1.leases.leases.countP (·.source == "open") ≤
          (s.leases.leases ++ [l]).countP (·.source == "open") := hsub.countP_le
      rw [List.countP_append, List.countP_singleton] at hcount
      have hbefore := h.lasting
      unfold Leases.countSource at hbefore hlasting ⊢
      rw [hl.source] at hcount
      by_cases hopen : req.source = "open"
      · have hroom := hlasting hopen
        rw [if_pos (by simpa using hopen)] at hcount
        omega
      · rw [if_neg (by simpa using hopen)] at hcount
        omega

private theorem withinShares_step (s : NodeState) (e : LoopStep) (h : WithinShares cfg s) :
    WithinShares cfg (s.step cfg e) := by
  cases e with
  | serve req now f => exact withinShares_serve h req now f
  | expire now ages active w read save stuck =>
    refine withinShares_of_sublist h ?_ rfl
    have hleases : (s.expire now ages active w read save stuck).leases = (s.leases.update read save () fun ls _ =>
        ((((ls.noteHandshakes now ages).1.noteTraffic now active).1.expireIdle now w).1, (),
          (((ls.noteHandshakes now ages).1.noteTraffic now active).1.expireIdle now w).2,
          (ls.noteHandshakes now ages).2 || ((ls.noteHandshakes now ages).1.noteTraffic now active).2 ||
            !(((ls.noteHandshakes now ages).1.noteTraffic now active).1.expireIdle now w).2.isEmpty)).1 := by
      unfold NodeState.expire
      dsimp only
      split <;> rfl
    show ((s.expire now ages active w read save stuck).leases.leases.map Lease.source).Sublist _
    rw [hleases]
    refine Leases.of_update (P := fun ls => (ls.leases.map Lease.source).Sublist (s.leases.leases.map Lease.source))
      (List.Sublist.refl _) ?_
    have hnotes : ((s.leases.noteHandshakes now ages).1.noteTraffic now active).1.leases.map Lease.source =
        s.leases.leases.map Lease.source :=
      (Leases.map_noteTraffic fun _ _ => rfl).trans (Leases.map_noteHandshakes fun _ _ => rfl)
    rw [← hnotes]
    exact List.filter_sublist.map _
  | revoke key read save =>
    refine withinShares_of_sublist h (List.Sublist.map _ ?_) rfl
    exact Leases.of_update (P := fun ls => ls.leases.Sublist s.leases.leases) (List.Sublist.refl _) List.filter_sublist

def AnsweredWithLease (cfg : NodeConfig Invite) (s : NodeState) : Prop :=
  ∀ req now l invite, cfg.isKey (trim req.publicKey) = true → s.leases.find req.publicKey = some l →
    cfg.inviteFor l = .ok invite → (s.serve cfg req now .none).2 = .answered (.ok invite) true ∧
      (s.serve cfg req now .none).1.leases = s.leases

/-- The same, but for a key whose pass was spent before: it is refused, whatever fails, and nothing changes. -/
def AnsweredUnlessSpent (cfg : NodeConfig Invite) (s : NodeState) : Prop :=
  ∀ req now l invite, cfg.isKey (trim req.publicKey) = true → s.leases.find req.publicKey = some l →
    cfg.inviteFor l = .ok invite →
      ((∀ p ∈ req.pass, s.spent.contains p.tag = false) →
        (s.serve cfg req now .none).2 = .answered (.ok invite) true ∧
          (s.serve cfg req now .none).1.leases = s.leases) ∧
      (∀ p ∈ req.pass, s.spent.contains p.tag = true → ∀ f : ServeFaults, (s.serve cfg req now f).1 = s ∧
        ∀ answer reached, (s.serve cfg req now f).2 = .answered answer reached →
          answer = .error (409, "this pass was already spent here; use another"))

private theorem leaseFor_of_find (now : Nat) {l : Lease} (hkey : cfg.isKey (trim req.publicKey) = true)
    (hfind : s.leases.find req.publicKey = some l) :
    ∃ spent, s.leaseFor cfg req now .none = ({ s with spent }, .ok (.ok l)) := by
  have hroom : ∀ lasting, s.leases.refusalForRoom req.publicKey cfg.net cfg.maxClients lasting = none := by
    intro lasting
    simp [Leases.refusalForRoom, hfind]
  unfold NodeState.leaseFor Leases.update
  dsimp only [ServeFaults.none]
  rw [hroom, admit_eq_admitAs, Leases.admitAs_of_find hkey hfind]
  cases req.pass with
  | none => exact ⟨s.spent, rfl⟩
  | some p =>
    have hrec : s.spent.Recordable .none := by
      unfold SpentPasses.Recordable
      split
      · rfl
      · exact ⟨rfl, rfl⟩
    rcases s.spent.record_cases p.tag p.validUntil .none with ⟨-, spent, -, hr⟩ | ⟨hnot, -⟩ | ⟨hnot, -⟩
    · dsimp only
      rw [hr]
      exact ⟨spent, rfl⟩
    · exact absurd hrec hnot
    · exact absurd hrec hnot

private theorem answeredUnlessSpent (cfg : NodeConfig Invite) (s : NodeState) : AnsweredUnlessSpent cfg s := by
  intro req now l invite hkey hfind hinvite
  constructor
  · intro hfree
    have hnot : ¬ (req.pass.any fun p => s.spent.contains p.tag) = true := by
      cases hpass : req.pass with
      | none => simp
      | some p => simp [hfree p hpass]
    obtain ⟨spent, hl⟩ := leaseFor_of_find now hkey hfind
    unfold NodeState.serve NodeState.answer NodeState.admitted
    rw [if_neg hnot, hl]
    dsimp only [ServeFaults.none, NodeState.addPeer]
    rw [hinvite]
    exact ⟨rfl, rfl⟩
  · intro p hp hspent f
    refine ⟨(serve_of_contains cfg now f hp hspent).1, fun answer reached h => ?_⟩
    unfold NodeState.serve NodeState.answer at h
    rw [Option.mem_def] at hp
    simp only [hp, Option.any_some, hspent, if_true] at h
    cases hclosed : f.closed with
    | true =>
      rw [hclosed] at h
      cases h
    | false =>
      rw [hclosed] at h
      cases h
      rfl

/-- Over every run from a table within the node's shares: it stays within them, an entry makes no lasting lease, and a
key that has a lease is answered with it and the table left, but for a pass spent before. -/
theorem shares_run (cfg : NodeConfig Invite) (s : NodeState) (h : WithinShares cfg s) (es : List LoopStep) :
    let s := run (NodeState.step cfg) s es
    WithinShares cfg s ∧
      (cfg.isEntry = true → ∀ req now f, ∀ l ∈ (s.serve cfg req now f).1.leases.leases, l.source = "open" →
        l ∈ s.leases.leases) ∧ AnsweredUnlessSpent cfg s := by
  intro s'
  have hrun : WithinShares cfg s' := run_always withinShares_step h es
  refine ⟨hrun, fun hentry req now f l hl hopen => ?_, answeredUnlessSpent cfg s'⟩
  rcases serve_leases cfg s' req now f with hsub | ⟨l', hsub, hl'⟩
  · exact hsub.subset hl
  · rcases List.mem_append.1 (hsub.subset hl) with hl | hl
    · exact hl
    · -- the share of an entry is none
      rw [List.mem_singleton.1 hl, hl'.source] at hopen
      have hcap := hl'.below.2 hopen
      simp [NodeConfig.lastingOpenCap, hentry] at hcap

private def small : NodeConfig Unit := ⟨⟨0, 24⟩, 4, false, fun _ => true, fun _ => .ok ()⟩

private def oneManual : NodeState := ⟨⟨[⟨"laptop", "k", 2, 0, manual, 0⟩]⟩, ⟨[("spent", 5)], 0, false⟩, []⟩

/-- The second key that asks for a lasting lease is refused. -/
theorem shares_secondLasting :
    (run (NodeState.step small) oneManual [.serve ⟨"a", "n", false, none⟩ 0 .none, .serve ⟨"b", "n", false, none⟩ 0 .none,
      .serve ⟨"c", "n", true, none⟩ 0 .none]).leases.leases.map Lease.publicKey = ["k", "a", "c"] ∧
      WithinShares small (run (NodeState.step small) oneManual [.serve ⟨"a", "n", false, none⟩ 0 .none,
        .serve ⟨"b", "n", false, none⟩ 0 .none, .serve ⟨"c", "n", true, none⟩ 0 .none]) :=
  ⟨by decide, (shares_run small oneManual ⟨by decide, by decide⟩ _).1⟩

/-- A key that has a lease and comes with a pass spent before is not answered with its lease. -/
theorem not_answeredWithLease : ∃ (cfg : NodeConfig Unit) (s : NodeState),
    WithinShares cfg s ∧ ¬ AnsweredWithLease cfg s := by
  refine ⟨small, oneManual, ⟨by decide, by decide⟩, fun h => ?_⟩
  have hanswer := (h ⟨"k", "n", false, some ⟨"spent", 5⟩⟩ 0 _ () rfl rfl rfl).1
  cases hanswer

end HidraNet.Node
