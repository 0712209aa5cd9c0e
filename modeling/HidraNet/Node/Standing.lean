import HidraNet.Node.Reaper
import HidraNet.Node.Shares

/-!
# How long a lease stands

The main loop between requests, ticks of the reaper and the operator's commands, over a clock that the events carry.

A lease that nobody takes away is in the table at every time before its deadline: its admission and the shorter of its
window and its never-came time, as long as no sign of life is written down, and then its window after the last of them.
An invite for a key that had no lease therefore stands for that long (`invites_stand`).  An invite for a key that has
one is for that lease as it is, and may be as good as lapsed (`invite_lapses`).
-/

namespace HidraNet.Node

open Maps Runs Text

structure MainLoop where
  node : NodeState
  rxSeen : Map String Nat

inductive MainStep where
  | serve (req : Admit) (now : Nat) (f : ServeFaults)
  /-- A tick of the reaper, with what the tunnel reports; `stuck` are the peers that cannot be removed. -/
  | reap (now : Nat) (stats : Option (Map String PeerStats)) (spentSave read save : Option String)
    (stuck : List String)
  | cmdAdmit (name publicKey : String) (now : Nat) (read save : Option String)
  | cmdRevoke (publicKey : String) (read save : Option String)
deriving DecidableEq

def MainStep.tick : MainStep → Option Nat
  | .reap now .. => some now
  | _ => none

namespace MainLoop

variable {Invite : Type} (cfg : NodeConfig Invite) (w : IdleWindows)

def reap (s : MainLoop) (now : Nat) (stats : Option (Map String PeerStats)) (spentSave read save : Option String)
    (stuck : List String) : MainLoop :=
  let node := { s.node with spent := s.node.spent.reaped now spentSave }
  match stats with
  | none => { s with node }
  | some stats =>
    let ages := stats.entries.map fun e => (e.1, e.2.lastHandshake)
    let (active, rxSeen) := activeKeys stats s.rxSeen
    ⟨node.expire now ages active w read save stuck, rxSeen⟩

/-- The operator's `admit`, on the leases. -/
def cmdAdmit (s : MainLoop) (name publicKey : String) (now : Nat) (read save : Option String) : MainLoop :=
  let leases := (s.node.leases.update read save () fun ls _ =>
    let (ls, r) := ls.admitKey cfg.isKey name publicKey cfg.net now
    (ls, (), r, r.isOk)).1
  { s with node := { s.node with leases } }

def step (s : MainLoop) : MainStep → MainLoop
  | .serve req now f => { s with node := (s.node.serve cfg req now f).1 }
  | .reap now stats spentSave read save stuck => s.reap w now stats spentSave read save stuck
  | .cmdAdmit name publicKey now read save => s.cmdAdmit cfg name publicKey now read save
  | .cmdRevoke publicKey read save => { s with node := s.node.revoke publicKey read save }

end MainLoop

/-! ### Deadlines -/

def IdleWindows.window (w : IdleWindows) (source : String) : Nat :=
  if source = "open" then w.openly
  else if source = "session" then max w.session 1
  else if source = "pass" then w.pass
  else 0

def neverCame (source : String) : Nat :=
  if source = "session" then SESSION_NEVER_CAME_SECS else NEVER_CAME_SECS

def deadline (w : IdleWindows) (l : Lease) : Nat :=
  if l.lastSeen = 0 then l.admittedAt + min (w.window l.source) (neverCame l.source)
  else max l.admittedAt l.lastSeen + w.window l.source

/-- The same lease, seen again or not. -/
structure Continues (l l' : Lease) : Prop where
  publicKey : l'.publicKey = l.publicKey
  ip : l'.ip = l.ip
  source : l'.source = l.source
  admittedAt : l'.admittedAt = l.admittedAt
  lastSeen : l.lastSeen ≤ l'.lastSeen

variable {w : IdleWindows} {l l' l'' : Lease} {now : Nat} {ls ls' : Leases} {stats : Map String PeerStats}
  {rxSeen : Map String Nat}

namespace Continues

theorem refl (l : Lease) : Continues l l := ⟨rfl, rfl, rfl, rfl, le_refl _⟩

theorem seen {t : Nat} (h : l.lastSeen ≤ t) : Continues l { l with lastSeen := t } := ⟨rfl, rfl, rfl, rfl, h⟩

theorem trans (h : Continues l l') (h' : Continues l' l'') : Continues l l'' :=
  ⟨h'.publicKey.trans h.publicKey, h'.ip.trans h.ip, h'.source.trans h.source, h'.admittedAt.trans h.admittedAt,
    h.lastSeen.trans h'.lastSeen⟩

theorem deadline_le (h : Continues l l') : deadline w l ≤ deadline w l' := by
  have hseen := h.lastSeen
  unfold deadline
  rw [h.source, h.admittedAt]
  split_ifs <;> omega

end Continues

theorem lapsed_eq_false : Leases.lapsed now l (w.window l.source) (neverCame l.source) = false ↔
    w.window l.source = 0 ∨ now < deadline w l := by
  have hcame : 0 < neverCame l.source := by
    unfold neverCame
    split <;> decide
  unfold Leases.lapsed deadline
  simp only [Bool.and_eq_false_iff, decide_eq_false_iff_not, Bool.or_eq_false_iff, beq_eq_false_iff_ne]
  split_ifs with h
  · simp only [h]
    omega
  · omega

theorem mem_expireIdle : l ∈ (ls.expireIdle now w).1.leases ↔
    l ∈ ls.leases ∧ (w.window l.source = 0 ∨ now < deadline w l) := by
  rw [← lapsed_eq_false]
  unfold Leases.expireIdle IdleWindows.window neverCame
  simp only [List.mem_filter, Bool.not_eq_true', and_congr_right_iff]
  intro _
  by_cases hopen : l.source = "open"
  · simp [hopen]
  · by_cases hsession : l.source = "session"
    · simp [hsession]
    · by_cases hpass : l.source = "pass"
      · simp [hpass]
      · simp [hopen, hsession, hpass, Leases.lapsed]

/-! ### Ticks -/

/-- At `t` the tick's report has a last sign of life of the key: it shook hands then, or sent bytes since the tick
before. -/
def SignOfLife (stats : Map String PeerStats) (rxSeen : Map String Nat) (now : Nat) (key : String) (t : Nat) : Prop :=
  ∃ st, stats.get? key = some st ∧
    ((∃ age, st.lastHandshake = some age ∧ t = now - age) ∨ (st.rxBytes > (rxSeen.get? key).getD 0 ∧ t = now))

theorem lookup_map {β : Type} (f : PeerStats → β) (m : Map String PeerStats) (k : String) :
    (m.entries.map fun e => (e.1, f e.2)).lookup k = (m.get? k).map f := by
  unfold Map.get?
  induction m.entries with
  | nil => rfl
  | cons e es ih =>
    rw [List.map_cons, List.lookup_cons, List.find?_cons]
    by_cases h : e.1 = k
    · simp [h]
    · have hne : (k == e.1) = false := by simpa using fun hk => h hk.symm
      rw [hne]
      simpa [h] using ih

namespace Leases

theorem noteHandshakes_seen (now : Nat) (ages : List (String × Option Nat)) (hl : l ∈ ls.leases) :
    ∃ l' ∈ (ls.noteHandshakes now ages).1.leases, Continues l l' ∧
      (∀ age, ages.lookup l.publicKey = some (some age) → now - age ≤ l'.lastSeen) ∧
        ((ls.noteHandshakes now ages).2 = false → l' = l) := by
  unfold noteHandshakes
  refine ⟨_, List.mem_map_of_mem hl, ?_⟩
  cases hage : ages.lookup l.publicKey with
  | none =>
    simp only [hage]
    exact ⟨Continues.refl l, by simp, fun _ => rfl⟩
  | some a =>
    cases a with
    | none =>
      simp only [hage]
      exact ⟨Continues.refl l, by simp, fun _ => rfl⟩
    | some age =>
      simp only [hage]
      by_cases hlater : now - age > l.lastSeen
      · rw [if_pos hlater]
        refine ⟨Continues.seen (le_of_lt hlater), fun age' h => ?_, fun hnone => ?_⟩
        · cases h
          exact le_refl _
        have hnot := List.any_eq_false.1 hnone l hl
        simp [hage, hlater] at hnot
      · rw [if_neg hlater]
        refine ⟨Continues.refl l, fun age' h => ?_, fun _ => rfl⟩
        cases h
        exact not_lt.1 hlater

theorem noteTraffic_seen (now : Nat) (active : List String) (hl : l ∈ ls.leases) :
    ∃ l' ∈ (ls.noteTraffic now active).1.leases, Continues l l' ∧ (l.publicKey ∈ active → now ≤ l'.lastSeen) ∧
      ((ls.noteTraffic now active).2 = false → l' = l) := by
  unfold noteTraffic
  refine ⟨_, List.mem_map_of_mem hl, ?_⟩
  dsimp only
  by_cases hsent : (active.contains l.publicKey && now > l.lastSeen) = true
  · rw [if_pos hsent]
    have hlater : now > l.lastSeen := of_decide_eq_true (Bool.and_eq_true_iff.1 hsent).2
    refine ⟨Continues.seen (le_of_lt hlater), fun _ => le_refl _, fun hnone => ?_⟩
    exact absurd hsent (by simpa using List.any_eq_false.1 hnone l hl)
  · rw [if_neg hsent]
    refine ⟨Continues.refl l, fun hactive => ?_, fun _ => rfl⟩
    by_contra hlater
    exact hsent (by simp [hactive, not_le.1 hlater])

theorem reaped_seen {active : List String} {gone : List Lease} {saved : Bool}
    (h : ls.reaped now stats active w = (ls', gone, saved)) (hl : l ∈ ls.leases) :
    ∃ l', Continues l l' ∧
      (∀ st age, stats.get? l.publicKey = some st → st.lastHandshake = some age → now - age ≤ l'.lastSeen) ∧
        (l.publicKey ∈ active → now ≤ l'.lastSeen) ∧
          (w.window l.source = 0 ∨ now < deadline w l' → l' ∈ (if saved then ls' else ls).leases) := by
  unfold reaped at h
  dsimp only at h
  obtain ⟨l₁, hl₁, hcont₁, hage, hsame₁⟩ :=
    noteHandshakes_seen now (stats.entries.map fun e => (e.1, e.2.lastHandshake)) hl
  obtain ⟨l₂, hl₂, hcont₂, hactive, hsame₂⟩ := noteTraffic_seen now active hl₁
  have hcont := hcont₁.trans hcont₂
  refine ⟨l₂, hcont, fun st age hst hshook => ?_, fun hmem => hactive (hcont₁.publicKey ▸ hmem), fun hstands => ?_⟩
  · have hlookup : (stats.entries.map fun e => (e.1, e.2.lastHandshake)).lookup l.publicKey = some (some age) := by
      rw [lookup_map, hst, Option.map_some, hshook]
    exact (hage age hlookup).trans hcont₂.lastSeen
  · have hkept := mem_expireIdle.2 ⟨hl₂, hcont.source ▸ hstands⟩
    simp only [Prod.mk.injEq] at h
    obtain ⟨rfl, -, hsaved⟩ := h
    cases saved with
    | true => exact hkept
    | false =>
      -- nothing is saved when nothing was noted: the lease is as it was
      rw [Bool.or_eq_false_iff, Bool.or_eq_false_iff] at hsaved
      rw [hsame₂ hsaved.1.2, hsame₁ hsaved.1.1]
      exact hl

end Leases

theorem expire_leases (n : NodeState) (rxSeen : Map String Nat) (now : Nat) (stats : Map String PeerStats)
    (w : IdleWindows) (read save : Option String) (stuck : List String) :
    (n.expire now (stats.entries.map fun e => (e.1, e.2.lastHandshake)) (activeKeys stats rxSeen).1 w read save
      stuck).leases = (n.leases.reapUpdate rxSeen now stats w read save).1 := by
  unfold NodeState.expire Leases.reapUpdate Leases.reaped
  dsimp only
  split <;> rfl

/-! ### Requests -/

variable {Invite : Type} {cfg : NodeConfig Invite} {n : NodeState} {req : Admit} {f : ServeFaults}

def Undoes (cfg : NodeConfig Invite) (n : NodeState) (req : Admit) (now : Nat) (f : ServeFaults) : Prop :=
  f.closed = false ∧ (∀ p ∈ req.pass, n.spent.contains p.tag = false) ∧
    ((∃ key why, (n.admitted cfg req now f).2 = .error (.admitted key why)) ∨
      (∃ invite, (n.admitted cfg req now f).2 = .ok invite) ∧ f.gone = true ∧ req.pass.isSome = true)

theorem admitAs_leases {isKey : String → Bool} {name publicKey source : String} {net : TunnelNet} {lease : Lease}
    (h : ls.admitAs isKey name publicKey net now source = (ls', .ok lease)) :
    (∀ l ∈ ls.leases, l ∈ ls'.leases) ∧ lease ∈ ls'.leases ∧ lease.publicKey = trim publicKey ∧
      (ls.find publicKey = none → lease.admittedAt = now ∧ lease.lastSeen = 0) := by
  rcases ls.admitAs_cases isKey name publicKey net now source with ⟨e, h'⟩ | ⟨l, hfind, h'⟩ | ⟨hnew, ip, h'⟩ <;>
    rw [h'] at h <;> cases h
  · obtain ⟨hmem, hkey⟩ := Leases.publicKey_of_find hfind
    exact ⟨fun _ hl => hl, hmem, hkey, fun hnone => by rw [hfind] at hnone; cases hnone⟩
  · exact ⟨fun _ hl => List.mem_append_left _ hl, List.mem_append_right _ (List.mem_singleton_self _), rfl,
      fun _ => ⟨rfl, rfl⟩⟩

theorem admitted_leases (cfg : NodeConfig Invite) (n : NodeState) (req : Admit) (now : Nat) (f : ServeFaults) :
    (∀ l ∈ n.leases.leases, l ∈ (n.admitted cfg req now f).1.leases.leases) ∧
      (∀ key why, (n.admitted cfg req now f).2 = .error (.admitted key why) → key = trim req.publicKey) ∧
        ∀ invite, (n.admitted cfg req now f).2 = .ok invite →
          ∃ l ∈ (n.admitted cfg req now f).1.leases.leases, l.publicKey = trim req.publicKey ∧
            (n.leases.find req.publicKey = none → l.admittedAt = now ∧ l.lastSeen = 0) := by
  unfold NodeState.admitted
  rcases leaseFor_admits cfg n req now f with ⟨hsame, hnot⟩ | ⟨leases, lease, source, hleases, hlease, hadm⟩
  · rcases hr : n.leaseFor cfg req now f with ⟨n', e | refused | lease⟩ <;> rw [hr] at hsame hnot <;>
      dsimp only at hsame ⊢
    · exact ⟨fun l hl => hsame.symm ▸ hl, by simp, by simp⟩
    · exact ⟨fun l hl => hsame.symm ▸ hl, by simp, by simp⟩
    · exact absurd rfl (hnot lease)
  · obtain ⟨hall, hmem, hkey, hnew⟩ := admitAs_leases hadm
    rcases hr : n.leaseFor cfg req now f with ⟨n', r⟩
    rw [hr] at hleases hlease
    dsimp only at hleases hlease
    subst hlease hleases
    unfold NodeState.addPeer
    dsimp only
    cases f.addPeer with
    | some e => exact ⟨hall, fun key why h => by cases h; exact hkey, by simp⟩
    | none =>
      dsimp only
      cases cfg.inviteFor lease with
      | error why => exact ⟨hall, fun key why h => by cases h; exact hkey, by simp⟩
      | ok invite => exact ⟨hall, by simp, fun _ _ => ⟨lease, hmem, hkey, hnew⟩⟩

theorem mem_serve (hl : l ∈ n.leases.leases) (hkept : trim req.publicKey = l.publicKey → ¬ Undoes cfg n req now f) :
    l ∈ (n.serve cfg req now f).1.leases.leases := by
  obtain ⟨hall, hkey, -⟩ := admitted_leases cfg n req now f
  unfold NodeState.serve NodeState.answer
  cases hclosed : f.closed with
  | true => exact hl
  | false =>
    simp only [Bool.false_eq_true, if_false]
    cases hspent : req.pass.any fun p => n.spent.contains p.tag with
    | true => exact hl
    | false =>
      have hfree : ∀ p ∈ req.pass, n.spent.contains p.tag = false := by
        intro p hp
        rw [hp] at hspent
        simpa using hspent
      simp only [Bool.false_eq_true, if_false]
      rcases hadm : n.admitted cfg req now f with ⟨n', undo | invite⟩ <;> rw [hadm] at hall hkey <;> dsimp only
      · cases undo with
        | nothing refused => exact hall l hl
        | spent why =>
          show l ∈ (n'.forgetPass req.pass why f).1.leases.leases
          rw [leases_forgetPass]
          exact hall l hl
        | admitted key why =>
          refine mem_undoAdmitted.2 ⟨hall l hl, Or.inr fun h => ?_⟩
          rw [hkey key why rfl, trim_trim] at h
          exact hkept h.symm ⟨hclosed, hfree, Or.inl ⟨key, why, by rw [hadm]⟩⟩
      · cases hgone : f.gone with
        | false => exact hall l hl
        | true =>
          cases hpass : req.pass.isSome with
          | false => exact hall l hl
          | true =>
            refine mem_undoAdmitted.2 ⟨hall l hl, Or.inr fun h => ?_⟩
            exact hkept h.symm ⟨hclosed, hfree, Or.inr ⟨⟨invite, by rw [hadm]⟩, hgone, hpass⟩⟩

theorem serve_invite {invite : Invite} (h : (n.serve cfg req now f).2 = .answered (.ok invite) true) :
    ∃ l ∈ (n.serve cfg req now f).1.leases.leases, l.publicKey = trim req.publicKey ∧
      (n.leases.find req.publicKey = none → l.admittedAt = now ∧ l.lastSeen = 0) := by
  obtain ⟨-, -, hinvite⟩ := admitted_leases cfg n req now f
  unfold NodeState.serve NodeState.answer at h ⊢
  cases hclosed : f.closed with
  | true => simp [hclosed] at h
  | false =>
    simp only [hclosed, Bool.false_eq_true, if_false] at h ⊢
    cases hspent : req.pass.any fun p => n.spent.contains p.tag with
    | true => simp [hspent] at h
    | false =>
      simp only [hspent, Bool.false_eq_true, if_false] at h ⊢
      rcases hadm : n.admitted cfg req now f with ⟨n', undo | invite'⟩ <;> rw [hadm] at hinvite h <;> dsimp only at h ⊢
      · simp at h
      · cases hgone : f.gone with
        | true =>
          rw [hgone] at h
          cases hpass : req.pass.isSome <;> simp [hpass] at h
        | false => exact hinvite invite' rfl

/-! ### Runs -/

def Undisturbed (cfg : NodeConfig Invite) (key : String) (s : MainLoop) : MainStep → Prop
  | .serve req now f => trim req.publicKey = key → ¬ Undoes cfg s.node req now f
  | .cmdRevoke publicKey _ _ => trim publicKey ≠ key
  | _ => True

variable {s : MainLoop} {e : MainStep}

theorem reap_leases (s : MainLoop) (w : IdleWindows) (now : Nat) (stats : Map String PeerStats)
    (spentSave read save : Option String) (stuck : List String) :
    (s.reap w now (some stats) spentSave read save stuck).node.leases =
      (s.node.leases.reapUpdate s.rxSeen now stats w read save).1 :=
  expire_leases { s.node with spent := s.node.spent.reaped now spentSave } s.rxSeen now stats w read save stuck

theorem reap_seen (w : IdleWindows) (spentSave : Option String) (stuck : List String) (hl : l ∈ s.node.leases.leases) :
    ∃ l', Continues l l' ∧ (∀ t, SignOfLife stats s.rxSeen now l.publicKey t → t ≤ l'.lastSeen) ∧
      (w.window l.source = 0 ∨ now < deadline w l' →
        l' ∈ (s.reap w now (some stats) spentSave none none stuck).node.leases.leases) := by
  rcases hr : s.node.leases.reaped now stats (activeKeys stats s.rxSeen).1 w with ⟨leases, gone, saved⟩
  obtain ⟨l', hcont, hage, hactive, hin⟩ := Leases.reaped_seen hr hl
  refine ⟨l', hcont, ?_, ?_⟩
  · rintro t ⟨st, hst, ⟨age, hshook, rfl⟩ | ⟨hrx, rfl⟩⟩
    · exact hage st age hst hshook
    · exact hactive (mem_activeKeys.2 ⟨st, hst, hrx⟩)
  · rw [reap_leases, Leases.reapUpdate_ok _ _ _ _ _ hr]
    exact hin

theorem continues_step (cfg : NodeConfig Invite) (w : IdleWindows) (hl : l ∈ s.node.leases.leases)
    (hkept : Undisturbed cfg l.publicKey s e)
    (htick : ∀ now ∈ e.tick, w.window l.source = 0 ∨ now < deadline w l) :
    ∃ l' ∈ (MainLoop.step cfg w s e).node.leases.leases, Continues l l' := by
  cases e with
  | serve req now f => exact ⟨l, mem_serve hl hkept, Continues.refl l⟩
  | reap now stats spentSave read save stuck =>
    cases stats with
    | none => exact ⟨l, hl, Continues.refl l⟩
    | some stats =>
      show ∃ l' ∈ (s.reap w now (some stats) spentSave read save stuck).node.leases.leases, Continues l l'
      rcases hr : s.node.leases.reaped now stats (activeKeys stats s.rxSeen).1 w with ⟨leases, gone, saved⟩
      obtain ⟨l', hcont, -, -, hin⟩ := Leases.reaped_seen hr hl
      rw [reap_leases]
      rcases s.node.leases.reapUpdate_cases s.rxSeen now stats w read save hr with ⟨e, h⟩ | h <;> rw [h]
      · exact ⟨l, hl, Continues.refl l⟩
      · have hbefore := htick now rfl
        exact ⟨l', hin (hbefore.imp id fun h => h.trans_le hcont.deadline_le), hcont⟩
  | cmdAdmit name publicKey now read save =>
    refine ⟨l, ?_, Continues.refl l⟩
    refine Leases.of_update (P := fun ls => l ∈ ls.leases) hl ?_
    dsimp only
    rcases s.node.leases.admitKey_cases cfg.isKey name publicKey cfg.net now with ⟨e, h⟩ | ⟨l', -, h⟩ | ⟨ip, -, -, h⟩ <;>
      rw [h]
    · exact hl
    · exact hl
    · exact List.mem_append_left _ hl
  | cmdRevoke publicKey read save =>
    refine ⟨l, ?_, Continues.refl l⟩
    have hne : trim publicKey ≠ l.publicKey := hkept
    refine Leases.of_update (P := fun ls => l ∈ ls.leases) hl ?_
    exact Leases.mem_revoke.2 ⟨hl, hne.symm⟩

/-- Whatever comes next, as long as nobody takes the lease away and no tick is as late as `d`, it is in the table. -/
def StandsUntil (cfg : NodeConfig Invite) (w : IdleWindows) (s : MainLoop) (l : Lease) (d : Nat) : Prop :=
  ∀ es, Along (MainLoop.step cfg w) (fun s e => Undisturbed cfg l.publicKey s e ∧ ∀ now ∈ e.tick, now < d) s es →
    ∃ l' ∈ (run (MainLoop.step cfg w) s es).node.leases.leases, Continues l l'

theorem standsUntil (cfg : NodeConfig Invite) (w : IdleWindows) (hl : l ∈ s.node.leases.leases) {d : Nat}
    (hd : w.window l.source = 0 ∨ d ≤ deadline w l) : StandsUntil cfg w s l d := by
  intro es hkept
  have hstep : ∀ (s : MainLoop) e, (∃ l' ∈ s.node.leases.leases, Continues l l') →
      (Undisturbed cfg l.publicKey s e ∧ ∀ now ∈ e.tick, now < d) →
        ∃ l' ∈ (MainLoop.step cfg w s e).node.leases.leases, Continues l l' := by
    rintro s e ⟨l', hl', hcont⟩ ⟨hkept, htick⟩
    have hbefore : ∀ now ∈ e.tick, w.window l'.source = 0 ∨ now < deadline w l' := by
      intro now hnow
      rw [hcont.source]
      exact hd.imp id fun h => (htick now hnow).trans_le (h.trans hcont.deadline_le)
    obtain ⟨l'', hl'', hcont'⟩ := continues_step cfg w hl' (hcont.publicKey ▸ hkept) hbefore
    exact ⟨l'', hl'', hcont.trans hcont'⟩
  exact run_invariant hstep hkept ⟨l, hl, Continues.refl l⟩

/-- From any state.  A request answered with an invite has a lease that stands until its deadline; for a key that had
none, that is the shorter of its source's window and its never-came time away.  A lease with a sign of life that a tick
could write down stands for its source's window from then. -/
theorem invites_stand (cfg : NodeConfig Invite) (w : IdleWindows) (s : MainLoop) :
    (∀ req t f invite, (s.node.serve cfg req t f).2 = .answered (.ok invite) true →
      ∃ l ∈ (MainLoop.step cfg w s (.serve req t f)).node.leases.leases, l.publicKey = trim req.publicKey ∧
        (∀ d, w.window l.source = 0 ∨ d ≤ deadline w l →
          StandsUntil cfg w (MainLoop.step cfg w s (.serve req t f)) l d) ∧
        (s.node.leases.find req.publicKey = none →
          deadline w l = t + min (w.window l.source) (neverCame l.source))) ∧
    ∀ l ∈ s.node.leases.leases, ∀ now stats spentSave stuck t d, SignOfLife stats s.rxSeen now l.publicKey t → 0 < t →
      (w.window l.source = 0 ∨ d ≤ t + w.window l.source) → now < d →
        ∃ l' ∈ (MainLoop.step cfg w s (.reap now (some stats) spentSave none none stuck)).node.leases.leases,
          Continues l l' ∧
            StandsUntil cfg w (MainLoop.step cfg w s (.reap now (some stats) spentSave none none stuck)) l' d := by
  constructor
  · intro req t f invite hserve
    obtain ⟨l, hl, hkey, hnew⟩ := serve_invite hserve
    refine ⟨l, hl, hkey, fun d hd => standsUntil cfg w hl hd, fun hnone => ?_⟩
    unfold deadline
    rw [if_pos (hnew hnone).2, (hnew hnone).1]
  · intro l hl now stats spentSave stuck t d hsign ht hd hnow
    obtain ⟨l', hcont, hseen, hin⟩ := reap_seen w spentSave stuck hl
    have hlast := hseen t hsign
    have hdeadline : w.window l'.source = 0 ∨ d ≤ deadline w l' := by
      rw [hcont.source]
      refine hd.imp id fun h => ?_
      unfold deadline
      rw [if_neg (by omega), hcont.source]
      omega
    have hl' := hin (by rw [← hcont.source]; exact hdeadline.imp id hnow.trans_le)
    exact ⟨l', hl', hcont, standsUntil cfg w hl' hdeadline⟩

private def newNode : MainLoop := ⟨⟨⟨[]⟩, ⟨[], 0, false⟩, []⟩, .empty⟩

private def openTo : NodeConfig Unit := ⟨⟨10, 29⟩, 4, false, fun _ => true, fun _ => .ok ()⟩

private def laptop : Admit := ⟨"k", "laptop", false, none⟩

private def justShook : Map String PeerStats := Map.empty.set "k" ⟨some 0, 0⟩

/-- A key asks again for the lease it holds when that is about to lapse: its invite is answered, and a second later its
lease is gone.  A handshake in the first second of all time is no sign of life. -/
theorem invite_lapses : ∃ (cfg : NodeConfig Unit) (w : IdleWindows) (req : Admit),
    let s := MainLoop.step cfg w newNode (.serve req 0 .none)
    ((s.node.serve cfg req 899 .none).2 = .answered (.ok ()) true ∧
      (run (MainLoop.step cfg w) s [.serve req 899 .none, .reap 900 (some .empty) none none none []]).node.leases.leases
        = [] ∧ 900 < 899 + min (w.window "open") (neverCame "open")) ∧
    SignOfLife justShook s.rxSeen 0 req.publicKey 0 ∧
      (run (MainLoop.step cfg w) s [.reap 0 (some justShook) none none none [],
        .reap 900 (some .empty) none none none []]).node.leases.leases = [] ∧ 900 < 0 + w.window "open" := by
  refine ⟨openTo, ⟨1000, 600, 0⟩, laptop, ⟨rfl, by decide, by decide⟩, ?_, by decide, by decide⟩
  exact ⟨⟨some 0, 0⟩, by decide, Or.inl ⟨0, rfl, rfl⟩⟩

end HidraNet.Node
