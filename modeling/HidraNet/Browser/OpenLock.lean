import HidraNet.Browser.NetworkLock

/-!
# When the lock is open

The lock is open over a Tor that is ready and not seen to close, for a connect since which no one disconnected, and whose
sessions all answered Tor's route (`Covered`).  What breaks this is a field that outlives the process it was set for: a
close takes a stop that is pending for its own, and leaves the lock.  A run keeps to the law just as long as, while the
lock is open, no process closes with a stop pending, none has an error, and no start fails or spawns (`InOrder`,
`open_run`).
-/

namespace HidraNet.Browser

open Runs

variable {t t' : TorManager} {w : World} {p : Nat} {result : Option Result}

/-! ### What is to hold -/

/-- What is behind a lock that is open. -/
structure Covered (w : World) : Prop where
  ready : w.tor.state = .ready
  reported : ∃ p q, w.tor.processes p = some q ∧ q.reported ∧ ¬ q.closed
  opening : ∃ o, w.opening = some o ∧ o.disconnects = w.disconnects ∧
    ∀ s ∈ o.sessions, (s, NetworkLock.expected) ∈ o.answers

def Shuts (w : World) : Event → Prop
  | .close p tail => w.tor.live p → (∃ o, w.opening = some o ∧ o.tor = some p) → (w.step (.close p tail)).lock.engaged
  | _ => True

def Holds (w : World) (e : Event) : Prop := (¬ (w.step e).lock.engaged → Covered (w.step e)) ∧ Shuts w e

/-- While the lock is open no process closes with a stop pending, none has an error, and no start fails or spawns. -/
def InOrder (w : World) (e : Event) : Prop :=
  w.lock.engaged ∨
    match e with
    | .connect found => w.connecting.isSome ∨ w.tor.isRunning ∨ w.tor.starting.isSome ∨ found
    | .spawns _ _ => ∀ free, w.tor.starting ≠ some (.waited free)
    | .error p _ => ¬ w.tor.live p
    | .close p _ => w.tor.live p → ¬ w.tor.stopping
    | _ => True

/-! ### The manager -/

namespace TorManager

structure Kept (t : TorManager) : Prop where
  ready : t.state = .ready → ∃ p q, t.processes p = some q ∧ q.reported ∧ ¬ q.closed
  fresh (p : Nat) (q : Process) : t.processes p = some q → p < t.spawned
  unsettled (p : Nat) (q : Process) : t.processes p = some q → ¬ q.settled → t.starting = some (.process p)

/-- What a method leaves of a start: a result ends it. -/
structure Leaves (t t' : TorManager) (result : Option Result) : Prop where
  kept : t'.Kept
  ended : result ≠ none → t'.starting = none
  going : t'.starting ≠ none → t'.starting = t.starting

theorem finish_state (t : TorManager) (p : Nat) (r : Result) : (t.finish p r).1.state = t.state := by
  unfold finish
  split
  · split <;> rfl
  · rfl

theorem Kept.finish (h : t.Kept) (p : Nat) (r : Result) : t.Leaves (t.finish p r).1 (t.finish p r).2 := by
  unfold TorManager.finish
  split
  · rename_i q hq
    split_ifs with hsettled
    · exact ⟨h, by simp, fun _ => rfl⟩
    · have hstarting := h.unsettled p q hq hsettled
      refine ⟨⟨fun hready => ?_, fun p' q' => ?_, fun p' q' => ?_⟩, fun _ => rfl, by simp⟩
      · obtain ⟨p', q', hq', hreported, hclosed⟩ := h.ready hready
        dsimp only
        by_cases hsame : p' = p
        · subst hsame
          obtain rfl := Option.some.inj (hq.symm.trans hq')
          exact ⟨p', _, Function.update_self .., hreported, hclosed⟩
        · exact ⟨p', q', by rw [Function.update_of_ne hsame]; exact hq', hreported, hclosed⟩
      · have hfresh := h.fresh
        simp only [Function.update_apply]
        grind
      · have hunsettled := h.unsettled
        simp only [Function.update_apply]
        grind
  · exact ⟨h, by simp, fun _ => rfl⟩

theorem Kept.congr (h : t.Kept) (hprocesses : t'.processes = t.processes) (hspawned : t'.spawned = t.spawned)
    (hstarting : t'.starting = t.starting) (hready : t'.state = .ready → t.state = .ready) : t'.Kept := by
  refine ⟨fun ready => ?_, ?_, ?_⟩
  · rw [hprocesses]
    exact h.ready (hready ready)
  · rw [hprocesses, hspawned]
    exact h.fresh
  · rw [hprocesses, hstarting]
    exact h.unsettled

theorem Kept.changed (h : t.Kept) {f : Process → Process} (hf : ∀ q, (f q).settled = q.settled)
    (hprocesses : t'.processes = Function.update t.processes p ((t.processes p).map f))
    (hspawned : t'.spawned = t.spawned) (hstarting : t'.starting = t.starting)
    (hready : t'.state = .ready → ∃ p q, t'.processes p = some q ∧ q.reported ∧ ¬ q.closed) : t'.Kept := by
  refine ⟨hready, fun p' q' hq' => ?_, fun p' q' hq' hsettled => ?_⟩
  all_goals
    rw [hprocesses] at hq'
    by_cases hsame : p' = p
    · subst hsame
      rw [Function.update_self] at hq'
      obtain ⟨q, hq, rfl⟩ := Option.map_eq_some_iff.1 hq'
      first
        | rw [hspawned]
          exact h.fresh p' q hq
        | rw [hf] at hsettled
          rw [hstarting]
          exact h.unsettled p' q hq hsettled
    · rw [Function.update_of_ne hsame] at hq'
      first
        | rw [hspawned]
          exact h.fresh p' q' hq'
        | rw [hstarting]
          exact h.unsettled p' q' hq' hsettled

theorem Leaves.of_congr (h : t.Kept) (hprocesses : t'.processes = t.processes) (hspawned : t'.spawned = t.spawned)
    (hstarting : t'.starting = t.starting) (hready : t'.state = .ready → t.state = .ready) : t.Leaves t' none :=
  ⟨h.congr hprocesses hspawned hstarting hready, by simp, fun _ => hstarting⟩

theorem Leaves.finished (h : t'.Kept) (hstarting : t'.starting = t.starting) (p : Nat) (r : Result) :
    t.Leaves (t'.finish p r).1 (t'.finish p r).2 := by
  obtain ⟨kept, ended, going⟩ := h.finish p r
  exact ⟨kept, ended, fun hne => (going hne).trans hstarting⟩

theorem Kept.fail (h : t.Kept) (hnone : ∀ p, t.starting ≠ some (.process p)) (hprocesses : t'.processes = t.processes)
    (hspawned : t'.spawned = t.spawned) (error : String) : t.Leaves (t'.fail error).1 (t'.fail error).2 := by
  unfold TorManager.fail
  refine ⟨⟨by simp, ?_, fun p q hq hsettled => ?_⟩, fun _ => rfl, by simp⟩
  · dsimp only
    rw [hprocesses, hspawned]
    exact h.fresh
  · dsimp only at hq
    rw [hprocesses] at hq
    exact absurd (h.unsettled p q hq hsettled) (hnone p)

theorem readLine_state (t : TorManager) (p : Nat) (line : Line) :
    (t.readLine p line).1.state = t.state ∨ (t.readLine p line).1.state = .ready := by
  have hpercent (n : Nat) : (t.setPercent p n).1.state = t.state ∨ (t.setPercent p n).1.state = .ready := by
    unfold setPercent
    dsimp only
    split_ifs
    · exact .inr (finish_state _ _ _)
    · exact .inl rfl
  unfold readLine
  cases line.percent <;> cases line.error <;> dsimp only
  · exact .inl rfl
  · exact .inl rfl
  · exact hpercent _
  · exact hpercent _

theorem live_iff : t.live p ↔ ∃ q, t.processes p = some q ∧ ¬ q.closed := by
  unfold live
  rw [Option.any_eq_true]
  simp

theorem Kept.readLine (h : t.Kept) (hlive : t.live p) (line : Line) :
    t.Leaves (t.readLine p line).1 (t.readLine p line).2 := by
  have hpercent (n : Nat) : t.Leaves (t.setPercent p n).1 (t.setPercent p n).2 := by
    unfold setPercent
    dsimp only
    split_ifs
    · obtain ⟨q, hq, hclosed⟩ := live_iff.1 hlive
      refine Leaves.finished ?_ ?_ p _
      · refine h.changed (f := Process.report) (fun _ => rfl) rfl rfl rfl fun _ => ?_
        exact ⟨p, q.report, by simp [hq], rfl, hclosed⟩
      · rfl
    · exact .of_congr h rfl rfl rfl id
  have herror {t' : TorManager} {r : Option Result} (h' : t.Leaves t' r) (e : String) :
      t.Leaves { t' with lastError := e } r :=
    ⟨h'.kept.congr rfl rfl rfl id, h'.ended, h'.going⟩
  unfold TorManager.readLine
  cases line.percent <;> cases line.error <;> dsimp only
  · exact .of_congr h rfl rfl rfl id
  · exact .of_congr h rfl rfl rfl id
  · exact hpercent _
  · exact herror (hpercent _) _

theorem Kept.timeout (h : t.Kept) (p : Nat) : t.Leaves (t.timeout p).1 (t.timeout p).2 := by
  unfold TorManager.timeout
  split_ifs
  · refine Leaves.finished ?_ ?_ p _
    · exact h.congr rfl rfl rfl (by simp)
    · rfl
  · exact .of_congr h rfl rfl rfl id

theorem Kept.onError (h : t.Kept) (p : Nat) (message : String) :
    t.Leaves (t.onError p message).1 (t.onError p message).2 := by
  refine Leaves.finished ?_ ?_ p _
  · exact h.congr rfl rfl rfl (by simp)
  · rfl

theorem Kept.onClose (h : t.Kept) (p : Nat) (tail : String) :
    t.Leaves (t.onClose p tail).tor (t.onClose p tail).result := by
  unfold TorManager.onClose
  by_cases hstopping : t.stopping
  · rw [if_pos hstopping]
    refine Leaves.finished ?_ ?_ p _
    · exact h.changed (f := Process.close) (fun _ => rfl) rfl rfl rfl (by simp)
    · rfl
  · rw [if_neg hstopping]
    by_cases hready : t.state = .ready
    · rw [if_pos hready]
      exact ⟨h.changed (f := Process.close) (fun _ => rfl) rfl rfl rfl (by simp), by simp, fun _ => rfl⟩
    · rw [if_neg hready]
      refine Leaves.finished ?_ ?_ p _
      · exact h.changed (f := Process.close) (fun _ => rfl) rfl rfl rfl (by simp)
      · rfl

theorem Kept.stop (h : t.Kept) : t.Leaves t.stop.1 none := by
  unfold TorManager.stop
  dsimp only
  cases t.process <;> exact .of_congr h rfl rfl rfl (by simp)

theorem start_cases (t : TorManager) (found : Bool) :
    (t.isRunning ∧ t.start found = (t, some (.ok ()))) ∨ (¬ t.isRunning ∧ t.starting.isSome ∧ t.start found = (t, none)) ∨
      (t.starting = none ∧ ¬ found ∧ ¬ t.isRunning ∧ ∃ e, t.start found = t.fail e) ∨
      (t.starting = none ∧ found ∧ t.start found = ({ t with starting := some .port }, none)) := by
  unfold start
  by_cases hrunning : t.isRunning
  · exact .inl ⟨hrunning, by rw [if_pos hrunning]⟩
  · rw [if_neg hrunning]
    cases hstarting : t.starting with
    | some s => exact .inr (.inl ⟨hrunning, rfl, rfl⟩)
    | none =>
      cases found with
      | false => exact .inr (.inr (.inl ⟨rfl, by simp, hrunning, _, rfl⟩))
      | true => exact .inr (.inr (.inr ⟨rfl, rfl, rfl⟩))

theorem spawnNext_cases {free : Bool} (h : t.starting = some (.waited free)) (made spawns : Result) :
    (∃ e, ∃ t' : TorManager, t.spawnNext made spawns = t'.fail e ∧ t'.processes = t.processes ∧ t'.spawned = t.spawned ∧
      t'.starting = some (.waited free)) ∨
    t.spawnNext made spawns =
      ({ t with
        state := .starting, bootstrapPercent := 0, lastError := ""
        process := some t.spawned
        processes := Function.update t.processes t.spawned (some ⟨false, false, false⟩)
        spawned := t.spawned + 1
        starting := some (.process t.spawned) }, none) := by
  unfold spawnNext
  rw [h]
  cases free with
  | false => exact .inl ⟨_, t, rfl, rfl, rfl, h⟩
  | true =>
    cases made with
    | error e => exact .inl ⟨_, t, rfl, rfl, rfl, h⟩
    | ok u =>
      cases spawns with
      | error e =>
        exact .inl ⟨e, { t with
          state := .starting, bootstrapPercent := 0, lastError := "", process := none, starting := some (.waited true) },
          rfl, rfl, rfl, rfl⟩
      | ok u => exact .inr rfl

theorem Kept.spawned (h : t.Kept) {free : Bool} (hwaited : t.starting = some (.waited free)) (hstate : t'.state ≠ .ready)
    (hprocesses : t'.processes = Function.update t.processes t.spawned (some ⟨false, false, false⟩))
    (hspawned : t'.spawned = t.spawned + 1) (hstarting : t'.starting = some (.process t.spawned)) : t'.Kept := by
  refine ⟨fun hready => absurd hready hstate, fun p q hq => ?_, fun p q hq hsettled => ?_⟩
  all_goals
    rw [hprocesses] at hq
    by_cases hsame : p = t.spawned
  · omega
  · rw [Function.update_of_ne hsame] at hq
    have hlt := h.fresh p q hq
    omega
  · rw [hstarting, hsame]
  · rw [Function.update_of_ne hsame] at hq
    have hstarting' := h.unsettled p q hq hsettled
    rw [hwaited] at hstarting'
    cases hstarting'

theorem onClose_ready (h : t.state = .ready) (hstopping : ¬ t.stopping) (p : Nat) (tail : String) :
    (t.onClose p tail).unexpected.isSome := by
  unfold onClose
  rw [if_neg hstopping, if_pos h]
  rfl

theorem onClose_stopping (hstopping : t.stopping) (p : Nat) (tail : String) :
    (t.onClose p tail).tor.state = .stopped ∧ (t.onClose p tail).unexpected = none := by
  unfold onClose
  rw [if_pos hstopping]
  exact ⟨finish_state _ _ _, rfl⟩

end TorManager

/-! ### The sessions -/

/-- A session that was to be asked is still to be, is being asked, is found wrong, or answered Tor's route. -/
structure Check.Fair (k : Check) : Prop where
  rest : k.asking = none → k.rest = []
  asked : ∀ s ∈ k.sessions, s ∈ k.rest.map Prod.fst ∨ (∃ a, k.asking = some a ∧ a.session = s) ∨ s ∈ k.wrong ∨
    (s, NetworkLock.expected) ∈ k.answers
  told : ∀ a, k.asking = some a → a.stage = .told true → (a.session, NetworkLock.expected) ∈ k.answers

theorem Check.fair_next {k : Check}
    (hasked : ∀ s ∈ k.sessions, s ∈ k.rest.map Prod.fst ∨ s ∈ k.wrong ∨ (s, NetworkLock.expected) ∈ k.answers) :
    k.next.Fair := by
  unfold Check.next
  constructor
  · split
    · rename_i hrest
      exact fun _ => hrest
    · nofun
  · intro s hs
    split at hs <;> rename_i hrest <;> simp only [hrest] at hasked ⊢ <;> grind
  · split <;> simp

theorem Check.fair_unrouted (sessions : List (Nat × Nat)) : (Check.unrouted sessions).Fair :=
  Check.fair_next fun _ hs => .inl hs

theorem Check.Fair.known {k : Check} (h : k.Fair) {a : Asking} (ha : k.asking = some a) {wrong : List Nat}
    (hwrong : k.wrong ⊆ wrong) (hknown : a.session ∈ wrong ∨ (a.session, NetworkLock.expected) ∈ k.answers) :
    ({ k with wrong := wrong }.next).Fair := by
  refine Check.fair_next fun s hs => ?_
  obtain hrest | ⟨a', ha', rfl⟩ | hmem | hanswered := h.asked s hs
  · exact .inl hrest
  · obtain rfl := Option.some.inj (ha.symm.trans ha')
    exact .inr hknown
  · exact .inr (.inl (hwrong hmem))
  · exact .inr (.inr hanswered)

theorem Check.Fair.asking {k : Check} (h : k.Fair) {a a' : Asking} (ha : k.asking = some a)
    (hsession : a'.session = a.session)
    (htold : a'.stage ≠ .told true) : { k with asking := some a' }.Fair := by
  refine ⟨by nofun, fun s hs => ?_, fun a'' ha'' hstage => ?_⟩
  · obtain hrest | ⟨a'', ha'', rfl⟩ | hmem | hanswered := h.asked s hs
    · exact .inl hrest
    · obtain rfl := Option.some.inj (ha.symm.trans ha'')
      exact .inr (.inl ⟨a', rfl, hsession⟩)
    · exact .inr (.inr (.inl hmem))
    · exact .inr (.inr (.inr hanswered))
  · obtain rfl := Option.some.inj ha''
    exact absurd hstage htold

/-! ### The world -/

structure Sound (w : World) : Prop where
  tor : w.tor.Kept
  going : w.tor.starting ≠ none → ∃ c, w.connecting = some c ∧ c.phase = .starting
  pending (p : Nat) : w.tor.starting = some (.process p) → w.lock.engaged
  generation (c : Connect) : w.connecting = some c →
    c.generation ≤ w.lock.generation ∧ (c.generation = w.lock.generation → c.disconnects = w.disconnects)
  check (c : Connect) (k : Check) : w.connecting = some c → c.phase = .checking k → k.Fair
  ready : ¬ w.lock.engaged → w.tor.state = .ready
  opening : ¬ w.lock.engaged → ∃ o, w.opening = some o ∧ o.disconnects = w.disconnects ∧
    ∀ s ∈ o.sessions, (s, NetworkLock.expected) ∈ o.answers

theorem Sound.covered (h : Sound w) (hopen : ¬ w.lock.engaged) : Covered w :=
  ⟨h.ready hopen, h.tor.ready (h.ready hopen), h.opening hopen⟩

theorem sound_new : Sound .new := by
  constructor <;> simp [World.new, TorManager.new, NetworkLock.new]
  exact ⟨by simp, by simp, by simp⟩

theorem settle_cases (w : World) (r : Option Result) : w.settle r = w ∨
    ∃ c r', r = some r' ∧ w.connecting = some c ∧ c.phase = .starting ∧
      w.settle r = { w with connecting := some { c with phase := .started r' } } := by
  unfold World.settle
  split
  · rename_i r' c hc
    split
    · rename_i hphase
      exact .inr ⟨c, r', rfl, hc, hphase, rfl⟩
    · exact .inl rfl
  · exact .inl rfl

theorem Sound.settle (h : Sound w) {r : Option Result} (hended : r ≠ none → w.tor.starting = none) :
    Sound (w.settle r) := by
  obtain heq | ⟨c, r', rfl, hc, -, heq⟩ := settle_cases w r
  · rw [heq]
    exact h
  · rw [heq]
    obtain ⟨htor, -, hpending, hgeneration, -, hready, hopening⟩ := h
    refine ⟨htor, fun hne => absurd (hended (by simp)) hne, hpending, fun c' hc' => ?_, fun c' k hc' hk => ?_, hready,
      hopening⟩
    · obtain rfl := Option.some.inj hc'
      exact hgeneration c hc
    · obtain rfl := Option.some.inj hc'
      cases hk

theorem Sound.set (h : Sound w) {m : TorManager × Option Result} (hleaves : w.tor.Leaves m.1 m.2)
    (hready : ¬ w.lock.engaged → m.1.state = .ready) : Sound (w.set m) := by
  obtain ⟨kept, ended, going⟩ := hleaves
  obtain ⟨-, hgoing, hpending, hgeneration, hcheck, -, hopening⟩ := h
  refine Sound.settle (w := { w with tor := m.1 })
    ⟨kept, fun hne => ?_, fun p hp => ?_, hgeneration, hcheck, hready, hopening⟩ ended
  · exact hgoing (going hne ▸ hne)
  · have hsame := going (by rw [hp]; simp)
    exact hpending p (hsame ▸ hp)

theorem Sound.engaged (h : Sound w) (reason : String) (disconnects : Nat) :
    Sound { w with lock := w.lock.engage reason, disconnects } := by
  obtain ⟨htor, hgoing, -, hgeneration, hcheck, -, -⟩ := h
  refine ⟨htor, hgoing, fun _ _ => rfl, fun c hc => ?_, hcheck, by simp [NetworkLock.engage], by simp [NetworkLock.engage]⟩
  obtain ⟨hle, -⟩ := hgeneration c hc
  unfold NetworkLock.engage
  dsimp only
  exact ⟨by omega, by omega⟩

theorem Sound.goOn (h : Sound w) {connecting : Option Connect} (hstarting : w.tor.starting = none)
    (hsame : ∀ c', connecting = some c' → ∃ c, w.connecting = some c ∧ c'.generation = c.generation ∧
      c'.disconnects = c.disconnects)
    (hcheck : ∀ c' k, connecting = some c' → c'.phase = .checking k → k.Fair) : Sound { w with connecting } := by
  obtain ⟨htor, -, hpending, hgeneration, -, hready, hopening⟩ := h
  refine ⟨htor, fun hne => absurd hstarting hne, hpending, fun c' hc' => ?_, hcheck, hready, hopening⟩
  obtain ⟨c, hc, hgen, hdis⟩ := hsame c' hc'
  rw [hgen, hdis]
  exact hgeneration c hc

theorem Sound.stop (h : Sound w) (hengaged : w.lock.engaged) (awaited : Bool) : Sound (w.stop awaited) := by
  obtain ⟨kept, ended, going⟩ := h.tor.stop
  obtain ⟨-, hgoing, hpending, hgeneration, hcheck, -, hopening⟩ := h
  refine ⟨kept, fun hne => ?_, fun _ _ => hengaged, hgeneration, hcheck, fun hopen => absurd hengaged hopen, hopening⟩
  exact hgoing (going hne ▸ hne)

theorem Sound.congr (h : Sound w) {w' : World} (htor : w'.tor = w.tor) (hengaged : w'.lock.engaged = w.lock.engaged)
    (hgeneration : w'.lock.generation = w.lock.generation) (hconnecting : w'.connecting = w.connecting)
    (hdisconnects : w'.disconnects = w.disconnects) (hopening : w'.opening = w.opening) : Sound w' := by
  constructor
  · rw [htor]
    exact h.tor
  · rw [htor, hconnecting]
    exact h.going
  · rw [htor, hengaged]
    exact h.pending
  · rw [hconnecting, hgeneration, hdisconnects]
    exact h.generation
  · rw [hconnecting]
    exact h.check
  · rw [htor, hengaged]
    exact h.ready
  · rw [hengaged, hopening, hdisconnects]
    exact h.opening

theorem Sound.none_starting (h : Sound w) {c : Connect} (hc : w.connecting = some c) (hphase : c.phase ≠ .starting) :
    w.tor.starting = none := by
  by_contra hne
  obtain ⟨c', hc', hstarting⟩ := h.going hne
  obtain rfl := Option.some.inj (hc.symm.trans hc')
  exact hphase hstarting

theorem Sound.connect (h : Sound w) {found : Bool} (horder : InOrder w (.connect found)) :
    Sound (w.connectTor found) := by
  unfold World.connectTor
  by_cases hsome : w.connecting.isSome
  · rw [if_pos hsome]
    exact h
  · rw [if_neg hsome]
    have hnone : w.tor.starting = none := by
      by_contra hne
      obtain ⟨c, hc, -⟩ := h.going hne
      rw [hc] at hsome
      exact hsome rfl
    have hbegun : Sound { w with connecting := some ⟨w.lock.generation, .starting, w.tor.process, w.disconnects⟩ } := by
      refine ⟨h.tor, fun hne => absurd hnone hne, h.pending, fun c hc => ?_, fun c k hc hk => ?_, h.ready, h.opening⟩
      · obtain rfl := Option.some.inj hc
        exact ⟨le_rfl, fun _ => rfl⟩
      · obtain rfl := Option.some.inj hc
        cases hk
    obtain ⟨-, heq⟩ | ⟨-, hstarting, -⟩ | ⟨-, hfound, hrunning, e, heq⟩ | ⟨-, -, heq⟩ := w.tor.start_cases found
    · rw [heq]
      exact hbegun.set ⟨h.tor, fun _ => hnone, fun _ => rfl⟩ h.ready
    · rw [hnone] at hstarting
      cases hstarting
    · rw [heq]
      refine hbegun.set (h.tor.fail (by simp [hnone]) rfl rfl e) fun hopen => absurd horder ?_
      unfold InOrder
      simp only [Bool.not_eq_true] at hopen hsome hrunning hfound
      simp [hopen, hsome, hrunning, hnone, hfound]
    · rw [heq]
      refine ⟨⟨h.tor.ready, h.tor.fresh, fun p q hq hsettled => ?_⟩, fun _ => ⟨_, rfl, rfl⟩, by nofun, hbegun.generation,
        hbegun.check, hbegun.ready, hbegun.opening⟩
      have hstarting := h.tor.unsettled p q hq hsettled
      rw [hnone] at hstarting
      cases hstarting

theorem Sound.portAnswered (h : Sound w) (free late : Bool) :
    Sound { w with tor := w.tor.portAnswered free late } := by
  unfold TorManager.portAnswered
  split_ifs with hport
  · refine ⟨⟨h.tor.ready, h.tor.fresh, fun p q hq hsettled => ?_⟩, fun _ => h.going (by simp [hport.1]), by nofun,
      h.generation, h.check, h.ready, h.opening⟩
    have hstarting := h.tor.unsettled p q hq hsettled
    rw [hport.1] at hstarting
    cases hstarting
  · exact h

theorem Sound.spawnNext (h : Sound w) {made spawns : Result} (horder : InOrder w (.spawns made spawns)) :
    Sound (w.spawnNext made spawns) := by
  unfold World.spawnNext
  split
  · rename_i free hwaited
    have hengaged : w.lock.engaged := by
      obtain hengaged | hnone := horder
      · exact hengaged
      · exact absurd hwaited (hnone free)
    obtain ⟨c, hc, hphase⟩ := h.going (by simp [hwaited])
    have hfor (process : Option Nat) : Sound { w with connecting := some { c with tor := process } } := by
      refine ⟨h.tor, fun _ => ⟨_, rfl, hphase⟩, h.pending, fun c' hc' => ?_, fun c' k hc' hk => ?_, h.ready, h.opening⟩
      · obtain rfl := Option.some.inj hc'
        exact h.generation c hc
      · obtain rfl := Option.some.inj hc'
        exact h.check c k hc hk
    rw [hc]
    obtain ⟨e, t', heq, hprocesses, hspawned, -⟩ | heq := TorManager.spawnNext_cases hwaited made spawns
    · rw [heq]
      exact (hfor _).set (h.tor.fail (by simp [hwaited]) hprocesses hspawned e) fun hopen => absurd hengaged hopen
    · rw [heq]
      have hnew := hfor (some w.tor.spawned)
      exact ⟨h.tor.spawned hwaited (by nofun) rfl rfl rfl, fun _ => ⟨_, rfl, hphase⟩, fun _ _ => hengaged,
        hnew.generation, hnew.check, fun hopen => absurd hengaged hopen, hnew.opening⟩
  · exact h

theorem Sound.line (h : Sound w) (hlive : w.tor.live p) (line : TorManager.Line) :
    Sound (w.set (w.tor.readLine p line)) := by
  refine h.set (h.tor.readLine hlive line) fun hopen => ?_
  obtain hsame | hready := w.tor.readLine_state p line
  · rw [hsame]
    exact h.ready hopen
  · exact hready

theorem Sound.timeout (h : Sound w) (p : Nat) : Sound (w.set (w.tor.timeout p)) := by
  refine h.set (h.tor.timeout p) fun hopen => ?_
  unfold TorManager.timeout
  split_ifs with hwaiting
  · obtain ⟨q, hq, hsettled⟩ := (Option.any_eq_true _ _).1 hwaiting
    exact absurd (h.pending p (h.tor.unsettled p q hq (by simpa using hsettled))) hopen
  · exact h.ready hopen

theorem Sound.error (h : Sound w) {message : String} (hlive : w.tor.live p) (horder : InOrder w (.error p message)) :
    Sound (w.set (w.tor.onError p message)) := by
  refine h.set (h.tor.onError p message) fun hopen => ?_
  obtain hengaged | hdead := horder
  · exact absurd hengaged hopen
  · exact absurd hlive hdead

def closedLock (w : World) (p : Nat) (tail : String) : NetworkLock :=
  match (w.tor.onClose p tail).unexpected with
  | some reason => w.lock.engage ("Tor exited unexpectedly" ++ (if reason = "" then "" else " — " ++ reason))
  | none => w.lock

theorem onClose_eq (w : World) (p : Nat) (tail : String) :
    w.onClose p tail =
      { w with lock := closedLock w p tail, stops := w.stops.filter (·.process ≠ p) }.set
        ((w.tor.onClose p tail).tor, (w.tor.onClose p tail).result) := rfl

theorem set_fields (w : World) (m : TorManager × Option Result) : (w.set m).lock = w.lock ∧ (w.set m).tor = m.1 := by
  change ({ w with tor := m.1 }.settle m.2).lock = _ ∧ ({ w with tor := m.1 }.settle m.2).tor = _
  obtain heq | ⟨c, r', -, -, -, heq⟩ := settle_cases { w with tor := m.1 } m.2 <;> rw [heq] <;> exact ⟨rfl, rfl⟩

theorem closedLock_cases (w : World) (p : Nat) (tail : String) :
    closedLock w p tail = w.lock ∨ ∃ reason, closedLock w p tail = w.lock.engage reason := by
  unfold closedLock
  split
  · exact .inr ⟨_, rfl⟩
  · exact .inl rfl

theorem Sound.engaged_close (h : Sound w) {tail : String} (hlive : w.tor.live p) (horder : InOrder w (.close p tail)) :
    (closedLock w p tail).engaged := by
  by_cases hengaged : w.lock.engaged
  · obtain heq | ⟨reason, heq⟩ := closedLock_cases w p tail
    · rw [heq]
      exact hengaged
    · rw [heq]
      rfl
  · have hstopping : ¬ w.tor.stopping := by
      obtain hengaged' | hstopping := horder
      · exact absurd hengaged' hengaged
      · exact hstopping hlive
    obtain ⟨reason, hreason⟩ := Option.isSome_iff_exists.1
      (TorManager.onClose_ready (h.ready hengaged) hstopping p tail)
    unfold closedLock
    rw [hreason]
    rfl

theorem Sound.close (h : Sound w) {tail : String} (hlive : w.tor.live p) (horder : InOrder w (.close p tail)) :
    Sound (w.onClose p tail) := by
  have hengaged := h.engaged_close hlive horder
  have hlock : Sound { w with lock := closedLock w p tail, stops := w.stops.filter (·.process ≠ p) } := by
    obtain heq | ⟨reason, heq⟩ := closedLock_cases w p tail
    · rw [heq]
      exact h.congr rfl rfl rfl rfl rfl rfl
    · rw [heq]
      exact (h.engaged reason w.disconnects).congr rfl rfl rfl rfl rfl rfl
  rw [onClose_eq]
  exact hlock.set (h.tor.onClose p tail) fun hopen => absurd hengaged hopen

/-! ### The connect -/

theorem Sound.setPhase (h : Sound w) {c : Connect} (hc : w.connecting = some c) (hphase : c.phase ≠ .starting)
    {phase : Phase} (hcheck : ∀ k, phase = .checking k → k.Fair) : Sound (w.setPhase c phase) := by
  refine h.goOn (h.none_starting hc hphase) (fun c' hc' => ?_) (fun c' k hc' hk => ?_)
  · obtain rfl := Option.some.inj hc'
    exact ⟨c, hc, rfl, rfl⟩
  · obtain rfl := Option.some.inj hc'
    exact hcheck k hk

theorem Sound.over (h : Sound w) {c : Connect} (hc : w.connecting = some c) (hphase : c.phase ≠ .starting) :
    Sound { w with connecting := none } :=
  h.goOn (h.none_starting hc hphase) (by simp) (by simp)

theorem Sound.checked (h : Sound w) {c : Connect} {check : Check} (hc : w.connecting = some c)
    (hphase : c.phase = .checking check) (hasking : check.asking = none) : Sound (w.checked c check) := by
  have hne : c.phase ≠ .starting := by rw [hphase]; nofun
  unfold World.checked
  split_ifs with hwrong hready
  · refine Sound.setPhase (Sound.stop (h.engaged _ _) rfl true) (c := c) ?_ hne (by nofun)
    exact hc
  · exact h.over hc hne
  · rw [not_not] at hwrong hready
    unfold NetworkLock.release
    by_cases hgeneration : c.generation ≠ w.lock.generation
    · rw [if_pos hgeneration]
      exact h.over hc hne
    · rw [if_neg hgeneration]
      rw [not_not] at hgeneration
      have hnone := h.none_starting hc hne
      refine ⟨h.tor, fun hsome => absurd hnone hsome, fun p hp => ?_, fun c' hc' => ?_, fun c' k hc' hk => ?_,
        fun _ => hready, fun _ => ⟨_, rfl, (h.generation c hc).2 hgeneration, fun s hs => ?_⟩⟩
      · change w.tor.starting = _ at hp
        rw [hnone] at hp
        cases hp
      · obtain rfl := Option.some.inj hc'
        exact h.generation c hc
      · obtain rfl := Option.some.inj hc'
        cases hk
      · obtain hrest | ⟨a, ha, -⟩ | hmem | hanswered := (h.check c check hc hphase).asked s hs
        · rw [(h.check c check hc hphase).rest hasking] at hrest
          cases hrest
        · rw [hasking] at ha
          cases ha
        · rw [hwrong] at hmem
          cases hmem
        · exact hanswered

theorem Sound.ask (h : Sound w) {c : Connect} {check : Check} {a : Asking} (hc : w.connecting = some c)
    (hphase : c.phase = .checking check) (ha : check.asking = some a) : Sound (w.ask c check a) := by
  have hne : c.phase ≠ .starting := by rw [hphase]; nofun
  have hfair := h.check c check hc hphase
  have hgoOn {k : Check} (hk : k.Fair) : Sound (w.setPhase c (.checking k)) :=
    h.setPhase hc hne fun k' hk' => by
      obtain rfl := Phase.checking.inj hk'
      exact hk
  unfold World.ask
  cases hstage : a.stage with
  | routing =>
    dsimp only
    split
    · exact h
    · exact hgoOn (hfair.asking ha rfl (by nofun))
    · exact hgoOn (hfair.asking ha rfl (by nofun))
  | asked => exact h
  | told right =>
    cases right with
    | true => exact hgoOn (hfair.known ha (List.Subset.refl _) (.inr (hfair.told a ha hstage)))
    | false =>
      dsimp only
      split_ifs with hagain
      · exact hgoOn (hfair.known ha (List.subset_append_left _ _) (.inl (by simp)))
      · have hset : Sound { w with lock := w.lock.reroute a.session w.promised, promised := w.promised + 1 } :=
          h.congr rfl rfl rfl rfl rfl rfl
        refine hset.setPhase hc hne fun k' hk' => ?_
        obtain rfl := Phase.checking.inj hk'
        exact hfair.asking ha rfl (by nofun)

theorem Sound.answered (h : Sound w) {c : Connect} (hc : w.connecting = some c) (answer : Option String) :
    Sound (w.answered c answer) := by
  unfold World.answered
  split
  · rename_i check hphase
    split
    · rename_i a ha
      split_ifs with hstage
      · refine h.setPhase hc (by rw [hphase]; nofun) fun k' hk' => ?_
        obtain rfl := Phase.checking.inj hk'
        have hfair := h.check c check hc hphase
        refine ⟨by nofun, fun s hs => ?_, fun a' ha' htold => ?_⟩
        · obtain hrest | ⟨a', ha', rfl⟩ | hmem | hanswered := hfair.asked s hs
          · exact .inl hrest
          · obtain rfl := Option.some.inj (ha.symm.trans ha')
            exact .inr (.inl ⟨_, rfl, rfl⟩)
          · exact .inr (.inr (.inl hmem))
          · exact .inr (.inr (.inr (List.mem_append_left _ hanswered)))
        · obtain rfl := Option.some.inj ha'
          have hright : answer = some NetworkLock.expected := by simpa using htold
          rw [hright]
          exact List.mem_append_right _ (List.mem_singleton_self _)
      · exact h
    · exact h
  · exact h

theorem Sound.resume (h : Sound w) {c : Connect} (hc : w.connecting = some c) : Sound (w.resume c) := by
  unfold World.resume
  split
  · rename_i e hphase
    exact Sound.over (h.engaged _ _) (c := c) hc (by rw [hphase]; nofun)
  · rename_i hphase
    refine h.setPhase hc (by rw [hphase]; nofun) fun k hk => ?_
    obtain rfl := Phase.checking.inj hk
    exact Check.fair_unrouted _
  · rename_i check hphase
    split
    · rename_i hasking
      exact h.checked hc hphase hasking
    · rename_i a ha
      exact h.ask hc hphase ha
  · rename_i hphase
    split_ifs
    · exact h
    · exact h.over hc (by rw [hphase]; nofun)
  · exact h
  · exact h

theorem Sound.exitFound (h : Sound w) {c : Connect} (hc : w.connecting = some c) : Sound (w.exitFound c) := by
  unfold World.exitFound
  split
  · rename_i hphase
    exact h.over hc (by rw [hphase]; nofun)
  · exact h

theorem Sound.step (h : Sound w) {e : Event} (horder : InOrder w e) : Sound (w.step e) := by
  cases e with
  | connect found => exact h.connect horder
  | disconnect => exact Sound.stop (h.engaged _ _) rfl false
  | portAnswered free late => exact h.portAnswered free late
  | spawns made spawns => exact h.spawnNext horder
  | line p line =>
    dsimp only [World.step]
    split_ifs with hlive
    · exact h.line hlive line
    · exact h
  | error p message =>
    dsimp only [World.step]
    split_ifs with hlive
    · exact h.error hlive horder
    · exact h
  | close p tail =>
    dsimp only [World.step]
    split_ifs with hlive
    · exact h.close hlive horder
    · exact h
  | timeout p => exact h.timeout p
  | killTimer n => exact h.congr rfl rfl rfl rfl rfl rfl
  | resume =>
    dsimp only [World.step]
    cases hc : w.connecting with
    | none => exact h
    | some c => exact h.resume hc
  | protect s =>
    refine h.congr rfl ?_ ?_ rfl rfl rfl <;> unfold World.step NetworkLock.protect <;> dsimp only <;> split_ifs <;> rfl
  | forget s => exact h.congr rfl rfl rfl rfl rfl rfl
  | routed routing ok =>
    dsimp only [World.step]
    split_ifs
    · exact h.congr rfl rfl rfl rfl rfl rfl
    · exact h
  | answered answer =>
    dsimp only [World.step]
    cases hc : w.connecting with
    | none => exact h
    | some c => exact h.answered hc answer
  | exitFound =>
    dsimp only [World.step]
    cases hc : w.connecting with
    | none => exact h
    | some c => exact h.exitFound hc

/-! ### The law -/

theorem Sound.holds (h : Sound w) {e : Event} (horder : InOrder w e) : Holds w e := by
  refine ⟨(h.step horder).covered, ?_⟩
  cases e with
  | close p tail =>
    intro hlive _
    have hengaged := h.engaged_close hlive horder
    dsimp only [World.step]
    rw [if_pos hlive, onClose_eq, (set_fields _ _).1]
    exact hengaged
  | _ => trivial

theorem inOrder_of_holds {e : Event} (h : Holds w e) : InOrder w e := by
  by_cases hopen : w.lock.engaged
  · exact .inl hopen
  · right
    have hready (hlock : (w.step e).lock = w.lock) : (w.step e).tor.state = .ready :=
      (h.1 (by rw [hlock]; exact hopen)).ready
    cases e with
    | connect found =>
      dsimp only
      by_contra hfails
      simp only [not_or, Bool.not_eq_true, Option.isSome_eq_false_iff, Option.isNone_iff_eq_none] at hfails
      obtain ⟨hconnecting, hrunning, hstarting, rfl⟩ := hfails
      have hstart : (w.tor.start false).1.state = .failed := by
        simp [TorManager.start, hrunning, hstarting, TorManager.fail]
      dsimp only [World.step, World.connectTor] at hready
      rw [hconnecting, if_neg (by simp), (set_fields _ _).1, (set_fields _ _).2, hstart] at hready
      cases hready rfl
    | spawns made spawns =>
      intro free hwaited
      dsimp only [World.step, World.spawnNext] at hready
      rw [hwaited] at hready
      dsimp only at hready
      rw [(set_fields _ _).1, (set_fields _ _).2] at hready
      obtain ⟨e, t', heq, -⟩ | heq := TorManager.spawnNext_cases hwaited made spawns
      · rw [heq] at hready
        cases hready rfl
      · rw [heq] at hready
        cases hready rfl
    | error p message =>
      intro hlive
      dsimp only [World.step] at hready
      rw [if_pos hlive, (set_fields _ _).1, (set_fields _ _).2] at hready
      have hstate : (w.tor.onError p message).1.state = .failed := TorManager.finish_state _ _ _
      rw [hstate] at hready
      cases hready rfl
    | close p tail =>
      intro hlive hstopping
      obtain ⟨hstate, hunexpected⟩ := TorManager.onClose_stopping hstopping p tail
      have hlock : closedLock w p tail = w.lock := by
        unfold closedLock
        rw [hunexpected]
      dsimp only [World.step] at hready
      rw [if_pos hlive, onClose_eq, (set_fields _ _).1, (set_fields _ _).2, hstate] at hready
      cases hready hlock
    | _ => trivial

/-- The lock is open over a live, ready Tor only, just where a run is in order. -/
theorem open_run (events : List Event) :
    Along World.step Holds .new events ↔ Along World.step InOrder .new events := by
  constructor
  · intro h
    exact Along.of_invariant (P := fun _ => True) (fun _ _ _ _ => trivial) (fun _ _ _ hholds => inOrder_of_holds hholds) h
      trivial
  · intro h
    exact Along.of_invariant (P := Sound) (fun _ _ hs horder => hs.step horder) (fun _ _ hs horder => hs.holds horder) h
      sound_new

private def reopened : List Event :=
  [.protect 0, .routed 0 true, .connect true, .portAnswered true false, .spawns (.ok ()) (.ok ()), .line 0 ⟨some 80, none⟩,
    .disconnect, .line 0 ⟨some 100, none⟩, .resume, .resume, .resume, .answered (some NetworkLock.expected), .resume, .resume,
    .connect true, .resume, .resume, .answered (some NetworkLock.expected), .resume, .resume, .close 0 ""]

/-- The close of the Tor that the lock was opened for leaves it open. -/
theorem open_without_tor : ¬ ∀ events : List Event, Along World.step Holds .new events := by
  intro h
  have hlast : Holds (run World.step .new reopened.dropLast) (.close 0 "") := by
    have hall : Along World.step Holds .new (reopened.dropLast ++ [.close 0 ""]) := h _
    exact ((along_append _ _ _).1 hall).2.1
  have hopen : ¬ (run World.step .new reopened).lock.engaged := by decide +kernel
  have hstate : (run World.step .new reopened).tor.state = .stopped := by decide +kernel
  have hcovered := hlast.1 hopen
  cases hstate.symm.trans hcovered.ready

end HidraNet.Browser
