import HidraNet.Vpn.Locks

/-!
# The kill switch across changes and accounts

While a circuit is up its own rules are armed, and a change of it holds the firewall from before the old circuit comes
down until the new one is armed; a change that fails leaves the hold.  So only a Down opens the machine again
(`no_open_moment`).

Whose circuit it was is forgotten with the circuit: where a change failed and nothing is up, a Down of any account lifts
the hold (`lifted_by_another`).  Without such a Down, and without another account's circuit in place of the hold, only
the owner and root open the machine (`lifted_by_owner`).
-/

namespace HidraNet.Vpn

open Runs

namespace Daemon

variable {s s' : Daemon} {t u : Nat} {k k' : Task} {a : Answer} {e : Event}

def Protected (s : Daemon) : Prop :=
  match s.up with
  | some x => s.firewall = .armed x.circuit.id
  | none => ∃ l, s.firewall = .held l

def ServesDown (s : Daemon) : Event → Prop
  | .arrive .. => False
  | .go t _ => ∃ k ∈ s.tasks t, k.pc = .downing ∧ s.state.holder = some t ∧ refused s.up k.caller = false

instance (s : Daemon) (e : Event) : Decidable (ServesDown s e) := by
  unfold ServesDown
  split <;> infer_instance

theorem ServesDown.cases (h : ServesDown s e) : ∃ t a k, e = .go t a ∧ s.tasks t = some k ∧ k.pc = .downing ∧
    s.state.holder = some t ∧ refused s.up k.caller = false := by
  cases e with
  | arrive => exact h.elim
  | go t a =>
    obtain ⟨k, hk, h⟩ := h
    exact ⟨t, a, k, rfl, hk, h⟩

/-! ### What is up is armed -/

def Replaces (s : Daemon) : Prop := ∀ t k b p, s.tasks t = some k → k.pc = .building b p → b.old.isSome ∨ b.wasHeld

structure Armed (s : Daemon) : Prop where
  disciplined : Disciplined s
  up : ∀ x, s.up = some x → s.firewall = .armed x.circuit.id
  first : ∀ t k b p, s.tasks t = some k → k.pc = .building b p → b.old = none → b.found = .removed → b.wasHeld = false

theorem armed_init (f : Firewall) : Armed (init f) := ⟨disciplined_init f, nofun, fun _ _ _ _ h => nomatch h⟩

theorem building_step (hd : Disciplined s) (e : Event) {b : Build} {p : Phase} (hk' : (s.step e).tasks u = some k')
    (hpc : k'.pc = .building b p) :
    (∃ k p, s.tasks u = some k ∧ k'.caller = k.caller ∧ k.pc = .building b p) ∨
    ∃ k a f, e = .go u a ∧ s.tasks u = some k ∧ k'.caller = k.caller ∧ Begins s u k (s.step e) b p f := by
  cases e with
  | arrive kind caller a =>
    obtain ⟨k₁, harr⟩ := arrive_cases s kind caller a
    obtain ⟨-, rfl⟩ | ⟨-, hk⟩ := harr.tasks_cases hk'
    · have := harr.holdsState
      simp [hpc, Pc.holdsState] at this
    · exact Or.inl ⟨_, p, hk, rfl, hpc⟩
  | go t a =>
    change (s.go t a).tasks u = some k' at hk'
    obtain ⟨rfl, k, hk⟩ | ⟨-, hk⟩ := go_tasks_cases hk'
    · rcases go_cases hk a with ⟨k₁, hq⟩ | ⟨b', p', f, hb⟩ | ⟨b', p', hpc', hb⟩ | ⟨-, -, hr, hb⟩
      · obtain rfl : k₁ = k' := Option.some.inj (hq.task.symm.trans hk')
        have := hq.holdsState
        simp [hpc, Pc.holdsState] at this
      · have heq := hb.eq
        rw [heq, tasks_setPc] at hk'
        cases hk'
        obtain ⟨rfl, rfl⟩ := Pc.building.inj hpc
        exact Or.inr ⟨k, a, f, rfl, hk, rfl, hb⟩
      · rw [hb] at hk'
        rcases build_cases hd hk hpc' a with ⟨f, q, hb', -⟩ | ⟨-, -, -, hb'⟩ | hb'
        · rw [hb', tasks_setPc] at hk'
          cases hk'
          obtain ⟨rfl, rfl⟩ := Pc.building.inj hpc
          exact Or.inl ⟨k, p', hk, rfl, hpc'⟩
        · rw [hb', tasks_finish] at hk'
          cases hk'
          cases hpc
        · rw [hb', tasks_finish] at hk'
          cases hk'
          cases hpc
      · rw [hb] at hk'
        rcases takeDown_cases hr u a with ⟨-, hb'⟩ | ⟨x, -, hb'⟩
        · rw [hb', tasks_finish] at hk'
          cases hk'
          cases hpc
        · rw [hb', tasks_setPc] at hk'
          cases hk'
          cases hpc
    · exact Or.inl ⟨k', p, hk, rfl, hpc⟩

/-- What a step does to the firewall and to what is up. -/
inductive Effect (s : Daemon) (e : Event) : Prop where
  | none (hup : (s.step e).up = s.up) (hf : (s.step e).firewall = s.firewall)
  | holds (hup : (s.step e).up = none) (l : List Net.SocketAddr) (hf : (s.step e).firewall = .held l)
  | begins (t : Nat) (b : Build) (p : Phase) (hup : s.up = none) (hup' : (s.step e).up = none)
      (hf : s.firewall = .removed) (hf' : (s.step e).firewall = .removed)
  | arms (t : Nat) (a : Answer) (k : Task) (b : Build) (steps : Steps) (he : e = .go t a) (hk : s.tasks t = some k)
      (hpc : k.pc = .building b (.raising .arm steps)) (hnft : a.nft = true)
      (hup : (s.step e).up = some ⟨b.owner, t, b.plan, true⟩) (hf : (s.step e).firewall = .armed t)
  | fails (t : Nat) (a : Answer) (k : Task) (b : Build) (p : Phase) (he : e = .go t a) (hk : s.tasks t = some k)
      (hpc : k.pc = .building b p) (hup : (s.step e).up = none) (hf : (s.step e).firewall = b.fail a s.firewall)
  | down (h : ServesDown s e)

theorem effect (hd : Disciplined s) (e : Event) : Effect s e := by
  cases e with
  | arrive kind caller a =>
    obtain ⟨k', harr⟩ := arrive_cases s kind caller a
    exact .none harr.up harr.firewall
  | go t a =>
    cases hk : s.tasks t with
    | none =>
      have h : s.step (.go t a) = s := by simp [Daemon.step, Daemon.go, hk]
      exact .none (by rw [h]) (by rw [h])
    | some k =>
      rcases go_cases hk a with ⟨k', hq⟩ | ⟨b, p, f, hb⟩ | ⟨b, p, hpc, hb⟩ | ⟨hpc, hl, hr, -⟩
      · exact .none hq.up hq.firewall
      · have hup : (s.step (.go t a)).up = none := by rw [show s.step (.go t a) = _ from hb.eq]; rfl
        have hf : (s.step (.go t a)).firewall = f := by rw [show s.step (.go t a) = _ from hb.eq]; rfl
        rcases hb.started.firewall with ⟨-, l, rfl⟩ | ⟨hold, hfw, rfl, -⟩
        · exact .holds hup l hf
        · exact .begins t b p (hb.started.old ▸ hold) hup hfw hf
      · have hnone := (hd.state t k hk (by rw [hpc]; rfl)).2
        rcases build_cases hd hk hpc a with ⟨f, q, h, hg, -⟩ | ⟨steps, rfl, hnft, h⟩ | h
        · have heq : s.step (.go t a) = _ := hb.trans h
          rcases hg.firewall with rfl | ⟨l, rfl⟩
          · exact .none (by rw [heq]; rfl) (by rw [heq]; rfl)
          · exact .holds (by rw [heq]; exact hnone) l (by rw [heq]; rfl)
        · have heq : s.step (.go t a) = _ := hb.trans h
          exact .arms t a k b steps rfl hk hpc hnft (by rw [heq]; rfl) (by rw [heq]; rfl)
        · have heq : s.step (.go t a) = _ := hb.trans h
          exact .fails t a k b p rfl hk hpc (by rw [heq]; exact hnone) (by rw [heq]; rfl)
      · exact .down ⟨k, hk, hpc, hl, hr⟩

theorem up_of_servesDown (h : ServesDown s e) : (s.step e).up = none := by
  obtain ⟨t, a, k, rfl, hk, hpc, hl, hr⟩ := h.cases
  have hgo : s.step (.go t a) = s.takeDown t k a := by simp [Daemon.step, Daemon.go, hk, hpc, hl]
  rw [hgo]
  rcases takeDown_cases hr t a with ⟨hup, h⟩ | ⟨x, -, h⟩
  · rw [h]
    exact hup
  · rw [h]
    rfl

theorem Armed.step (h : Armed s) (e : Event) : Armed (s.step e) where
  disciplined := h.disciplined.step e
  up x hx := by
    cases effect h.disciplined e with
    | none hup hf =>
      rw [hf]
      exact h.up x (hup.symm.trans hx)
    | holds hup => simp [hup] at hx
    | begins _ _ _ _ hup => simp [hup] at hx
    | arms t _ _ _ _ _ _ _ _ hup hf =>
      rw [hup] at hx
      cases hx
      exact hf
    | fails _ _ _ _ _ _ _ _ hup => simp [hup] at hx
    | down hs => simp [up_of_servesDown hs] at hx
  first t k b p hk hpc hold hfound := by
    rcases building_step h.disciplined e hk hpc with ⟨k₁, p₁, hk₁, -, hpc₁⟩ | ⟨k₁, a, f, -, -, -, hb⟩
    · exact h.first t k₁ b p₁ hk₁ hpc₁ hold hfound
    · rcases hb.started.firewall with ⟨hor, -⟩ | ⟨-, -, -, hheld⟩
      · rw [← hb.started.found] at hor
        simp [hold, hfound] at hor
      · exact hheld

/-! ### A change of circuit -/

structure Guarded (s : Daemon) : Prop where
  disciplined : Disciplined s
  safe : Protected s
  replaces : Replaces s

theorem guarded_of_up (h : Armed s) {x : Active} (hx : s.up = some x) : Guarded s := by
  refine ⟨h.disciplined, ?_, ?_⟩
  · unfold Protected
    rw [hx]
    exact h.up x hx
  · intro t k b p hk hpc
    have := (h.disciplined.state t k hk (by rw [hpc]; rfl)).2
    simp [hx] at this

theorem Guarded.firewall_ne (h : Guarded s) : s.firewall ≠ .removed := by
  have hp := h.safe
  unfold Protected at hp
  split at hp
  · simp [hp]
  · obtain ⟨l, hl⟩ := hp
    simp [hl]

theorem fail_of_replaces {b : Build} (h : b.old.isSome ∨ b.wasHeld) (a : Answer) (f : Firewall) : b.fail a f = f := by
  unfold Build.fail
  rcases h with h | h
  · simp [Option.isNone_eq_false_iff.2 h]
  · simp [h]

theorem Replaces.step (h : Replaces s) (hd : Disciplined s) (hf : s.firewall ≠ .removed) (e : Event) :
    Replaces (s.step e) := by
  intro t k b p hk hpc
  rcases building_step hd e hk hpc with ⟨k₁, p₁, hk₁, -, hpc₁⟩ | ⟨k₁, a, f, -, -, -, hb⟩
  · exact h t k₁ b p₁ hk₁ hpc₁
  · rcases hb.started.firewall with ⟨hor, -⟩ | ⟨-, hr, -⟩
    · exact hor.imp id And.left
    · exact absurd hr hf

def UpAfter (s : Daemon) (e : Event) : Prop :=
  (s.step e).up = s.up ∨ (s.step e).up = none ∨
    ∃ t a x, e = .go t a ∧ (s.step e).up = some x ∧ x.circuit.id = t

theorem upAfter (hd : Disciplined s) (e : Event) : UpAfter s e := by
  cases effect hd e with
  | none hup => exact Or.inl hup
  | holds hup => exact Or.inr (Or.inl hup)
  | begins _ _ _ _ hup => exact Or.inr (Or.inl hup)
  | arms t a _ b _ he _ _ _ hup => exact Or.inr (Or.inr ⟨t, a, _, he, hup, rfl⟩)
  | fails _ _ _ _ _ _ _ _ hup => exact Or.inr (Or.inl hup)
  | down hs => exact Or.inr (Or.inl (up_of_servesDown hs))

theorem Guarded.step (h : Guarded s) (hn : ¬ ServesDown s e) : Guarded (s.step e) := by
  refine ⟨h.disciplined.step e, ?_, h.replaces.step h.disciplined h.firewall_ne e⟩
  have hs := h.safe
  unfold Protected at hs ⊢
  cases effect h.disciplined e with
  | none hup hf =>
    rw [hup, hf]
    exact hs
  | holds hup l hf =>
    rw [hup]
    exact ⟨l, hf⟩
  | begins _ _ _ _ _ hf => exact absurd hf h.firewall_ne
  | arms t _ _ _ _ _ _ _ _ hup hf =>
    rw [hup]
    exact hf
  | fails t a k b p he hk hpc hup hf =>
    have hnone := (h.disciplined.state t k hk (by rw [hpc]; rfl)).2
    rw [hnone] at hs
    rw [hup, hf, fail_of_replaces (h.replaces t k b p hk hpc)]
    exact hs
  | down hd => exact absurd hd hn

def FirstConnection (s : Daemon) (k : Task) : Prop :=
  (k.pc = .state ∧ s.up = none ∧ s.firewall = .removed) ∨
    ∃ b p, k.pc = .building b p ∧ b.old = none ∧ b.found = .removed

def FirstFailure (s : Daemon) (e : Event) : Prop :=
  ∀ t a k k', e = .go t a → s.tasks t = some k → FirstConnection s k → (s.step e).tasks t = some k' →
    k'.pc = .ended false → a.lifted = true → (s.step e).firewall = .removed

theorem Armed.firstFailure (h : Armed s) (e : Event) : FirstFailure s e := by
  rintro t a k k' rfl hk hfirst hk' hpc' hlift
  change (s.go t a).tasks t = some k' at hk'
  change (s.go t a).firewall = .removed
  rcases hfirst with ⟨hpc, -, hf⟩ | ⟨b, p, hpc, hold, hfound⟩
  · rcases go_cases hk a with ⟨k₁, hq⟩ | ⟨b, p, f, hb⟩ | ⟨b, p, hpcb, -⟩ | ⟨hpcd, -⟩
    · exact hq.firewall.trans hf
    · rw [hb.eq, tasks_setPc] at hk'
      cases hk'
      cases hpc'
    · simp [hpc] at hpcb
    · simp [hpc] at hpcd
  · have hheld := h.first t k b p hk hpc hold hfound
    have hgo : s.go t a = s.build t k b p a := by simp [Daemon.go, hk, hpc]
    rw [hgo] at hk' ⊢
    rcases build_cases h.disciplined hk hpc a with ⟨f, q, hb, -⟩ | ⟨-, -, -, hb⟩ | hb
    · rw [hb, tasks_setPc] at hk'
      cases hk'
      cases hpc'
    · rw [hb, tasks_finish] at hk'
      cases hk'
      cases hpc'
    · rw [hb]
      change b.fail a s.firewall = .removed
      simp [Build.fail, hold, hheld, hlift]

/-- From any reachable state in which a circuit is up, and as long as no Down and no shutdown is served: what is up is
armed, and the firewall is held where nothing is; a request leaves up what was up, nothing, or its own circuit.  A first
connection that fails leaves the firewall removed, where the removal does not fail. -/
theorem no_open_moment (f : Firewall) (es : List Event) :
    (∀ es', (run step (init f) es).up.isSome → Along step (fun s e => ¬ ServesDown s e) (run step (init f) es) es' →
      Protected (run step (run step (init f) es) es') ∧ Along step UpAfter (run step (init f) es) es') ∧
    Along step FirstFailure (init f) es := by
  have harmed : Armed (run step (init f) es) := run_always (fun _ e h => h.step e) (armed_init f) es
  refine ⟨fun es' hup hes' => ?_, ?_⟩
  · obtain ⟨x, hx⟩ := Option.isSome_iff_exists.1 hup
    have hg := guarded_of_up harmed hx
    have hkeep : ∀ s e, Guarded s → ¬ ServesDown s e → Guarded (s.step e) := fun _ _ h hn => h.step hn
    exact ⟨(run_invariant hkeep hes' hg).safe,
      hes'.of_invariant hkeep (fun _ e h _ => upAfter h.disciplined e) hg⟩
  · exact along_always (fun _ e h => h.step e) (fun _ e h => h.firstFailure e) (armed_init f) es

def connected : List Event := .arrive .connect (some 1000) .good :: goesOn 0 10

def failedRotation : List Event :=
  .arrive .newIdentity (some 1000) .good :: goesOn 1 5 ++ [.go 1 { Answer.good with ok := false }]

theorem no_open_moment_failed_rotation :
    Protected (run step (run step (init .removed) connected) failedRotation) ∧
      Along step UpAfter (run step (init .removed) connected) failedRotation :=
  (no_open_moment .removed connected).1 failedRotation (by decide) (by decide)

def twoPlan : Plan :=
  ⟨⟨.v4 167772161 51820, .v4 167772161 51821, .sessions⟩, some ⟨.v4 167772417 51820, .v4 167772417 51821, .byHand⟩⟩

def stuckRun : List Event :=
  .arrive .connect (some 1000) .good :: List.replicate 6 (.go 0 { Answer.good with plan := some twoPlan }) ++
    [.go 0 { Answer.good with ok := false, lifted := false }]

/-- Where the kill switch is not lifted after a failed connect, it stays held and nothing is up. -/
theorem first_failure_stays_held :
    (run step (init .removed) stuckRun).tasks 0 = some ⟨.connect, some 1000, some twoPlan, .ended false⟩ ∧
      (run step (init .removed) stuckRun).up = none ∧
      (run step (init .removed) stuckRun).firewall = .held [.v4 167772417 51820] := by
  decide

/-! ### Whose kill switch it is -/

/-- Neither the account `A` nor root. -/
def Foreign (A : Nat) (caller : Option Nat) : Prop := caller ≠ some A ∧ caller ≠ root

instance (A : Nat) (caller : Option Nat) : Decidable (Foreign A caller) := inferInstanceAs (Decidable (_ ∧ _))

/-- The step serves a request of `A` or of root; the shutdown is root's. -/
def ServesOwner (A : Nat) (s : Daemon) : Event → Prop
  | .arrive .. => False
  | .go t _ => ∃ k ∈ s.tasks t, ¬ Foreign A k.caller

instance (A : Nat) (s : Daemon) (e : Event) : Decidable (ServesOwner A s e) := by
  unfold ServesOwner
  split <;> infer_instance

/-- The first step of the run that leaves the firewall removed serves `A` or root. -/
def FirstLift (A : Nat) : Daemon → List Event → Prop
  | _, [] => True
  | s, e :: es => if (s.step e).firewall = .removed then ServesOwner A s e else FirstLift A (s.step e) es

instance decidableFirstLift (A : Nat) : ∀ s es, Decidable (FirstLift A s es)
  | _, [] => isTrue trivial
  | s, e :: es =>
    have := decidableFirstLift A (s.step e) es
    inferInstanceAs (Decidable (if (s.step e).firewall = .removed then ServesOwner A s e else
      FirstLift A (s.step e) es))

/-- No Down of another account is served while nothing is up, and no circuit of another account is armed. -/
def Undisturbed (A : Nat) (s : Daemon) : Event → Prop
  | .arrive .. => True
  | .go t a => ∀ k ∈ s.tasks t, Foreign A k.caller →
    match k.pc with
    | .downing => s.state.holder = some t → s.up.isSome
    | .building _ (.raising .arm _) => a.nft = false
    | _ => True

instance (A : Nat) (s : Daemon) (e : Event) : Decidable (Undisturbed A s e) := by
  unfold Undisturbed
  split
  · infer_instance
  · refine @Option.decidableForallMem _ _ (fun k => ?_) _
    refine @instDecidableForall _ _ inferInstance ?_
    split <;> infer_instance

/-- Since a circuit of `A` came up: nothing was lifted, and what is built in its place is `A`'s or root's, or comes to
nothing. -/
structure Kept (A : Nat) (s : Daemon) : Prop where
  disciplined : Disciplined s
  firewall : s.firewall ≠ .removed
  replaces : Replaces s
  up : ∀ x, s.up = some x → ¬ Foreign A x.owner
  builds : ∀ t k b p, s.tasks t = some k → k.pc = .building b p → Foreign A k.caller ∨ ¬ Foreign A b.owner

theorem kept_of_up (h : Armed s) {A : Nat} {x : Active} (hx : s.up = some x) (ho : x.owner = some A) : Kept A s where
  disciplined := h.disciplined
  firewall := by simp [h.up x hx]
  replaces := (guarded_of_up h hx).replaces
  up y hy := by
    obtain rfl : x = y := Option.some.inj (hx.symm.trans hy)
    simp [Foreign, ho]
  builds t k b p hk hpc := by
    have := (h.disciplined.state t k hk (by rw [hpc]; rfl)).2
    simp [hx] at this

theorem refused_foreign {A : Nat} {x : Active} {caller : Option Nat} (hx : ¬ Foreign A x.owner)
    (hc : Foreign A caller) : refused (some x) caller = true := by
  obtain ⟨h₁, h₂⟩ := hc
  have ho : x.owner = some A ∨ x.owner = root := by
    simp only [Foreign, not_and_or, not_not] at hx
    exact hx
  rcases ho with ho | ho
  · simp [refused, ho, h₂, Ne.symm h₁]
  · have hne : root ≠ caller := Ne.symm h₂
    simp [refused, ho, h₂, hne]
    rfl

theorem Kept.lift {A : Nat} (h : Kept A s) (hc : Undisturbed A s e) (hf : (s.step e).firewall = .removed) :
    ServesOwner A s e := by
  cases effect h.disciplined e with
  | none _ hf' => exact absurd (hf'.symm.trans hf) h.firewall
  | holds _ _ hf' => simp [hf'] at hf
  | begins _ _ _ _ _ hf' => exact absurd hf' h.firewall
  | arms _ _ _ _ _ _ _ _ _ _ hf' => simp [hf'] at hf
  | fails t a k b p he hk hpc _ hf' =>
    rw [hf', fail_of_replaces (h.replaces t k b p hk hpc)] at hf
    exact absurd hf h.firewall
  | down hd =>
    obtain ⟨t, a, k, rfl, hk, hpc, hl, hr⟩ := hd.cases
    refine ⟨k, hk, fun hforeign => ?_⟩
    have hup := hc k hk hforeign
    rw [hpc] at hup
    obtain ⟨x, hx⟩ := Option.isSome_iff_exists.1 (hup hl)
    rw [hx, refused_foreign (h.up x hx) hforeign] at hr
    cases hr

theorem Kept.step {A : Nat} (h : Kept A s) (hc : Undisturbed A s e) (hf : (s.step e).firewall ≠ .removed) :
    Kept A (s.step e) where
  disciplined := h.disciplined.step e
  firewall := hf
  replaces := h.replaces.step h.disciplined h.firewall e
  up x hx := by
    cases effect h.disciplined e with
    | none hup => exact h.up x (hup.symm.trans hx)
    | holds hup => simp [hup] at hx
    | begins _ _ _ _ hup => simp [hup] at hx
    | arms t a k b steps he hk hpc hnft hup =>
      subst he
      rw [hup] at hx
      cases hx
      rcases h.builds t k b _ hk hpc with hforeign | ho
      · have hnot := hc k hk hforeign
        rw [hpc] at hnot
        simp [hnft] at hnot
      · exact ho
    | fails _ _ _ _ _ _ _ _ hup => simp [hup] at hx
    | down hd => simp [up_of_servesDown hd] at hx
  builds t k b p hk hpc := by
    rcases building_step h.disciplined e hk hpc with ⟨k₁, p₁, hk₁, hcaller, hpc₁⟩ | ⟨k₁, a, f, -, -, hcaller, hb⟩
    · rw [hcaller]
      exact h.builds t k₁ b p₁ hk₁ hpc₁
    · rcases hb.owner with ho | ⟨x, hx, ho⟩
      · rw [hcaller, ho]
        exact em _
      · rw [ho]
        exact Or.inr (h.up x hx)

theorem Kept.firstLift {A : Nat} (h : Kept A s) {es : List Event} (hc : Along Daemon.step (Undisturbed A) s es) :
    FirstLift A s es := by
  induction es generalizing s with
  | nil => trivial
  | cons e es ih =>
    unfold FirstLift
    split
    · rename_i hf
      exact h.lift hc.1 hf
    · rename_i hf
      exact ih (h.step hc.1 hf) hc.2

/-- Once a circuit of `A` is up, the first step that opens the machine serves `A` or root, in every run in which no
other account's Down is served with nothing up and no other account's circuit is armed. -/
theorem lifted_by_owner (A : Nat) (f : Firewall) (es es' : List Event)
    (hup : ∃ x, (run step (init f) es).up = some x ∧ x.owner = some A)
    (hc : Along step (Undisturbed A) (run step (init f) es) es') : FirstLift A (run step (init f) es) es' := by
  obtain ⟨x, hx, ho⟩ := hup
  have harmed : Armed (run step (init f) es) := run_always (fun _ e h => h.step e) (armed_init f) es
  exact (kept_of_up harmed hx ho).firstLift hc

theorem lifted_by_owner_after_failure :
    FirstLift 1000 (run step (init .removed) connected)
      (failedRotation ++ .arrive .down (some 1000) .good :: goesOn 2 1) :=
  lifted_by_owner 1000 .removed connected _ ⟨⟨some 1000, 0, onePlan, true⟩, by decide, rfl⟩ (by decide)

/-- Another account's Down lifts the hold that the failed rotation left. -/
theorem lifted_by_another :
    (run step (init .removed) connected).up = some ⟨some 1000, 0, onePlan, true⟩ ∧
      (run step (run step (init .removed) connected) failedRotation).firewall = .held [.v4 167772161 51820] ∧
      ¬ FirstLift 1000 (run step (init .removed) connected)
        (failedRotation ++ .arrive .down (some 1001) .good :: goesOn 2 1) := by
  decide

end Daemon

end HidraNet.Vpn
