import HidraNet.Vpn.Locks

/-!
# A disconnect and the connects before it

A Down stops every circuit that is asked for and registered, before it waits for the state's lock; the circuit that is
up when it has the lock it takes down.  So no circuit comes up later for a request that was registered when the Down
began (`down_stops`).  A Connect waits for the state's lock before it is registered: a Down that comes while it waits
does not stop it, and is answered before the Connect comes up (`connect_after_down`).
-/

namespace HidraNet.Vpn

open Runs

def Pc.isRaising : Pc → Bool
  | .building _ p => p.isRaising
  | _ => false

namespace Daemon

variable {s s' : Daemon} {t u : Nat} {k k' : Task} {a : Answer} {e : Event} {A : Option Nat}

/-- A circuit comes up for the request `r`. -/
def ComesUp (s : Daemon) (e : Event) (r : Nat) : Prop :=
  ∃ x, (s.step e).up = some x ∧ x.circuit.id = r ∧ s.up ≠ some x

/-- No circuit comes up for a request of `A` that was there before a Down of `A`, once the Down has taken down what was
up; it is answered later still. -/
def Safe (A : Option Nat) (s : Daemon) (e : Event) : Prop :=
  ∀ r d kr kd, r < d → s.tasks r = some kr → kr.kind.builds → kr.caller = A →
    s.tasks d = some kd → kd.kind = .down → kd.caller = A → kd.pc.served → ¬ ComesUp s e r

/-- The request is registered where a Down of `A` stops it. -/
def Registered (s : Daemon) (A : Option Nat) (r : Nat) : Prop := ∃ c ∈ s.connecting, c.id = r ∧ (A = root ∨ c.owner = A)

instance (s : Daemon) (A : Option Nat) (r : Nat) : Decidable (Registered s A r) :=
  inferInstanceAs (Decidable (∃ c ∈ s.connecting, _))

/-- Where a Down of `A` begins, every request of `A` for a circuit that has not ended is registered as `A`'s. -/
def Calm (A : Option Nat) (s : Daemon) : Event → Prop
  | .arrive .down caller _ =>
    caller = A → ∀ r < s.next, ∀ k ∈ s.tasks r, k.kind.builds → k.caller = A → k.pc.isEnded ∨ s.Registered A r
  | _ => True

/-- A request that was there before a Down is stopped, and past the Down's step it cannot come up. -/
structure Stopped (A : Option Nat) (s : Daemon) : Prop where
  disciplined : Disciplined s
  stopped : ∀ r d kr kd, r < d → s.tasks r = some kr → kr.kind.builds → kr.caller = A → kr.pc.isEnded = false →
    s.tasks d = some kd → kd.kind = .down → kd.caller = A →
    (∃ c ∈ s.connecting, c.id = r ∧ c.stop = true) ∧ (kd.pc.served → kr.pc.isRaising = false)

theorem stopped_init (A : Option Nat) (f : Firewall) : Stopped A (init f) :=
  ⟨disciplined_init f, fun _ _ _ _ _ h => nomatch h⟩

theorem holdsState_of_isRaising {pc : Pc} (h : pc.isRaising) : pc.holdsState := by
  cases pc <;> simp_all [Pc.isRaising, Pc.holdsState]

theorem cancelled_of_mem {r : Nat} (h : ∃ c ∈ s.connecting, c.id = r ∧ c.stop = true) : s.cancelled r = true := by
  simpa [cancelled] using h

theorem lt_next (hd : Disciplined s) (hk : s.tasks t = some k) : t < s.next := by
  by_contra h
  rw [hd.fresh t (by omega)] at hk
  cases hk

theorem stopped_of_registered {r : Nat} (h : s.Registered A r) (a : Answer) :
    ∃ c ∈ (s.arrive .down A a).connecting, c.id = r ∧ c.stop = true := by
  obtain ⟨c, hc, hid, ho⟩ := h
  exact ⟨{ c with stop := true }, List.mem_map.2 ⟨c, hc, if_pos ho⟩, hid, rfl⟩

theorem Stopped.arrive (h : Stopped A s) {kind : Kind} {caller : Option Nat} {a : Answer}
    (hc : Calm A s (.arrive kind caller a)) : Stopped A (s.arrive kind caller a) := by
  obtain ⟨k₁, harr⟩ := arrive_cases s kind caller a
  refine ⟨h.disciplined.arrive harr, ?_⟩
  intro r d kr kd hrd hkr hb hA hne hkd hd hdA
  have hdlt : d < s.next + 1 := by
    have := lt_next (h.disciplined.arrive harr) hkd
    rw [harr.next] at this
    exact this
  have hr : r ≠ s.next := by omega
  rw [harr.tasks r hr] at hkr
  by_cases hdn : d = s.next
  · -- the Down arrives
    subst hdn
    obtain rfl : k₁ = kd := Option.some.inj (harr.task.symm.trans hkd)
    have hkind : kind = .down := harr.kind.symm.trans hd
    subst hkind
    obtain rfl : caller = A := (harr.caller (by simp)).symm.trans hdA
    have hreg := (hc rfl r hrd kr hkr hb hA).resolve_left (by simp [hne])
    refine ⟨stopped_of_registered hreg a, ?_⟩
    rw [harr.ofDown (Or.inl rfl)]
    simp [Pc.served]
  · rw [harr.tasks d hdn] at hkd
    obtain ⟨⟨c, hc, hid, hstop⟩, hraise⟩ := h.stopped r d kr kd hrd hkr hb hA hne hkd hd hdA
    obtain ⟨stop, himp, hmem⟩ := harr.connecting c hc (by rw [hid]; exact hr)
    exact ⟨⟨_, hmem, hid, himp hstop⟩, hraise⟩

theorem Stopped.down (h : Stopped A s) {d r : Nat} {kr kd kd' : Task} (hkd : s.tasks d = some kd)
    (hd : kd.kind = .down) (hkr : s.tasks r = some kr) (hne : r ≠ d) (hkd' : (s.go d a).tasks d = some kd')
    (hraise : kd.pc.served → kr.pc.isRaising = false) (hs : kd'.pc.served) : kr.pc.isRaising = false := by
  have hof := h.disciplined.downs d kd hkd (Or.inl hd)
  rcases go_cases hkd a with ⟨k₁, hq⟩ | ⟨b, p, f, hb⟩ | ⟨b, p, hpc, hb⟩ | ⟨hpc, hl, hr, hb⟩
  · obtain rfl : k₁ = kd' := Option.some.inj (hq.task.symm.trans hkd')
    rcases hq.served hs with h₁ | h₁
    · exact hraise h₁
    · simp [hof] at h₁
  · rw [hb.pc] at hof
    cases hof
  · rw [hpc] at hof
    cases hof
  · by_contra hraising
    have hst := (h.disciplined.state r kr hkr (holdsState_of_isRaising (by simpa using hraising))).1
    rw [hl] at hst
    exact hne (Option.some.inj hst).symm

theorem Stopped.request (h : Stopped A s) {r : Nat} {kr kr' : Task} (hkr : s.tasks r = some kr)
    (hstop : ∃ c ∈ s.connecting, c.id = r ∧ c.stop = true) (hkr' : (s.go r a).tasks r = some kr')
    (hne : kr'.pc.isEnded = false) :
    (∃ c ∈ (s.go r a).connecting, c.id = r ∧ c.stop = true) ∧
      (kr.pc.isRaising = false → kr'.pc.isRaising = false) := by
  rcases go_cases hkr a with ⟨k₁, hq⟩ | ⟨b, p, f, hb⟩ | ⟨b, p, hpc, hb⟩ | ⟨hpc, hl, hr, hb⟩
  · obtain rfl : k₁ = kr' := Option.some.inj (hq.task.symm.trans hkr')
    obtain ⟨c, hc, hid⟩ := hstop
    refine ⟨⟨c, hq.connecting hne c hc, hid⟩, fun _ => ?_⟩
    by_contra hraise
    have := holdsState_of_isRaising (by simpa using hraise)
    simp [hq.holdsState] at this
  · rw [hb.eq] at hkr' ⊢
    rw [tasks_setPc] at hkr'
    cases hkr'
    exact ⟨hstop, fun _ => hb.started.isRaising⟩
  · rw [hb] at hkr' ⊢
    rcases build_cases h.disciplined hkr hpc a with ⟨f, q, hb', -, hc⟩ | ⟨-, -, -, hb'⟩ | hb'
    · rw [hb'] at hkr' ⊢
      rw [tasks_setPc] at hkr'
      cases hkr'
      refine ⟨hstop, fun hraise => ?_⟩
      -- a stopped request finds its cancel set before it begins to raise anything
      by_contra hq
      rcases hc (by simpa [Pc.isRaising] using hq) with hp | hp
      · simp [hpc, Pc.isRaising, hp] at hraise
      · simp [cancelled_of_mem hstop] at hp
    · rw [hb', tasks_finish] at hkr'
      cases hkr'
      cases hne
    · rw [hb', tasks_finish] at hkr'
      cases hkr'
      cases hne
  · rw [hb] at hkr' ⊢
    rcases takeDown_cases hr r a with ⟨-, hb'⟩ | ⟨x, -, hb'⟩
    · rw [hb', tasks_finish] at hkr'
      cases hkr'
      cases hne
    · rw [hb'] at hkr' ⊢
      rw [tasks_setPc] at hkr'
      cases hkr'
      exact ⟨hstop, fun _ => rfl⟩

theorem isEnded_go (hk : s.tasks t = some k) (h : k.pc.isEnded) (a : Answer) : s.go t a = s := by
  cases hpc : k.pc <;> simp_all [Pc.isEnded, Daemon.go]

theorem kind_go (hd : Disciplined s) (hk : s.tasks t = some k) (a : Answer) (hk' : (s.go t a).tasks t = some k') :
    k'.kind = k.kind ∧ k'.caller = k.caller := by
  rcases quiet_or_moved hd hk a hk' with hq | ⟨h, -⟩
  · exact ⟨hq.kind, hq.caller⟩
  · exact h

theorem before_go (hd : Disciplined s) (t : Nat) (a : Answer) (hu : (s.go t a).tasks u = some k') :
    ∃ k, s.tasks u = some k ∧ k'.kind = k.kind ∧ k'.caller = k.caller ∧ (u ≠ t → k = k') := by
  obtain ⟨rfl, k, hk⟩ | ⟨-, hk⟩ := go_tasks_cases hu
  · obtain ⟨h₁, h₂⟩ := kind_go hd hk a hu
    exact ⟨k, hk, h₁, h₂, fun h => absurd rfl h⟩
  · exact ⟨k', hk, rfl, rfl, fun _ => rfl⟩

theorem Stopped.go (h : Stopped A s) (t : Nat) (a : Answer) : Stopped A (s.go t a) := by
  refine ⟨h.disciplined.go t a, ?_⟩
  intro r d kr' kd' hrd hkr' hb hA hne hkd' hd hdA
  obtain ⟨kr, hkr, hrk, hrc, hrsame⟩ := before_go h.disciplined t a hkr'
  obtain ⟨kd, hkd, hdk, hdc, hdsame⟩ := before_go h.disciplined t a hkd'
  rw [hrk] at hb
  rw [hrc] at hA
  rw [hdk] at hd
  rw [hdc] at hdA
  by_cases hr : r = t
  · subst hr
    obtain rfl : kd = kd' := hdsame (by omega)
    have hne' : kr.pc.isEnded = false := by
      by_contra hend
      rw [isEnded_go hkr (by simpa using hend), hkr] at hkr'
      cases hkr'
      exact hend hne
    obtain ⟨hstop, hraise⟩ := h.stopped r d kr kd hrd hkr hb hA hne' hkd hd hdA
    obtain ⟨hstop', hkeep⟩ := h.request hkr hstop hkr' hne
    exact ⟨hstop', fun hs => hkeep (hraise hs)⟩
  · obtain rfl : kr = kr' := hrsame hr
    obtain ⟨⟨c, hc, hid, hcs⟩, hraise⟩ := h.stopped r d kr kd hrd hkr hb hA hne hkd hd hdA
    refine ⟨⟨c, (frame_go s t a).connecting c hc (by rw [hid]; exact hr), hid, hcs⟩, fun hs => ?_⟩
    by_cases hdt : d = t
    · subst hdt
      exact h.down hkd hd hkr hr hkd' hraise hs
    · obtain rfl : kd = kd' := hdsame hdt
      exact hraise hs

theorem Stopped.step (h : Stopped A s) (e : Event) (hc : Calm A s e) : Stopped A (s.step e) := by
  cases e with
  | arrive kind caller a => exact h.arrive hc
  | go t a => exact h.go t a

theorem raising_of_comesUp (hd : Disciplined s) {r : Nat} (h : ComesUp s e r) :
    ∃ k, s.tasks r = some k ∧ k.pc.isRaising := by
  obtain ⟨x, hx, hid, hne⟩ := h
  cases e with
  | arrive kind caller a =>
    obtain ⟨k', harr⟩ := arrive_cases s kind caller a
    exact absurd (harr.up.symm.trans hx) hne
  | go t a =>
    change (s.go t a).up = some x at hx
    rcases up_go hd t a with hup | hup | ⟨k, b, steps, hk, hpc, -, hgo⟩
    · exact absurd (hup.symm.trans hx) hne
    · simp [hup] at hx
    · rw [hgo] at hx
      cases hx
      obtain rfl : t = r := hid
      exact ⟨k, hk, by rw [hpc]; rfl⟩

theorem Stopped.safe (h : Stopped A s) (e : Event) : Safe A s e := by
  intro r d kr kd hrd hkr hb hA hkd hd hdA hs hup
  obtain ⟨k, hk, hraise⟩ := raising_of_comesUp h.disciplined hup
  obtain rfl : k = kr := Option.some.inj (hk.symm.trans hkr)
  have hne : k.pc.isEnded = false := by
    cases hpc : k.pc <;> simp_all [Pc.isRaising, Pc.isEnded]
  have := (h.stopped r d k kd hrd hkr hb hA hne hkd hd hdA).2 hs
  simp [hraise] at this

/-- A Down of `A` stops what `A` asked for before it, in every run in which that is registered when a Down begins. -/
theorem down_stops (A : Option Nat) (f : Firewall) (es : List Event) (h : Along step (Calm A) (init f) es) :
    Along step (Safe A) (init f) es :=
  h.of_invariant (fun _ e hs hc => hs.step e hc) (fun _ e hs _ => hs.safe e) (stopped_init A f)

instance (A : Option Nat) (s : Daemon) (e : Event) : Decidable (Calm A s e) := by
  unfold Calm
  split <;> infer_instance

def stoppedRun : List Event :=
  .arrive .connect (some 1000) .good :: goesOn 0 4 ++ .arrive .down (some 1000) .good :: goesOn 0 2 ++ goesOn 1 1

theorem down_stops_registered :
    Along step (Calm (some 1000)) (init .removed) stoppedRun ∧ Along step (Safe (some 1000)) (init .removed) stoppedRun :=
  ⟨by decide, down_stops _ _ _ (by decide)⟩

def lateRun : List Event :=
  .arrive .connect (some 1000) .good :: goesOn 0 10 ++ .arrive .down (some 1000) .good :: goesOn 1 1 ++
    [.arrive .connect (some 1000) .good, .arrive .down (some 1000) .good] ++ goesOn 1 2 ++ goesOn 2 1 ++ goesOn 3 1 ++
    goesOn 2 8

/-- A connect that arrives between two downs is not yet registered when the second one looks, and comes up after it. -/
theorem connect_after_down :
    ((run step (init .removed) lateRun).tasks 3).map (·.pc) = some (.ended true) ∧
      ¬ Along step (Safe (some 1000)) (init .removed) (lateRun ++ goesOn 2 1) := by
  have hr : (run step (init .removed) lateRun).tasks 2 = some ⟨.connect, some 1000, some onePlan,
      .building ⟨2, some 1000, onePlan, none, false, [], .removed⟩ (.raising .arm ⟨false, true, false⟩)⟩ := by
    decide
  have hd : (run step (init .removed) lateRun).tasks 3 = some ⟨.down, some 1000, none, .ended true⟩ := by
    decide
  refine ⟨by rw [hd]; rfl, fun h => ?_⟩
  rw [along_append] at h
  refine h.2.1 2 3 _ _ (by omega) hr rfl rfl hd rfl rfl rfl ⟨⟨some 1000, 2, onePlan, true⟩, ?_, rfl, ?_⟩
  · decide
  · decide

end Daemon

end HidraNet.Vpn
