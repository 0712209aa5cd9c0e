import HidraNet.Vpn.Locks

/-!
# Account requests never leave through two hops

A join and a fetch of passes look at the circuit under the pocket's lock, and hold it until their last answer is there;
a circuit is built by a task that holds the same lock.  So what they saw stays true (`Asking`).  An automatic top-up
holds the pocket's lock too, but a Down does not wait for it: it looks again before each request.
-/

namespace HidraNet.Vpn

open Runs

namespace Daemon

variable {s s' : Daemon} {t u : Nat} {k k' : Task} {a : Answer} {e : Event}

/-- While a join or a fetch asks, no two hops are up. -/
structure Asking (s : Daemon) : Prop where
  disciplined : Disciplined s
  asks : ∀ t k, s.tasks t = some k → k.pc.asks → k.kind ≠ .refill → s.twoHopsUp = false

theorem asking_init (f : Firewall) : Asking (init f) := ⟨disciplined_init f, fun _ _ h => nomatch h⟩

theorem holdsPocket_of_asks {pc : Pc} (h : pc.asks) : pc.holdsPocket := by
  cases pc <;> simp_all [Pc.asks, Pc.holdsPocket]

theorem Asking.others (h : Asking s) (hu : s.tasks u = some k') (ha : k'.pc.asks) (hr : k'.kind ≠ .refill)
    (hne : u ≠ t) (a : Answer) : (s.go t a).twoHopsUp = false := by
  have htwo := h.asks u k' hu ha hr
  rcases up_go h.disciplined t a with hup | hup | ⟨k, b, steps, hk, hpc, -, -⟩
  · unfold twoHopsUp
    rw [hup]
    exact htwo
  · simp [twoHopsUp, hup]
  · -- who builds has the pocket's lock, and so has who asks
    have ht := h.disciplined.pocketLock t k hk (by rw [hpc]; rfl)
    have hu' := h.disciplined.pocketLock u k' hu (holdsPocket_of_asks ha)
    rw [ht] at hu'
    exact absurd (Option.some.inj hu').symm hne

theorem Asking.self (h : Asking s) (hk : s.tasks t = some k) (a : Answer) (hk' : (s.go t a).tasks t = some k')
    (ha : k'.pc.asks) (hr : k'.kind ≠ .refill) : (s.go t a).twoHopsUp = false := by
  rcases quiet_or_moved h.disciplined hk a hk' with hq | ⟨-, hpc⟩
  · rw [hq.kind] at hr
    have htwo : s.twoHopsUp = false := by
      rcases hq.asks ha with h₁ | h₁ | h₁
      · exact h.asks t k hk h₁ hr
      · exact absurd h₁ hr
      · exact h₁
    unfold twoHopsUp
    rw [hq.up]
    exact htwo
  · cases hpc' : k'.pc <;> simp_all [Pc.asks, Pc.holdsState, Pc.isEnded]

theorem Asking.step (h : Asking s) (e : Event) : Asking (s.step e) := by
  refine ⟨h.disciplined.step e, ?_⟩
  intro u k' hk' ha hr
  cases e with
  | arrive kind caller a =>
    obtain ⟨k₁, harr⟩ := arrive_cases s kind caller a
    have htwo : (s.arrive kind caller a).twoHopsUp = s.twoHopsUp := by simp [twoHopsUp, harr.up]
    obtain ⟨-, rfl⟩ | ⟨-, hk⟩ := harr.tasks_cases hk'
    · rw [harr.asks] at ha
      cases ha
    · exact htwo.trans (h.asks u k' hk ha hr)
  | go t a =>
    obtain ⟨rfl, k, hk⟩ | ⟨hu, hk⟩ := go_tasks_cases hk'
    · exact h.self hk a hk' ha hr
    · exact h.others hk ha hr hu a

/-- The top-up `t` starts a request at this step. -/
def StartsRefill (s : Daemon) (t : Nat) (e : Event) : Prop :=
  (∃ a, e = .go t a) ∧ (∃ k, s.tasks t = some k ∧ k.kind = .refill ∧ k.pc ≠ .inFlight) ∧
    ∃ k, (s.step e).tasks t = some k ∧ k.pc = .inFlight

def OneHopUp (s : Daemon) (e : Event) : Prop :=
  ∃ x, s.up = some x ∧ x.circuit.plan.hops = 1 ∧ (s.step e).up = some x

theorem oneHopUp_of_starts (hd : Disciplined s) (h : StartsRefill s t e) : OneHopUp s e := by
  obtain ⟨⟨a, rfl⟩, ⟨k, hk, hkind, hpc⟩, k', hk', hpc'⟩ := h
  rcases quiet_or_moved hd hk a hk' with hq | ⟨-, hpc''⟩
  · rcases hq.starts hpc' with h | h
    · exact absurd h hpc
    · obtain ⟨x, hx, hops⟩ := h hkind
      exact ⟨x, hx, hops, hq.up.trans hx⟩
  · rw [hpc'] at hpc''
    simp [Pc.holdsState, Pc.isEnded] at hpc''

/-- No join and no fetch of passes has a request in flight while two hops are up, and every request of a top-up is
started while one hop is up. -/
theorem never_through_two_hops (f : Firewall) (es : List Event) :
    (∀ t k, (run step (init f) es).tasks t = some k → k.kind = .join ∨ k.kind = .getPasses → k.pc = .inFlight →
      ∀ x, (run step (init f) es).up = some x → x.circuit.plan.hops ≠ 2) ∧
    Along step (fun s e => ∀ t, StartsRefill s t e → OneHopUp s e) (init f) es := by
  constructor
  · intro t k hk hkind hpc x hx hops
    have h : Asking (run step (init f) es) := run_always (fun s e h => h.step e) (asking_init f) es
    have htwo := h.asks t k hk (by rw [hpc]; rfl) (by rcases hkind with h | h <;> simp [h])
    simp [twoHopsUp, hx, hops] at htwo
  · exact along_always (P := Disciplined) (fun _ e h => h.step e) (fun _ _ h _ hstart => oneHopUp_of_starts h hstart)
      (disciplined_init f) es

end Daemon

end HidraNet.Vpn
