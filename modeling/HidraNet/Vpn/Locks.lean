import HidraNet.Vpn.Daemon

/-!
# What a step of a task can do

The others keep their tasks, their locks and their registrations (`frame_go`).  What is up and the firewall change only
where a circuit is built or a Down is served (`go_cases`), by a task that holds the state's lock; so they change only
through one task at a time (`Disciplined`).
-/

namespace HidraNet.Vpn

open Fifo

namespace Daemon

variable {s s' s₁ : Daemon} {t u : Nat} {k k' : Task} {a : Answer}

@[simp] theorem tasks_setPc (s : Daemon) (t : Nat) (k : Task) (pc : Pc) :
    (s.setPc t k pc).tasks t = some { k with pc := pc } := Function.update_self ..

@[simp] theorem tasks_finish (s : Daemon) (t : Nat) (k : Task) (ok : Bool) :
    (s.finish t k ok).tasks t = some { k with pc := .ended ok } := Function.update_self ..

/-! ### The others -/

/-- What a step of the task `t` leaves to the others. -/
structure Frame (t : Nat) (s s' : Daemon) : Prop where
  tasks : ∀ u ≠ t, s'.tasks u = s.tasks u
  state : ∀ u ≠ t, s.state.holder = some u → s'.state.holder = some u
  pocketLock : ∀ u ≠ t, s.pocketLock.holder = some u → s'.pocketLock.holder = some u
  connecting : ∀ c ∈ s.connecting, c.id ≠ t → c ∈ s'.connecting
  next : s'.next = s.next
  stopping : s'.stopping = s.stopping

theorem frame_refl (t : Nat) (s : Daemon) : Frame t s s :=
  ⟨fun _ _ => rfl, fun _ _ h => h, fun _ _ h => h, fun _ h _ => h, rfl, rfl⟩

theorem Frame.set (h : Frame t s s₁) (up : Option Active) (f : Firewall) :
    Frame t s { s₁ with up := up, firewall := f } :=
  ⟨h.tasks, h.state, h.pocketLock, h.connecting, h.next, h.stopping⟩

theorem Frame.setPc (h : Frame t s s₁) (k : Task) (pc : Pc) : Frame t s (s₁.setPc t k pc) := by
  refine ⟨fun u hu => ?_, h.state, h.pocketLock, h.connecting, h.next, h.stopping⟩
  rw [← h.tasks u hu]
  exact Function.update_of_ne hu _ _

theorem Frame.askState (h : Frame t s s₁) : Frame t s (s₁.askState t) :=
  ⟨h.tasks, fun u hu hs => Lock.holder_ask (h.state u hu hs) t, h.pocketLock, h.connecting, h.next, h.stopping⟩

theorem Frame.releaseState (h : Frame t s s₁) : Frame t s (s₁.releaseState t) :=
  ⟨h.tasks, fun u hu hs => Lock.holder_release (h.state u hu hs) hu, h.pocketLock, h.connecting, h.next, h.stopping⟩

theorem Frame.connect (h : Frame t s s₁) (k : Task) (owner : Option Nat) : Frame t s (s₁.connect t k owner) := by
  have h' : Frame t s ((s₁.beginConnecting t owner).askPocket t) :=
    ⟨h.tasks, h.state, fun u hu hs => Lock.holder_ask (h.pocketLock u hu hs) t,
      fun c hc hne => List.mem_append_left _ (h.connecting c hc hne), h.next, h.stopping⟩
  exact h'.setPc k .pocket

theorem Frame.finish (h : Frame t s s₁) (k : Task) (ok : Bool) : Frame t s (s₁.finish t k ok) := by
  refine ⟨fun u hu => ?_, fun u hu hs => Lock.holder_release (h.state u hu hs) hu,
    fun u hu hs => Lock.holder_release (h.pocketLock u hu hs) hu, fun c hc hne => ?_, h.next, h.stopping⟩
  · rw [← h.tasks u hu]
    exact Function.update_of_ne hu _ _
  · exact List.mem_filter.2 ⟨h.connecting c hc hne, by simpa using hne⟩

theorem frame_change (s : Daemon) (t : Nat) (k : Task) (owner : Option Nat) (plan : Plan) (a : Answer) :
    Frame t s (s.change t k owner plan a) := by
  unfold change
  split
  · exact ((frame_refl t s).set s.up _).finish k false
  · exact ((frame_refl t s).set none _).setPc k _

theorem frame_admitted (s : Daemon) (t : Nat) (k : Task) (a : Answer) : Frame t s (s.admitted t k a) := by
  have hr := frame_refl t s
  unfold admitted
  split
  · exact hr.finish k false
  · split
    · exact hr.finish k false
    · split
      · exact hr.finish k false
      · exact frame_change ..
    · split
      · exact hr.finish k false
      · exact frame_change ..

theorem frame_build (s : Daemon) (t : Nat) (k : Task) (b : Build) (p : Phase) (a : Answer) :
    Frame t s (s.build t k b p a) := by
  have hr := frame_refl t s
  unfold build
  split
  · exact (hr.set s.up _).setPc k _
  · exact (hr.set (some _) _).finish k true
  · exact (hr.set s.up _).finish k false

theorem frame_takeDown (s : Daemon) (t : Nat) (k : Task) (a : Answer) : Frame t s (s.takeDown t k a) := by
  have hr := frame_refl t s
  unfold takeDown
  split
  · exact hr.finish k false
  · split
    · exact (hr.set s.up _).finish k true
    · exact (hr.set none _).setPc k _

theorem frame_locked (s : Daemon) (t : Nat) (k : Task) (a : Answer) : Frame t s (s.locked t k a) := by
  have hr := frame_refl t s
  unfold locked
  split
  · exact hr.finish k false
  · split
    · exact hr.askState.setPc k _
    · exact hr.askState.setPc k _
    · split
      · exact hr.setPc k _
      · exact hr.finish k false
    · exact hr.askState.setPc k _

theorem frame_go (s : Daemon) (t : Nat) (a : Answer) : Frame t s (s.go t a) := by
  have hr := frame_refl t s
  unfold go
  split
  · exact hr
  · rename_i k _
    split
    · -- owning
      split
      · exact hr
      · split
        · exact hr.finish k false
        · exact hr.releaseState.connect _ _
    · -- looking
      split
      · exact hr
      · split
        · exact hr.finish k false
        · exact hr.releaseState.connect k _
    · -- pocket
      split
      · exact hr
      · exact hr.setPc k _
    · exact frame_locked ..
    · -- state
      split
      · exact hr
      · exact frame_admitted ..
    · exact frame_build ..
    · -- downing
      split
      · exact hr
      · exact frame_takeDown ..
    · exact hr.releaseState.setPc k _
    · exact hr.finish k _
    · -- counting
      split
      · exact hr
      · split
        · exact hr.finish k false
        · exact hr.releaseState.setPc k _
    · -- asking
      split
      · exact hr.setPc k _
      · exact hr.finish k _
    · exact hr.setPc k _
    · exact hr

end Daemon

/-! ### The task itself -/

namespace Pc

def holdsState : Pc → Bool
  | .building .. | .stopping _ => true
  | _ => false

/-- From `file` on a task has the pocket's lock. -/
def holdsPocket : Pc → Bool
  | .file | .state | .building .. | .counting | .asking | .inFlight => true
  | _ => false

def asks : Pc → Bool
  | .asking | .inFlight => true
  | _ => false

def ofDown : Pc → Bool
  | .downing | .stopping _ | .noting _ | .ended _ => true
  | _ => false

def served : Pc → Bool
  | .stopping _ | .noting _ | .ended true => true
  | _ => false

def isEnded : Pc → Bool
  | .ended _ => true
  | _ => false

end Pc

namespace Daemon

variable {s s' : Daemon} {t u : Nat} {k k' : Task} {a : Answer}

/-- A step of the task `t`, at `k`, that leaves it no hand on what is up. -/
structure Quiet (s : Daemon) (t : Nat) (k : Task) (s' : Daemon) (k' : Task) : Prop where
  up : s'.up = s.up
  firewall : s'.firewall = s.firewall
  task : s'.tasks t = some k'
  kind : k'.kind = k.kind
  caller : k'.caller = k.caller
  holdsState : k'.pc.holdsState = false
  holdsPocket : k'.pc.holdsPocket → s'.pocketLock = s.pocketLock ∧ (k.pc.holdsPocket ∨ s.pocketLock.holder = some t)
  connecting : k'.pc.isEnded = false → ∀ c ∈ s.connecting, c ∈ s'.connecting
  asks : k'.pc.asks → k.pc.asks ∨ k.kind = .refill ∨ s.twoHopsUp = false
  starts : k'.pc = .inFlight →
    k.pc = .inFlight ∨ (k.kind = .refill → ∃ x, s.up = some x ∧ x.circuit.plan.hops = 1)
  ofDown : k.pc.ofDown → k'.pc.ofDown
  served : k'.pc.served → k.pc.served ∨ k.pc.ofDown = false

theorem quiet_finish (s : Daemon) (t : Nat) (k : Task) {ok : Bool} (hok : ok = true → k.pc.served ∨ k.pc.ofDown = false) :
    Quiet s t k (s.finish t k ok) { k with pc := .ended ok } where
  up := rfl
  firewall := rfl
  task := Function.update_self ..
  kind := rfl
  caller := rfl
  holdsState := rfl
  holdsPocket := by simp [Pc.holdsPocket]
  connecting := by simp [Pc.isEnded]
  asks := by simp [Pc.asks]
  starts := by simp
  ofDown := fun _ => rfl
  served := by
    cases ok with
    | true => exact fun _ => hok rfl
    | false => simp [Pc.served]

theorem quiet_stay (hk : s.tasks t = some k) (hs : k.pc.holdsState = false) : Quiet s t k s k where
  up := rfl
  firewall := rfl
  task := hk
  kind := rfl
  caller := rfl
  holdsState := hs
  holdsPocket h := ⟨rfl, Or.inl h⟩
  connecting _ _ h := h
  asks := Or.inl
  starts := Or.inl
  ofDown := id
  served := Or.inl

theorem quiet_connect (s : Daemon) (t : Nat) (k : Task) (plan : Option Plan) (owner : Option Nat)
    (hk : k.pc.ofDown = false) :
    Quiet s t k ((s.releaseState t).connect t { k with plan := plan } owner) ⟨k.kind, k.caller, plan, .pocket⟩ where
  up := rfl
  firewall := rfl
  task := Function.update_self ..
  kind := rfl
  caller := rfl
  holdsState := rfl
  holdsPocket := by simp [Pc.holdsPocket]
  connecting _ _ h := List.mem_append_left _ h
  asks := by simp [Pc.asks]
  starts := by simp
  ofDown := by simp [hk]
  served := by simp [Pc.served]

theorem quiet_setPc (s s' : Daemon) (t : Nat) (k : Task) (pc : Pc) (hup : s'.up = s.up)
    (hf : s'.firewall = s.firewall) (hl : s'.pocketLock = s.pocketLock) (hc : s'.connecting = s.connecting)
    (hpc : pc.holdsState = false) (hp : pc.holdsPocket → k.pc.holdsPocket ∨ s.pocketLock.holder = some t)
    (ha : pc.asks → k.pc.asks ∨ k.kind = .refill ∨ s.twoHopsUp = false) (hd : k.pc.ofDown → pc.ofDown)
    (hv : pc.served → k.pc.served ∨ k.pc.ofDown = false)
    (hi : pc = .inFlight → k.pc = .inFlight ∨ (k.kind = .refill → ∃ x, s.up = some x ∧ x.circuit.plan.hops = 1)) :
    Quiet s t k (s'.setPc t k pc) { k with pc := pc } where
  up := hup
  firewall := hf
  task := Function.update_self ..
  kind := rfl
  caller := rfl
  holdsState := hpc
  holdsPocket h := ⟨hl, hp h⟩
  connecting _ c h := show c ∈ s'.connecting from hc ▸ h
  asks := ha
  starts := hi
  ofDown := hd
  served := hv

/-- The task begins to build. -/
structure Begins (s : Daemon) (t : Nat) (k : Task) (s' : Daemon) (b : Build) (p : Phase) (f : Firewall) : Prop where
  pc : k.pc = .state
  holder : s.state.holder = some t
  cancelled : s.cancelled t = false
  refused : refused s.up k.caller = false
  owner : b.owner = k.caller ∨ ∃ x, s.up = some x ∧ b.owner = x.owner
  started : Build.Started t b.owner b.plan s.up s.firewall f b p
  eq : s' = { s with firewall := f, up := none }.setPc t k (.building b p)

theorem change_cases (hpc : k.pc = .state) (hs : s.state.holder = some t) (hc : s.cancelled t = false)
    (hr : refused s.up k.caller = false) {owner : Option Nat}
    (ho : owner = k.caller ∨ ∃ x, s.up = some x ∧ owner = x.owner) (plan : Plan) (a : Answer) :
    (∃ k', Quiet s t k (s.change t k owner plan a) k') ∨ ∃ b p f, Begins s t k (s.change t k owner plan a) b p f := by
  unfold change
  split
  · rename_i f h
    rcases Build.start_cases h with ⟨-, rfl⟩ | ⟨b, p, hb, -⟩
    · exact Or.inl ⟨_, quiet_finish s t k (by simp)⟩
    · cases hb
  · rename_i f b p h
    rcases Build.start_cases h with ⟨hn, -⟩ | ⟨b', p', hb, hst⟩
    · cases hn
    · cases hb
      refine Or.inr ⟨b, p, f, hpc, hs, hc, hr, by rw [hst.owner]; exact ho, ?_, rfl⟩
      rw [hst.owner, hst.plan]
      exact hst

theorem admitted_cases (hpc : k.pc = .state) (hs : s.state.holder = some t) (a : Answer) :
    (∃ k', Quiet s t k (s.admitted t k a) k') ∨ ∃ b p f, Begins s t k (s.admitted t k a) b p f := by
  have hfail : Quiet s t k (s.finish t k false) { k with pc := .ended false } := quiet_finish s t k (by simp)
  unfold admitted
  split
  · exact Or.inl ⟨_, hfail⟩
  · rename_i h
    simp only [Bool.or_eq_true, not_or, Bool.not_eq_true] at h
    obtain ⟨⟨-, hc⟩, hr⟩ := h
    split
    · exact Or.inl ⟨_, hfail⟩
    · rename_i x _ hup
      split
      · exact Or.inl ⟨_, hfail⟩
      · exact change_cases hpc hs hc hr (Or.inr ⟨x, hup, rfl⟩) _ a
    · split
      · exact Or.inl ⟨_, hfail⟩
      · exact change_cases hpc hs hc hr (Or.inl rfl) _ a

theorem oneHop_of_refillMayGo (h : s.refillMayGo a) : ∃ x, s.up = some x ∧ x.circuit.plan.hops = 1 := by
  simp only [refillMayGo, Bool.and_eq_true, Option.any_eq_true, decide_eq_true_eq] at h
  obtain ⟨-, x, hx, -, hops⟩ := h
  exact ⟨x, hx, hops⟩

theorem locked_quiet (hpc : k.pc = .file) (a : Answer) : ∃ k', Quiet s t k (s.locked t k a) k' := by
  have hfail : Quiet s t k (s.finish t k false) { k with pc := .ended false } := quiet_finish s t k (by simp)
  have hheld : k.pc.holdsPocket := by rw [hpc]; rfl
  have hdown : k.pc.ofDown = false := by rw [hpc]; rfl
  have hask : ∀ pc : Pc, pc.holdsState = false → pc.asks = false → pc.served = false →
      Quiet s t k ((s.askState t).setPc t k pc) { k with pc := pc } := fun pc h₁ h₂ h₃ =>
    quiet_setPc s _ t k pc rfl rfl rfl rfl h₁ (fun _ => Or.inl hheld) (by simp [h₂]) (by simp [hdown]) (by simp [h₃])
      (by rintro rfl; cases h₂)
  unfold locked
  split
  · exact ⟨_, hfail⟩
  · split
    · exact ⟨_, hask _ rfl rfl rfl⟩
    · exact ⟨_, hask _ rfl rfl rfl⟩
    · rename_i hkind
      split
      · exact ⟨_, quiet_setPc s s t k .asking rfl rfl rfl rfl rfl (fun _ => Or.inl hheld)
          (fun _ => Or.inr (Or.inl hkind)) (by simp [hdown]) (by simp [Pc.served]) nofun⟩
      · exact ⟨_, hfail⟩
    · exact ⟨_, hask _ rfl rfl rfl⟩

/-- What a step of the task `t` is: quiet, the start of a build, a step of it, or a Down that takes the circuit
down. -/
theorem go_cases (hk : s.tasks t = some k) (a : Answer) :
    (∃ k', Quiet s t k (s.go t a) k') ∨ (∃ b p f, Begins s t k (s.go t a) b p f) ∨
    (∃ b p, k.pc = .building b p ∧ s.go t a = s.build t k b p a) ∨
    (k.pc = .downing ∧ s.state.holder = some t ∧ refused s.up k.caller = false ∧ s.go t a = s.takeDown t k a) := by
  have hfail : Quiet s t k (s.finish t k false) { k with pc := .ended false } := quiet_finish s t k (by simp)
  have hstay : k.pc.holdsState = false → Quiet s t k s k := quiet_stay hk
  unfold go
  rw [hk]
  simp only
  split
  · -- owning
    rename_i hpc
    left
    split
    · exact ⟨_, hstay (by rw [hpc]; rfl)⟩
    · split
      · exact ⟨_, hfail⟩
      · exact ⟨_, quiet_connect s t k _ _ (by rw [hpc]; rfl)⟩
  · -- looking
    rename_i hpc
    left
    split
    · exact ⟨_, hstay (by rw [hpc]; rfl)⟩
    · split
      · exact ⟨_, hfail⟩
      · exact ⟨_, quiet_connect s t k k.plan _ (by rw [hpc]; rfl)⟩
  · -- pocket
    rename_i hpc
    left
    split
    · exact ⟨_, hstay (by rw [hpc]; rfl)⟩
    · rename_i hl
      exact ⟨_, quiet_setPc s s t k .file rfl rfl rfl rfl rfl (fun _ => Or.inr (not_not.1 hl)) (by simp [Pc.asks])
        (by simp [hpc, Pc.ofDown]) (by simp [Pc.served]) nofun⟩
  · rename_i hpc
    exact Or.inl (locked_quiet hpc a)
  · -- state
    rename_i hpc
    split
    · exact Or.inl ⟨_, hstay (by rw [hpc]; rfl)⟩
    · rename_i hs
      rcases admitted_cases hpc (not_not.1 hs) a with h | h
      · exact Or.inl h
      · exact Or.inr (Or.inl h)
  · rename_i b p hpc
    exact Or.inr (Or.inr (Or.inl ⟨b, p, hpc, rfl⟩))
  · -- downing
    rename_i hpc
    split
    · exact Or.inl ⟨_, hstay (by rw [hpc]; rfl)⟩
    · rename_i hs
      by_cases hr : refused s.up k.caller = true
      · left
        unfold takeDown
        rw [if_pos hr]
        exact ⟨_, hfail⟩
      · exact Or.inr (Or.inr (Or.inr ⟨hpc, not_not.1 hs, by simpa using hr, rfl⟩))
  · -- stopping
    rename_i ok hpc
    exact Or.inl ⟨_, quiet_setPc s (s.releaseState t) t k (.noting ok) rfl rfl rfl rfl rfl (by simp [Pc.holdsPocket])
      (by simp [Pc.asks]) (fun _ => rfl) (fun _ => Or.inl (by rw [hpc]; rfl)) nofun⟩
  · -- noting
    rename_i ok hpc
    exact Or.inl ⟨_, quiet_finish s t k fun _ => Or.inl (by rw [hpc]; rfl)⟩
  · -- counting
    rename_i hpc
    left
    split
    · exact ⟨_, hstay (by rw [hpc]; rfl)⟩
    · split
      · exact ⟨_, hfail⟩
      · rename_i htwo
        exact ⟨_, quiet_setPc s (s.releaseState t) t k .asking rfl rfl rfl rfl rfl (fun _ => Or.inl (by rw [hpc]; rfl))
          (fun _ => Or.inr (Or.inr (by simpa using htwo))) (by simp [hpc, Pc.ofDown]) (by simp [Pc.served]) nofun⟩
  · -- asking
    rename_i hpc
    left
    split
    · rename_i h
      refine ⟨_, quiet_setPc s s t k .inFlight rfl rfl rfl rfl rfl (fun _ => Or.inl (by rw [hpc]; rfl))
        (fun _ => Or.inl (by rw [hpc]; rfl)) (by simp [hpc, Pc.ofDown]) (by simp [Pc.served]) fun _ => Or.inr ?_⟩
      intro hkind
      exact oneHop_of_refillMayGo (a := a) (by simpa [hkind] using (Bool.and_eq_true_iff.1 h).2)
    · exact ⟨_, quiet_finish s t k fun _ => Or.inr (by rw [hpc]; rfl)⟩
  · -- inFlight
    rename_i hpc
    exact Or.inl ⟨_, quiet_setPc s s t k .asking rfl rfl rfl rfl rfl (fun _ => Or.inl (by rw [hpc]; rfl))
      (fun _ => Or.inl (by rw [hpc]; rfl)) (by simp [hpc, Pc.ofDown]) (by simp [Pc.served]) nofun⟩
  · rename_i ok hpc
    exact Or.inl ⟨_, hstay (by rw [hpc]; rfl)⟩

/-! ### A request that arrives -/

/-- What the arrival of a request leaves as it was, and where its task stands. -/
structure Arrives (s : Daemon) (kind : Kind) (caller : Option Nat) (s' : Daemon) (k' : Task) : Prop where
  tasks : ∀ u ≠ s.next, s'.tasks u = s.tasks u
  state : ∀ u ≠ s.next, s.state.holder = some u → s'.state.holder = some u
  pocketLock : ∀ u ≠ s.next, s.pocketLock.holder = some u → s'.pocketLock.holder = some u
  connecting : ∀ c ∈ s.connecting, c.id ≠ s.next →
    ∃ stop, (c.stop = true → stop = true) ∧ ⟨c.id, c.owner, stop⟩ ∈ s'.connecting
  next : s'.next = s.next + 1
  up : s'.up = s.up
  firewall : s'.firewall = s.firewall
  task : s'.tasks s.next = some k'
  ofDown : kind = .down ∨ kind = .shutdown → k'.pc = .downing
  caller : kind ≠ .shutdown → k'.caller = caller
  kind : k'.kind = kind
  holdsState : k'.pc.holdsState = false
  holdsPocket : k'.pc.holdsPocket = false
  asks : k'.pc.asks = false

theorem mem_stopConnecting {c : Connecting} (hc : c ∈ s.connecting) (caller : Option Nat) :
    ∃ stop, (c.stop = true → stop = true) ∧ ⟨c.id, c.owner, stop⟩ ∈ (s.stopConnecting caller).connecting := by
  by_cases h : caller = root ∨ c.owner = caller
  · exact ⟨true, fun _ => rfl, List.mem_map.2 ⟨c, hc, if_pos h⟩⟩
  · exact ⟨c.stop, id, List.mem_map.2 ⟨c, hc, if_neg h⟩⟩

theorem arrive_cases (s : Daemon) (kind : Kind) (caller : Option Nat) (a : Answer) :
    ∃ k', Arrives s kind caller (s.arrive kind caller a) k' := by
  let t := s.next
  let s₀ := { s with next := t + 1 }
  have hask : ∀ pc : Pc, pc.holdsState = false → pc.holdsPocket = false → pc.asks = false → kind ≠ .down →
      kind ≠ .shutdown → Arrives s kind caller ((s₀.askState t).setPc t ⟨kind, caller, a.plan, .ended false⟩ pc)
        ⟨kind, caller, a.plan, pc⟩ := fun pc h₁ h₂ h₃ hd hs =>
    { tasks := fun u hu => Function.update_of_ne hu _ _
      state := fun u _ hl => Lock.holder_ask hl t
      pocketLock := fun u _ hl => hl
      connecting := fun c hc _ => ⟨c.stop, id, hc⟩
      next := rfl, up := rfl, firewall := rfl, task := tasks_setPc .., kind := rfl, caller := fun _ => rfl
      holdsState := h₁, holdsPocket := h₂, asks := h₃, ofDown := fun h => by tauto }
  have hpocket : kind ≠ .down → kind ≠ .shutdown → Arrives s kind caller
      ((s₀.askPocket t).setPc t ⟨kind, caller, a.plan, .ended false⟩ .pocket) ⟨kind, caller, a.plan, .pocket⟩ :=
    fun hd hs =>
    { tasks := fun u hu => Function.update_of_ne hu _ _
      state := fun u _ hl => hl
      pocketLock := fun u _ hl => Lock.holder_ask hl t
      connecting := fun c hc _ => ⟨c.stop, id, hc⟩
      next := rfl, up := rfl, firewall := rfl, task := tasks_setPc .., kind := rfl, caller := fun _ => rfl
      holdsState := rfl, holdsPocket := rfl, asks := rfl, ofDown := fun h => by tauto }
  have hconnect : kind ≠ .down → kind ≠ .shutdown → Arrives s kind caller
      (s₀.connect t ⟨kind, caller, a.plan, .ended false⟩ caller) ⟨kind, caller, a.plan, .pocket⟩ := fun hd hs =>
    { tasks := fun u hu => Function.update_of_ne hu _ _
      state := fun u _ hl => hl
      pocketLock := fun u _ hl => Lock.holder_ask hl t
      connecting := fun c hc _ => ⟨c.stop, id, List.mem_append_left _ hc⟩
      next := rfl, up := rfl, firewall := rfl, task := tasks_setPc .., kind := rfl, caller := fun _ => rfl
      holdsState := rfl, holdsPocket := rfl, asks := rfl, ofDown := fun h => by tauto }
  have hfail : kind ≠ .down → kind ≠ .shutdown → Arrives s kind caller
      (s₀.finish t ⟨kind, caller, a.plan, .ended false⟩ false) ⟨kind, caller, a.plan, .ended false⟩ := fun hd hs =>
    { tasks := fun u hu => Function.update_of_ne hu _ _
      state := fun u hu hl => Lock.holder_release hl hu
      pocketLock := fun u hu hl => Lock.holder_release hl hu
      connecting := fun c hc hne => ⟨c.stop, id, List.mem_filter.2 ⟨hc, by simpa using hne⟩⟩
      next := rfl, up := rfl, firewall := rfl, task := tasks_setPc .., kind := rfl, caller := fun _ => rfl
      holdsState := rfl, holdsPocket := rfl, asks := rfl, ofDown := fun h => by tauto }
  have hdown : ∀ (k : Task) (s₁ : Daemon) (by' : Option Nat), s₁.tasks = s.tasks → s₁.state = s.state →
      s₁.pocketLock = s.pocketLock → s₁.connecting = s.connecting → s₁.next = s.next + 1 → s₁.up = s.up →
      s₁.firewall = s.firewall → k.kind = kind → (kind ≠ .shutdown → k.caller = caller) →
      Arrives s kind caller (((s₁.stopConnecting by').askState t).setPc t k .downing) { k with pc := .downing } :=
    fun k s₁ by' ht hst hpl hc hn hu hf hk hcaller =>
    { tasks := fun u hu => (Function.update_of_ne hu _ _).trans (congrFun ht u)
      state := fun u _ hl => Lock.holder_ask (show s₁.state.holder = some u from hst ▸ hl) t
      pocketLock := fun u _ hl => show s₁.pocketLock.holder = some u from hpl ▸ hl
      connecting := fun c hc' _ => mem_stopConnecting (s := s₁) (hc ▸ hc') by'
      next := hn, up := hu, firewall := hf, task := tasks_setPc .., kind := hk, caller := hcaller
      holdsState := rfl, holdsPocket := rfl, asks := rfl, ofDown := fun _ => rfl }
  cases kind with
  | up =>
    simp only [arrive]
    split
    · exact ⟨_, hconnect nofun nofun⟩
    · exact ⟨_, hfail nofun nofun⟩
  | connect =>
    simp only [arrive]
    split
    · split
      · exact ⟨_, hconnect nofun nofun⟩
      · exact ⟨_, hfail nofun nofun⟩
    · exact ⟨_, hask .owning rfl rfl rfl nofun nofun⟩
  | newIdentity => exact ⟨_, hask .looking rfl rfl rfl nofun nofun⟩
  | down => exact ⟨_, hdown _ s₀ caller rfl rfl rfl rfl rfl rfl rfl rfl fun _ => rfl⟩
  | shutdown =>
    exact ⟨_, hdown _ { s₀ with stopping := true } root rfl rfl rfl rfl rfl rfl rfl rfl fun h => absurd rfl h⟩
  | join | getPasses => exact ⟨_, hpocket nofun nofun⟩
  | refill =>
    simp only [arrive]
    split
    · exact ⟨_, hpocket nofun nofun⟩
    · exact ⟨_, hfail nofun nofun⟩

/-! ### One change at a time -/

/-- The tasks have the locks their places say, and a task that builds or takes down has what was up. -/
structure Disciplined (s : Daemon) : Prop where
  fresh : ∀ t, s.next ≤ t → s.tasks t = none
  state : ∀ t k, s.tasks t = some k → k.pc.holdsState → s.state.holder = some t ∧ s.up = none
  pocketLock : ∀ t k, s.tasks t = some k → k.pc.holdsPocket → s.pocketLock.holder = some t
  builds : ∀ t k b p, s.tasks t = some k → k.pc = .building b p → b.id = t ∧ p.clean
  downs : ∀ t k, s.tasks t = some k → k.kind = .down ∨ k.kind = .shutdown → k.pc.ofDown

theorem disciplined_init (f : Firewall) : Disciplined (init f) where
  fresh _ _ := rfl
  state _ _ h := nomatch h
  pocketLock _ _ h := nomatch h
  builds _ _ _ _ h := nomatch h
  downs _ _ h := nomatch h

theorem Disciplined.only (hd : Disciplined s) (hk : s.tasks t = some k) (ht : k.pc.holdsState)
    (hk' : s.tasks u = some k') (hu : k'.pc.holdsState) : u = t := by
  have h := (hd.state t k hk ht).1
  rw [(hd.state u k' hk' hu).1] at h
  simpa using h

theorem Arrives.tasks_cases {kind : Kind} {caller : Option Nat} (h : Arrives s kind caller s' k') {k₁ : Task}
    (hk₁ : s'.tasks u = some k₁) : u = s.next ∧ k' = k₁ ∨ u ≠ s.next ∧ s.tasks u = some k₁ := by
  by_cases hu : u = s.next
  · subst hu
    exact .inl ⟨rfl, Option.some.inj (h.task.symm.trans hk₁)⟩
  · exact .inr ⟨hu, h.tasks u hu ▸ hk₁⟩

theorem Frame.tasks_cases (hf : Frame t s s') (hk' : s'.tasks t = some k') {k₁ : Task} (hk₁ : s'.tasks u = some k₁) :
    u = t ∧ k' = k₁ ∨ u ≠ t ∧ s.tasks u = some k₁ := by
  by_cases hu : u = t
  · subst hu
    exact .inl ⟨rfl, Option.some.inj (hk'.symm.trans hk₁)⟩
  · exact .inr ⟨hu, hf.tasks u hu ▸ hk₁⟩

theorem go_none (hk : s.tasks t = none) (a : Answer) : s.go t a = s := by
  simp [Daemon.go, hk]

theorem go_tasks_cases {a : Answer} {k₁ : Task} (hk₁ : (s.go t a).tasks u = some k₁) :
    (u = t ∧ ∃ k, s.tasks u = some k) ∨ u ≠ t ∧ s.tasks u = some k₁ := by
  by_cases hu : u = t
  · subst hu
    cases hk : s.tasks u with
    | none =>
      rw [go_none hk, hk] at hk₁
      cases hk₁
    | some k => exact .inl ⟨rfl, k, rfl⟩
  · exact .inr ⟨hu, (frame_go s t a).tasks u hu ▸ hk₁⟩

theorem Disciplined.arrive (hd : Disciplined s) {kind : Kind} {caller : Option Nat}
    (h : Arrives s kind caller s' k') : Disciplined s' where
  fresh t ht := by
    rw [h.next] at ht
    rw [h.tasks t (by omega)]
    exact hd.fresh t (by omega)
  state t k hk hs := by
    obtain ⟨rfl, rfl⟩ | ⟨ht, hk⟩ := h.tasks_cases hk
    · simp [h.holdsState] at hs
    · rw [h.up]
      exact ⟨h.state t ht (hd.state t k hk hs).1, (hd.state t k hk hs).2⟩
  pocketLock t k hk hp := by
    obtain ⟨rfl, rfl⟩ | ⟨ht, hk⟩ := h.tasks_cases hk
    · simp [h.holdsPocket] at hp
    · exact h.pocketLock t ht (hd.pocketLock t k hk hp)
  builds t k b p hk hb := by
    obtain ⟨rfl, rfl⟩ | ⟨-, hk⟩ := h.tasks_cases hk
    · have := h.holdsState
      simp [hb, Pc.holdsState] at this
    · exact hd.builds t k b p hk hb
  downs t k hk hkind := by
    obtain ⟨rfl, rfl⟩ | ⟨-, hk⟩ := h.tasks_cases hk
    · rw [h.kind] at hkind
      rw [h.ofDown hkind]
      rfl
    · exact hd.downs t k hk hkind

theorem Disciplined.go_of (hd : Disciplined s) (hf : Frame t s s') (hk : s.tasks t = some k)
    (hup : s'.up = s.up ∨ s'.up = none ∨ k.pc.holdsState) (hk' : s'.tasks t = some k') (hkind : k'.kind = k.kind)
    (hs : k'.pc.holdsState → s'.state.holder = some t ∧ s'.up = none)
    (hp : k'.pc.holdsPocket → s'.pocketLock.holder = some t)
    (hb : ∀ b p, k'.pc = .building b p → b.id = t ∧ p.clean) (ho : k.pc.ofDown → k'.pc.ofDown) : Disciplined s' where
  fresh u hu := by
    rw [hf.next] at hu
    have hne : u ≠ t := by
      rintro rfl
      rw [hd.fresh u hu] at hk
      cases hk
    rw [hf.tasks u hne]
    exact hd.fresh u hu
  state u k₁ hk₁ h₁ := by
    obtain ⟨rfl, rfl⟩ | ⟨hu, hk₁⟩ := hf.tasks_cases hk' hk₁
    · exact hs h₁
    · have h := hd.state u k₁ hk₁ h₁
      refine ⟨hf.state u hu h.1, ?_⟩
      rcases hup with hup | hup | hup
      · rw [hup]
        exact h.2
      · exact hup
      · exact absurd (hd.only hk hup hk₁ h₁) hu
  pocketLock u k₁ hk₁ h₁ := by
    obtain ⟨rfl, rfl⟩ | ⟨hu, hk₁⟩ := hf.tasks_cases hk' hk₁
    · exact hp h₁
    · exact hf.pocketLock u hu (hd.pocketLock u k₁ hk₁ h₁)
  builds u k₁ b p hk₁ h₁ := by
    obtain ⟨rfl, rfl⟩ | ⟨-, hk₁⟩ := hf.tasks_cases hk' hk₁
    · exact hb b p h₁
    · exact hd.builds u k₁ b p hk₁ h₁
  downs u k₁ hk₁ h₁ := by
    obtain ⟨rfl, rfl⟩ | ⟨-, hk₁⟩ := hf.tasks_cases hk' hk₁
    · rw [hkind] at h₁
      exact ho (hd.downs u k hk h₁)
    · exact hd.downs u k₁ hk₁ h₁

theorem build_cases (hd : Disciplined s) {b : Build} {p : Phase} (hk : s.tasks t = some k) (hpc : k.pc = .building b p)
    (a : Answer) :
    (∃ f q, s.build t k b p a = { s with firewall := f }.setPc t k (.building b q) ∧ Build.Goes s.firewall f q ∧
      (q.isRaising → p.isRaising ∨ s.cancelled t = false)) ∨
    (∃ steps, p = .raising .arm steps ∧ a.nft = true ∧ s.build t k b p a =
      { s with firewall := .armed t, up := some ⟨b.owner, t, b.plan, true⟩ }.finish t k true) ∨
    s.build t k b p a = { s with firewall := b.fail a s.firewall }.finish t k false := by
  obtain ⟨hid, hclean⟩ := hd.builds t k b p hk hpc
  unfold build
  rcases hr : b.step p (s.cancelled t) a s.firewall with ⟨f, n⟩
  rcases Build.step_cases hclean hr with ⟨q, rfl, hg, hc⟩ | ⟨steps, rfl, hnft, rfl, rfl⟩ | ⟨rfl, rfl⟩
  · exact Or.inl ⟨f, q, rfl, hg, hc⟩
  · refine Or.inr (Or.inl ⟨steps, rfl, hnft, ?_⟩)
    simp only [hid]
  · exact Or.inr (Or.inr rfl)

/-- Nothing is up, or what is up is undone. -/
theorem takeDown_cases (hr : refused s.up k.caller = false) (t : Nat) (a : Answer) :
    (s.up = none ∧ s.takeDown t k a =
      { s with firewall := if a.lifted then .removed else s.firewall }.finish t k true) ∨
    ∃ x, s.up = some x ∧ s.takeDown t k a =
      { s with
        up := none
        firewall := if x.circuit.killSwitch && a.lifted then .removed else s.firewall }.setPc t k
        (.stopping ((!x.circuit.killSwitch || a.lifted) && a.ok)) := by
  unfold takeDown
  rw [if_neg (by simp [hr])]
  cases s.up with
  | none => exact Or.inl ⟨rfl, rfl⟩
  | some x => exact Or.inr ⟨x, rfl, rfl⟩

theorem Disciplined.ends (hd : Disciplined s) (hk : s.tasks t = some k) {s₁ : Daemon} (hf : Frame t s s₁)
    (hup : s₁.up = s.up ∨ s₁.up = none ∨ k.pc.holdsState) (ok : Bool) : Disciplined (s₁.finish t k ok) :=
  hd.go_of (hf.finish k ok) hk hup (tasks_finish s₁ t k ok) rfl (by simp [Pc.holdsState]) (by simp [Pc.holdsPocket])
    (by simp) (by simp [Pc.ofDown])

theorem Disciplined.quiet (hd : Disciplined s) (hf : Frame t s s') (hk : s.tasks t = some k)
    (hq : Quiet s t k s' k') : Disciplined s' := by
  refine hd.go_of hf hk (Or.inl hq.up) hq.task hq.kind (by simp [hq.holdsState]) ?_ ?_ hq.ofDown
  · intro h
    obtain ⟨hl, hp⟩ := hq.holdsPocket h
    rw [hl]
    rcases hp with hp | hp
    · exact hd.pocketLock t k hk hp
    · exact hp
  · intro b p h
    have := hq.holdsState
    simp [h, Pc.holdsState] at this

theorem Disciplined.begins (hd : Disciplined s) (hf : Frame t s s') (hk : s.tasks t = some k) {b : Build} {p : Phase}
    {f : Firewall} (hb : Begins s t k s' b p f) : Disciplined s' := by
  have heq := hb.eq
  subst heq
  refine hd.go_of hf hk (Or.inr (Or.inl rfl)) (tasks_setPc ..) rfl (fun _ => ⟨hb.holder, rfl⟩) ?_ ?_ ?_
  · exact fun _ => hd.pocketLock t k hk (by rw [hb.pc]; rfl)
  · intro b' p' h
    obtain ⟨rfl, rfl⟩ := Pc.building.inj h
    exact ⟨hb.started.id, hb.started.clean⟩
  · simp [hb.pc, Pc.ofDown]

theorem Disciplined.build (hd : Disciplined s) (hk : s.tasks t = some k) {b : Build} {p : Phase}
    (hpc : k.pc = .building b p) (a : Answer) : Disciplined (s.build t k b p a) := by
  have hs : k.pc.holdsState := by rw [hpc]; rfl
  rcases build_cases hd hk hpc a with ⟨f, q, h, hg, -⟩ | ⟨-, -, -, h⟩ | h
  · rw [h]
    refine hd.go_of (((frame_refl t s).set s.up f).setPc k _) hk (Or.inl rfl) (tasks_setPc ..) rfl
      (fun _ => hd.state t k hk hs) (fun _ => hd.pocketLock t k hk (by rw [hpc]; rfl)) ?_ (by simp [hpc, Pc.ofDown])
    intro b' p' h
    obtain ⟨rfl, rfl⟩ := Pc.building.inj h
    exact ⟨(hd.builds t k b p hk hpc).1, hg.clean⟩
  · rw [h]
    exact hd.ends hk ((frame_refl t s).set _ _) (Or.inr (Or.inr hs)) true
  · rw [h]
    exact hd.ends hk ((frame_refl t s).set s.up (b.fail a s.firewall)) (Or.inl rfl) false

theorem Disciplined.takeDown (hd : Disciplined s) (hk : s.tasks t = some k) (hl : s.state.holder = some t)
    (hr : refused s.up k.caller = false) (a : Answer) : Disciplined (s.takeDown t k a) := by
  rcases takeDown_cases hr t a with ⟨-, h⟩ | ⟨x, -, h⟩
  · rw [h]
    exact hd.ends hk ((frame_refl t s).set s.up (if a.lifted then .removed else s.firewall)) (Or.inl rfl) true
  · rw [h]
    exact hd.go_of (((frame_refl t s).set none _).setPc k _) hk (Or.inr (Or.inl rfl)) (tasks_setPc ..) rfl
      (fun _ => ⟨hl, rfl⟩) (by simp [Pc.holdsPocket]) (by simp) (by simp [Pc.ofDown])

theorem Disciplined.go (hd : Disciplined s) (t : Nat) (a : Answer) : Disciplined (s.go t a) := by
  have hf := frame_go s t a
  cases hk : s.tasks t with
  | none =>
    rw [go_none hk]
    exact hd
  | some k =>
    rcases go_cases hk a with ⟨k', hq⟩ | ⟨b, p, f, hb⟩ | ⟨b, p, hpc, hb⟩ | ⟨-, hl, hr, hb⟩
    · exact hd.quiet hf hk hq
    · exact hd.begins hf hk hb
    · rw [hb]
      exact hd.build hk hpc a
    · rw [hb]
      exact hd.takeDown hk hl hr a

theorem Disciplined.step (hd : Disciplined s) (e : Event) : Disciplined (s.step e) := by
  cases e with
  | arrive kind caller a =>
    obtain ⟨k', h⟩ := arrive_cases s kind caller a
    exact hd.arrive h
  | go t a => exact hd.go t a

theorem up_go (hd : Disciplined s) (t : Nat) (a : Answer) :
    (s.go t a).up = s.up ∨ (s.go t a).up = none ∨
      ∃ k b steps, s.tasks t = some k ∧ k.pc = .building b (.raising .arm steps) ∧ a.nft = true ∧
        s.go t a = { s with firewall := .armed t, up := some ⟨b.owner, t, b.plan, true⟩ }.finish t k true := by
  cases hk : s.tasks t with
  | none => exact Or.inl (by rw [go_none hk])
  | some k =>
    rcases go_cases hk a with ⟨k', hq⟩ | ⟨b, p, f, hb⟩ | ⟨b, p, hpc, hb⟩ | ⟨hpc, hl, hr, hb⟩
    · exact Or.inl hq.up
    · exact Or.inr (Or.inl (by rw [hb.eq]; rfl))
    · rw [hb]
      rcases build_cases hd hk hpc a with ⟨f, q, h, -⟩ | ⟨steps, rfl, hnft, h⟩ | h
      · exact Or.inl (by rw [h]; rfl)
      · exact Or.inr (Or.inr ⟨k, b, steps, rfl, hpc, hnft, h⟩)
      · exact Or.inl (by rw [h]; rfl)
    · rw [hb]
      rcases takeDown_cases hr t a with ⟨hup, h⟩ | ⟨x, hup, h⟩
      · exact Or.inl (by rw [h]; rfl)
      · exact Or.inr (Or.inl (by rw [h]; rfl))

theorem quiet_or_moved (hd : Disciplined s) (hk : s.tasks t = some k) (a : Answer)
    (hk' : (s.go t a).tasks t = some k') :
    Quiet s t k (s.go t a) k' ∨
      (k'.kind = k.kind ∧ k'.caller = k.caller) ∧ (k'.pc.holdsState ∨ k'.pc.isEnded) := by
  rcases go_cases hk a with ⟨k₁, hq⟩ | ⟨b, p, f, hb⟩ | ⟨b, p, hpc, hb⟩ | ⟨hpc, -, hr, hb⟩
  · obtain rfl : k₁ = k' := Option.some.inj (hq.task.symm.trans hk')
    exact Or.inl hq
  · rw [hb.eq, tasks_setPc] at hk'
    cases hk'
    exact Or.inr ⟨⟨rfl, rfl⟩, Or.inl rfl⟩
  · rw [hb] at hk'
    rcases build_cases hd hk hpc a with ⟨f, q, hb', -⟩ | ⟨-, -, -, hb'⟩ | hb'
    · rw [hb', tasks_setPc] at hk'
      cases hk'
      exact Or.inr ⟨⟨rfl, rfl⟩, Or.inl rfl⟩
    · rw [hb', tasks_finish] at hk'
      cases hk'
      exact Or.inr ⟨⟨rfl, rfl⟩, Or.inr rfl⟩
    · rw [hb', tasks_finish] at hk'
      cases hk'
      exact Or.inr ⟨⟨rfl, rfl⟩, Or.inr rfl⟩
  · rw [hb] at hk'
    rcases takeDown_cases hr t a with ⟨-, hb'⟩ | ⟨x, -, hb'⟩
    · rw [hb', tasks_finish] at hk'
      cases hk'
      exact Or.inr ⟨⟨rfl, rfl⟩, Or.inr rfl⟩
    · rw [hb', tasks_setPc] at hk'
      cases hk'
      exact Or.inr ⟨⟨rfl, rfl⟩, Or.inl rfl⟩

end Daemon

end HidraNet.Vpn
