import HidraNet.Dht.ServiceStore

/-!
# Publishing and withdrawing a service

A node lists the services it publishes, with their keys, and holds their descriptors in its store as its own.
Announcing lists a service and then puts its descriptor; a republishing cycle copies the list and, for each service
still listed, signs anew and puts; withdrawing takes the service off the list and then drops the node's own copy.  The
list and the store have a lock each, and every task may be overtaken where it waits for one.

A task that checks the list after a withdrawal puts nothing, so a withdrawn service stays withdrawn as long as none that
has checked or listed it is under way when its withdrawal returns (`withdrawn_run`); one that has is not held back
(`not_withdrawn`).
-/

namespace HidraNet.Dht.Publishing

open HidraNet.Core (Bytes)
open Maps
open Runs

structure SigningKey where
  verifyingKey : Bytes
  sign : Bytes → Bytes

variable (c : DescriptorCrypto)

/-- `ServiceDescriptor::sign`. -/
def signDescriptor (serviceKey : SigningKey) (introPoints : List String) (revision : Nat) : ServiceDescriptor where
  servicePubkey := serviceKey.verifyingKey
  introPoints
  revision
  signature := serviceKey.sign
    (signedBytes (serviceHashOf c serviceKey.verifyingKey) serviceKey.verifyingKey revision introPoints)

/-- A call that waits for a lock, and what it has found so far. -/
inductive Task where
  /-- `announce_signed_service` goes to list the service. -/
  | listing (serviceKey : SigningKey) (introPoints : List String) (d : ServiceDescriptor)
  /-- The cycle goes to see whether the service is still listed. -/
  | checking (hash : Bytes) (serviceKey : SigningKey) (introPoints : List String)
  /-- `announce` goes to put the descriptor. -/
  | putting (d : ServiceDescriptor)
  /-- `withdraw_service` goes to take it off the list, and then to drop it. -/
  | unlisting (hash : Bytes)
  | forgetting (hash : Bytes)

/-- What a task puts without a look at the list. -/
def Task.puts : Task → Option ServiceDescriptor
  | listing _ _ d | putting d => some d
  | _ => none

/-- The service whose withdrawal returns with the task. -/
def Task.returns : Task → Option Bytes
  | forgetting hash => some hash
  | _ => none

structure State where
  ownServices : Map Bytes (SigningKey × List String)
  store : ServiceStore
  tasks : List Task
  /-- A withdrawal has returned, and no announcement was made since. -/
  withdrawn : Finset Bytes

inductive Event where
  | announce (serviceKey : SigningKey) (introPoints : List String) (now : Nat)
  | withdraw (hash : Bytes)
  /-- A republishing cycle begins; the node runs eight of its services at once. -/
  | cycle
  /-- The `i`-th task gets the lock it waits for. -/
  | proceeds (i : Nat) (it : Iteration) (now : Nat)
  | putOther (it : Iteration) (hash : Bytes) (d : ServiceDescriptor) (pusher : Option NodeId) (now : Nat)

namespace State

def start : State := ⟨.empty, .empty, [], ∅⟩

def otherOrigin (pusher : Option NodeId) : Origin := pusher.elim .fetched .pushed

/-- The task `i` goes on as `tasks`. -/
def goesOn (s : State) (i : Nat) (tasks : List Task) : State := { s with tasks := s.tasks.eraseIdx i ++ tasks }

def proceeds (s : State) (i : Nat) (it : Iteration) (now : Nat) : Task → State
  | .listing serviceKey introPoints d =>
    { s.goesOn i [.putting d] with ownServices := s.ownServices.set (d.serviceHash c) (serviceKey, introPoints) }
  | .checking hash serviceKey introPoints =>
    if s.ownServices.contains hash then s.goesOn i [.putting (signDescriptor c serviceKey introPoints now)]
    else s.goesOn i []
  | .putting d =>
    match d.verify c (d.serviceHash c) with
    | .ok _ => { s.goesOn i [] with store := (s.store.put c it (d.serviceHash c) d .own now).1 }
    | .error _ => s.goesOn i []
  | .unlisting hash => { s.goesOn i [.forgetting hash] with ownServices := s.ownServices.remove hash }
  | .forgetting hash =>
    { s.goesOn i [] with store := s.store.forgetOwn hash, withdrawn := insert hash s.withdrawn }

end State

open State in
def step (s : State) : Event → State
  | .announce serviceKey introPoints now =>
    let d := signDescriptor c serviceKey introPoints now
    { s with tasks := s.tasks ++ [.listing serviceKey introPoints d], withdrawn := s.withdrawn.erase (d.serviceHash c) }
  | .withdraw hash => { s with tasks := s.tasks ++ [.unlisting hash] }
  | .cycle => { s with tasks := s.tasks ++ s.ownServices.entries.map fun e => .checking e.1 e.2.1 e.2.2 }
  | .proceeds i it now => s.tasks[i]?.elim s (s.proceeds c i it now)
  | .putOther it hash d pusher now => { s with store := (s.store.put c it hash d (otherOrigin pusher) now).1 }

/-- The store holds the descriptor of `hash` as the node's own. -/
def HeldAsOwn (store : ServiceStore) (hash : Bytes) : Prop :=
  (store.entries.get? hash).any (·.origin = .own) = true

instance (store : ServiceStore) (hash : Bytes) : Decidable (HeldAsOwn store hash) := instDecidableEqBool _ _

def StaysWithdrawn (s : State) : Prop := ∀ hash ∈ s.withdrawn, ¬ HeldAsOwn s.store hash

/-- Neither the list nor a task that is past its look at it has the service. -/
def Unlisted (s : State) (hash : Bytes) : Prop :=
  s.ownServices.contains hash = false ∧ ∀ t ∈ s.tasks, ∀ d ∈ t.puts, d.serviceHash c ≠ hash

def ReturnsAlone (s : State) : Event → Prop
  | .proceeds i _ _ => ∀ hash ∈ s.tasks[i]?.bind Task.returns, Unlisted c s hash
  | _ => True

instance (s : State) (hash : Bytes) : Decidable (Unlisted c s hash) := inferInstanceAs (Decidable (_ ∧ _))

instance decidableReturnsAlone (s : State) : ∀ e, Decidable (ReturnsAlone c s e)
  | .proceeds i _ _ => inferInstanceAs (Decidable (∀ hash ∈ s.tasks[i]?.bind Task.returns, Unlisted c s hash))
  | .announce _ _ _ | .withdraw _ | .cycle | .putOther _ _ _ _ _ => isTrue trivial

/-- A service is listed, and looked up, under its key's hash. -/
def Task.Keyed : Task → Prop
  | .listing serviceKey _ d => serviceHashOf c serviceKey.verifyingKey = d.serviceHash c
  | .checking hash serviceKey _ => serviceHashOf c serviceKey.verifyingKey = hash
  | _ => True

structure Kept (s : State) : Prop where
  listed : ∀ hash e, s.ownServices.get? hash = some e → serviceHashOf c e.1.verifyingKey = hash
  tasks : ∀ t ∈ s.tasks, t.Keyed c
  withdrawn : ∀ hash ∈ s.withdrawn, ¬ HeldAsOwn s.store hash ∧ Unlisted c s hash

variable {c} {s : State} {it : Iteration} {store : ServiceStore} {hash hash' : Bytes} {d : ServiceDescriptor}
  {origin : Origin} {now : Nat}

private theorem heldAsOwn_iff : HeldAsOwn store hash ↔ ∃ st, store.entries.get? hash = some st ∧ st.origin = .own := by
  unfold HeldAsOwn
  cases store.entries.get? hash <;> simp

private theorem heldAsOwn_of_put (h : HeldAsOwn (store.put c it hash d origin now).1 hash') :
    HeldAsOwn store hash' ∨ hash' = hash ∧ origin = .own := by
  rw [heldAsOwn_iff] at h ⊢
  obtain ⟨st, hget, hown⟩ := h
  -- an entry put under `hash`, with an origin that was the node's own or is
  have hset : ∀ {entries : Map Bytes Stored} {st' : Stored}, (∀ x, entries.get? hash' = some x →
      store.entries.get? hash' = some x) → (entries.set hash st').get? hash' = some st →
      (st'.origin = .own → (∃ held, store.entries.get? hash = some held ∧ held.origin = .own) ∨ origin = .own) →
      (∃ st, store.entries.get? hash' = some st ∧ st.origin = .own) ∨ hash' = hash ∧ origin = .own := by
    intro entries st' hsub hget horigin
    obtain ⟨rfl, rfl⟩ | ⟨-, hget⟩ := Map.get?_set_some.1 hget
    · rcases horigin hown with hheld | horigin
      · exact Or.inl hheld
      · exact Or.inr ⟨rfl, horigin⟩
    · exact Or.inl ⟨st, hsub st hget, hown⟩
  rcases put_cases c it store hash d origin now with ⟨-, e, -, heq⟩ |
    ⟨-, ⟨held, hheld, -, -, heq⟩ | ⟨held, hheld, -, -, heq⟩ | ⟨held, hheld, -, heq⟩ | ⟨-, -, e, -, heq⟩ |
      ⟨hnone, -, entries, hentries, heq⟩⟩ <;> rw [heq] at hget
  · exact Or.inl ⟨st, hget, hown⟩
  · exact Or.inl ⟨st, hget, hown⟩
  · exact hset (fun _ hx => hx) hget fun horigin => Or.inl ⟨held, hheld, horigin⟩
  · refine hset (fun _ hx => hx) hget fun horigin => ?_
    by_cases hheldOwn : held.origin = .own
    · exact Or.inl ⟨held, hheld, hheldOwn⟩
    · right
      revert horigin hheldOwn
      cases held.origin <;> cases origin <;> simp [mergeOrigin]
  · exact Or.inl ⟨st, hget, hown⟩
  · refine hset (fun x hx => ?_) hget Or.inr
    rcases hentries with ⟨rfl, -⟩ | ⟨-, hevict⟩
    · exact hx
    · exact get?_of_evictOne hevict hx

private theorem not_heldAsOwn_forgetOwn : ¬ HeldAsOwn (store.forgetOwn hash) hash := by
  unfold HeldAsOwn ServiceStore.forgetOwn
  split
  · simp [Map.get?_remove]
  · rename_i hnot
    exact hnot

private theorem heldAsOwn_of_forgetOwn (h : HeldAsOwn (store.forgetOwn hash) hash') : HeldAsOwn store hash' := by
  unfold ServiceStore.forgetOwn at h
  split at h
  · obtain ⟨st, hget, hown⟩ := heldAsOwn_iff.1 h
    exact heldAsOwn_iff.2 ⟨st, (Map.get?_remove_some.1 hget).2, hown⟩
  · exact h

/-- Tasks go and come that put nothing of a service that stays withdrawn. -/
theorem Kept.tasks_changed (hk : Kept c s) {tasks : List Task} {withdrawn : Finset Bytes} (hless : withdrawn ⊆ s.withdrawn)
    (hkeyed : ∀ t ∈ tasks, t ∈ s.tasks ∨ t.Keyed c)
    (hputs : ∀ hash ∈ withdrawn, ∀ t ∈ tasks, t ∈ s.tasks ∨ ∀ d ∈ t.puts, d.serviceHash c ≠ hash) :
    Kept c { s with tasks, withdrawn } := by
  refine ⟨hk.listed, fun t ht => (hkeyed t ht).elim (hk.tasks t) id, fun hash hin => ?_⟩
  obtain ⟨hheld, hlist, hunlisted⟩ := hk.withdrawn hash (hless hin)
  exact ⟨hheld, hlist, fun t ht => (hputs hash hin t ht).elim (hunlisted t) id⟩

theorem Kept.goesOn (hk : Kept c s) (i : Nat) {tasks : List Task} (hkeyed : ∀ t ∈ tasks, t.Keyed c)
    (hputs : ∀ hash ∈ s.withdrawn, ∀ t ∈ tasks, ∀ d ∈ t.puts, d.serviceHash c ≠ hash) : Kept c (s.goesOn i tasks) := by
  refine hk.tasks_changed (Finset.Subset.refl _) (fun t ht => ?_) fun hash hin t ht => ?_
  · exact (List.mem_append.1 ht).imp List.mem_of_mem_eraseIdx (hkeyed t)
  · exact (List.mem_append.1 ht).imp List.mem_of_mem_eraseIdx (hputs hash hin t)

theorem Kept.asks (hk : Kept c s) {tasks : List Task} {withdrawn : Finset Bytes} (hless : withdrawn ⊆ s.withdrawn)
    (hkeyed : ∀ t ∈ tasks, t.Keyed c) (hputs : ∀ hash ∈ withdrawn, ∀ t ∈ tasks, ∀ d ∈ t.puts, d.serviceHash c ≠ hash) :
    Kept c { s with tasks := s.tasks ++ tasks, withdrawn } := by
  refine hk.tasks_changed hless (fun t ht => ?_) fun hash hin t ht => ?_
  · exact (List.mem_append.1 ht).imp_right (hkeyed t)
  · exact (List.mem_append.1 ht).imp_right (hputs hash hin t)

private theorem Kept.proceeds (hk : Kept c s) {i : Nat} {task : Task} (htask : s.tasks[i]? = some task) (it : Iteration)
    (now : Nat) (hok : ∀ hash ∈ task.returns, Unlisted c s hash) : Kept c (s.proceeds c i it now task) := by
  have hmem : task ∈ s.tasks := List.mem_of_getElem? htask
  have hkeyed := hk.tasks task hmem
  have hends : Kept c (s.goesOn i []) := hk.goesOn i nofun fun _ _ => nofun
  cases task with
  | listing serviceKey introPoints d =>
    have hne : ∀ hash ∈ s.withdrawn, d.serviceHash c ≠ hash := fun hash hin => (hk.withdrawn hash hin).2.2 _ hmem d rfl
    have hgoes : Kept c (s.goesOn i [.putting d]) :=
      hk.goesOn i (by simp [Task.Keyed]) fun hash hin => by simpa [Task.puts] using hne hash hin
    refine ⟨fun hash e he => ?_, hgoes.tasks, fun hash hin => ?_⟩
    · obtain ⟨rfl, rfl⟩ | ⟨-, he⟩ := Map.get?_set_some.1 he
      · exact hkeyed
      · exact hk.listed hash e he
    · obtain ⟨hheld, hlist, htasks⟩ := hgoes.withdrawn hash hin
      refine ⟨hheld, ?_, htasks⟩
      show ((s.ownServices.set (d.serviceHash c) (serviceKey, introPoints)).get? hash).isSome = false
      rw [Map.get?_set_other _ _ (hne hash hin).symm]
      exact hlist
  | checking hash' serviceKey introPoints =>
    simp only [State.proceeds]
    split
    · rename_i hlisted
      refine hk.goesOn i (by simp [Task.Keyed]) fun hash hin t ht d hd => ?_
      obtain rfl := List.mem_singleton.1 ht
      obtain rfl := Option.some.inj hd
      -- what the check finds listed was not withdrawn
      rintro rfl
      rw [← hkeyed, ← Bool.not_eq_false] at hlisted
      exact hlisted (hk.withdrawn _ hin).2.1
    · exact hends
  | putting d =>
    simp only [State.proceeds]
    split
    · refine ⟨hends.listed, hends.tasks, fun hash hin => ?_⟩
      obtain ⟨hheld, hunlisted⟩ := hends.withdrawn hash hin
      refine ⟨fun hown => ?_, hunlisted⟩
      rcases heldAsOwn_of_put hown with hown | ⟨rfl, -⟩
      · exact hheld hown
      · exact (hk.withdrawn _ hin).2.2 _ hmem d rfl rfl
    · exact hends
  | unlisting hash' =>
    have hgoes : Kept c (s.goesOn i [.forgetting hash']) := hk.goesOn i (by simp [Task.Keyed]) (by simp [Task.puts])
    refine ⟨fun hash e he => hk.listed hash e (Map.get?_remove_some.1 he).2, hgoes.tasks, fun hash hin => ?_⟩
    obtain ⟨hheld, hlist, htasks⟩ := hgoes.withdrawn hash hin
    refine ⟨hheld, ?_, htasks⟩
    show ((s.ownServices.remove hash').get? hash).isSome = false
    rw [Map.get?_remove]
    split
    · rfl
    · exact hlist
  | forgetting hash' =>
    refine ⟨hends.listed, hends.tasks, fun hash hin => ?_⟩
    rcases Finset.mem_insert.1 hin with rfl | hin
    · obtain ⟨hlist, htasks⟩ := hok hash rfl
      refine ⟨not_heldAsOwn_forgetOwn, hlist, fun t ht => htasks t ?_⟩
      exact List.mem_of_mem_eraseIdx ((List.mem_append.1 ht).resolve_right List.not_mem_nil)
    · obtain ⟨hheld, hunlisted⟩ := hends.withdrawn hash hin
      exact ⟨fun hown => hheld (heldAsOwn_of_forgetOwn hown), hunlisted⟩

theorem kept_step (e : Event) (hk : Kept c s) (hok : ReturnsAlone c s e) : Kept c (step c s e) := by
  cases e with
  | announce serviceKey introPoints now =>
    refine hk.asks (Finset.erase_subset _ _) (by simp [Task.Keyed, signDescriptor, ServiceDescriptor.serviceHash]) ?_
    intro hash hin t ht d hd
    obtain rfl := List.mem_singleton.1 ht
    obtain rfl := Option.some.inj hd
    exact (Finset.mem_erase.1 hin).1.symm
  | withdraw hash' => exact hk.asks (Finset.Subset.refl _) (by simp [Task.Keyed]) (by simp [Task.puts])
  | cycle =>
    refine hk.asks (Finset.Subset.refl _) (fun t ht => ?_) fun hash _ t ht d hd => ?_
    · obtain ⟨e, he, rfl⟩ := List.mem_map.1 ht
      exact hk.listed e.1 e.2 (Map.mem_entries.1 he)
    · obtain ⟨e, -, rfl⟩ := List.mem_map.1 ht
      cases hd
  | putOther it hash' d pusher now =>
    refine ⟨hk.listed, hk.tasks, fun hash hin => ?_⟩
    obtain ⟨hheld, hunlisted⟩ := hk.withdrawn hash hin
    refine ⟨fun hown => ?_, hunlisted⟩
    rcases heldAsOwn_of_put hown with hown | ⟨-, horigin⟩
    · exact hheld hown
    · cases pusher <;> cases horigin
  | proceeds i it now =>
    show Kept c (s.tasks[i]?.elim s (s.proceeds c i it now))
    cases htask : s.tasks[i]? with
    | none => exact hk
    | some task => exact hk.proceeds htask it now fun hash hin => hok hash (by rw [htask]; exact hin)

/-! ### Runs -/

theorem kept_start : Kept c .start :=
  ⟨fun _ _ he => by simp [State.start] at he, fun _ ht => (List.not_mem_nil ht).elim,
    fun _ hin => absurd hin (Finset.notMem_empty _)⟩

/-- In a run where no withdrawal returns while a task that has listed or checked its service is under way, a withdrawn
service is not held as the node's own until it is announced again. -/
theorem withdrawn_run (c : DescriptorCrypto) (es : List Event) (h : Along (step c) (ReturnsAlone c) .start es) :
    StaysWithdrawn (run (step c) .start es) := fun hash hin =>
  ((run_invariant (fun _ e hk hok => kept_step e hk hok) h kept_start).withdrawn hash hin).1

private def keyOf (i : Nat) : SigningKey := ⟨keyAt i, fun _ => List.replicate 64 0⟩

private def published (i now : Nat) : List Event :=
  [.announce (keyOf i) ["198.51.100.7:9001"] now, .proceeds 0 asHeld now, .proceeds 0 asHeld now]

/-- A service is withdrawn while a cycle is on, before its turn comes. -/
theorem withdrawn_inTurn :
    let es := published 1 1000 ++ [.cycle, .withdraw (hashAt 1), .proceeds 1 asHeld 1900, .proceeds 1 asHeld 1900,
      .proceeds 0 asHeld 1900]
    Along (step trustingAll) (ReturnsAlone trustingAll) .start es ∧ StaysWithdrawn (run (step trustingAll) .start es) := by
  intro es
  have h : Along (step trustingAll) (ReturnsAlone trustingAll) .start es := by decide
  exact ⟨h, withdrawn_run trustingAll es h⟩

/-- The cycle has seen that the service is listed, and puts it after the withdrawal has returned. -/
theorem not_withdrawn : ∃ (c : DescriptorCrypto) (es : List Event), ¬ StaysWithdrawn (run (step c) .start es) := by
  refine ⟨trustingAll, published 1 1000 ++ [.cycle, .proceeds 0 asHeld 1900, .withdraw (hashAt 1),
    .proceeds 1 asHeld 1900, .proceeds 1 asHeld 1900, .proceeds 0 asHeld 1900], fun h => ?_⟩
  exact h (hashAt 1) (by decide) (by decide)

end HidraNet.Dht.Publishing
