import HidraNet.Core.Pass
import HidraNet.Lib.Maps
import HidraNet.Lib.Runs

/-!
# The introduction relay's registry

A hidden service registers its address over a circuit and waits there for clients, on a channel of its own; the
registry keeps the only sender that stays.  A second registration of the address takes the entry, and with the old
sender the old registration's wait ends.  Its task then removes what is under the address, whoever it belongs to.

So a client is led to the latest registration just as long as no task removes the entry of another one (`latest_run`),
and the second of two registrations can be lost (`not_latest`).
-/

namespace HidraNet.Relay.Intro

open HidraNet.Core (Bytes)
open Maps
open Runs

/-- Where the task of a registration stands. -/
inductive Phase where
  | replying
  | waiting
  | bridging (client : Nat)
  | leaving
  | gone
deriving DecidableEq

namespace Phase

def listening : Phase → Bool
  | replying | waiting | bridging _ => true
  | leaving | gone => false

end Phase

structure Registration where
  serviceHash : Bytes
  phase : Phase
  queue : List Nat
  circuitEnded : Bool
deriving DecidableEq

def PIPE_CAPACITY : Nat := 16

inductive ClientPhase where
  | connecting
  | connected
  | over
deriving DecidableEq

/-- A `ConnectService` that found a registration; it holds a sender of its channel until it is over. -/
structure Client where
  sender : Nat
  phase : ClientPhase
deriving DecidableEq

structure State where
  registry : Map Bytes Nat
  registrations : List Registration
  clients : List Client
  latest : Map Bytes Nat
deriving DecidableEq

inductive Event where
  /-- `RegisterService`, with what `verify_registration` found. -/
  | register (serviceHash : Bytes) (verified : Bool)
  /-- `ServiceRegistered` goes out, or the circuit takes it no more. -/
  | replied (r : Nat) (sent : Bool)
  | recv (r : Nat)
  | bridgeEnds (r : Nat)
  | removes (r : Nat)
  | circuitEnds (r : Nat)
  /-- `ConnectService` looks the channel up. -/
  | connect (serviceHash : Bytes)
  | sends (c : Nat)
  | clientEnds (c : Nat)
deriving DecidableEq

namespace State

def start : State := ⟨.empty, [], [], .empty⟩

/-- A sender of the channel of `r` is left. -/
def hasSender (s : State) (r : Nat) (reg : Registration) : Bool :=
  s.registry.get? reg.serviceHash = some r || s.clients.any fun c => c.sender = r && c.phase ≠ .over

def register (s : State) (serviceHash : Bytes) : State :=
  { s with
    registry := s.registry.set serviceHash s.registrations.length
    registrations := s.registrations ++ [⟨serviceHash, .replying, [], false⟩]
    latest := s.latest.set serviceHash s.registrations.length }

def setRegistration (s : State) (r : Nat) (reg : Registration) : State :=
  { s with registrations := s.registrations.set r reg }

/-- `pipe_rx.recv()`. -/
def recv (s : State) (r : Nat) (reg : Registration) : State :=
  match reg.queue with
  | client :: queue => s.setRegistration r { reg with phase := .bridging client, queue }
  | [] => if s.hasSender r reg then s else s.setRegistration r { reg with phase := .leaving }

def setClient (s : State) (c : Nat) (client : Client) : State := { s with clients := s.clients.set c client }

/-- `pipe_tx.send(client_pipe)`: waits for room, and fails where the receiver is gone. -/
def send (s : State) (c : Nat) (client : Client) : State :=
  match s.registrations[client.sender]? with
  | none => s
  | some reg =>
    if reg.phase = .gone then s.setClient c { client with phase := .over }
    else if reg.queue.length < PIPE_CAPACITY then
      (s.setRegistration client.sender { reg with queue := reg.queue ++ [c] }).setClient c
        { client with phase := .connected }
    else s

end State

/-- What a task does that stands at `phase`; nothing where it stands elsewhere. -/
def whenAt (s : State) (r : Nat) (at_ : Phase → Bool) (f : Registration → State) : State :=
  match s.registrations[r]? with
  | some reg => if at_ reg.phase then f reg else s
  | none => s

def step (s : State) : Event → State
  | .register serviceHash verified => if verified then s.register serviceHash else s
  | .replied r sent => whenAt s r (· = .replying) fun reg =>
      if sent then s.setRegistration r { reg with phase := .waiting }
      -- the handler returns with the error, and the link with it
      else s.setRegistration r { reg with phase := .gone, circuitEnded := true }
  | .recv r => whenAt s r (· = .waiting) (s.recv r)
  | .bridgeEnds r => whenAt s r (· matches .bridging _) fun reg => s.setRegistration r { reg with phase := .waiting }
  | .removes r => whenAt s r (· = .leaving) fun reg =>
      { s.setRegistration r { reg with phase := .gone } with registry := s.registry.remove reg.serviceHash }
  | .circuitEnds r => whenAt s r (fun _ => true) fun reg => s.setRegistration r { reg with circuitEnded := true }
  | .connect serviceHash =>
    match s.registry.get? serviceHash with
    | some r => { s with clients := s.clients ++ [⟨r, .connecting⟩] }
    | none => s
  | .sends c =>
    match s.clients[c]? with
    | some client => if client.phase = .connecting then s.send c client else s
    | none => s
  | .clientEnds c =>
    match s.clients[c]? with
    | some client => if client.phase = .connected then s.setClient c { client with phase := .over } else s
    | none => s

/-- The registration that a `ConnectService` of the address reaches: the one whose channel it finds, if that still
takes clients. -/
def reached (s : State) (serviceHash : Bytes) : Option Nat :=
  match s.registry.get? serviceHash with
  | none => none
  | some r => if s.registrations[r]?.any (·.phase.listening) then some r else none

def LatestWins (s : State) : Prop :=
  ∀ serviceHash r reg, s.latest.get? serviceHash = some r → s.registrations[r]? = some reg →
    reg.circuitEnded = false → reached s serviceHash = some r

def FindsNone (s : State) : Event → Prop
  | .removes r => ∀ reg, s.registrations[r]? = some reg → reg.phase = .leaving →
      ∀ other, s.registry.get? reg.serviceHash = some other →
        s.registrations[other]?.any (·.circuitEnded) = true
  | _ => True

/-! ### The invariant -/

structure Kept (s : State) : Prop where
  /-- What is listed takes clients, unless its circuit has ended. -/
  listed : ∀ h r, s.registry.get? h = some r → ∃ reg, s.registrations[r]? = some reg ∧ reg.serviceHash = h ∧
    (reg.phase.listening = true ∨ reg.circuitEnded = true)
  listedLatest : ∀ h r, s.registry.get? h = some r → s.latest.get? h = some r
  latest : ∀ h r, s.latest.get? h = some r → ∃ reg, s.registrations[r]? = some reg ∧ reg.serviceHash = h ∧
    (reg.circuitEnded = false → s.registry.get? h = some r)

variable {s : State} {r : Nat} {reg reg' : Registration}

theorem kept_start : Kept .start := by
  refine ⟨fun h r hget => ?_, fun h r hget => ?_, fun h r hget => ?_⟩ <;> simp [State.start] at hget

theorem Kept.latestWins (hk : Kept s) : LatestWins s := by
  intro h r reg hlatest hreg hlive
  obtain ⟨reg', hreg', -, hregistry⟩ := hk.latest h r hlatest
  rw [hreg, Option.some.injEq] at hreg'
  subst hreg'
  have hget := hregistry hlive
  obtain ⟨reg'', hreg'', -, hphase⟩ := hk.listed h r hget
  rw [hreg, Option.some.injEq] at hreg''
  subst hreg''
  have hlistening := hphase.resolve_right (by simp [hlive])
  unfold reached
  rw [hget]
  simp [hreg, hlistening]

theorem Kept.setRegistration (hk : Kept s) (hreg : s.registrations[r]? = some reg)
    (hhash : reg'.serviceHash = reg.serviceHash) (hended : reg.circuitEnded = true → reg'.circuitEnded = true)
    (hphase : s.registry.get? reg.serviceHash = some r → reg.phase.listening = true →
      reg'.phase.listening = true ∨ reg'.circuitEnded = true) :
    Kept (s.setRegistration r reg') := by
  have hlt : r < s.registrations.length := (List.getElem?_eq_some_iff.1 hreg).1
  refine ⟨?_, hk.listedLatest, ?_⟩
  · intro h r' hget
    obtain ⟨reg₁, hreg₁, hh, hok⟩ := hk.listed h r' hget
    by_cases hr : r = r'
    · subst hr
      rw [hreg, Option.some.injEq] at hreg₁
      subst hreg₁ hh
      refine ⟨reg', List.getElem?_set_self hlt, hhash, ?_⟩
      rcases hok with hok | hok
      · exact hphase hget hok
      · exact Or.inr (hended hok)
    · exact ⟨reg₁, (List.getElem?_set_ne hr).trans hreg₁, hh, hok⟩
  · intro h r' hget
    obtain ⟨reg₁, hreg₁, hh, hok⟩ := hk.latest h r' hget
    by_cases hr : r = r'
    · subst hr
      rw [hreg, Option.some.injEq] at hreg₁
      subst hreg₁ hh
      refine ⟨reg', List.getElem?_set_self hlt, hhash, fun hlive => hok ?_⟩
      by_contra hdead
      rw [Bool.not_eq_false] at hdead
      rw [hended hdead] at hlive
      cases hlive
    · exact ⟨reg₁, (List.getElem?_set_ne hr).trans hreg₁, hh, hok⟩

theorem Kept.clients (hk : Kept s) (clients : List Client) : Kept { s with clients } :=
  ⟨hk.listed, hk.listedLatest, hk.latest⟩

theorem Kept.register (hk : Kept s) (h : Bytes) : Kept (s.register h) := by
  have hnew : (s.register h).registrations[s.registrations.length]? = some ⟨h, .replying, [], false⟩ :=
    List.getElem?_concat_length
  have hold : ∀ (r : Nat) reg, s.registrations[r]? = some reg → (s.register h).registrations[r]? = some reg := by
    intro r reg hreg
    exact (List.getElem?_append_left (List.getElem?_eq_some_iff.1 hreg).1).trans hreg
  constructor
  · intro h' r hget
    obtain ⟨rfl, rfl⟩ | ⟨-, hget⟩ := Map.get?_set_some.1 hget
    · exact ⟨_, hnew, rfl, Or.inl rfl⟩
    · obtain ⟨reg, hreg, hh, hok⟩ := hk.listed h' r hget
      exact ⟨reg, hold r reg hreg, hh, hok⟩
  · intro h' r hget
    obtain ⟨rfl, rfl⟩ | ⟨hne, hget⟩ := Map.get?_set_some.1 hget
    · exact Map.get?_set_self ..
    · exact Map.get?_set_some.2 (.inr ⟨hne, hk.listedLatest h' r hget⟩)
  · intro h' r hget
    change (s.latest.set h s.registrations.length).get? h' = some r at hget
    rw [Map.get?_set] at hget
    change ∃ reg, _ ∧ _ ∧ (_ → (s.registry.set h s.registrations.length).get? h' = some r)
    rw [Map.get?_set]
    split at hget
    · rename_i heq
      cases hget
      exact ⟨_, hnew, heq.symm, fun _ => if_pos heq⟩
    · rename_i hne
      obtain ⟨reg, hreg, hh, hok⟩ := hk.latest h' r hget
      exact ⟨reg, hold r reg hreg, hh, fun hlive => (if_neg hne).trans (hok hlive)⟩

theorem Kept.remove (hk : Kept s) {h : Bytes} (hnone : ∀ other, s.registry.get? h = some other →
    s.registrations[other]?.any (·.circuitEnded) = true) : Kept { s with registry := s.registry.remove h } := by
  have hsub : ∀ h' r, (s.registry.remove h).get? h' = some r → s.registry.get? h' = some r := by
    exact fun h' r hget => (Map.get?_remove_some.1 hget).2
  refine ⟨fun h' r hget => hk.listed h' r (hsub h' r hget), fun h' r hget => hk.listedLatest h' r (hsub h' r hget),
    fun h' r hget => ?_⟩
  obtain ⟨reg, hreg, hh, hok⟩ := hk.latest h' r hget
  refine ⟨reg, hreg, hh, fun hlive => ?_⟩
  change (s.registry.remove h).get? h' = some r
  rw [Map.get?_remove]
  split
  · -- the latest is listed there, and its circuit has not ended
    rename_i heq
    have hended := hnone r (heq ▸ hok hlive)
    rw [hreg, Option.any_some, hlive] at hended
    cases hended
  · exact hok hlive

theorem Kept.not_latestWins (hk : Kept s) {e : Event} (hfinds : ¬ FindsNone s e) : ¬ LatestWins (step s e) := by
  intro hwins
  cases e with
  | removes r =>
    simp only [FindsNone, not_forall, Bool.not_eq_true] at hfinds
    obtain ⟨reg, hreg, hphase, other, hother, hlive⟩ := hfinds
    obtain ⟨reg', hreg', hhash, hlistening⟩ := hk.listed _ other hother
    rw [hreg', Option.any_some] at hlive
    have hne : r ≠ other := by
      rintro rfl
      rw [hreg, Option.some.injEq] at hreg'
      subst hreg'
      simp [hphase, Phase.listening, hlive] at hlistening
    have hgone : reached (step s (.removes r)) reg.serviceHash = none := by
      simp [step, whenAt, hreg, hphase, reached, Map.get?_remove]
    have hget : (step s (.removes r)).registrations[other]? = some reg' := by
      simpa [step, whenAt, hreg, hphase, State.setRegistration, List.getElem?_set_ne hne] using hreg'
    have hlatest : (step s (.removes r)).latest.get? reg.serviceHash = some other := by
      simpa [step, whenAt, hreg, hphase, State.setRegistration] using hk.listedLatest _ other hother
    have hreached := hwins _ other reg' hlatest hget hlive
    rw [hgone] at hreached
    cases hreached
  | _ => exact hfinds trivial

theorem kept_step (e : Event) (hk : Kept s) (hnone : FindsNone s e) : Kept (step s e) := by
  have hwhen : ∀ r at_ f, (∀ reg, s.registrations[r]? = some reg → at_ reg.phase = true → Kept (f reg)) →
      Kept (whenAt s r at_ f) := by
    intro r at_ f hf
    unfold whenAt
    split
    · rename_i reg hreg
      split
      · rename_i hphase
        exact hf reg hreg hphase
      · exact hk
    · exact hk
  cases e with
  | register h verified =>
    simp only [step]
    split
    · exact hk.register h
    · exact hk
  | replied r sent =>
    simp only [step]
    refine hwhen r _ _ fun reg hreg _ => ?_
    split
    · exact hk.setRegistration hreg rfl id fun _ _ => Or.inl rfl
    · exact hk.setRegistration hreg rfl (fun _ => rfl) fun _ _ => Or.inr rfl
  | recv r =>
    simp only [step]
    refine hwhen r _ _ fun reg hreg _ => ?_
    unfold State.recv
    split
    · exact hk.setRegistration hreg rfl id fun _ _ => Or.inl rfl
    · split
      · exact hk
      · -- the registry's sender is gone, so it is not listed
        rename_i hnosender
        refine hk.setRegistration hreg rfl id fun hlisted _ => ?_
        simp [State.hasSender, hlisted] at hnosender
  | bridgeEnds r =>
    simp only [step]
    exact hwhen r _ _ fun reg hreg _ => hk.setRegistration hreg rfl id fun _ _ => Or.inl rfl
  | removes r =>
    simp only [step]
    refine hwhen r _ _ fun reg hreg hphase => ?_
    have hleaving : reg.phase = .leaving := of_decide_eq_true hphase
    have hremoved := hk.remove (hnone reg hreg hleaving)
    refine hremoved.setRegistration hreg rfl id fun _ hlistening => ?_
    rw [hleaving] at hlistening
    cases hlistening
  | circuitEnds r =>
    simp only [step]
    exact hwhen r _ _ fun reg hreg _ => hk.setRegistration hreg rfl (fun _ => rfl) fun _ _ => Or.inr rfl
  | connect h =>
    simp only [step]
    split
    · exact hk.clients _
    · exact hk
  | sends c =>
    simp only [step]
    split
    · split
      · rename_i client _ _
        unfold State.send
        split
        · exact hk
        · rename_i reg hreg
          split
          · exact hk.clients _
          · split
            · have hk' : Kept (s.setRegistration client.sender { reg with queue := reg.queue ++ [c] }) :=
                hk.setRegistration hreg rfl id fun _ h => Or.inl h
              exact hk'.clients _
            · exact hk
      · exact hk
    · exact hk
  | clientEnds c =>
    simp only [step]
    split
    · split
      · exact hk.clients _
      · exact hk
    · exact hk

/-! ### Runs -/

/-- The latest registration of an address over a circuit that has not ended is the one a client reaches, all along a
run, just when no task that goes to remove its address finds another one there whose circuit has not ended. -/
theorem latest_run (es : List Event) :
    (∀ k, LatestWins (run step .start (es.take k))) ↔ Along step FindsNone .start es :=
  always_iff_along (fun _ hk => hk.latestWins) (fun _ e hk hnone => kept_step e hk hnone)
    (fun _ _ hk hfinds => hk.not_latestWins hfinds) kept_start es

private def hashA : Bytes := [1]

/-- A service registers twice; the first registration's task wakes and removes the second. -/
theorem not_latest : ∃ es : List Event, ¬ LatestWins (run step .start es) := by
  refine ⟨[.register hashA true, .replied 0 true, .register hashA true, .replied 1 true, .recv 0, .removes 0],
    fun h => ?_⟩
  have hnone : reached (run step .start [.register hashA true, .replied 0 true, .register hashA true,
      .replied 1 true, .recv 0, .removes 0]) hashA = none := by decide
  have hsome := h hashA 1 ⟨hashA, .waiting, [], false⟩ (by decide) (by decide) rfl
  rw [hnone] at hsome
  cases hsome

/-- A client that is led to a registration before it is replaced stays there, and the next one goes to the new one. -/
example : reached (run step .start [.register hashA true, .replied 0 true, .connect hashA, .sends 0, .recv 0,
    .register hashA true, .replied 1 true, .bridgeEnds 0, .connect hashA, .sends 1, .recv 1]) hashA = some 1 := by
  decide

end HidraNet.Relay.Intro
