import HidraNet.Core.Pass
import HidraNet.Lib.Runs

/-!
# The bridge

At its introduction point a hidden service's circuit and a client's are joined by two tasks and two channels.  A task
takes a cell of its own circuit, or an item the other task has sent, and carries it over before it takes the next; a
full channel holds it there, and it takes nothing from the other direction either.

Two tasks that wait for each other's channel wait for ever (`stuckForever_iff`).  They come to it just when one takes
data off its circuit while its channel is full and the other is already held (`stuck_run`), which bursts in both
directions do (`not_flowing`).
-/

namespace HidraNet.Relay.Bridge

open HidraNet.Core (Bytes)
open Runs

def CHANNEL_CAPACITY : Nat := 256

inductive Side where
  | service
  | client
deriving DecidableEq

def Side.other : Side → Side
  | service => client
  | client => service

/-- What a task reads from its circuit. -/
inductive Cell where
  | data (payload : Bytes)
  | ends
  | other
  /-- The link is closed, or what it carries does not open. -/
  | fails
deriving DecidableEq

inductive Phase where
  | selecting
  /-- In `to_other.send(payload)`. -/
  | sending (payload : Bytes)
  | done
deriving DecidableEq

def Phase.isSending : Phase → Bool
  | sending _ => true
  | selecting | done => false

structure Task where
  link : List Cell
  phase : Phase
  channel : List Bytes
  carried : List Bytes
deriving DecidableEq

structure State where
  service : Task
  client : Task
deriving DecidableEq

namespace State

def start : State := ⟨⟨[], .selecting, [], []⟩, ⟨[], .selecting, [], []⟩⟩

def task (s : State) : Side → Task
  | .service => s.service
  | .client => s.client

def setTask (s : State) (x : Side) (t : Task) : State :=
  match x with
  | .service => { s with service := t }
  | .client => { s with client := t }

@[simp] theorem task_setTask_self (s : State) (x : Side) (t : Task) : (s.setTask x t).task x = t := by
  cases x <;> rfl

@[simp] theorem task_setTask_other (s : State) (x : Side) (t : Task) :
    (s.setTask x t).task x.other = s.task x.other := by
  cases x <;> rfl

theorem task_setTask (s : State) (x y : Side) (t : Task) :
    (s.setTask x t).task y = if y = x then t else s.task y := by
  cases x <;> cases y <;> rfl

end State

theorem Side.forall_iff {x : Side} {p : Side → Prop} : (∀ y, p y) ↔ p x ∧ p x.other := by
  constructor
  · intro h
    exact ⟨h x, h x.other⟩
  · rintro ⟨hx, hother⟩ y
    cases x <;> cases y <;> assumption

inductive Event where
  /-- A cell comes over the circuit of `x`. -/
  | arrives (x : Side) (c : Cell)
  | takesCell (x : Side)
  | takesItem (x : Side)
  | pushes (x : Side)
deriving DecidableEq

def Cell.next : Cell → Phase
  | data payload => .sending payload
  | ends | fails => .done
  | other => .selecting

open State in
def step (s : State) : Event → State
  | .arrives x c => s.setTask x { s.task x with link := (s.task x).link ++ [c] }
  | .takesCell x =>
    match (s.task x).phase, (s.task x).link with
    | .selecting, c :: link => s.setTask x { s.task x with link, phase := c.next }
    | _, _ => s
  | .takesItem x =>
    match (s.task x).phase, (s.task x.other).channel with
    | .selecting, item :: channel =>
      (s.setTask x { s.task x with carried := (s.task x).carried ++ [item] }).setTask x.other
        { s.task x.other with channel }
    | .selecting, [] => if (s.task x.other).phase = .done then s.setTask x { s.task x with phase := .done } else s
    | _, _ => s
  | .pushes x =>
    match (s.task x).phase with
    | .sending payload =>
      if (s.task x.other).phase = .done then s.setTask x { s.task x with phase := .done }
      else if (s.task x).channel.length < CHANNEL_CAPACITY then
        s.setTask x { s.task x with channel := (s.task x).channel ++ [payload], phase := .selecting }
      else s
    | _ => s

def Held (t : Task) : Prop := t.phase.isSending = true ∧ CHANNEL_CAPACITY ≤ t.channel.length

def StuckForever (s : State) : Prop :=
  (∀ es x, ((run step s es).task x).phase.isSending = true) ∧
    ∀ x, (s.task x).channel ≠ [] ∧ Cell.fails ∉ (s.task x).link

def LeavesRoom (s : State) : Event → Prop
  | .takesCell x => ∀ payload link, (s.task x).phase = .selecting → (s.task x).link = .data payload :: link →
      CHANNEL_CAPACITY ≤ (s.task x).channel.length → Held (s.task x.other) →
      Cell.fails ∈ link ∨ Cell.fails ∈ (s.task x.other).link
  | _ => True

variable {s : State}

theorem held_step (h : ∀ x, Held (s.task x)) (e : Event) (x : Side) :
    Held ((step s e).task x) ∧ ∀ c ∈ (s.task x).link, c ∈ ((step s e).task x).link := by
  have hphase : ∀ x, ∃ payload, (s.task x).phase = .sending payload := by
    intro x
    have hx := (h x).1
    cases hp : (s.task x).phase with
    | sending payload => exact ⟨payload, rfl⟩
    | selecting => simp [hp, Phase.isSending] at hx
    | done => simp [hp, Phase.isSending] at hx
  have hsame : Held (s.task x) ∧ ∀ c ∈ (s.task x).link, c ∈ (s.task x).link := ⟨h x, fun _ hc => hc⟩
  cases e with
  | arrives y c =>
    simp only [step, State.task_setTask]
    split
    · rename_i hxy
      subst hxy
      exact ⟨h x, fun c' hc' => List.mem_append_left _ hc'⟩
    · exact hsame
  | takesCell y =>
    obtain ⟨payload, hy⟩ := hphase y
    simp only [step, hy]
    exact hsame
  | takesItem y =>
    obtain ⟨payload, hy⟩ := hphase y
    simp only [step, hy]
    exact hsame
  | pushes y =>
    obtain ⟨payload, hy⟩ := hphase y
    obtain ⟨payload', hother⟩ := hphase y.other
    have hfull := (h y).2
    simp only [step, hy, hother, reduceCtorEq, if_false, if_neg (not_lt.2 hfull)]
    exact hsame

theorem held_run (h : ∀ x, Held (s.task x)) (es : List Event) (x : Side) : Held ((run step s es).task x) := by
  have hall : ∀ y, Held ((run step s es).task y) :=
    run_always (P := fun s : State => ∀ y, Held (s.task y)) (fun _ e h y => (held_step h e y).1) h es
  exact hall x

/-- Two tasks are stuck for ever just when each is held. -/
theorem stuckForever_iff : StuckForever s ↔ ∀ x, Held (s.task x) ∧ Cell.fails ∉ (s.task x).link := by
  constructor
  · rintro ⟨hsending, hrest⟩ x
    have hx : (s.task x).phase.isSending = true := hsending [] x
    refine ⟨⟨hx, ?_⟩, (hrest x).2⟩
    by_contra hroom
    rw [not_le] at hroom
    -- with room in its channel the task would go on
    have hnext := hsending [.pushes x] x
    have hother := hsending [] x.other
    rw [run_nil] at hother
    cases hp : (s.task x).phase with
    | sending payload =>
      have hnot : ¬ (s.task x.other).phase = .done := by
        intro hdone
        simp [hdone, Phase.isSending] at hother
      simp [step, hp, hnot, hroom, Phase.isSending] at hnext
    | selecting => simp [hp, Phase.isSending] at hx
    | done => simp [hp, Phase.isSending] at hx
  · intro h
    have hheld : ∀ x, Held (s.task x) := fun x => (h x).1
    refine ⟨fun es x => (held_run hheld es x).1, fun x => ⟨?_, (h x).2⟩⟩
    intro hempty
    have := (hheld x).2
    rw [hempty] at this
    simp [CHANNEL_CAPACITY] at this

theorem takesCell_of_held {e : Event} {x : Side} (hnot : ¬ Held (s.task x)) (h : Held ((step s e).task x)) :
    ∃ payload link, e = .takesCell x ∧ (s.task x).phase = .selecting ∧ (s.task x).link = .data payload :: link ∧
      CHANNEL_CAPACITY ≤ (s.task x).channel.length ∧
      step s e = s.setTask x { s.task x with link, phase := .sending payload } := by
  cases e with
  | arrives y c =>
    simp only [step, State.task_setTask] at h
    split at h
    · rename_i hxy
      subst hxy
      exact absurd h hnot
    · exact absurd h hnot
  | takesCell y =>
    simp only [step] at h ⊢
    split at h
    · rename_i c link hphase hlink
      rw [State.task_setTask] at h
      split at h
      · rename_i hxy
        subst hxy
        cases c with
        | data payload =>
          rw [hphase, hlink]
          exact ⟨payload, link, rfl, rfl, rfl, h.2, rfl⟩
        | ends => simp [Held, Cell.next, Phase.isSending] at h
        | other => simp [Held, Cell.next, Phase.isSending] at h
        | fails => simp [Held, Cell.next, Phase.isSending] at h
      · exact absurd h hnot
    · exact absurd h hnot
  | takesItem y =>
    simp only [step] at h
    split at h
    · rename_i item channel hphase hchannel
      simp only [State.task_setTask] at h
      split at h
      · -- its channel was longer before
        rename_i hxy
        subst hxy
        refine absurd ⟨h.1, h.2.trans ?_⟩ hnot
        rw [hchannel]
        exact Nat.le_succ _
      · split at h
        · rename_i hxy
          subst hxy
          simp [Held, hphase, Phase.isSending] at h
        · exact absurd h hnot
    · split at h
      · rw [State.task_setTask] at h
        split at h
        · simp [Held, Phase.isSending] at h
        · exact absurd h hnot
      · exact absurd h hnot
    · exact absurd h hnot
  | pushes y =>
    simp only [step] at h
    split at h
    · split at h
      · rw [State.task_setTask] at h
        split at h
        · simp [Held, Phase.isSending] at h
        · exact absurd h hnot
      · split at h
        · rw [State.task_setTask] at h
          split at h
          · simp [Held, Phase.isSending] at h
          · exact absurd h hnot
        · exact absurd h hnot
    · exact absurd h hnot

theorem not_stuck_step {e : Event} (hnot : ¬ StuckForever s) (hroom : LeavesRoom s e) : ¬ StuckForever (step s e) := by
  intro hstuck
  rw [stuckForever_iff] at hnot hstuck
  by_cases hheld : ∀ x, Held (s.task x)
  · -- held already, so a circuit has ended
    refine hnot fun x => ⟨hheld x, fun hfails => ?_⟩
    exact (hstuck x).2 ((held_step hheld e x).2 _ hfails)
  · rw [not_forall] at hheld
    obtain ⟨x, hx⟩ := hheld
    obtain ⟨payload, link, rfl, hphase, hlink, hfull, hstep⟩ := takesCell_of_held hx (hstuck x).1
    have hself := (hstuck x).2
    have hother := hstuck x.other
    rw [hstep, State.task_setTask_self] at hself
    rw [hstep, State.task_setTask_other] at hother
    rcases hroom payload link hphase hlink hfull hother.1 with hfails | hfails
    · exact hself hfails
    · exact hother.2 hfails

theorem stuck_step {e : Event} (hroom : ¬ LeavesRoom s e) : StuckForever (step s e) := by
  cases e with
  | takesCell x =>
    simp only [LeavesRoom, not_forall, not_or] at hroom
    obtain ⟨payload, link, hphase, hlink, hfull, hother, hself, hfails⟩ := hroom
    rw [stuckForever_iff, Side.forall_iff (x := x)]
    simp only [step, hphase, hlink, State.task_setTask_self, State.task_setTask_other]
    exact ⟨⟨⟨rfl, hfull⟩, hself⟩, hother, hfails⟩
  | _ => exact absurd trivial hroom

/-! ### Runs -/

/-- Two bridged tasks never wait for each other for ever, all along a run, just when no task takes data off its
circuit while its channel is full and the other task is held. -/
theorem stuck_run (es : List Event) :
    (∀ k, ¬ StuckForever (run step .start (es.take k))) ↔ Along step LeavesRoom .start es := by
  refine always_iff_along (P := fun s => ¬ StuckForever s) (Q := fun s => ¬ StuckForever s) (fun _ h => h)
    (fun _ _ hnot hroom => not_stuck_step hnot hroom)
    (fun _ _ _ hroom hnot => hnot (stuck_step hroom)) (fun hstuck => ?_) es
  have hfull := ((stuckForever_iff.1 hstuck) .service).1.2
  simp [State.start, State.task, CHANNEL_CAPACITY] at hfull

private def burst (x : Side) (n : Nat) : List Event :=
  (List.replicate n [.arrives x (.data [0]), .takesCell x, .pushes x]).flatten

/-- More than the channel holds comes over both circuits at once. -/
theorem not_flowing : ∃ es : List Event, StuckForever (run step .start es) := by
  refine ⟨burst .service 257 ++ burst .client 257, stuckForever_iff.2 fun x => ?_⟩
  unfold Held
  cases x <;> decide +kernel

end HidraNet.Relay.Bridge
