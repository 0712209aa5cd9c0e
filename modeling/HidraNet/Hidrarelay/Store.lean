import HidraNet.Hidrarelay.Admitted

/-!
# The store and its stop

What is retained is written to disk by one thread, in batches, from a bounded queue: a write is queued before the
relay changes what it holds in memory.  `Server.send` is the queue's word on a write, `Server.writer` the thread,
`Server.stopping` the sequence in which `serve` takes the store out, closes its queue and waits for the thread; a
connection or the sweep may come between any two of these steps.

While the relay has its store, the disk with what is still to be written is the memory (`Behind`).  Once the store was
taken a publish finds none, and changes the memory alone: memory and disk agree at the end of every run in which
nothing more is kept or removed in that time (`serve_agrees`).
-/

namespace HidraNet.Hidrarelay

open Maps Runs Retained

inductive StoreOp (P : Type*) where
  | put (topic : Topic) (payload : P)
  | delete (topic : Topic)
deriving DecidableEq

/-- The thread that writes: waiting, gathering a batch, about to write one, gone. -/
inductive Writer (P : Type*) where
  | waiting
  | gathering (batch : List (StoreOp P))
  | writing (batch : List (StoreOp P))
  | ended
deriving DecidableEq

/-- How far the stop of `serve` is. -/
inductive Stop where
  | serving
  /-- `store.take()` was called. -/
  | taken
  | closed
  /-- The thread was joined, and `serve` returned. -/
  | returned
deriving DecidableEq

abbrev Rows (P : Type*) := Topic → Option P

def Rows.write {P : Type*} (rows : Rows P) : StoreOp P → Rows P
  | .put topic payload => Function.update rows topic (some payload)
  | .delete topic => Function.update rows topic none

def execute {P : Type*} (disk : Map Topic P) : StoreOp P → Map Topic P
  | .put topic payload => disk.set topic payload
  | .delete topic => disk.remove topic

/-- `write_batch`, all of it or, on an error, nothing. -/
def writeBatch {P : Type*} (disk : Map Topic P) (batch : List (StoreOp P)) : Map Topic P := run execute disk batch

structure Server (P : Type*) where
  retained : Retained (Arc P)
  queue : List (StoreOp P)
  writer : Writer P
  disk : Map Topic P
  stop : Stop
  /-- Every retained publish that was accepted and every removal made, in order. -/
  accepted : List (StoreOp P)

inductive Input (P : Type*) where
  /-- A publish that the policy prepared, with the word of its `admit` and its `meta`. -/
  | publish (topic : Topic) (payload : Arc P) (retain : Bool) (reason : Option String) (m : Meta) (now : Nat)
  | sweep (gone : List Topic)
  | write
  | stop

namespace Server

variable {P : Type*}

/-- `try_send`, on a queue of `STORE_QUEUE`. -/
def send (s : Server P) (op : StoreOp P) : Bool × Server P :=
  if s.queue.length < storeQueue then (true, { s with queue := s.queue ++ [op] }) else (false, s)

def queued (s : Server P) (op : StoreOp P) : Bool × Server P :=
  match s.stop with
  | .serving => s.send op
  | _ => (true, s)

/-- One step of the thread; `recv` fails once the queue is closed and empty. -/
def write (s : Server P) : Server P :=
  match s.writer with
  | .waiting =>
    match s.queue with
    | op :: rest => { s with writer := .gathering [op], queue := rest }
    | [] => if s.stop = .closed then { s with writer := .ended } else s
  | .gathering batch =>
    match s.queue with
    | op :: rest =>
      if batch.length < storeBatch then { s with writer := .gathering (batch ++ [op]), queue := rest }
      else { s with writer := .writing batch }
    | [] => { s with writer := .writing batch }
  | .writing batch => { s with disk := writeBatch s.disk batch, writer := .waiting }
  | .ended => s

/-- The next step of the stop; the thread is waited for at the last one. -/
def stopping (s : Server P) : Server P :=
  match s.stop with
  | .serving => { s with stop := .taken }
  | .taken => { s with stop := .closed }
  | .closed => match s.writer with
    | .ended => { s with stop := .returned }
    | _ => s
  | .returned => s

section

variable [Payload P] [DecidableEq P]

def admits (s : Server P) (topic : Topic) (payload : Arc P) (retain : Bool) (reason : Option String) (m : Meta) :
    Bool :=
  !(retain && !isEmpty payload.val && s.retained.holds topic payload.val) &&
    !(retain && !isEmpty payload.val && (s.retained.refuseRoom topic (len payload) m).isSome) && reason.isNone

/-- `publish`: disk first, memory second. -/
def publish (s : Server P) (topic : Topic) (payload : Arc P) (retain : Bool) (reason : Option String) (m : Meta)
    (now : Nat) : Bool × Server P :=
  if !s.admits topic payload retain reason m then (false, s)
  else if retain then
    let op := if isEmpty payload.val then .delete topic else .put topic payload.val
    let (queued, s) := s.queued op
    if !queued then (false, s)
    else
      let retained := if isEmpty payload.val then (s.retained.remove topic).2
        else s.retained.insertAt topic payload m now
      (true, { s with retained, accepted := s.accepted ++ [op] })
  else (true, s)

omit [DecidableEq P] in
def removeSwept (s : Server P) (topic : Topic) : Server P :=
  let (queued, s) := s.queued (.delete topic)
  if queued then { s with retained := (s.retained.remove topic).2, accepted := s.accepted ++ [.delete topic] }
  else s

/-- Nothing is done once `serve` has returned. -/
def step (s : Server P) (i : Input P) : Server P :=
  if s.stop = .returned then s
  else match i with
    | .publish topic payload retain reason m now => (s.publish topic payload retain reason m now).2
    | .sweep gone => run removeSwept s gone
    | .write => s.write
    | .stop => s.stopping

end

/-- The relay as `bind` opens it: the rows are loaded, with the policy's `meta` of each. -/
def opened [Payload P] (meta' : Topic → P → Meta) (disk : Map Topic P) : Server P where
  retained := disk.entries.foldl (fun r e => r.insertAt e.1 ⟨0, e.2⟩ (meta' e.1 e.2) 0) Retained.empty
  queue := []
  writer := .waiting
  disk := disk
  stop := .serving
  accepted := []

/-! ### What is still to be written -/

def memory (r : Retained (Arc P)) : Rows P := fun topic => (r.get topic).map Arc.val

def unwritten (s : Server P) : List (StoreOp P) :=
  match s.writer with
  | .gathering batch => batch ++ s.queue
  | .writing batch => batch ++ s.queue
  | _ => s.queue

/-- The disk is behind by what is still to be written, and by no more; what was accepted made the memory from the rows
that were loaded. -/
structure Behind (rows : Rows P) (s : Server P) : Prop where
  disk : run Rows.write s.disk.get? s.unwritten = memory s.retained
  accepted : run Rows.write rows s.accepted = memory s.retained
  ended : s.writer = .ended → s.queue = [] ∧ s.stop ≠ .serving
  returned : s.stop = .returned → s.writer = .ended

theorem get?_execute (disk : Map Topic P) (op : StoreOp P) : (execute disk op).get? = Rows.write disk.get? op := by
  funext topic
  cases op with
  | put t payload =>
    change (disk.set t payload).get? topic = Function.update disk.get? t (some payload) topic
    rw [Map.get?_set, Function.update_apply]
  | delete t =>
    change (disk.remove t).get? topic = Function.update disk.get? t none topic
    rw [Map.get?_remove, Function.update_apply]

theorem get?_writeBatch (disk : Map Topic P) (batch : List (StoreOp P)) :
    (writeBatch disk batch).get? = run Rows.write disk.get? batch := by
  unfold writeBatch
  induction batch generalizing disk with
  | nil => rfl
  | cons op batch ih => rw [run_cons, run_cons, ih, get?_execute]

theorem unwritten_append (s : Server P) (op : StoreOp P) (r : Retained (Arc P)) (done : List (StoreOp P)) :
    unwritten { s with queue := s.queue ++ [op], retained := r, accepted := done } = s.unwritten ++ [op] := by
  unfold unwritten
  cases s.writer <;> simp

theorem write_keeps (s : Server P) :
    run Rows.write s.write.disk.get? s.write.unwritten = run Rows.write s.disk.get? s.unwritten := by
  unfold write
  cases hwriter : s.writer with
  | waiting =>
    cases hqueue : s.queue with
    | nil =>
      dsimp only
      split <;> simp [unwritten, hwriter, hqueue]
    | cons op rest => simp [unwritten, hwriter, hqueue]
  | gathering batch =>
    cases hqueue : s.queue with
    | nil => simp [unwritten, hwriter, hqueue]
    | cons op rest =>
      dsimp only
      split <;> simp [unwritten, hwriter, hqueue]
  | writing batch =>
    have hdone : unwritten s = batch ++ s.queue := by
      unfold unwritten
      rw [hwriter]
    rw [hdone, run_append, ← get?_writeBatch s.disk batch]
    simp only [unwritten]
  | ended => rfl

variable {rows : Rows P} {s : Server P}

theorem write_cases (s : Server P) :
    s.write = s ∨ (∃ w q d, w ≠ .ended ∧ s.write = { s with writer := w, queue := q, disk := d }) ∨
      s.queue = [] ∧ s.stop = .closed ∧ s.write = { s with writer := .ended } := by
  unfold write
  cases s.writer with
  | waiting =>
    cases hqueue : s.queue with
    | nil =>
      dsimp only
      split
      · rename_i hclosed
        exact Or.inr (Or.inr ⟨rfl, hclosed, rfl⟩)
      · exact Or.inl rfl
    | cons op rest => exact Or.inr (Or.inl ⟨_, _, _, by simp, rfl⟩)
  | gathering batch =>
    refine Or.inr (Or.inl ?_)
    cases hqueue : s.queue with
    | nil => exact ⟨_, _, _, by simp, rfl⟩
    | cons op rest =>
      dsimp only
      split
      · exact ⟨_, _, _, by simp, rfl⟩
      · exact ⟨_, _, _, by simp, rfl⟩
  | writing batch => exact Or.inr (Or.inl ⟨_, _, _, by simp, rfl⟩)
  | ended => exact Or.inl rfl

theorem behind_write (h : Behind rows s) (hstop : s.stop ≠ .returned) : Behind rows s.write := by
  have hdisk := write_keeps s
  rw [h.disk] at hdisk
  obtain heq | ⟨w, q, d, hw, heq⟩ | ⟨hqueue, hclosed, heq⟩ := write_cases s
  · rwa [heq]
  · rw [heq] at hdisk ⊢
    exact ⟨hdisk, h.accepted, fun hended => absurd hended hw, fun hreturned => absurd hreturned hstop⟩
  · rw [heq] at hdisk ⊢
    refine ⟨hdisk, h.accepted, fun _ => ⟨hqueue, ?_⟩, fun _ => rfl⟩
    simp [hclosed]

theorem stopping_cases (s : Server P) :
    ∃ p, p ≠ .serving ∧ (p = .returned → s.stop = .returned ∨ s.writer = .ended) ∧ s.stopping = { s with stop := p } := by
  obtain ⟨retained, queue, writer, disk, stop, accepted⟩ := s
  cases stop with
  | serving => exact ⟨.taken, by simp, by simp, rfl⟩
  | taken => exact ⟨.closed, by simp, by simp, rfl⟩
  | closed =>
    cases writer with
    | ended => exact ⟨.returned, by simp, fun _ => Or.inr rfl, rfl⟩
    | waiting => exact ⟨.closed, by simp, by simp, rfl⟩
    | gathering batch => exact ⟨.closed, by simp, by simp, rfl⟩
    | writing batch => exact ⟨.closed, by simp, by simp, rfl⟩
  | returned => exact ⟨.returned, by simp, fun _ => Or.inl rfl, rfl⟩

theorem behind_stopping (h : Behind rows s) : Behind rows s.stopping := by
  obtain ⟨p, hp, hreturned, heq⟩ := stopping_cases s
  rw [heq]
  exact ⟨h.disk, h.accepted, fun hended => ⟨(h.ended hended).1, hp⟩, fun hp => (hreturned hp).elim h.returned id⟩

/-! ### What is kept and removed -/

variable [Payload P]

theorem memory_insertAt (r : Retained (Arc P)) (topic : Topic) (payload : Arc P) (m : Meta) (now : Nat) :
    memory (r.insertAt topic payload m now) = (memory r).write (.put topic payload.val) := by
  funext other
  unfold memory Retained.get Rows.write
  dsimp only
  rw [get?_insertAt, Function.update_apply]
  split <;> rfl

theorem memory_remove (r : Retained (Arc P)) (topic : Topic) :
    memory (r.remove topic).2 = (memory r).write (.delete topic) := by
  funext other
  unfold memory Retained.get Rows.write
  dsimp only
  rw [get?_remove, Function.update_apply]
  split <;> rfl

omit [Payload P] in
theorem memory_delete_absent {r : Retained (Arc P)} {topic : Topic} (h : r.map.contains topic = false) :
    (memory r).write (.delete topic) = memory r := by
  have hnone : r.map.get? topic = none := by simpa [Map.contains] using h
  apply Function.update_eq_self_iff.2
  unfold memory Retained.get
  rw [hnone]
  rfl

omit [Payload P] in
theorem queued_cases (s : Server P) (op : StoreOp P) :
    s.queued op = (false, s) ∨ s.stop = .serving ∧ s.queued op = (true, { s with queue := s.queue ++ [op] }) ∨
      s.stop ≠ .serving ∧ s.queued op = (true, s) := by
  unfold queued
  cases hstop : s.stop with
  | serving =>
    unfold send
    dsimp only
    split
    · exact Or.inr (Or.inl ⟨rfl, by rw [hstop]⟩)
    · exact Or.inl rfl
  | taken => exact Or.inr (Or.inr ⟨by simp, rfl⟩)
  | closed => exact Or.inr (Or.inr ⟨by simp, rfl⟩)
  | returned => exact Or.inr (Or.inr ⟨by simp, rfl⟩)

def changed (s : Server P) (op : StoreOp P) (r : Retained (Arc P)) : Server P :=
  { (s.queued op).2 with retained := r, accepted := s.accepted ++ [op] }

def gone (s : Server P) : Prop := s.stop = .taken ∨ s.stop = .closed

omit [Payload P] in
theorem behind_changed (h : Behind rows s) (hstop : s.stop ≠ .returned) {op : StoreOp P} {r : Retained (Arc P)}
    (hqueued : (s.queued op).1 = true) (hr : memory r = (memory s.retained).write op)
    (hcalm : s.gone → memory r = memory s.retained) : Behind rows (s.changed op r) := by
  have haccepted : run Rows.write rows (s.accepted ++ [op]) = memory r := by
    rw [run_append, h.accepted, hr]
    rfl
  unfold changed
  obtain hfull | ⟨hserving, hsend⟩ | ⟨hserving, hsame⟩ := queued_cases s op
  · rw [hfull] at hqueued
    cases hqueued
  · rw [hsend]
    refine ⟨?_, haccepted, fun hended => absurd hserving (h.ended hended).2, h.returned⟩
    change run Rows.write s.disk.get? (unwritten { s with queue := _, retained := _, accepted := _ }) = _
    rw [unwritten_append, run_append, h.disk, hr]
    rfl
  · have hgone : s.gone := by
      unfold gone
      cases hcase : s.stop <;> simp_all
    rw [hsame]
    refine ⟨?_, haccepted, h.ended, h.returned⟩
    rw [hcalm hgone]
    exact h.disk

variable [DecidableEq P]

/-- A publish changes nothing, or what is kept and the queue by the same operation. -/
theorem publish_cases (s : Server P) (topic : Topic) (payload : Arc P) (retain : Bool) (reason : Option String)
    (m : Meta) (now : Nat) :
    (s.publish topic payload retain reason m now).2 = s ∨
      ∃ op r, retain = true ∧ s.admits topic payload retain reason m = true ∧ (s.queued op).1 = true ∧
        (op = .delete topic ∨ isEmpty payload.val = false) ∧ memory r = (memory s.retained).write op ∧
        s.publish topic payload retain reason m now = (true, s.changed op r) := by
  unfold publish
  split
  · exact Or.inl rfl
  rename_i hadmits
  have hadmitted : s.admits topic payload retain reason m = true := by simpa using hadmits
  cases retain with
  | false => exact Or.inl rfl
  | true =>
    rw [if_pos rfl]
    dsimp only
    generalize hop : (if isEmpty payload.val = true then StoreOp.delete topic else .put topic payload.val) = op
    obtain hfull | htaken : s.queued op = (false, s) ∨ ∃ q, s.queued op = (true, { s with queue := q }) := by
      obtain hfull | ⟨-, hsend⟩ | ⟨-, hsame⟩ := queued_cases s op
      · exact Or.inl hfull
      · exact Or.inr ⟨_, hsend⟩
      · exact Or.inr ⟨_, hsame⟩
    · exact Or.inl (by rw [hfull]; rfl)
    · obtain ⟨q, hq⟩ := htaken
      refine Or.inr ⟨op, if isEmpty payload.val = true then (s.retained.remove topic).2
        else s.retained.insertAt topic payload m now, rfl, hadmitted, by rw [hq], ?_, ?_, ?_⟩
      · rw [← hop]
        split
        · exact Or.inl rfl
        · rename_i hempty
          exact Or.inr (eq_false_of_ne_true hempty)
      · rw [← hop]
        split
        · exact memory_remove _ _
        · exact memory_insertAt _ _ _ _ _
      · unfold changed
        rw [hq]
        rfl

/-! ### Runs -/

/-- While the relay's store is gone, nothing more is kept or removed: a retained publish is refused, or deletes what is
not kept, and a sweep finds nothing. -/
def Calm (s : Server P) : Input P → Prop
  | .publish topic payload retain reason m _ =>
    s.gone → retain = true → s.admits topic payload retain reason m = true →
      isEmpty payload.val = true ∧ s.retained.map.contains topic = false
  | .sweep gone => s.gone → ∀ topic ∈ gone, s.retained.map.contains topic = false
  | _ => True

omit [DecidableEq P] in
theorem behind_removeSwept (h : Behind rows s) (hstop : s.stop ≠ .returned) {topic : Topic}
    (hcalm : s.gone → s.retained.map.contains topic = false) :
    Behind rows (s.removeSwept topic) ∧ (s.removeSwept topic).stop = s.stop ∧
      ∀ t, s.retained.map.contains t = false → (s.removeSwept topic).retained.map.contains t = false := by
  have hqueued := queued_cases s (.delete topic)
  have hrest (t : Topic) (ht : s.retained.map.contains t = false) :
      (s.retained.remove topic).2.map.contains t = false := by
    unfold Map.contains at ht ⊢
    rw [get?_remove]
    split
    · rfl
    · exact ht
  have hchanged (hyes : (s.queued (.delete topic)).1 = true) :
      Behind rows (s.changed (.delete topic) (s.retained.remove topic).2) := by
    refine behind_changed h hstop hyes (memory_remove _ _) fun hgone => ?_
    rw [memory_remove, memory_delete_absent (hcalm hgone)]
  unfold removeSwept
  unfold changed at hchanged
  obtain hfull | ⟨-, hsend⟩ | ⟨-, hsame⟩ := hqueued
  · rw [hfull]
    exact ⟨h, rfl, fun _ ht => ht⟩
  · rw [hsend] at hchanged ⊢
    exact ⟨hchanged rfl, rfl, hrest⟩
  · rw [hsame] at hchanged ⊢
    exact ⟨hchanged rfl, rfl, hrest⟩

omit [DecidableEq P] in
theorem behind_sweep {gone : List Topic} (h : Behind rows s) (hstop : s.stop ≠ .returned)
    (hcalm : s.gone → ∀ topic ∈ gone, s.retained.map.contains topic = false) :
    Behind rows (run removeSwept s gone) := by
  induction gone generalizing s with
  | nil => exact h
  | cons topic gone ih =>
    obtain ⟨hnext, hsame, hrest⟩ :=
      behind_removeSwept h hstop fun hg => hcalm hg topic (List.mem_cons_self ..)
    refine ih hnext (by rwa [hsame]) fun hg t ht => hrest t ?_
    refine hcalm ?_ t (List.mem_cons_of_mem _ ht)
    unfold Server.gone at hg ⊢
    rwa [hsame] at hg

theorem behind_step (h : Behind rows s) {i : Input P} (hcalm : s.Calm i) : Behind rows (s.step i) := by
  unfold step
  split
  · exact h
  rename_i hstop
  cases i with
  | publish topic payload retain reason m now =>
    obtain hsame | ⟨op, r, hretain, hadmits, hqueued, hop, hr, heq⟩ :=
      publish_cases s topic payload retain reason m now
    · dsimp only
      rwa [hsame]
    · dsimp only
      rw [heq]
      refine behind_changed h hstop hqueued hr fun hgone => ?_
      obtain ⟨hempty, habsent⟩ := hcalm hgone hretain hadmits
      obtain rfl | hnonempty := hop
      · rw [hr, memory_delete_absent habsent]
      · rw [hempty] at hnonempty
        cases hnonempty
  | sweep gone => exact behind_sweep h hstop hcalm
  | write => exact behind_write h hstop
  | stop => exact behind_stopping h

omit [DecidableEq P] in
theorem memory_load (meta' : Topic → P → Meta) {es : List (Topic × P)} (hnodup : (es.map Prod.fst).Nodup)
    (r : Retained (Arc P)) (topic : Topic) :
    memory (es.foldl (fun r e => r.insertAt e.1 ⟨0, e.2⟩ (meta' e.1 e.2) 0) r) topic =
      ((es.find? (·.1 = topic)).map Prod.snd).or (memory r topic) := by
  induction es generalizing r with
  | nil => rfl
  | cons e es ih =>
    rw [List.map_cons, List.nodup_cons] at hnodup
    rw [List.foldl_cons, ih hnodup.2, memory_insertAt, Rows.write, Function.update_apply]
    by_cases htopic : e.1 = topic
    · have hnone : es.find? (·.1 = topic) = none := by
        rw [List.find?_eq_none]
        intro e' he' hsame
        rw [decide_eq_true_eq, ← htopic] at hsame
        exact hnodup.1 (hsame ▸ List.mem_map_of_mem he')
      simp [htopic, hnone]
    · have hother : ¬ topic = e.1 := fun h => htopic h.symm
      simp [htopic, hother]

omit [DecidableEq P] in
theorem behind_opened (meta' : Topic → P → Meta) (disk : Map Topic P) : Behind disk.get? (opened meta' disk) := by
  have hload : memory (opened meta' disk).retained = disk.get? := by
    funext topic
    change memory (disk.entries.foldl _ _) topic = _
    rw [memory_load meta' disk.nodup]
    exact Option.or_none
  exact ⟨hload.symm, hload.symm, by simp [opened], by simp [opened]⟩

/-- In a run in which nothing more is kept or removed while the store is gone, `serve` returns to a disk that holds
what the memory holds, and what the accepted publishes and the removals made of the rows that were loaded. -/
theorem serve_agrees (meta' : Topic → P → Meta) (disk : Map Topic P) (is : List (Input P))
    (hcalm : Along step Calm (opened meta' disk) is) (hreturned : (run step (opened meta' disk) is).stop = .returned) :
    let s := run step (opened meta' disk) is
    s.disk.get? = memory s.retained ∧ s.disk.get? = run Rows.write disk.get? s.accepted := by
  have h : Behind disk.get? (run step (opened meta' disk) is) :=
    run_invariant (P := Behind disk.get?) (fun _ _ hs hi => behind_step hs hi) hcalm (behind_opened meta' disk)
  have hended := h.returned hreturned
  have hdisk : (run step (opened meta' disk) is).disk.get? = memory (run step (opened meta' disk) is).retained := by
    rw [← h.disk]
    unfold unwritten
    rw [hended, (h.ended hended).1]
    rfl
  exact ⟨hdisk, hdisk.trans h.accepted.symm⟩

instance decidableCalm (s : Server P) (i : Input P) : Decidable (s.Calm i) := by
  unfold Calm gone
  cases i <;> dsimp only <;> infer_instance

def chatTopic : Topic := ["hforum", "t", "t1"]

def onePublish : Input (List UInt8) := .publish chatTopic ⟨0, [1]⟩ true none Meta.default 0

theorem serve_agrees_after_stop :
    let s := run step (opened (fun _ _ => Meta.default) .empty)
      [onePublish, .stop, .stop, .write, .write, .write, .write, .stop]
    s.disk.get? = memory s.retained ∧ s.disk.get? = run Rows.write (Map.get? (.empty : Map Topic (List UInt8))) s.accepted :=
  serve_agrees (fun _ _ => Meta.default) .empty
    [onePublish, .stop, .stop, .write, .write, .write, .write, .stop] (by decide) (by decide)

/-- A publish between the taking of the store and the return of `serve` is accepted, and is not on disk. -/
theorem late_publish_lost :
    let s := run step (opened (fun _ _ => Meta.default) (.empty : Map Topic (List UInt8)))
      [.stop, onePublish, .stop, .write, .stop]
    ((opened (fun _ _ => Meta.default) (.empty : Map Topic (List UInt8))).stopping.publish chatTopic ⟨0, [1]⟩ true none
        Meta.default 0).1 = true ∧
      s.stop = .returned ∧ memory s.retained chatTopic = some [1] ∧ s.disk.get? chatTopic = none := by
  decide

/-! ### The forum's relay -/

theorem publish_forum (env : Env P) (pol : ForumPolicy) (cache : Cache) (fact : Fact) (meter : Bool) (s : Server P)
    (topic : Topic) (payload : Arc P) (retain : Bool) (m : Meta) (now : Nat) :
    let reason := (weigh env pol meter cache fact topic s.retained).1
    let op := if isEmpty payload.val then .delete topic else .put topic payload.val
    let out := Hidrarelay.publish env pol ⟨s.retained, cache⟩ topic payload retain fact m now meter (s.queued op).1
    (s.publish topic payload retain reason m now).1 = out.1 ∧
      (s.publish topic payload retain reason m now).2.retained = out.2.retained := by
  unfold Server.publish admits Hidrarelay.publish
  dsimp only
  by_cases hholds : retain = true ∧ (!isEmpty payload.val) = true ∧ s.retained.holds topic payload.val = true
  · simp [hholds]
  by_cases hroom : retain = true ∧ (!isEmpty payload.val) = true ∧
      (s.retained.refuseRoom topic (len payload) m).isSome = true
  · simp [hroom]
  rw [if_neg hholds, if_neg hroom]
  have hadmits (reason : Option String) :
      (!(!(retain && !isEmpty payload.val && s.retained.holds topic payload.val) &&
        !(retain && !isEmpty payload.val && (s.retained.refuseRoom topic (len payload) m).isSome) &&
          reason.isNone)) = reason.isSome := by
    cases retain <;> cases hempty : isEmpty payload.val <;> cases reason <;> simp_all
  rw [hadmits]
  split
  · exact ⟨rfl, rfl⟩
  cases retain with
  | false => exact ⟨rfl, rfl⟩
  | true =>
    rw [if_pos rfl, if_pos rfl]
    generalize (if isEmpty payload.val = true then StoreOp.delete topic else .put topic payload.val) = op
    obtain hfull | ⟨-, hsend⟩ | ⟨-, hsame⟩ := queued_cases s op
    · rw [hfull]
      exact ⟨rfl, rfl⟩
    · rw [hsend]
      cases isEmpty payload.val <;> exact ⟨rfl, rfl⟩
    · rw [hsame]
      cases isEmpty payload.val <;> exact ⟨rfl, rfl⟩

end Server

end HidraNet.Hidrarelay
