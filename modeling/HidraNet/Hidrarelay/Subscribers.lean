import HidraNet.Hidrarelay.Broker

/-!
# What a subscriber gets

What is on its way to a client is a line of marks: the messages published for it and the retained copies owed to it,
those in its queue first, then what its connection owes it, then what is held.  Every packet puts marks at the end of
the line or moves its head on (`moved_next`), so that the messages reach the queue once and in order, and each
retained copy before the messages published after its SUBSCRIBE (`Delivered`, `delivered_run`).

A retained copy may overtake a message that is held: one of a topic that was given up and is subscribed again, when a
newer payload was kept in between.  Where no SUBSCRIBE meets such a message, the last payload a client got of a topic
is the one that is kept (`subscriber_gets`).
-/

namespace HidraNet.Hidrarelay

open Maps Runs Retained

/-- A frame or a debt as it stands in the line. -/
inductive Mark (P : Type*) where
  | live (k : Nat) (m : Message P)
  | copy (n : Nat) (topic : Topic) (payload : P)
  | turn (n : Nat) (topic : Topic)

variable {P : Type*}

namespace Mark

def message? : Mark P → Option (Message P × Nat)
  | live k m => some (m, k)
  | _ => none

def turn? : Mark P → Option (Nat × Topic)
  | turn n topic => some (n, topic)
  | _ => none

def copy? : Mark P → Option (Nat × Topic × P)
  | copy n topic payload => some (n, topic, payload)
  | _ => none

def Before : Mark P → Mark P → Prop
  | live k _, copy n _ _ => k < n
  | live k _, turn n _ => k < n
  | _, _ => True

def payload? (topic : Topic) (kept : P) : Mark P → Option P
  | live _ m => if m.retain ∧ m.topic = topic then some m.payload else none
  | copy _ t payload => if t = topic then some payload else none
  | turn _ t => if t = topic then some kept else none

end Mark

def Frame.mark? : Frame P → Option (Mark P)
  | .live k m => some (.live k m)
  | .kept n topic payload => some (.copy n topic payload)
  | _ => none

def Pending.mark? : Pending P → Option (Mark P)
  | .frame f => f.mark?
  | .retained n topic => some (.turn n topic)

def Frame.payload? (topic : Topic) : Frame P → Option P
  | .live _ m => if m.retain ∧ m.topic = topic then some m.payload else none
  | .kept _ t payload => if t = topic then some payload else none
  | _ => none

namespace Client

def ackOwed (c : Client P) : List (Nat × Topic) := (c.acking.map Prod.snd).getD []

def ahead (c : Client P) : List (Mark P) :=
  c.queue.filterMap Frame.mark? ++ c.pending.filterMap Pending.mark? ++ c.ackOwed.map fun o => .turn o.1 o.2

def held (c : Client P) : List (Mark P) := c.deferred.filterMap Frame.mark?

def lastGot (c : Client P) (topic : Topic) : Option P := (c.queue.filterMap (Frame.payload? topic)).getLast?

def lastHeld (c : Client P) (topic : Topic) : Option P := (c.deferred.filterMap (Frame.payload? topic)).getLast?

/-- How what is on its way lies in a client. -/
structure Settled (c : Client P) : Prop where
  live : ∀ f ∈ c.deferred, ∃ k m, f = .live k m
  head : (c.pending.tail.filterMap Pending.mark?).filterMap Mark.copy? = []
  reply : ∀ a, c.acking = some a → a.1.mark? = none
  loaded : c.loading = false → c.pending = [] ∧ c.ackOwed = [] ∧ c.deferred = []
  agreed : c.connLoading = c.loading

/-- What the line says of what was published and owed. -/
structure Line (c : Client P) : Prop where
  messages : (c.ahead ++ c.held).filterMap Mark.message? = c.covered.zipIdx
  turns : c.owed = (c.served.map fun x => (x.1, x.2.1)) ++ c.ahead.filterMap Mark.turn?
  copies : c.ahead.filterMap Mark.copy? = c.served.filterMap fun x => x.2.2.map (x.1, x.2.1, ·)
  before : c.ahead.Pairwise Mark.Before

/-- What a packet does to the line of the client `id`, and to the filters behind it. -/
inductive Moved (r : Retained P) (id : Nat) (c c' : Client P) : Packet P → Prop where
  | rests {p : Packet P} (hahead : c'.ahead = c.ahead) (hheld : c'.held = c.held) (hcovered : c'.covered = c.covered)
      (howed : c'.owed = c.owed) (hserved : c'.served = c.served)
      (hfilters : ∀ t, covers c'.filters t = true → covers c.filters t = true)
      (hquiet : ∀ m signed now room, p = .accept m signed now room → covers c.filters m.topic = false) : Moved r id c c' p
  | published {m : Message P} {signed : Meta} {now : Nat} {room : Nat → Bool} (hcovers : covers c.filters m.topic = true)
      (hline : c'.ahead = c.ahead ∧ c'.held = c.held ++ [.live c.covered.length m] ∨
        c.held = [] ∧ c'.held = [] ∧ c'.ahead = c.ahead ++ [.live c.covered.length m])
      (hcovered : c'.covered = c.covered ++ [m]) (howed : c'.owed = c.owed) (hserved : c'.served = c.served)
      (hfilters : c'.filters = c.filters) : Moved r id c c' (.accept m signed now room)
  | subscribed {packetId : Nat} {filters : List Topic}
      (hahead : c'.ahead = c.ahead ++ (c.newlyCovered r (c.grants filters).held).map (.turn c.covered.length))
      (hheld : c'.held = c.held) (hcovered : c'.covered = c.covered)
      (howed : c'.owed = c.owed ++ (c.newlyCovered r (c.grants filters).held).map (c.covered.length, ·))
      (hserved : c'.served = c.served) (hfilters : c'.filters = (c.grants filters).held) :
      Moved r id c c' (.subscribe id packetId filters)
  | turned {n : Nat} {t : Topic} {l₁ l₂ : List (Mark P)} (hahead : c.ahead = l₁ ++ .turn n t :: l₂)
      (hfirst : l₁.filterMap Mark.turn? = []) (hlast : l₂.filterMap Mark.copy? = [])
      (hahead' : c'.ahead = l₁ ++ ((r.get t).map (.copy n t)).toList ++ l₂) (hheld : c'.held = c.held)
      (hcovered : c'.covered = c.covered) (howed : c'.owed = c.owed)
      (hserved : c'.served = c.served ++ [(n, t, r.get t)]) (hfilters : c'.filters = c.filters) :
      Moved r id c c' (.turn id)
  | released {room : Nat} (hahead : c'.ahead = c.ahead ++ c.held) (hheld : c'.held = []) (hcovered : c'.covered = c.covered)
      (howed : c'.owed = c.owed) (hserved : c'.served = c.served) (hfilters : c'.filters = c.filters) :
      Moved r id c c' (.release id room)

variable {c c' : Client P} {r : Retained P} {id : Nat}

theorem Moved.refl {p : Packet P}
    (h : ∀ m signed now room, p = .accept m signed now room → covers c.filters m.topic = false) :
    Moved r id c c p := .rests rfl rfl rfl rfl rfl (fun _ h => h) h

/-! ### Each step by itself -/

theorem ackOwed_none (h : c.acking = none) : c.ackOwed = [] := by
  unfold ackOwed
  rw [h]
  rfl

theorem ackOwed_some {f : Frame P} {owed : List (Nat × Topic)} (h : c.acking = some (f, owed)) : c.ackOwed = owed := by
  unfold ackOwed
  rw [h]
  rfl

theorem no_turns (fs : List (Frame P)) : (fs.filterMap Frame.mark?).filterMap Mark.turn? = [] := by
  induction fs with
  | nil => rfl
  | cons f fs ih => cases f <;> simpa [Frame.mark?, Mark.turn?] using ih

theorem no_copies (owed : List (Nat × Topic)) :
    ((owed.map fun o => Pending.retained (P := P) o.1 o.2).filterMap Pending.mark?).filterMap Mark.copy? = [] := by
  induction owed with
  | nil => rfl
  | cons o owed ih => simpa [Pending.mark?, Mark.copy?] using ih

theorem no_copies_tail {ps : List (Pending P)} (h : (ps.filterMap Pending.mark?).filterMap Mark.copy? = []) :
    (ps.tail.filterMap Pending.mark?).filterMap Mark.copy? = [] := by
  cases ps with
  | nil => rfl
  | cons x ps =>
    rw [List.filterMap_filterMap, List.filterMap_cons] at h
    rw [List.tail_cons, List.filterMap_filterMap]
    split at h
    · exact h
    · cases h

theorem Settled.loading (hc : Settled c) (h : c.pending ≠ []) : c.loading = true := by
  by_contra hloading
  exact h (hc.loaded (eq_false_of_ne_true hloading)).1

theorem moved_subscribe (hc : Settled c) (hacking : c.acking = none) {packetId : Nat} {filters : List Topic}
    (h : c.subscribe r packetId filters = some c') :
    Settled c' ∧ Moved r id c c' (.subscribe id packetId filters) := by
  unfold subscribe at h
  split at h
  · cases h
  rw [Option.some.injEq] at h
  have howed := c.topicsOwed_grants r filters
  have hnone := ackOwed_none hacking
  subst h
  refine ⟨⟨hc.live, hc.head, ?_, fun hloading => ?_, ?_⟩, .subscribed ?_ rfl rfl rfl rfl rfl⟩
  · rintro a ⟨⟩
    rfl
  · rw [Bool.or_eq_false_iff] at hloading
    obtain ⟨hpending, -, hdeferred⟩ := hc.loaded hloading.1
    refine ⟨hpending, ?_, hdeferred⟩
    simpa [ackOwed, List.isEmpty_iff] using hloading.2
  · simp only [hc.agreed]
  · unfold ahead ackOwed
    simp only [hacking, howed, Option.map_some, Option.getD_some, Option.map_none, Option.getD_none, List.map_nil,
      List.append_nil, List.map_map]
    rfl

theorem moved_unsubscribe (hc : Settled c) (hacking : c.acking = none) {packetId : Nat} {filters : List Topic}
    (h : c.unsubscribe packetId filters = some c') :
    Settled c' ∧ Moved r id c c' (.unsubscribe id packetId filters) := by
  unfold unsubscribe at h
  split at h
  · cases h
  cases h
  have hnone := ackOwed_none hacking
  refine ⟨⟨hc.live, hc.head, ?_, fun hloading => ?_, hc.agreed⟩, .rests ?_ rfl rfl rfl rfl (fun t ht => ?_) (by simp)⟩
  · rintro a ⟨⟩
    rfl
  · obtain ⟨hpending, -, hdeferred⟩ := hc.loaded hloading
    exact ⟨hpending, rfl, hdeferred⟩
  · unfold ahead
    rw [hnone]
    rfl
  · unfold covers at ht ⊢
    obtain ⟨f, hf, hmatches⟩ := List.any_eq_true.1 ht
    exact List.any_eq_true.2 ⟨f, (List.mem_filter.1 hf).1, hmatches⟩

theorem moved_other (hc : Settled c) (hacking : c.acking = none) :
    Settled { c with acking := some (.reply, []) } ∧
      Moved r id c { c with acking := some (.reply, []) } (.other id) := by
  have hnone := ackOwed_none hacking
  refine ⟨⟨hc.live, hc.head, ?_, fun hloading => ?_, hc.agreed⟩, .rests ?_ rfl rfl rfl rfl (fun t ht => ht) (by simp)⟩
  · rintro a ⟨⟩
    rfl
  · obtain ⟨hpending, -, hdeferred⟩ := hc.loaded hloading
    exact ⟨hpending, rfl, hdeferred⟩
  · unfold ahead
    rw [hnone]
    rfl

theorem moved_ack (hc : Settled c) : Settled c.ack ∧ Moved r id c c.ack (.ack id) := by
  unfold ack
  cases hacking : c.acking with
  | none => exact ⟨hc, .refl (by simp)⟩
  | some a =>
    obtain ⟨f, owed⟩ := a
    have hreply := hc.reply _ hacking
    have howed := ackOwed_some hacking
    have hturns : (owed.map fun o => Pending.retained (P := P) o.1 o.2).filterMap Pending.mark? =
        owed.map fun o => .turn o.1 o.2 := by
      rw [List.filterMap_map, ← List.filterMap_eq_map]
      rfl
    refine ⟨⟨hc.live, ?_, by simp, fun hloading => ?_, hc.agreed⟩, .rests ?_ rfl rfl rfl rfl (fun t ht => ht) (by simp)⟩
    · dsimp only
      cases hpending : c.pending with
      | nil => exact no_copies_tail (no_copies owed)
      | cons x rest =>
        have hrest := hc.head
        rw [hpending] at hrest
        rw [List.cons_append, List.tail_cons, List.filterMap_append, List.filterMap_append, no_copies]
        simpa using hrest
    · obtain ⟨hpending, hnone, hdeferred⟩ := hc.loaded hloading
      rw [howed] at hnone
      simp [hpending, hnone, hdeferred, ackOwed]
    · unfold ahead
      rw [howed, ackOwed_none rfl]
      simp [hreply, hturns]

theorem moved_turn (hc : Settled c) (hacking : c.acking = none) :
    Settled (c.turn r) ∧ Moved r id c (c.turn r) (.turn id) := by
  unfold turn
  have hnone := ackOwed_none hacking
  split
  · rename_i n t rest hpending
    have hrest := hc.head
    rw [hpending, List.tail_cons] at hrest
    have hloading := hc.loading (by rw [hpending]; exact List.cons_ne_nil _ _)
    have hahead : c.ahead = c.queue.filterMap Frame.mark? ++ .turn n t :: rest.filterMap Pending.mark? := by
      unfold ahead
      rw [hnone, hpending]
      simp [Pending.mark?]
    split
    · rename_i payload hget
      refine ⟨⟨hc.live, hrest, hc.reply, fun h => ?_, hc.agreed⟩,
        .turned hahead (no_turns _) hrest ?_ rfl rfl rfl (by rw [hget]) rfl⟩
      · rw [hloading] at h
        cases h
      · unfold ahead ackOwed
        simp [hacking, hget, Pending.mark?, Frame.mark?]
    · rename_i hget
      refine ⟨⟨hc.live, no_copies_tail hrest, hc.reply, fun h => ?_, hc.agreed⟩,
        .turned hahead (no_turns _) hrest ?_ rfl rfl rfl (by rw [hget]) rfl⟩
      · rw [hloading] at h
        cases h
      · unfold ahead ackOwed
        simp [hacking, hget]
  · exact ⟨hc, .refl (by simp)⟩

theorem moved_send (hc : Settled c) : Settled c.send ∧ Moved r id c c.send (.send id) := by
  unfold send
  split
  · rename_i f rest hpending
    have hrest := hc.head
    rw [hpending, List.tail_cons] at hrest
    have hloading := hc.loading (by rw [hpending]; exact List.cons_ne_nil _ _)
    refine ⟨⟨hc.live, no_copies_tail hrest, hc.reply, fun h => ?_, hc.agreed⟩,
      .rests ?_ rfl rfl rfl rfl (fun t ht => ht) (by simp)⟩
    · rw [hloading] at h
      cases h
    · unfold ahead
      rw [hpending, List.filterMap_append]
      cases hmark : f.mark? <;> simp [Pending.mark?, hmark, ackOwed]
  · exact ⟨hc, .refl (by simp)⟩

theorem moved_release (hc : Settled c) (hacking : c.acking = none) (room : Nat) :
    Settled (c.release room) ∧ Moved r id c (c.release room) (.release id room) := by
  unfold release
  split
  · rename_i hready
    rw [Bool.and_eq_true, List.isEmpty_iff, hc.agreed] at hready
    obtain ⟨hpending, hloading⟩ := hready
    have hnone := ackOwed_none hacking
    have hframes (fs : List (Frame P)) : (fs.map Pending.frame).filterMap Pending.mark? = fs.filterMap Frame.mark? := by
      rw [List.filterMap_map]
      rfl
    have hlive (fs : List (Frame P)) (hfs : ∀ f ∈ fs, ∃ k m, f = .live k m) :
        (fs.filterMap Frame.mark?).filterMap Mark.copy? = [] := by
      rw [List.filterMap_filterMap, List.filterMap_eq_nil_iff]
      intro f hf
      obtain ⟨k, m, rfl⟩ := hfs f hf
      rfl
    refine ⟨⟨by simp, ?_, hc.reply, fun h => ?_, ?_⟩, .released ?_ rfl rfl rfl rfl rfl⟩
    · dsimp only
      rw [hpending, List.nil_append]
      refine no_copies_tail ?_
      rw [hframes]
      exact hlive _ fun f hf => hc.live f (List.mem_of_mem_drop hf)
    · dsimp only at h ⊢
      by_cases hrest : (c.deferred.drop room).isEmpty = true
      · rw [List.isEmpty_iff.1 hrest, hpending]
        exact ⟨rfl, hnone, rfl⟩
      · rw [if_neg hrest, hloading] at h
        cases h
    · dsimp only
      rw [hloading]
      cases (c.deferred.drop room).isEmpty <;> rfl
    · have hsplit : c.held =
          (c.deferred.take room).filterMap Frame.mark? ++ (c.deferred.drop room).filterMap Frame.mark? := by
        unfold held
        rw [← List.filterMap_append, List.take_append_drop]
      unfold ahead ackOwed
      dsimp only
      rw [hsplit, hacking, hpending, List.filterMap_append, List.nil_append, hframes]
      simp
  · exact ⟨hc, .refl (by simp)⟩

theorem moved_accept [Payload P] (hc : Settled c) {m : Message P} {signed : Meta} {now : Nat} {room : Nat → Bool}
    (h : c.next r id (.accept m signed now room) = some c') :
    Settled c' ∧ Moved r id c c' (.accept m signed now room) := by
  unfold next at h
  dsimp only at h
  split at h
  · rename_i hcovers
    obtain ⟨d, hd, rfl⟩ := Option.map_eq_some_iff.1 h
    unfold deliver at hd
    split at hd
    · rename_i hloading
      split at hd
      · cases hd
        refine ⟨⟨fun f hf => ?_, hc.head, hc.reply, fun h => ?_, hc.agreed⟩,
          .published hcovers (Or.inl ⟨rfl, ?_⟩) rfl rfl rfl rfl⟩
        · rcases List.mem_append.1 hf with hf | hf
          · exact hc.live f hf
          · exact ⟨_, _, List.mem_singleton.1 hf⟩
        · rw [hloading] at h
          cases h
        · unfold held
          rw [List.filterMap_append]
          rfl
      · cases hd
    · rename_i hloading
      obtain ⟨hpending, hnone, hdeferred⟩ := hc.loaded (eq_false_of_ne_true hloading)
      split at hd
      · cases hd
        refine ⟨⟨hc.live, hc.head, hc.reply, fun _ => ⟨hpending, hnone, hdeferred⟩, hc.agreed⟩,
          .published hcovers (Or.inr ⟨?_, ?_, ?_⟩) rfl rfl rfl rfl⟩
        · unfold held
          rw [hdeferred]
          rfl
        · unfold held
          dsimp only
          rw [hdeferred]
          rfl
        · unfold ahead
          rw [hpending, hnone]
          change _ ++ (c.ackOwed.map _) = _
          rw [hnone]
          simp [Frame.mark?]
      · cases hd
  · rename_i hcovers
    cases h
    refine ⟨hc, .refl fun m' signed' now' room' heq => ?_⟩
    cases heq
    exact eq_false_of_ne_true hcovers

theorem moved_next [Payload P] (hc : Settled c) {p : Packet P} (h : c.next r id p = some c') :
    Settled c' ∧ Moved r id c c' p := by
  have hrefl (hp : ∀ m signed now room, p ≠ .accept m signed now room) (h : some c = some c') :
      Settled c' ∧ Moved r id c c' p := by
    cases h
    exact ⟨hc, .refl fun m signed now room heq => absurd heq (hp m signed now room)⟩
  cases p with
  | connect i => exact hrefl (by simp) h
  | accept m signed now room => exact moved_accept hc h
  | sweep gone => exact hrefl (by simp) h
  | subscribe i packetId filters =>
    unfold next at h
    dsimp only at h
    split at h
    · rename_i hown
      rw [hown.1]
      exact moved_subscribe hc hown.2 h
    · exact hrefl (by simp) h
  | unsubscribe i packetId filters =>
    unfold next at h
    dsimp only at h
    split at h
    · rename_i hown
      rw [hown.1]
      exact moved_unsubscribe hc hown.2 h
    · exact hrefl (by simp) h
  | other i =>
    unfold next at h
    dsimp only at h
    split at h
    · rename_i hown
      cases h
      rw [hown.1]
      exact moved_other hc hown.2
    · exact hrefl (by simp) h
  | ack i =>
    unfold next at h
    dsimp only at h
    split at h
    · rename_i hown
      cases h
      rw [hown]
      exact moved_ack hc
    · exact hrefl (by simp) h
  | turn i =>
    unfold next at h
    dsimp only at h
    split at h
    · rename_i hown
      cases h
      rw [hown.1]
      exact moved_turn hc hown.2
    · exact hrefl (by simp) h
  | send i =>
    unfold next at h
    dsimp only at h
    split at h
    · rename_i hown
      cases h
      rw [hown.1]
      exact moved_send hc
    · exact hrefl (by simp) h
  | release i room =>
    unfold next at h
    dsimp only at h
    split at h
    · rename_i hown
      cases h
      rw [hown.1]
      exact moved_release hc hown.2 room
    · exact hrefl (by simp) h
  | leave i =>
    unfold next at h
    dsimp only at h
    split at h
    · cases h
    · exact hrefl (by simp) h

/-! ### The line after a step -/

theorem map_turn_message (n : Nat) (ts : List Topic) :
    (ts.map (Mark.turn (P := P) n)).filterMap Mark.message? = [] := by
  rw [List.filterMap_map, List.filterMap_eq_nil_iff]
  intro t _
  rfl

theorem map_turn_copy (n : Nat) (ts : List Topic) : (ts.map (Mark.turn (P := P) n)).filterMap Mark.copy? = [] := by
  rw [List.filterMap_map, List.filterMap_eq_nil_iff]
  intro t _
  rfl

theorem map_turn_turn (n : Nat) (ts : List Topic) :
    (ts.map (Mark.turn (P := P) n)).filterMap Mark.turn? = ts.map (n, ·) := by
  rw [List.filterMap_map, ← List.filterMap_eq_map]
  rfl

theorem Line.number_lt (h : Line c) {k : Nat} {m : Message P} (hm : Mark.live k m ∈ c.ahead) : k < c.covered.length := by
  have hin : (m, k) ∈ c.covered.zipIdx := by
    rw [← h.messages]
    exact List.mem_filterMap.2 ⟨.live k m, List.mem_append_left _ hm, rfl⟩
  simpa using List.snd_lt_of_mem_zipIdx hin

theorem Settled.held_marks (hc : Settled c) :
    c.held.filterMap Mark.turn? = [] ∧ c.held.filterMap Mark.copy? = [] ∧ ∀ x ∈ c.held, ∃ k m, x = Mark.live k m := by
  have hlive : ∀ x ∈ c.held, ∃ k m, x = Mark.live k m := by
    intro x hx
    obtain ⟨f, hf, hmark⟩ := List.mem_filterMap.1 hx
    obtain ⟨k, m, rfl⟩ := hc.live f hf
    exact ⟨k, m, (Option.some.inj hmark).symm⟩
  refine ⟨List.filterMap_eq_nil_iff.2 fun x hx => ?_, List.filterMap_eq_nil_iff.2 fun x hx => ?_, hlive⟩
  · obtain ⟨k, m, rfl⟩ := hlive x hx
    rfl
  · obtain ⟨k, m, rfl⟩ := hlive x hx
    rfl

theorem pairwise_append_live {xs ys : List (Mark P)} (hxs : xs.Pairwise Mark.Before)
    (hys : ∀ y ∈ ys, ∃ k m, y = Mark.live k m) : (xs ++ ys).Pairwise Mark.Before := by
  have hbefore (x y : Mark P) (hy : ∃ k m, y = Mark.live k m) : Mark.Before x y := by
    obtain ⟨k, m, rfl⟩ := hy
    cases x <;> trivial
  rw [List.pairwise_append]
  refine ⟨hxs, ?_, fun x _ y hy => hbefore x y (hys y hy)⟩
  rw [List.pairwise_iff_forall_sublist]
  intro a b hab
  exact hbefore a b (hys b (hab.subset (by simp)))

theorem line_moved (hc : Settled c) (h : Line c) {p : Packet P} (hmoved : Moved r id c c' p) : Line c' := by
  cases hmoved with
  | rests hahead hheld hcovered howed hserved hfilters hquiet =>
    refine ⟨?_, ?_, ?_, ?_⟩
    · rw [hahead, hheld, hcovered]
      exact h.messages
    · rw [howed, hserved, hahead]
      exact h.turns
    · rw [hahead, hserved]
      exact h.copies
    · rw [hahead]
      exact h.before
  | @published m signed now room hcovers hline hcovered howed hserved hfilters =>
    have hnew : c.covered.zipIdx ++ [(m, c.covered.length)] = c'.covered.zipIdx := by
      rw [hcovered, List.zipIdx_append]
      simp
    rcases hline with ⟨hahead, hheld⟩ | ⟨hheld, hheld', hahead⟩
    · refine ⟨?_, ?_, ?_, ?_⟩
      · rw [hahead, hheld, ← List.append_assoc, List.filterMap_append, h.messages, ← hnew]
        rfl
      · rw [howed, hserved, hahead]
        exact h.turns
      · rw [hahead, hserved]
        exact h.copies
      · rw [hahead]
        exact h.before
    · refine ⟨?_, ?_, ?_, ?_⟩
      · have hmessages := h.messages
        rw [hheld, List.append_nil] at hmessages
        rw [hahead, hheld', List.append_nil, List.filterMap_append, hmessages, ← hnew]
        rfl
      · rw [howed, hserved, hahead, List.filterMap_append, List.filterMap_cons_none rfl, List.filterMap_nil,
          List.append_nil]
        exact h.turns
      · rw [hahead, hserved, List.filterMap_append, List.filterMap_cons_none rfl, List.filterMap_nil, List.append_nil]
        exact h.copies
      · rw [hahead]
        exact pairwise_append_live h.before (by simp)
  | @subscribed packetId filters hahead hheld hcovered howed hserved hfilters =>
    refine ⟨?_, ?_, ?_, ?_⟩
    · have hmessages := h.messages
      rw [List.filterMap_append] at hmessages
      rw [hahead, hheld, hcovered, List.filterMap_append, List.filterMap_append, map_turn_message, List.append_nil,
        hmessages]
    · rw [howed, hserved, hahead, List.filterMap_append, map_turn_turn, h.turns, List.append_assoc]
    · rw [hahead, hserved, List.filterMap_append, map_turn_copy, List.append_nil, h.copies]
    · rw [hahead, List.pairwise_append]
      refine ⟨h.before, ?_, fun x hx y hy => ?_⟩
      · rw [List.pairwise_map]
        exact List.pairwise_of_forall fun _ _ => trivial
      · -- a message in the line was published before this SUBSCRIBE
        obtain ⟨t, -, rfl⟩ := List.mem_map.1 hy
        cases x with
        | live k m => exact h.number_lt hx
        | copy n t payload => trivial
        | turn n t => trivial
  | @turned n t l₁ l₂ hahead hfirst hlast hahead' hheld hcovered howed hserved hfilters =>
    have hbefore := h.before
    have hmessages := h.messages
    have hturns := h.turns
    have hcopies := h.copies
    rw [hahead] at hbefore hmessages hturns hcopies
    rw [List.filterMap_append, List.filterMap_append, List.filterMap_cons_none rfl] at hmessages
    rw [List.filterMap_append, hfirst, List.nil_append,
      List.filterMap_cons_some (show Mark.turn? (.turn n t) = some (n, t) from rfl)] at hturns
    rw [List.filterMap_append, List.filterMap_cons_none rfl, hlast, List.append_nil] at hcopies
    have hfound : ((r.get t).map (Mark.copy n t)).toList.filterMap Mark.message? = [] ∧
        ((r.get t).map (Mark.copy n t)).toList.filterMap Mark.turn? = [] ∧
        ((r.get t).map (Mark.copy n t)).toList.filterMap Mark.copy? = ((r.get t).map (n, t, ·)).toList := by
      cases r.get t <;> exact ⟨rfl, rfl, rfl⟩
    refine ⟨?_, ?_, ?_, ?_⟩
    · rw [hahead', hheld, hcovered, ← hmessages]
      simp only [List.filterMap_append, hfound.1, List.append_nil]
    · rw [howed, hserved, hahead', hturns]
      simp only [List.filterMap_append, hfirst, hfound.2.1, List.nil_append, List.map_append, List.map_cons,
        List.map_nil, List.append_assoc, List.singleton_append]
    · rw [hserved, hahead']
      simp only [List.filterMap_append, hlast, hcopies, hfound.2.2, List.append_nil]
      cases r.get t <;> rfl
    · rw [hahead']
      rw [List.pairwise_append, List.pairwise_cons] at hbefore
      obtain ⟨hleft, ⟨-, hright⟩, hcross⟩ := hbefore
      cases hget : r.get t with
      | none =>
        rw [Option.map_none, Option.toList_none, List.append_nil, List.pairwise_append]
        exact ⟨hleft, hright, fun x hx y hy => hcross x hx y (List.mem_cons_of_mem _ hy)⟩
      | some payload =>
        rw [Option.map_some, Option.toList_some, List.append_assoc, List.singleton_append, List.pairwise_append,
          List.pairwise_cons]
        refine ⟨hleft, ⟨fun y _ => ?_, hright⟩, fun x hx y hy => ?_⟩
        · cases y <;> trivial
        · rcases List.mem_cons.1 hy with rfl | hy
          · have hturn := hcross x hx (.turn n t) (List.mem_cons_self ..)
            cases x <;> exact hturn
          · exact hcross x hx y (List.mem_cons_of_mem _ hy)
  | released hahead hheld hcovered howed hserved hfilters =>
    obtain ⟨hturns, hcopies, hlive⟩ := hc.held_marks
    refine ⟨?_, ?_, ?_, ?_⟩
    · rw [hahead, hheld, hcovered, List.append_nil]
      exact h.messages
    · rw [howed, hserved, hahead, List.filterMap_append, hturns, List.append_nil]
      exact h.turns
    · rw [hahead, hserved, List.filterMap_append, hcopies, List.append_nil]
      exact h.copies
    · rw [hahead]
      exact pairwise_append_live h.before hlive

/-! ### The last payload -/

def Latest (r : Retained P) (c : Client P) : Prop :=
  ∀ t payload, covers c.filters t = true → r.get t = some payload →
    ((c.ahead ++ c.held).filterMap (Mark.payload? t payload)).getLast? = some payload

def Fresh (r : Retained P) (c : Client P) (filters : List Topic) : Prop :=
  ∀ t ∈ c.newlyCovered r (c.grants filters).held, c.lastHeld t = none ∨ c.lastHeld t = r.get t

theorem payload_marks (fs : List (Frame P)) (t : Topic) (payload : P)  :
    (fs.filterMap Frame.mark?).filterMap (Mark.payload? t payload) = fs.filterMap (Frame.payload? t) := by
  rw [List.filterMap_filterMap]
  congr 1
  funext f
  cases f <;> rfl

theorem mem_newlyCovered {held : List Topic} {t : Topic} :
    t ∈ c.newlyCovered r held ↔ (∃ payload, r.get t = some payload) ∧ covers held t = true ∧ covers c.filters t = false := by
  unfold newlyCovered Retained.get
  rw [List.mem_filter, List.mem_map, Bool.and_eq_true, Bool.not_eq_true']
  refine and_congr_left fun _ => ⟨?_, ?_⟩
  · rintro ⟨⟨t, e⟩, he, rfl⟩
    exact ⟨e.payload, by rw [Map.mem_entries.1 he]; rfl⟩
  · rintro ⟨payload, hget⟩
    obtain ⟨e, he, -⟩ := Option.map_eq_some_iff.1 hget
    exact ⟨(t, e), Map.mem_entries.2 he, rfl⟩

theorem getLast?_append_ne {α : Type*} (xs : List α) {ys : List α} (h : ys ≠ []) : (xs ++ ys).getLast? = ys.getLast? := by
  rw [List.getLast?_append]
  cases hlast : ys.getLast? with
  | none => exact absurd (List.getLast?_eq_none_iff.1 hlast) h
  | some y => rfl

theorem getLast?_const {α : Type*} {xs : List α} {x : α} (hxs : xs ≠ []) (h : ∀ y ∈ xs, y = x) : xs.getLast? = some x := by
  rw [List.getLast?_eq_some_getLast hxs, h _ (List.getLast_mem hxs)]

theorem latest_moved {r' : Retained P} (hlatest : Latest r c) {p : Packet P} (hmoved : Moved r id c c' p)
    (hkept : ∀ t payload, r'.get t = some payload →
      r.get t = some payload ∧ (∀ m signed now room, p = .accept m signed now room → ¬ (m.retain = true ∧ m.topic = t)) ∨
        ∃ m signed now room, p = .accept m signed now room ∧ m.retain = true ∧ m.topic = t ∧ m.payload = payload)
    (hfresh : ∀ packetId filters, p = .subscribe id packetId filters → Fresh r c filters) : Latest r' c' := by
  intro t payload ht hget
  have hwas (hnot : ∀ m signed now room, p ≠ .accept m signed now room) : r.get t = some payload := by
    obtain ⟨hbefore, -⟩ | ⟨m, signed, now, room, hp, -⟩ := hkept t payload hget
    · exact hbefore
    · exact absurd hp (hnot m signed now room)
  cases hmoved with
  | rests hahead hheld hcovered howed hserved hfilters hquiet =>
    rw [hahead, hheld]
    obtain ⟨hbefore, -⟩ | ⟨m, signed, now, room, hp, -, htopic, -⟩ := hkept t payload hget
    · exact hlatest t payload (hfilters t ht) hbefore
    · have hnot := hquiet m signed now room hp
      rw [htopic, hfilters t ht] at hnot
      cases hnot
  | @published m signed now room hcovers hline hcovered howed hserved hfilters =>
    have hend : c'.ahead ++ c'.held = c.ahead ++ c.held ++ [.live c.covered.length m] := by
      rcases hline with ⟨hahead, hheld⟩ | ⟨hheld, hheld', hahead⟩
      · rw [hahead, hheld, List.append_assoc]
      · rw [hahead, hheld', hheld, List.append_nil, List.append_nil]
    rw [hend, List.filterMap_append]
    obtain ⟨hbefore, hother⟩ | ⟨m', signed', now', room', hp, hretain, htopic, hpayload⟩ := hkept t payload hget
    · have hnone : Mark.payload? t payload (.live c.covered.length m) = none := by
        unfold Mark.payload?
        exact if_neg (hother m signed now room rfl)
      rw [List.filterMap_cons_none hnone, List.filterMap_nil, List.append_nil]
      exact hlatest t payload (hfilters ▸ ht) hbefore
    · cases hp
      have hsome : Mark.payload? t payload (.live c.covered.length m) = some payload := by
        rw [← hpayload]
        exact if_pos ⟨hretain, htopic⟩
      rw [List.filterMap_cons_some hsome, List.filterMap_nil, List.getLast?_append]
      rfl
  | @subscribed packetId filters hahead hheld hcovered howed hserved hfilters =>
    have hbefore := hwas (by simp)
    rw [hahead, hheld, List.filterMap_append, List.filterMap_append]
    by_cases hcovers : covers c.filters t = true
    · -- a topic that was covered is not sent again
      have hnone : ((c.newlyCovered r (c.grants filters).held).map (Mark.turn (P := P) c.covered.length)).filterMap
          (Mark.payload? t payload) = [] := by
        rw [List.filterMap_map, List.filterMap_eq_nil_iff]
        intro t' ht'
        refine if_neg ?_
        rintro rfl
        rw [(mem_newlyCovered.1 ht').2.2] at hcovers
        cases hcovers
      rw [hnone, List.append_nil, ← List.filterMap_append]
      exact hlatest t payload hcovers hbefore
    · have hnew : t ∈ c.newlyCovered r (c.grants filters).held :=
        mem_newlyCovered.2 ⟨⟨payload, hbefore⟩, hfilters ▸ ht, eq_false_of_ne_true hcovers⟩
      have hheldLast : (c.held.filterMap (Mark.payload? t payload)).getLast? = c.lastHeld t := by
        unfold held
        rw [payload_marks]
        rfl
      by_cases hempty : c.held.filterMap (Mark.payload? t payload) = []
      · rw [hempty, List.append_nil]
        have hne : ((c.newlyCovered r (c.grants filters).held).map (Mark.turn (P := P) c.covered.length)).filterMap
            (Mark.payload? t payload) ≠ [] := by
          intro hnil
          have hnone := List.filterMap_eq_nil_iff.1 hnil (.turn c.covered.length t) (List.mem_map_of_mem hnew)
          exact absurd hnone (by simp [Mark.payload?])
        rw [getLast?_append_ne _ hne]
        refine getLast?_const hne fun y hy => ?_
        obtain ⟨x, hx, hxy⟩ := List.mem_filterMap.1 hy
        obtain ⟨t', -, rfl⟩ := List.mem_map.1 hx
        unfold Mark.payload? at hxy
        dsimp only at hxy
        split at hxy
        · exact (Option.some.inj hxy).symm
        · cases hxy
      · rw [getLast?_append_ne _ hempty, hheldLast]
        rcases hfresh packetId filters rfl t hnew with hnone | hsame
        · rw [hnone, List.getLast?_eq_none_iff] at hheldLast
          exact absurd hheldLast hempty
        · rw [hsame, hbefore]
  | @turned n t' l₁ l₂ hahead hfirst hlast hahead' hheld hcovered howed hserved hfilters =>
    have hbefore := hwas (by simp)
    have hsame : ((r.get t').map (Mark.copy n t')).toList.filterMap (Mark.payload? t payload) =
        [Mark.turn n t'].filterMap (Mark.payload? t payload) := by
      by_cases htopic : t' = t
      · subst htopic
        rw [hbefore]
        simp [Mark.payload?]
      · cases r.get t' <;> simp [Mark.payload?, htopic]
    have hlast' := hlatest t payload (hfilters ▸ ht) hbefore
    rw [hahead, ← List.singleton_append, ← List.append_assoc] at hlast'
    rw [hahead', hheld]
    simp only [List.filterMap_append, hsame] at hlast' ⊢
    exact hlast'
  | released hahead hheld hcovered howed hserved hfilters =>
    have hbefore := hwas (by simp)
    rw [hahead, hheld, List.append_nil]
    exact hlatest t payload (hfilters ▸ ht) hbefore

/-! ### What the client got -/

def queued (c : Client P) : List (Mark P) := c.queue.filterMap Frame.mark?

def waiting (c : Client P) : List (Mark P) :=
  c.pending.filterMap Pending.mark? ++ (c.ackOwed.map fun o => .turn o.1 o.2) ++ c.held

theorem queued_append_waiting (c : Client P) : c.queued ++ c.waiting = c.ahead ++ c.held := by
  unfold queued waiting ahead
  simp only [List.append_assoc]

/-- Every message published while a filter covered it is in the queue or on its way to it, once and in order; every
kept topic that a SUBSCRIBE newly covered has had its turn, and what was kept then is in the line, or still waits for
it; and none of the messages published after that SUBSCRIBE is queued before. -/
structure Delivered (c : Client P) : Prop where
  messages : (c.queued ++ c.waiting).filterMap Mark.message? = c.covered.zipIdx
  turns : c.owed = (c.served.map fun x => (x.1, x.2.1)) ++ c.waiting.filterMap Mark.turn?
  copies : (c.queued ++ c.waiting).filterMap Mark.copy? = c.served.filterMap fun x => x.2.2.map (x.1, x.2.1, ·)
  before : ∀ l₁ l₂ k m, c.queued = l₁ ++ .live k m :: l₂ → ∀ n t,
    (.turn n t ∈ c.waiting ∨ ∃ payload, .copy n t payload ∈ l₂ ++ c.waiting) → k < n

theorem delivered_of_line (hc : Settled c) (h : Line c) : Delivered c := by
  obtain ⟨hturns, hcopies, hlive⟩ := hc.held_marks
  refine ⟨?_, ?_, ?_, ?_⟩
  · rw [queued_append_waiting]
    exact h.messages
  · have hahead := h.turns
    unfold ahead at hahead
    unfold waiting
    simp only [List.filterMap_append, no_turns, List.nil_append] at hahead
    simp only [List.filterMap_append, hturns, List.append_nil]
    exact hahead
  · rw [queued_append_waiting, List.filterMap_append, hcopies, List.append_nil]
    exact h.copies
  · intro l₁ l₂ k m hqueued n t hmem
    have hpair := pairwise_append_live h.before hlive
    rw [← queued_append_waiting, hqueued, List.append_assoc, List.cons_append, List.pairwise_append,
      List.pairwise_cons] at hpair
    obtain ⟨-, ⟨hfirst, -⟩, -⟩ := hpair
    rcases hmem with hturn | ⟨payload, hcopy⟩
    · exact hfirst _ (List.mem_append_right _ hturn)
    · exact hfirst _ hcopy

def Quiet (c : Client P) : Prop := c.pending = [] ∧ c.ackOwed = [] ∧ c.deferred = []

theorem lastGot_of_latest (hlatest : Latest r c) (hquiet : Quiet c) {t : Topic} {payload : P}
    (ht : covers c.filters t = true) (hget : r.get t = some payload) : c.lastGot t = some payload := by
  have hlast := hlatest t payload ht hget
  obtain ⟨hpending, hnone, hdeferred⟩ := hquiet
  unfold ahead held at hlast
  rw [hpending, hnone, hdeferred] at hlast
  unfold lastGot
  rw [← payload_marks _ t payload]
  simpa using hlast

theorem settled_fresh : Settled (fresh : Client P) :=
  ⟨by simp [fresh], rfl, by rintro a ⟨⟩; rfl, fun _ => ⟨rfl, rfl, rfl⟩, rfl⟩

theorem line_fresh : Line (fresh : Client P) := ⟨rfl, rfl, rfl, List.Pairwise.nil⟩

end Client

/-! ### Runs -/

namespace Broker

open Client

variable [Payload P] {s : Broker P}

/-- Every client's line is as it should be. -/
structure Fine (s : Broker P) : Prop where
  indexed : Indexed s
  clients : ∀ id c, s.clients id = some c → Settled c ∧ Line c

theorem fine_step (hs : Fine s) (p : Packet P) : Fine (s.step p) := by
  refine ⟨indexed_step hs.indexed p, fun id c' hc' => ?_⟩
  cases hc : s.clients id with
  | none =>
    rcases clients_step_none hc p with h | h
    · rw [h] at hc'
      cases hc'
    · rw [h] at hc'
      cases hc'
      exact ⟨settled_fresh, line_fresh⟩
  | some c =>
    obtain ⟨hsettled, hline⟩ := hs.clients id c hc
    rw [clients_step hs.indexed hc] at hc'
    obtain ⟨hsettled', hmoved⟩ := moved_next hsettled hc'
    exact ⟨hsettled', line_moved hsettled hline hmoved⟩

omit [Payload P] in
theorem fine_empty : Fine (empty : Broker P) :=
  ⟨fun f id => by simp [empty, idsOf], fun id c hc => by cases hc⟩

/-- A client gets every message that was published for it, once and in order, and what was kept before what was
published after it subscribed. -/
theorem delivered_run (ps : List (Packet P)) {id : Nat} {c : Client P} (hc : (run step empty ps).clients id = some c) :
    Delivered c := by
  have hfine : Fine (run step empty ps) := run_always (P := Fine) (fun _ p h => fine_step h p) fine_empty ps
  obtain ⟨hsettled, hline⟩ := hfine.clients id c hc
  exact delivered_of_line hsettled hline

def Own (id : Nat) (p : Packet P) : Prop := p = .ack id ∨ p = .turn id ∨ p = .send id ∨ ∃ room, p = .release id room

def Rests (s : Broker P) (id : Nat) (covered : List (Message P)) : Prop :=
  ∃ ps : List (Packet P), (∀ p ∈ ps, Own id p) ∧ ∃ c, (run step s ps).clients id = some c ∧ Quiet c ∧ c.covered = covered

theorem Rests.of_step {p : Packet P} {id : Nat} {covered : List (Message P)} (hp : Own id p)
    (h : Rests (s.step p) id covered) : Rests s id covered := by
  obtain ⟨ps, hps, c, hc, hquiet, hcovered⟩ := h
  refine ⟨p :: ps, fun q hq => ?_, c, hc, hquiet, hcovered⟩
  rcases List.mem_cons.1 hq with rfl | hq
  · exact hp
  · exact hps q hq

theorem rests_pending {id : Nat} {c : Client P} (hs : Fine s) (hc : s.clients id = some c) (hacking : c.acking = none)
    {n : Nat} (hlength : c.pending.length = n) : Rests s id c.covered := by
  induction n generalizing s c with
  | zero =>
    obtain ⟨hsettled, -⟩ := hs.clients id c hc
    have hpending := List.eq_nil_of_length_eq_zero hlength
    cases hloading : c.loading with
    | false => exact ⟨[], by simp, c, hc, ⟨hpending, ackOwed_none hacking, (hsettled.loaded hloading).2.2⟩, rfl⟩
    | true =>
      refine ⟨[.release id c.deferred.length], by simp [Own], c.release c.deferred.length, ?_, ?_, ?_⟩
      · rw [run_cons, run_nil, clients_step hs.indexed hc]
        exact if_pos ⟨rfl, hacking⟩
      · unfold Client.release Quiet ackOwed
        simp [hpending, hsettled.agreed, hloading, hacking]
      · unfold Client.release
        split <;> rfl
  | succ n ih =>
    -- a frame at the head is sent; a topic at the head becomes a frame first, or goes
    have hsend {s : Broker P} {c : Client P} (hs : Fine s) (hc : s.clients id = some c) (hacking : c.acking = none)
        {f : Frame P} {rest : List (Pending P)} (hpending : c.pending = .frame f :: rest) (hrest : rest.length = n) :
        Rests s id c.covered := by
      have hsent : c.send = { c with queue := c.queue ++ [f], pending := rest } := by
        unfold Client.send
        rw [hpending]
      have hnext : (s.step (.send id)).clients id = some c.send :=
        (clients_step hs.indexed hc (.send id)).trans (if_pos ⟨rfl, hacking⟩)
      rw [hsent] at hnext
      have hthen := ih (fine_step hs _) hnext hacking hrest
      exact .of_step (p := .send id) (by simp [Own]) hthen
    cases hpending : c.pending with
    | nil => simp [hpending] at hlength
    | cons x rest =>
      rw [hpending, List.length_cons, Nat.add_right_cancel_iff] at hlength
      cases x with
      | frame f => exact hsend hs hc hacking hpending hlength
      | retained k t =>
        have hnext : (s.step (.turn id)).clients id = some (c.turn s.retained) :=
          (clients_step hs.indexed hc (.turn id)).trans (if_pos ⟨rfl, hacking⟩)
        refine .of_step (p := .turn id) (by simp [Own]) ?_
        cases hget : s.retained.get t with
        | none =>
          have hturned : c.turn s.retained = { c with pending := rest, served := c.served ++ [(k, t, none)] } := by
            unfold Client.turn
            simp only [hpending, hget]
          rw [hturned] at hnext
          have hthen := ih (fine_step hs _) hnext hacking hlength
          exact hthen
        | some payload =>
          have hturned : c.turn s.retained = { c with
              pending := .frame (.kept k t payload) :: rest
              served := c.served ++ [(k, t, some payload)] } := by
            unfold Client.turn
            simp only [hpending, hget]
          rw [hturned] at hnext
          have hthen := hsend (fine_step hs _) hnext hacking rfl hlength
          exact hthen

theorem rests (hs : Fine s) {id : Nat} {c : Client P} (hc : s.clients id = some c) : Rests s id c.covered := by
  cases hacking : c.acking with
  | none => exact rests_pending hs hc hacking rfl
  | some a =>
    have hack := clients_step hs.indexed hc (.ack id)
    unfold Client.next Client.ack at hack
    dsimp only at hack
    rw [if_pos rfl, hacking] at hack
    have hthen := rests_pending (fine_step hs _) hack rfl rfl
    exact .of_step (p := .ack id) (by simp [Own]) hthen

theorem get_step (s : Broker P) (p : Packet P) {t : Topic} {payload : P}
    (h : (s.step p).retained.get t = some payload) :
    s.retained.get t = some payload ∧
        (∀ m signed now room, p = .accept m signed now room → ¬ (m.retain = true ∧ m.topic = t)) ∨
      ∃ m signed now room, p = .accept m signed now room ∧ m.retain = true ∧ m.topic = t ∧ m.payload = payload := by
  rw [retained_step] at h
  cases p with
  | accept m signed now room =>
    change (keep s.retained m signed now).get t = _ at h
    unfold keep at h
    split at h
    · rename_i hretain
      by_cases htopic : m.topic = t
      · refine Or.inr ⟨m, signed, now, room, rfl, hretain, htopic, ?_⟩
        split at h
        · rw [get_remove, if_pos htopic.symm] at h
          cases h
        · rw [get_insertAt, if_pos htopic.symm] at h
          exact Option.some.inj h
      · refine Or.inl ⟨?_, ?_⟩
        · split at h
          · rwa [get_remove, if_neg (Ne.symm htopic)] at h
          · rwa [get_insertAt, if_neg (Ne.symm htopic)] at h
        · rintro m' signed' now' room' ⟨⟩ ⟨-, heq⟩
          exact htopic heq
    · rename_i hretain
      refine Or.inl ⟨h, ?_⟩
      rintro m' signed' now' room' ⟨⟩ ⟨hyes, -⟩
      exact hretain hyes
  | sweep gone =>
    refine Or.inl ⟨?_, by simp⟩
    change (run (fun r t => (r.remove t).2) s.retained gone).get t = _ at h
    generalize s.retained = r at h ⊢
    induction gone generalizing r with
    | nil => exact h
    | cons g gone ih =>
      have hbefore := ih _ h
      rw [get_remove] at hbefore
      split at hbefore
      · cases hbefore
      · exact hbefore
  | connect i => exact Or.inl ⟨h, by simp⟩
  | subscribe i packetId filters => exact Or.inl ⟨h, by simp⟩
  | unsubscribe i packetId filters => exact Or.inl ⟨h, by simp⟩
  | other i => exact Or.inl ⟨h, by simp⟩
  | ack i => exact Or.inl ⟨h, by simp⟩
  | turn i => exact Or.inl ⟨h, by simp⟩
  | send i => exact Or.inl ⟨h, by simp⟩
  | release i room => exact Or.inl ⟨h, by simp⟩
  | leave i => exact Or.inl ⟨h, by simp⟩

def Calm (id : Nat) (s : Broker P) : Packet P → Prop
  | .subscribe i _ filters => i = id → ∀ c ∈ s.clients id, Client.Fresh s.retained c filters
  | _ => True

/-- Where no SUBSCRIBE of a client newly covers a kept topic of which another payload is held for it, the client gets
every message published for it once and in order, each retained copy before what was published after its SUBSCRIBE;
all of it, where its queue has room; and, with nothing pending or held, last what is kept of every topic it covers. -/
theorem subscriber_gets (ps : List (Packet P)) (id : Nat) (hcalm : Along step (Calm id) empty ps) {c : Client P}
    (hc : (run step empty ps).clients id = some c) :
    Delivered c ∧ Rests (run step empty ps) id c.covered ∧ (Quiet c → ∀ t payload, covers c.filters t = true →
      (run step empty ps).retained.get t = some payload → c.lastGot t = some payload) := by
  have hinv : Fine (run step empty ps) ∧
      ∀ c, (run step empty ps).clients id = some c → Latest (run step empty ps).retained c := by
    refine run_invariant (P := fun s => Fine s ∧ ∀ c, s.clients id = some c → Latest s.retained c) ?_ hcalm
      ⟨fine_empty, fun c hc => by cases hc⟩
    rintro s p ⟨hfine, hlatest⟩ hok
    refine ⟨fine_step hfine p, fun c' hc' => ?_⟩
    cases hbefore : s.clients id with
    | none =>
      rcases clients_step_none hbefore p with h | h
      · rw [h] at hc'
        cases hc'
      · rw [h] at hc'
        cases hc'
        rintro t payload ht -
        cases ht
    | some c =>
      obtain ⟨hsettled, -⟩ := hfine.clients id c hbefore
      rw [clients_step hfine.indexed hbefore] at hc'
      obtain ⟨-, hmoved⟩ := moved_next hsettled hc'
      refine latest_moved (hlatest c hbefore) hmoved (fun t payload h => get_step s p h) fun packetId filters hp => ?_
      subst hp
      exact hok rfl c hbefore
  obtain ⟨hsettled, hline⟩ := hinv.1.clients id c hc
  exact ⟨delivered_of_line hsettled hline, rests hinv.1 hc, fun hquiet t payload ht hget =>
    lastGot_of_latest (hinv.2 c hc) hquiet ht hget⟩

instance decidableCalm [DecidableEq P] (id : Nat) (s : Broker P) (p : Packet P) : Decidable (Calm id s p) := by
  unfold Calm Client.Fresh
  cases p <;> dsimp only <;> infer_instance

def threadTopic : Topic := ["hforum", "t", "t1"]

def kept (b : UInt8) : Packet (List UInt8) := .accept ⟨threadTopic, [b], true⟩ Meta.default 0 fun _ => true

def heldRun : List (Packet (List UInt8)) :=
  [.connect 0, .ack 0, kept 0, .subscribe 0 1 [threadTopic], kept 1, .ack 0, .turn 0, .send 0, .release 0 1]

def overtakenRun : List (Packet (List UInt8)) :=
  [.connect 0, .ack 0, kept 0, .subscribe 0 1 [threadTopic], kept 1, .ack 0, .unsubscribe 0 2 [threadTopic], .ack 0,
    kept 2, .subscribe 0 3 [threadTopic], .ack 0, .turn 0, .send 0, .turn 0, .send 0, .release 0 1]

theorem subscriber_gets_held :
    ∃ c, (run step empty heldRun).clients 0 = some c ∧ Delivered c ∧ c.lastGot threadTopic = some [1] := by
  obtain ⟨c, hc⟩ : ∃ c, (run step empty heldRun).clients 0 = some c := ⟨_, rfl⟩
  obtain ⟨hdelivered, -, hlast⟩ := subscriber_gets heldRun 0 (by decide) hc
  cases hc
  exact ⟨_, rfl, hdelivered, hlast ⟨rfl, rfl, rfl⟩ threadTopic [1] (by decide) (by decide)⟩

/-- The retained copy overtakes the message that is held: the client is left with the older payload. -/
theorem older_payload_last :
    let s := run step empty overtakenRun
    s.retained.get threadTopic = some [2] ∧
      ∃ c, s.clients 0 = some c ∧ Quiet c ∧ covers c.filters threadTopic = true ∧ c.lastGot threadTopic = some [1] :=
  ⟨by decide, _, rfl, ⟨rfl, rfl, rfl⟩, by decide, by decide⟩

end Broker

end HidraNet.Hidrarelay
