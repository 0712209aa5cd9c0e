import HidraNet.Hidrachat.Rooms

/-!
# What reaches a chat member

A message is pushed to the history and then sent to the channel; a member is given the history in its welcome and then,
some writes later, subscribes to the channel.

As long as messages are sent to the channel in the order in which they were pushed, and a member subscribes when those
sent are just those its welcome covers, what a member is sent is the messages pushed since its welcome, each once and in
order (`members_run`).  A message sent between the welcome and the subscription reaches the member never
(`missed`).
-/

namespace HidraNet.Hidrachat

open Json Maps Runs Utf8

def Sent.msg? : Sent → Option Kept
  | .msg k => some k
  | _ => none

def msgs (items : List Sent) : List Kept := items.filterMap Sent.msg?

theorem msgs_append (a b : List Sent) : msgs (a ++ b) = msgs a ++ msgs b := List.filterMap_append

namespace ChatServer

variable (s : ChatServer) (id : Nat)

def heard : List Kept := msgs (s.sessions id).got

def waiting : List Kept := msgs ((s.sessions id).place.forwards.toList ++ (s.roomOf id).tx.drop (s.sessions id).rx)

def Pending (r : Nat) (k : Kept) : Prop := ∃ id, (s.sessions id).place.relays = some k ∧ (s.sessions id).room = r

/-- A member misses nothing: what reached it and what the channel has for it are the messages pushed since its welcome,
each once and in their order, up to some that are about to be sent. -/
structure Complete (w : Welcome) : Prop where
  inTurn : ∃ n, s.heard id ++ s.waiting id = ((s.roomOf id).log.take n).drop w.taken ∧
    ∀ k ∈ (s.roomOf id).log.drop n, s.Pending (s.sessions id).room k
  fresh : ∀ k ∈ w.history, k ∉ s.heard id
  /-- When nothing is on its way, the member has them all. -/
  whole : s.waiting id = [] → (∀ k, ¬ s.Pending (s.sessions id).room k) → s.heard id = (s.roomOf id).log.drop w.taken

/-- A message is sent to the channel in its turn, and a member subscribes when those sent are those its welcome
covers. -/
def InTurn : Event → Prop
  | .act id (.go _ _) =>
    match (s.sessions id).place with
    | .relaying k _ _ => k.number = (msgs (s.roomOf id).tx).length
    | .subscribing => (s.sessions id).welcome.map Welcome.taken = some (msgs (s.roomOf id).tx).length
    | _ => True
  | _ => True

instance (e : Event) : Decidable (s.InTurn e) := by
  unfold InTurn
  split
  · split <;> infer_instance
  · infer_instance

/-- A member that reads from the channel does not lag behind it. -/
def KeepsUp : Event → Prop
  | .act id .receive =>
    match (s.sessions id).place with
    | .live => (s.roomOf id).tx.length ≤ (s.sessions id).rx + BROADCAST_CAP
    | _ => True
  | _ => True

instance (e : Event) : Decidable (s.KeepsUp e) := by
  unfold KeepsUp
  split
  · split <;> infer_instance
  · infer_instance

variable {s} {s' : ChatServer} {id} {env : Env} {i : Input}

/-! ### How a room grows -/

/-- What a session's step does to the messages of a room. -/
inductive Grew (s s' : ChatServer) (id : Nat) (i : Input) (r : Nat) : Prop where
  | same (items : List Sent) (plain : msgs items = []) (tx : (s'.heap r).tx = (s.heap r).tx ++ items)
    (log : (s'.heap r).log = (s.heap r).log) (history : (s'.heap r).history = (s.heap r).history)
  | pushed (k : Kept) (own : r = (s.sessions id).room) (number : k.number = (s.heap r).log.length)
    (relays : (s'.sessions id).place.relays = some k) (tx : (s'.heap r).tx = (s.heap r).tx)
    (log : (s'.heap r).log = (s.heap r).log ++ [k])
    (history : ∀ x ∈ (s'.heap r).history, x ∈ (s.heap r).history ∨ x = k)
  | relayed (k : Kept) (own : r = (s.sessions id).room) (now rand : Nat) (input : i = .go now rand)
    (relays : (s.sessions id).place.relays = some k) (tx : (s'.heap r).tx = (s.heap r).tx ++ [.msg k])
    (log : (s'.heap r).log = (s.heap r).log) (history : (s'.heap r).history = (s.heap r).history)
  | made (fresh : r = s.made) (empty : s'.heap r = .new)

theorem Grew.refl {r : Nat} (h : s'.heap r = s.heap r) : Grew s s' id i r :=
  .same [] rfl (by rw [h, List.append_nil]) (by rw [h]) (by rw [h])

theorem Grew.setRoom (room : RoomState) (items : List Sent) (hheap : ∀ r, s'.heap r = (s.setRoom id room).heap r)
    (hplain : msgs items = []) (htx : room.tx = (s.roomOf id).tx ++ items) (hlog : room.log = (s.roomOf id).log)
    (hhistory : room.history = (s.roomOf id).history) {r : Nat} : Grew s s' id i r := by
  by_cases hr : r = (s.sessions id).room
  · subst hr
    have hroom : s'.heap (s.sessions id).room = room := by
      rw [hheap]
      exact Function.update_self ..
    exact .same items hplain (by rw [hroom]; exact htx) (by rw [hroom]; exact hlog) (by rw [hroom]; exact hhistory)
  · refine .refl ?_
    rw [hheap]
    exact Function.update_of_ne hr ..

theorem push_log (room : RoomState) (k : Kept) : (room.push k).log = room.log ++ [k] := by
  unfold RoomState.push
  rfl

theorem Did.grew (hdid : Did env s id i s') (r : Nat) : Grew s s' id i r := by
  have hnil (room : RoomState) : room.tx = room.tx ++ [] := (List.append_nil _).symm
  cases hdid with
  | made place lock get =>
    by_cases hr : r = s.made
    · subst hr
      exact .made rfl (Function.update_self ..)
    · exact .refl (Function.update_of_ne hr ..)
  | registered place lock few nick =>
    exact .setRoom { s.roomOf id with users := (s.roomOf id).users.set id ⟨(s.sessions id).nick, (s.sessions id).color⟩ }
      [] (fun _ => by rfl) rfl (hnil _) rfl rfl
  | lockedUsers place lock =>
    exact .setRoom { s.roomOf id with usersLock := some id } [] (fun _ => by rfl) rfl (hnil _) rfl rfl
  | tookWelcome place => exact .setRoom { s.roomOf id with usersLock := none } [] (fun _ => by rfl) rfl (hnil _) rfl rfl
  | announced note count place => exact .setRoom ((s.roomOf id).send _) [.notice note] (fun _ => by rfl) rfl rfl rfl rfl
  | typed state frames rest tooLarge place =>
    exact .setRoom ((s.roomOf id).send _) [.typing id (typingNote id (s.sessions id).nick state)] (fun _ => by rfl) rfl
      rfl rfl rfl
  | removed notes place lock =>
    refine .setRoom { s.roomOf id with
      users := (s.roomOf id).users.remove id, tx := (s.roomOf id).tx ++ notes.map .notice }
      (notes.map .notice) (fun _ => by rfl) ?_ rfl rfl rfl
    unfold msgs
    rw [List.filterMap_eq_nil_iff]
    intro item hitem
    obtain ⟨v, -, rfl⟩ := List.mem_map.1 hitem
    rfl
  | pushed v rest tooLarge place =>
    by_cases hr : r = (s.sessions id).room
    · subst hr
      have hroom : (s.push id v rest tooLarge).heap (s.sessions id).room =
          (s.roomOf id).push ⟨id, (s.roomOf id).log.length, v⟩ := Function.update_self ..
      refine .pushed ⟨id, (s.roomOf id).log.length, v⟩ rfl rfl ?_ ?_ ?_ fun x hx => ?_
      · simp [push, goes, change, Place.relays]
      · rw [hroom]
        exact RoomState.push_tx ..
      · rw [hroom]
        exact push_log ..
      · rw [hroom] at hx
        exact mem_push hx
    · exact .refl (Function.update_of_ne hr ..)
  | relayed now rand input k rest tooLarge place =>
    by_cases hr : r = (s.sessions id).room
    · subst hr
      have hroom : (s.relay id k rest tooLarge).heap (s.sessions id).room = (s.roomOf id).send (.msg k) :=
        Function.update_self ..
      refine .relayed k rfl now rand input ?_ ?_ ?_ ?_
      · rw [place]
        rfl
      · rw [hroom]
        rfl
      · rw [hroom]
        rfl
      · rw [hroom]
        rfl
    · exact .refl (Function.update_of_ne hr ..)
  | _ => exact .refl rfl

theorem Grew.grows {r : Nat} (h : Grew s s' id i r) (hr : r < s.made) :
    ∃ items ks, (s'.heap r).tx = (s.heap r).tx ++ items ∧ (s'.heap r).log = (s.heap r).log ++ ks := by
  cases h with
  | same items plain tx log history => exact ⟨items, [], tx, by rw [log, List.append_nil]⟩
  | pushed k own number relays tx log history => exact ⟨[], [k], by rw [tx, List.append_nil], log⟩
  | relayed k own now rand input relays tx log history => exact ⟨[.msg k], [], tx, by rw [log, List.append_nil]⟩
  | made fresh empty => exact absurd fresh (Nat.ne_of_lt hr)

/-! ### A session with a message in hand -/

theorem relays_eq_some {p : Place} {k : Kept} (h : p.relays = some k) :
    ∃ rest tooLarge, p = .relaying k rest tooLarge := by
  cases p <;> simp_all [Place.relays]

theorem Did.relaying (hdid : Did env s id i s') {k : Kept} (h : (s.sessions id).place.relays = some k) :
    s' = s ∨ msgs (s'.heap (s.sessions id).room).tx = msgs (s.roomOf id).tx ++ [k] := by
  obtain ⟨rest, tooLarge, hplace⟩ := relays_eq_some h
  cases hdid with
  | nothing => exact .inl rfl
  | relayed now rand input k' rest' tooLarge' place =>
    right
    have hk : k' = k := by
      rw [hplace] at place
      cases place
      rfl
    subst hk
    have hroom : (s.relay id k' rest' tooLarge').heap (s.sessions id).room = (s.roomOf id).send (.msg k') :=
      Function.update_self ..
    rw [hroom]
    exact msgs_append ..
  | went p member phase stage relays quiet =>
    rw [relays] at h
    cases h
  | removed notes place lock => simp [hplace] at place
  | _ => simp_all

theorem Did.toRelay (hdid : Did env s id i s') {k : Kept} (h : (s'.sessions id).place.relays = some k) :
    s' = s ∨ (s'.sessions id).room = (s.sessions id).room ∧ k.number = (s.roomOf id).log.length ∧
      (s'.roomOf id).log = (s.roomOf id).log ++ [k] := by
  cases hdid with
  | nothing => exact .inl rfl
  | pushed v rest tooLarge place =>
    simp only [push, goes, change, Function.update_self, Place.relays, Option.some.injEq] at h
    subst h
    right
    simp [push, goes, change, roomOf, ChatServer.setRoom, push_log]
  | went p member phase stage relays quiet =>
    simp only [goes, change, Function.update_self, quiet.2.1, reduceCtorEq] at h
  | dropped me place gone => simp [change, gone, Place.relays] at h
  | lagged input place lag => simp [change, place, Place.relays] at h
  | _ => simp [goes, change, takeWelcome, subscribe, ChatServer.forwarded, relay, Place.relays] at h

/-! ### What a member has heard -/

def Hears (room : RoomState) (me : Session) : Prop :=
  ∃ w, me.welcome = some w ∧ w.taken ≤ room.log.length ∧ (∀ k ∈ w.history, k.number < w.taken) ∧
    (me.place.stage = .hearing → ∃ p, p ≤ me.rx ∧ me.rx ≤ room.tx.length ∧
      msgs (room.tx.take p) = room.log.take w.taken ∧
      me.got ++ me.place.forwards.toList = (room.tx.take me.rx).drop p)

theorem Hears.grow {room room' : RoomState} {me me' : Session} (h : Hears room me)
    (hgrow : ∃ items ks, room'.tx = room.tx ++ items ∧ room'.log = room.log ++ ks)
    (hsame : me'.welcome = me.welcome ∧ me'.rx = me.rx ∧ me'.got = me.got)
    (hstage : me'.place.stage = .hearing → me.place.stage = .hearing ∧ me'.place.forwards = me.place.forwards) :
    Hears room' me' := by
  obtain ⟨w, hw, htaken, hold, hheard⟩ := h
  obtain ⟨items, ks, htx, hlog⟩ := hgrow
  obtain ⟨hwelcome, hrx, hgot⟩ := hsame
  refine ⟨w, hwelcome.trans hw, ?_, hold, fun hhearing => ?_⟩
  · rw [hlog, List.length_append]
    omega
  · obtain ⟨hwas, hforwards⟩ := hstage hhearing
    obtain ⟨p, hp, hread, hbefore, hsince⟩ := hheard hwas
    rw [hrx, hgot, hforwards, htx, hlog]
    refine ⟨p, hp, ?_, ?_, ?_⟩
    · rw [List.length_append]
      omega
    · rw [List.take_append_of_le_length (hp.trans hread), List.take_append_of_le_length htaken]
      exact hbefore
    · rw [List.take_append_of_le_length hread]
      exact hsince

theorem Hears.receive {room : RoomState} {me : Session} (h : Hears room me) {item : Sent} (hplace : me.place = .live)
    (hget : room.tx[me.rx]? = some item) : Hears room { me with place := .forwarding item, rx := me.rx + 1 } := by
  obtain ⟨w, hw, htaken, hold, hheard⟩ := h
  obtain ⟨p, hp, hread, hbefore, hsince⟩ := hheard (by rw [hplace]; rfl)
  have hlt : me.rx < room.tx.length := (List.getElem?_eq_some_iff.1 hget).1
  refine ⟨w, hw, htaken, hold, fun _ => ⟨p, Nat.le_succ_of_le hp, hlt, hbefore, ?_⟩⟩
  rw [hplace] at hsince
  have hgot : me.got = (room.tx.take me.rx).drop p := by simpa [Place.forwards] using hsince
  change me.got ++ [item] = (room.tx.take (me.rx + 1)).drop p
  rw [List.take_add_one, hget, Option.toList_some, List.drop_append_of_le_length, hgot]
  rw [List.length_take]
  omega

/-! ### What a run in turn keeps -/

structure Steady (s : ChatServer) : Prop where
  books : Books s
  numbered : ∀ r n (k : Kept), (s.heap r).log[n]? = some k → k.number = n
  kept : ∀ r, ∀ k ∈ (s.heap r).history, k ∈ (s.heap r).log
  relayed : ∀ r, msgs (s.heap r).tx = (s.heap r).log.take (msgs (s.heap r).tx).length
  relays : ∀ id (k : Kept), (s.sessions id).place.relays = some k → (s.roomOf id).log[k.number]? = some k
  pending : ∀ r, ∀ k ∈ (s.heap r).log.drop (msgs (s.heap r).tx).length, s.Pending r k
  hears : ∀ id, (s.sessions id).place.stage = .welcomed ∨ (s.sessions id).place.stage = .hearing →
    Hears (s.roomOf id) (s.sessions id)

theorem Steady.new : Steady new := by
  refine ⟨.new, fun r n k h => ?_, fun r k h => ?_, fun r => rfl, fun id k h => ?_, fun r k h => ?_, fun id h => ?_⟩
  · cases h
  · cases h
  · cases h
  · cases h
  · rcases h with h | h <;> cases h

theorem Did.other (hdid : Did env s id i s') {id' : Nat} (hne : id' ≠ id) : s'.sessions id' = s.sessions id' := by
  obtain ⟨-, me, hme, -⟩ := hdid.session
  rw [hme, Function.update_of_ne hne]

theorem Pending.did (hdid : Did env s id i s') {r : Nat} {k : Kept} (h : s.Pending r k) :
    s'.Pending r k ∨ r = (s.sessions id).room ∧ msgs (s'.heap r).tx = msgs (s.heap r).tx ++ [k] := by
  obtain ⟨id', hrelays, hroom⟩ := h
  by_cases hid : id' = id
  · subst hid
    obtain rfl | hsent := hdid.relaying hrelays
    · exact .inl ⟨id', hrelays, hroom⟩
    · subst hroom
      exact .inr ⟨rfl, hsent⟩
  · refine .inl ⟨id', ?_, ?_⟩
    · rw [hdid.other hid]
      exact hrelays
    · rw [hdid.other hid]
      exact hroom

theorem inRoom_of_stage {p : Place} (h : p.stage ≠ .outside) : p.phase.inRoom := by
  cases p <;> simp_all [Place.stage, Place.phase, Phase.inRoom]

theorem stage_of_relays {p : Place} {k : Kept} (h : p.relays = some k) : p.stage = .hearing := by
  obtain ⟨rest, tooLarge, rfl⟩ := relays_eq_some h
  rfl

theorem Steady.numbered_did (h : Steady s) (hdid : Did env s id i s') (r n : Nat) (k : Kept)
    (hget : (s'.heap r).log[n]? = some k) : k.number = n := by
  cases hdid.grew r with
  | same items plain tx log history =>
    rw [log] at hget
    exact h.numbered r n k hget
  | pushed k' own number relays tx log history =>
    rw [log, List.getElem?_append] at hget
    split at hget
    · exact h.numbered r n k hget
    · rename_i hle
      obtain ⟨hlt, rfl⟩ := List.getElem?_eq_some_iff.1 hget
      rw [List.length_singleton] at hlt
      rw [List.getElem_singleton, number]
      omega
  | relayed k' own now rand input relays tx log history =>
    rw [log] at hget
    exact h.numbered r n k hget
  | made fresh empty =>
    rw [empty] at hget
    cases hget

theorem Steady.kept_did (h : Steady s) (hdid : Did env s id i s') (r : Nat) (k : Kept)
    (hk : k ∈ (s'.heap r).history) : k ∈ (s'.heap r).log := by
  cases hdid.grew r with
  | same items plain tx log history =>
    rw [history] at hk
    rw [log]
    exact h.kept r k hk
  | pushed k' own number relays tx log history =>
    rw [log, List.mem_append, List.mem_singleton]
    exact (history k hk).imp_left (h.kept r k)
  | relayed k' own now rand input relays tx log history =>
    rw [history] at hk
    rw [log]
    exact h.kept r k hk
  | made fresh empty =>
    rw [empty] at hk
    cases hk

theorem Steady.turn (h : Steady s) (hturn : s.InTurn (.act id i)) {now rand : Nat} (hinput : i = .go now rand) {k : Kept}
    (hrelays : (s.sessions id).place.relays = some k) :
    k.number = (msgs (s.roomOf id).tx).length ∧
      (s.roomOf id).log[(msgs (s.roomOf id).tx).length]? = some k := by
  obtain ⟨rest, tooLarge, hplace⟩ := relays_eq_some hrelays
  have hnumber : k.number = (msgs (s.roomOf id).tx).length := by
    subst hinput
    simpa [InTurn, hplace] using hturn
  refine ⟨hnumber, ?_⟩
  rw [← hnumber]
  exact h.relays id k hrelays

theorem Steady.sent_le (h : Steady s) (r : Nat) : (msgs (s.heap r).tx).length ≤ (s.heap r).log.length := by
  have hlength := congrArg List.length (h.relayed r)
  rw [List.length_take] at hlength
  omega

theorem Did.room (hdid : Did env s id i s') {k : Kept} (h : (s'.sessions id).place.relays = some k) :
    (s'.sessions id).room = (s.sessions id).room := by
  obtain rfl | ⟨hroom, -⟩ := hdid.toRelay h
  · rfl
  · exact hroom

theorem Steady.relayed_did (h : Steady s) (hdid : Did env s id i s') (hturn : s.InTurn (.act id i)) (r : Nat) :
    msgs (s'.heap r).tx = (s'.heap r).log.take (msgs (s'.heap r).tx).length := by
  cases hdid.grew r with
  | same items plain tx log history =>
    rw [tx, log, msgs_append, plain, List.append_nil]
    exact h.relayed r
  | pushed k own number relays tx log history =>
    rw [tx, log, List.take_append_of_le_length (h.sent_le r)]
    exact h.relayed r
  | relayed k own now rand input relays tx log history =>
    subst own
    have hget := (h.turn hturn input relays).2
    unfold roomOf at hget
    rw [tx, log, msgs_append, List.length_append]
    change _ = (s.heap (s.sessions id).room).log.take ((msgs (s.heap (s.sessions id).room).tx).length + 1)
    rw [List.take_add_one, hget, ← h.relayed]
    rfl
  | made fresh empty =>
    rw [empty]
    rfl

theorem Steady.pending_did (h : Steady s) (hdid : Did env s id i s') (hturn : s.InTurn (.act id i)) (r : Nat) (k : Kept)
    (hk : k ∈ (s'.heap r).log.drop (msgs (s'.heap r).tx).length) : s'.Pending r k := by
  cases hdid.grew r with
  | same items plain tx log history =>
    have hmsgs : msgs (s'.heap r).tx = msgs (s.heap r).tx := by rw [tx, msgs_append, plain, List.append_nil]
    rw [hmsgs, log] at hk
    obtain hpending | ⟨-, hsent⟩ := (h.pending r k hk).did hdid
    · exact hpending
    · rw [hmsgs] at hsent
      simp at hsent
  | pushed k' own number relays tx log history =>
    rw [tx, log] at hk
    rw [List.drop_append_of_le_length (h.sent_le r), List.mem_append, List.mem_singleton] at hk
    obtain hold | rfl := hk
    · obtain hpending | ⟨-, hsent⟩ := (h.pending r k hold).did hdid
      · exact hpending
      · rw [tx] at hsent
        simp at hsent
    · refine ⟨id, relays, ?_⟩
      rw [own]
      exact hdid.room relays
  | relayed k' own now rand input relays tx log history =>
    subst own
    obtain ⟨hnumber, hget⟩ := h.turn hturn input relays
    rw [tx, log, msgs_append, List.length_append] at hk
    obtain ⟨n, hn⟩ := List.mem_iff_getElem?.1 hk
    rw [List.getElem?_drop] at hn
    have hlater := h.numbered _ _ _ hn
    have hold : k ∈ (s.roomOf id).log.drop (msgs (s.roomOf id).tx).length := by
      refine List.mem_iff_getElem?.2 ⟨n + 1, ?_⟩
      rw [List.getElem?_drop, ← hn]
      congr 1
      change _ = (msgs (s.heap (s.sessions id).room).tx).length + 1 + n
      unfold roomOf
      omega
    obtain hpending | ⟨-, hsent⟩ := (h.pending _ k hold).did hdid
    · exact hpending
    · -- the message sent is the first, and this one comes later
      rw [tx, msgs_append] at hsent
      have hsame : k' = k := List.singleton_inj.1 (List.append_cancel_left hsent)
      subst hsame
      unfold roomOf at hnumber
      change k'.number = (msgs (s.heap (s.sessions id).room).tx).length + 1 + n at hlater
      omega
  | made fresh empty =>
    rw [empty] at hk
    cases hk

theorem Steady.relays_did (h : Steady s) (hdid : Did env s id i s') (id' : Nat) (k : Kept)
    (hrelays : (s'.sessions id').place.relays = some k) : (s'.roomOf id').log[k.number]? = some k := by
  by_cases hid : id' = id
  · subst hid
    obtain rfl | ⟨hroom, hnumber, hlog⟩ := hdid.toRelay hrelays
    · exact h.relays id' k hrelays
    · rw [hlog, hnumber, List.getElem?_concat_length]
  · rw [hdid.other hid] at hrelays
    have hold := h.relays id' k hrelays
    have hmade : (s.sessions id').room < s.made := by
      refine h.books.made id' (inRoom_of_stage ?_)
      rw [stage_of_relays hrelays]
      nofun
    obtain ⟨items, ks, -, hlog⟩ := (hdid.grew _).grows hmade
    unfold roomOf at hold ⊢
    rw [hdid.other hid, hlog, List.getElem?_append_left (List.getElem?_eq_some_iff.1 hold).1]
    exact hold

theorem Steady.hears_did (h : Steady s) (hdid : Did env s id i s') (hturn : s.InTurn (.act id i))
    (hkeeps : s.KeepsUp (.act id i)) (id' : Nat)
    (hstage : (s'.sessions id').place.stage = .welcomed ∨ (s'.sessions id').place.stage = .hearing) :
    Hears (s'.roomOf id') (s'.sessions id') := by
  -- its room grows, and it hears as before where it is at no other place than before
  have hgrow {me : Session} (hwas : me.place.stage = .welcomed ∨ me.place.stage = .hearing) {id'' : Nat}
      (hme : me = s.sessions id'') : ∃ items ks, (s'.heap me.room).tx = (s.roomOf id'').tx ++ items ∧
        (s'.heap me.room).log = (s.roomOf id'').log ++ ks := by
    subst hme
    refine (hdid.grew _).grows (h.books.made id'' (inRoom_of_stage ?_))
    obtain hwas | hwas := hwas <;> (rw [hwas]; nofun)
  by_cases hid : id' = id
  · subst hid
    have hstay (hwas : (s.sessions id').place.stage = .welcomed ∨ (s.sessions id').place.stage = .hearing)
        {me : Session} (hme : s'.sessions id' = me) (hroom : me.room = (s.sessions id').room)
        (hsame : me.welcome = (s.sessions id').welcome ∧ me.rx = (s.sessions id').rx ∧ me.got = (s.sessions id').got)
        (hplace : me.place.stage = .hearing → (s.sessions id').place.stage = .hearing ∧
          me.place.forwards = (s.sessions id').place.forwards) : Hears (s'.roomOf id') (s'.sessions id') := by
      have hgrown := hgrow hwas rfl
      unfold roomOf
      rw [hme, hroom]
      exact (h.hears id' hwas).grow hgrown hsame hplace
    cases hdid with
    | nothing => exact h.hears id' hstage
    | tookWelcome place =>
      have hroom : (s.takeWelcome id').roomOf id' = { s.roomOf id' with usersLock := none } := by
        simp [takeWelcome, roomOf, change, ChatServer.setRoom]
      have hme : (s.takeWelcome id').sessions id' = { s.sessions id' with
          place := .sendingWelcome
          welcome := some ⟨(s.sessions id').roomId, id', (s.roomOf id').users.entries.map Prod.snd,
            (s.roomOf id').history, (s.roomOf id').users.size, (s.roomOf id').log.length⟩ } := Function.update_self ..
      rw [hroom, hme]
      refine ⟨_, rfl, Nat.le_refl _, fun k hk => ?_, fun hearing => by cases hearing⟩
      obtain ⟨n, hn⟩ := List.mem_iff_getElem?.1 (h.kept _ k hk)
      rw [h.numbered _ n k hn]
      exact (List.getElem?_eq_some_iff.1 hn).1
    | announced note count place =>
      refine hstay (.inl (by rw [place]; rfl)) (Function.update_self ..) rfl ⟨rfl, rfl, rfl⟩ fun hearing => ?_
      cases hearing
    | subscribed now rand input place =>
      subst input
      have hme : (s.subscribe id').sessions id' = { s.sessions id' with
          place := .live, rx := (s.roomOf id').tx.length, got := [] } := Function.update_self ..
      have hroom : (s.subscribe id').roomOf id' = s.roomOf id' := by simp [subscribe, roomOf, change]
      obtain ⟨w, hw, htaken, hold, -⟩ := h.hears id' (.inl (by rw [place]; rfl))
      have hcovers : w.taken = (msgs (s.roomOf id').tx).length := by simpa [InTurn, place, hw] using hturn
      rw [hroom, hme]
      refine ⟨w, hw, htaken, hold, fun _ => ⟨(s.roomOf id').tx.length, Nat.le_refl _, Nat.le_refl _, ?_, ?_⟩⟩
      · rw [List.take_length, hcovers]
        exact h.relayed _
      · change [] = _
        rw [List.take_length, List.drop_length]
    | lagged input place lag =>
      subst input
      rw [KeepsUp, place] at hkeeps
      omega
    | received item place get =>
      have hreceived := (h.hears id' (.inr (by rw [place]; rfl))).receive place get
      simpa [roomOf, change] using hreceived
    | forwarded item place =>
      obtain ⟨w, hw, htaken, hold, hheard⟩ := h.hears id' (.inr (by rw [place]; rfl))
      obtain ⟨p, hp, hread, hbefore, hsince⟩ := hheard (by rw [place]; rfl)
      have hme : (s.forwarded id' item).sessions id' = { s.sessions id' with
          place := .live, got := (s.sessions id').got ++ [item] } := Function.update_self ..
      have hroom : (s.forwarded id' item).roomOf id' = s.roomOf id' := by simp [ChatServer.forwarded, roomOf, change]
      rw [hroom, hme]
      refine ⟨w, hw, htaken, hold, fun _ => ⟨p, hp, hread, hbefore, ?_⟩⟩
      rw [place] at hsince
      change (s.sessions id').got ++ [item] ++ [] = _
      rw [List.append_nil]
      exact hsince
    | typed _ _ _ _ place | said _ _ _ _ place | pushed _ _ _ place | relayed _ _ _ _ _ _ place =>
      refine hstay (.inr (by rw [place]; rfl)) (Function.update_self ..) rfl ⟨rfl, rfl, rfl⟩ fun _ => ?_
      rw [place]
      exact ⟨rfl, rfl⟩
    | went p member phase stage relays quiet =>
      have hp : (s.goes id' p).sessions id' = { s.sessions id' with place := p } := Function.update_self ..
      rw [hp] at hstage
      obtain hending | ⟨hsame, hforwards⟩ := stage
      · rw [hending] at hstage
        rcases hstage with hstage | hstage <;> cases hstage
      · rw [hsame] at hstage
        refine hstay hstage hp rfl ⟨rfl, rfl, rfl⟩ fun hearing => ⟨hsame ▸ hearing, ?_⟩
        exact quiet.2.2.trans hforwards.symm
    | dropped me place gone => simp [change, gone, Place.stage] at hstage
    | _ => simp [goes, change, Place.stage] at hstage
  · have hme := hdid.other hid
    rw [hme] at hstage
    have hgrown := hgrow hstage rfl
    unfold roomOf
    rw [hme]
    exact (h.hears id' hstage).grow hgrown ⟨rfl, rfl, rfl⟩ fun hearing => ⟨hearing, rfl⟩

theorem Steady.did (h : Steady s) (hdid : Did env s id i s') (hturn : s.InTurn (.act id i))
    (hkeeps : s.KeepsUp (.act id i)) : Steady s' :=
  ⟨h.books.did hdid, h.numbered_did hdid, h.kept_did hdid, h.relayed_did hdid hturn, h.relays_did hdid,
    h.pending_did hdid hturn, h.hears_did hdid hturn hkeeps⟩

theorem Steady.accepted (h : Steady s) : Steady (s.step env .accept) := by
  have hgone := h.books.unborn s.nextId (Nat.le_refl _)
  have hsession {id : Nat} (hne : id ≠ s.nextId) : (s.step env .accept).sessions id = s.sessions id :=
    Function.update_of_ne hne ..
  have hnew : (s.step env .accept).sessions s.nextId = { place := .joining } := Function.update_self ..
  refine ⟨h.books.accepted, h.numbered, h.kept, h.relayed, fun id k hrelays => ?_, fun r k hk => ?_, fun id hstage => ?_⟩
  · by_cases hid : id = s.nextId
    · rw [hid, hnew] at hrelays
      cases hrelays
    · rw [hsession hid] at hrelays
      unfold roomOf
      rw [hsession hid]
      exact h.relays id k hrelays
  · obtain ⟨id, hrelays, hroom⟩ := h.pending r k hk
    have hid : id ≠ s.nextId := by
      rintro rfl
      unfold phase at hgone
      obtain ⟨rest, tooLarge, hplace⟩ := relays_eq_some hrelays
      rw [hplace] at hgone
      cases hgone
    exact ⟨id, by rw [hsession hid]; exact hrelays, by rw [hsession hid]; exact hroom⟩
  · by_cases hid : id = s.nextId
    · rw [hid, hnew] at hstage
      rcases hstage with hstage | hstage <;> cases hstage
    · unfold roomOf
      rw [hsession hid] at hstage ⊢
      exact h.hears id hstage

theorem Steady.step (h : Steady s) (e : Event) (hturn : s.InTurn e) (hkeeps : s.KeepsUp e) :
    Steady (s.step env e) := by
  cases e with
  | accept => exact h.accepted
  | act id i => exact h.did (did_act env s id i) hturn hkeeps

theorem Steady.complete (h : Steady s) (hhearing : (s.sessions id).place.stage = .hearing) :
    ∃ w, (s.sessions id).welcome = some w ∧ s.Complete id w := by
  obtain ⟨w, hw, htaken, hold, hheard⟩ := h.hears id (.inr hhearing)
  obtain ⟨p, hp, hread, hbefore, hsince⟩ := hheard hhearing
  have hall : s.heard id ++ s.waiting id = msgs ((s.roomOf id).tx.drop p) := by
    unfold heard waiting
    rw [← msgs_append, ← List.append_assoc, hsince, ← List.drop_append_of_le_length, List.take_append_drop]
    rw [List.length_take]
    omega
  have hturn : s.heard id ++ s.waiting id =
      ((s.roomOf id).log.take (msgs (s.roomOf id).tx).length).drop w.taken := by
    have hsplit : msgs (s.roomOf id).tx = (s.roomOf id).log.take w.taken ++ msgs ((s.roomOf id).tx.drop p) := by
      rw [← hbefore, ← msgs_append, List.take_append_drop]
    have hrelayed := h.relayed (s.sessions id).room
    change msgs (s.roomOf id).tx = (s.roomOf id).log.take (msgs (s.roomOf id).tx).length at hrelayed
    rw [hall, ← hrelayed, hsplit, List.drop_left']
    rw [List.length_take]
    omega
  refine ⟨w, hw, ⟨_, hturn, h.pending _⟩, fun k hk hheard => ?_, fun hnone hquiet => ?_⟩
  · have hmem : k ∈ s.heard id ++ s.waiting id := List.mem_append_left _ hheard
    rw [hturn] at hmem
    obtain ⟨n, hn⟩ := List.mem_iff_getElem?.1 hmem
    rw [List.getElem?_drop, List.getElem?_take] at hn
    split at hn
    · have hnumber := h.numbered _ _ _ hn
      have hlt := hold k hk
      omega
    · cases hn
  · have hsent : (s.roomOf id).log.drop (msgs (s.roomOf id).tx).length = [] := by
      rw [List.eq_nil_iff_forall_not_mem]
      exact fun k hk => hquiet k (h.pending _ k hk)
    rw [hnone, List.append_nil, List.take_of_length_le (List.drop_eq_nil_iff.1 hsent)] at hturn
    exact hturn

theorem Books.quiet (h : Books s) (hnone : ∀ id < s.nextId, (s.sessions id).place.relays.isNone) (r : Nat) (k : Kept) :
    ¬ s.Pending r k := by
  rintro ⟨id, hrelays, -⟩
  have hborn : id < s.nextId := by
    refine h.born fun hgone => ?_
    obtain ⟨rest, tooLarge, hplace⟩ := relays_eq_some hrelays
    unfold phase at hgone
    rw [hplace] at hgone
    cases hgone
  have hnot := hnone id hborn
  rw [hrelays] at hnot
  cases hnot

end ChatServer

/-- In a run whose steps are in turn and in which no member lags behind, every member that hears has what was said since
its welcome. -/
theorem members_run (env : Env) (events : List Event)
    (hturn : Along (ChatServer.step env) ChatServer.InTurn .new events)
    (hkeeps : Along (ChatServer.step env) ChatServer.KeepsUp .new events) (id : Nat)
    (hhearing : ((run (ChatServer.step env) .new events).sessions id).place.stage = .hearing) :
    ∃ w, ((run (ChatServer.step env) .new events).sessions id).welcome = some w ∧
      (run (ChatServer.step env) .new events).Complete id w := by
  have hsteady : ChatServer.Steady (run (ChatServer.step env) .new events) :=
    run_invariant (P := ChatServer.Steady) (fun s e h hok => h.step e hok.1 hok.2) (hturn.and hkeeps) .new
  exact hsteady.complete hhearing

namespace Sample

def late : List Event :=
  join 1 "ana" ++ subscribe 1 ++ join 2 "bob" ++ [writes 1 helloText, go 1, go 1, go 1] ++ subscribe 2

def inTime : List Event :=
  join 1 "ana" ++ subscribe 1 ++ join 2 "bob" ++ subscribe 2 ++
    [writes 1 helloText, go 1, go 1, go 1, .act 2 .receive, .act 2 .receive, .act 2 (.sent true)]

end Sample

theorem members_run_inTime : ∃ w,
    ((run (ChatServer.step Sample.env) .new Sample.inTime).sessions 2).welcome = some w ∧
      (run (ChatServer.step Sample.env) .new Sample.inTime).Complete 2 w :=
  members_run Sample.env Sample.inTime (by decide +kernel) (by decide +kernel) 2 (by decide +kernel)

/-- A message sent to the channel between a member's welcome and its subscription never reaches it. -/
theorem missed : ¬ ∀ (env : Env) (events : List Event),
    Along (ChatServer.step env) ChatServer.KeepsUp .new events →
    ∀ id, ((run (ChatServer.step env) .new events).sessions id).place.stage = .hearing →
      ∃ w, ((run (ChatServer.step env) .new events).sessions id).welcome = some w ∧
        (run (ChatServer.step env) .new events).Complete id w := by
  intro h
  obtain ⟨w, hw, hcomplete⟩ := h Sample.env Sample.late (by decide +kernel) 2 (by decide +kernel)
  have hbooks : ChatServer.Books (run (ChatServer.step Sample.env) .new Sample.late) :=
    run_always (P := ChatServer.Books) (fun _ e hbooks => hbooks.step e) .new _
  have htaken : w.taken = 0 := by
    have hwelcome : ((run (ChatServer.step Sample.env) .new Sample.late).sessions 2).welcome.map Welcome.taken =
        some 0 := by
      decide +kernel
    rw [hw] at hwelcome
    exact Option.some.inj hwelcome
  have hquiet := hbooks.quiet (by decide +kernel) ((run (ChatServer.step Sample.env) .new Sample.late).sessions 2).room
  have hwaiting : ((run (ChatServer.step Sample.env) .new Sample.late).waiting 2).length = 0 := by decide +kernel
  have hheard := congrArg List.length (hcomplete.whole (List.length_eq_zero_iff.1 hwaiting) hquiet)
  rw [htaken] at hheard
  revert hheard
  decide +kernel

end HidraNet.Hidrachat
