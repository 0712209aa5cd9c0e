import HidraNet.Hidrachat.Session

/-!
# What a session's step does

Every step of a session is one of a few kinds (`ChatServer.Did`, `ChatServer.did_act`): each says where the session was,
what it relied on and what it changed.  What a client says is stamped with its name, colour and number whatever fields
it had (`stamped_stamp`).
-/

namespace HidraNet.Hidrachat

open Json Maps Runs Utf8

/-! ### The phases of a session -/

/-- What a session holds and has a part in. -/
inductive Phase where
  | joining | entering | registering | refusing | member | takingHistory | reaping | reapingUsers | gone
deriving DecidableEq

namespace Phase

def registered : Phase → Bool
  | .member | .takingHistory => true
  | _ => false

def holdsRooms : Phase → Bool
  | .registering | .refusing | .reapingUsers => true
  | _ => false

def shown : Phase → Bool
  | .joining | .gone => false
  | _ => true

def inRoom : Phase → Bool
  | .joining | .entering | .gone => false
  | _ => true

def keeps : Phase → Bool
  | .registering | .refusing | .member | .takingHistory => true
  | _ => false

end Phase

namespace Place

def phase : Place → Phase
  | .joining => .joining
  | .entering => .entering
  | .registering => .registering
  | .refusing _ => .refusing
  | .takingHistory => .takingHistory
  | .reaping => .reaping
  | .reapingUsers => .reapingUsers
  | .gone => .gone
  | _ => .member

/-- How far a member is with the room's messages. -/
inductive Stage where
  | outside | welcomed | hearing | ending
deriving DecidableEq

def stage : Place → Stage
  | .sendingWelcome | .announcing | .joined _ | .subscribing => .welcomed
  | .live | .forwarding _ | .handling .. | .pushing .. | .relaying .. => .hearing
  | .failing | .leaving => .ending
  | _ => .outside

def speaks : Place → Option Value
  | .pushing v _ _ => some v
  | _ => none

def relays : Place → Option Kept
  | .relaying k _ _ => some k
  | _ => none

def forwards : Place → Option Sent
  | .forwarding item => some item
  | _ => none

def underWay : Place → Bool
  | .joining | .live | .forwarding _ | .handling .. | .pushing .. | .relaying .. | .gone => false
  | _ => true

end Place

/-! ### What a message bears -/

/-- The value bears the name, colour and number of a session. -/
structure Stamped (me : Session) (id : Nat) (v : Value) : Prop where
  nick : v.get "nick" = some (.string me.nick)
  color : v.get "color" = some (.string me.color)
  connId : v.get "from" = some (.nat id)

/-- A chat message is stamped whatever its fields were. -/
theorem stamped_stamp {msg : Value} (h : (msg.get "type").isSome) (me : Session) (id now rand : Nat) :
    Stamped me id (stamp msg id me.nick me.color now rand) := by
  have hnick := Value.get_insert_isSome h "nick" (.string me.nick)
  have hcolor := Value.get_insert_isSome hnick "color" (.string me.color)
  have hfrom := Value.get_insert_isSome hcolor "from" (.nat id)
  have htime := Value.get_insert_isSome hfrom "time" (.nat now)
  unfold stamp
  constructor <;> rw [Value.get_insert htime, if_neg (by decide), Value.get_insert hfrom, if_neg (by decide),
    Value.get_insert hcolor]
  · rw [if_neg (by decide), Value.get_insert hnick, if_neg (by decide), Value.get_insert h, if_pos rfl]
  · rw [if_neg (by decide), Value.get_insert hnick, if_pos rfl]
  · rw [if_pos rfl]

/-- A message is passed on under its sender's own name, as a message or as typing, or not at all. -/
theorem onMessage_cases (env : Env) (payload : List UInt8) (me : Session) (id now rand : Nat) :
    (∃ v, onMessage env payload id me.nick me.color now rand = .msg v ∧ Stamped me id v) ∨
      (∃ state, onMessage env payload id me.nick me.color now rand = .typing (typingNote id me.nick state)) ∨
      onMessage env payload id me.nick me.color now rand = .nothing := by
  unfold onMessage
  split
  · exact .inr (.inr rfl)
  · cases hmsg : (fromUtf8 payload).bind env.fromStr with
    | none => exact .inr (.inr rfl)
    | some msg =>
      dsimp only
      split_ifs with htype htyping
      · have hsome : (msg.get "type").isSome := by
          by_contra hnone
          rw [Option.not_isSome_iff_eq_none.1 hnone] at htype
          revert htype
          decide
        exact .inl ⟨_, rfl, stamped_stamp hsome me id now rand⟩
      · exact .inr (.inl ⟨_, rfl⟩)
      · exact .inr (.inr rfl)

/-! ### What a step does -/

namespace ChatServer

/-- Everything that a step of a session may do, given an input. -/
inductive Did (env : Env) (s : ChatServer) (id : Nat) (i : Input) : ChatServer → Prop where
  | nothing : Did env s id i s
  | dropped (me : Session) (place : (s.sessions id).place = .joining) (gone : me.place = .gone) :
    Did env s id i (s.change id me)
  | asked (nick roomId : Text) (place : (s.sessions id).place = .joining) :
    Did env s id i (s.change id { s.sessions id with
      place := .entering, nick := nick, color := nickColor env nick, roomId := roomId, auth := some env.joinVerifier })
  | found (r : Nat) (place : (s.sessions id).place = .entering) (lock : s.roomsLock = none)
    (get : s.rooms.get? (s.sessions id).roomId = some r) :
    Did env s id i
      { s.change id { s.sessions id with place := .registering, room := r } with roomsLock := some id }
  | made (place : (s.sessions id).place = .entering) (lock : s.roomsLock = none)
    (get : s.rooms.get? (s.sessions id).roomId = none) :
    Did env s id i
      { s.change id { s.sessions id with place := .registering, room := s.made } with
        rooms := s.rooms.set (s.sessions id).roomId s.made
        roomsLock := some id
        heap := Function.update s.heap s.made .new
        made := s.made + 1 }
  | refused (why : String) (place : (s.sessions id).place = .registering) : Did env s id i (s.goes id (.refusing why))
  | registered (place : (s.sessions id).place = .registering) (lock : (s.roomOf id).usersLock = none)
    (few : (s.roomOf id).users.size < MAX_CLIENTS)
    (nick : ∀ u ∈ (s.roomOf id).users.entries, nickKey env u.2.nick ≠ nickKey env (s.sessions id).nick) :
    Did env s id i
      { (s.setRoom id { s.roomOf id with
          users := (s.roomOf id).users.set id ⟨(s.sessions id).nick, (s.sessions id).color⟩ }).goes id .welcoming with
        roomsLock := none }
  | endedRefused (why : String) (place : (s.sessions id).place = .refusing why)
    (lock : (s.roomOf id).usersLock = none) :
    Did env s id i
      { s.change id { s.sessions id with place := .gone, told := some why } with
        roomsLock := none
        rooms := if (s.roomOf id).users.size = 0 then s.rooms.remove (s.sessions id).roomId else s.rooms }
  | lockedUsers (place : (s.sessions id).place = .welcoming) (lock : (s.roomOf id).usersLock = none) :
    Did env s id i ((s.setRoom id { s.roomOf id with usersLock := some id }).goes id .takingHistory)
  | tookWelcome (place : (s.sessions id).place = .takingHistory) : Did env s id i (s.takeWelcome id)
  | announced (note : Value) (count : Nat) (place : (s.sessions id).place = .joined count) :
    Did env s id i ((s.setRoom id ((s.roomOf id).send (.notice note))).goes id .subscribing)
  | subscribed (now rand : Nat) (input : i = .go now rand) (place : (s.sessions id).place = .subscribing) :
    Did env s id i (s.subscribe id)
  | lagged (input : i = .receive) (place : (s.sessions id).place = .live)
    (lag : (s.sessions id).rx + BROADCAST_CAP < (s.roomOf id).tx.length) :
    Did env s id i (s.change id { s.sessions id with rx := (s.roomOf id).tx.length - BROADCAST_CAP })
  | received (item : Sent) (place : (s.sessions id).place = .live)
    (get : (s.roomOf id).tx[(s.sessions id).rx]? = some item) :
    Did env s id i (s.change id { s.sessions id with place := .forwarding item, rx := (s.sessions id).rx + 1 })
  | forwarded (item : Sent) (place : (s.sessions id).place = .forwarding item) : Did env s id i (s.forwarded id item)
  | typed (state : Bool) (frames rest : Frames) (tooLarge : Bool)
    (place : (s.sessions id).place = .handling frames tooLarge) :
    Did env s id i ((s.setRoom id ((s.roomOf id).send (.typing id (typingNote id (s.sessions id).nick state)))).goes id
      (.handling rest tooLarge))
  | said (v : Value) (frames rest : Frames) (tooLarge : Bool)
    (place : (s.sessions id).place = .handling frames tooLarge) (stamped : Stamped (s.sessions id) id v) :
    Did env s id i (s.goes id (.pushing v rest tooLarge))
  | pushed (v : Value) (rest : Frames) (tooLarge : Bool) (place : (s.sessions id).place = .pushing v rest tooLarge) :
    Did env s id i (s.push id v rest tooLarge)
  | relayed (now rand : Nat) (input : i = .go now rand) (k : Kept) (rest : Frames) (tooLarge : Bool)
    (place : (s.sessions id).place = .relaying k rest tooLarge) :
    Did env s id i (s.relay id k rest tooLarge)
  | removed (notes : List Value) (place : (s.sessions id).place = .failing ∨ (s.sessions id).place = .leaving)
    (lock : (s.roomOf id).usersLock = none) :
    Did env s id i ((s.setRoom id { s.roomOf id with
      users := (s.roomOf id).users.remove id, tx := (s.roomOf id).tx ++ notes.map .notice }).goes id .reaping)
  | lockedRooms (place : (s.sessions id).place = .reaping) (lock : s.roomsLock = none) :
    Did env s id i { s.goes id .reapingUsers with roomsLock := some id }
  | reaped (place : (s.sessions id).place = .reapingUsers) (lock : (s.roomOf id).usersLock = none) :
    Did env s id i
      { s.goes id .gone with
        roomsLock := none
        rooms :=
          if (s.roomOf id).users.size = 0 ∧ s.rooms.get? (s.sessions id).roomId = some (s.sessions id).room then
            s.rooms.remove (s.sessions id).roomId
          else s.rooms }
  | went (p : Place) (member : (s.sessions id).place.phase = .member) (phase : p.phase = .member)
    (stage : p.stage = .ending ∨ p.stage = (s.sessions id).place.stage ∧ (s.sessions id).place.forwards = none)
    (relays : (s.sessions id).place.relays = none) (quiet : p.speaks = none ∧ p.relays = none ∧ p.forwards = none) :
    Did env s id i (s.goes id p)

variable (env : Env) (s : ChatServer) (id : Nat) {i : Input}

theorem did_readJoin {op : Nat} {payload : List UInt8} (hplace : (s.sessions id).place = .joining) :
    Did env s id i (s.readJoin env id op payload) := by
  unfold readJoin
  split_ifs with hclose htext
  · exact .dropped _ hplace rfl
  · exact .nothing
  · cases (fromUtf8 payload).bind env.fromStr with
    | none => exact .nothing
    | some msg =>
      dsimp only
      split_ifs with htype hauth
      · exact .nothing
      · rw [hauth]
        exact .asked _ _ hplace
      · exact .dropped _ hplace rfl

theorem did_enter (hplace : (s.sessions id).place = .entering) : Did env s id i (s.enter id) := by
  unfold enter
  split
  · exact .nothing
  · rename_i hlock
    rw [Option.not_isSome_iff_eq_none] at hlock
    dsimp only
    split
    · rename_i r hget
      exact .found r hplace hlock hget
    · rename_i hget
      exact .made hplace hlock hget

theorem refusal_none (h : s.refusal env id = none) : (s.roomOf id).users.size < MAX_CLIENTS ∧
    ∀ u ∈ (s.roomOf id).users.entries, nickKey env u.2.nick ≠ nickKey env (s.sessions id).nick := by
  unfold refusal at h
  split_ifs at h with hfull hnick
  refine ⟨not_le.1 hfull, fun u hu heq => hnick ?_⟩
  rw [List.any_eq_true]
  exact ⟨u, hu, decide_eq_true heq⟩

theorem did_register (hplace : (s.sessions id).place = .registering) : Did env s id i (s.register env id) := by
  unfold register
  dsimp only
  split
  · exact .nothing
  · rename_i hlock
    rw [Option.not_isSome_iff_eq_none] at hlock
    split
    · exact .refused _ hplace
    · rename_i hrefusal
      obtain ⟨hfew, hnick⟩ := refusal_none env s id hrefusal
      exact .registered hplace hlock hfew hnick

theorem did_receive (hplace : (s.sessions id).place = .live) : Did env s id .receive (s.receive id) := by
  unfold receive
  dsimp only
  split
  · rename_i hlag
    exact .lagged rfl hplace hlag
  · split
    · exact .nothing
    · rename_i item hget
      exact .received item hplace hget

theorem did_handle {op : Nat} {payload : List UInt8} {rest frames : Frames} {tooLarge : Bool} {now rand : Nat}
    (hplace : (s.sessions id).place = .handling frames tooLarge) :
    Did env s id i (s.handle env id op payload rest tooLarge now rand) := by
  have hwent (p : Place) (hphase : p.phase = .member) (hstage : p.stage = .ending ∨ p.stage = .hearing)
      (hquiet : p.speaks = none ∧ p.relays = none ∧ p.forwards = none) : Did env s id i (s.goes id p) := by
    refine .went p ?_ hphase (hstage.imp_right fun h => ⟨?_, ?_⟩) ?_ hquiet
    · rw [hplace]
      rfl
    · rw [h, hplace]
      rfl
    · rw [hplace]
      rfl
    · rw [hplace]
      rfl
  unfold handle
  dsimp only
  split_ifs with htext hclose
  · obtain ⟨v, hsaid, hstamped⟩ | ⟨state, hsaid⟩ | hsaid :=
      onMessage_cases env payload (s.sessions id) id now rand
    · rw [hsaid]
      exact .said v frames rest tooLarge hplace hstamped
    · rw [hsaid]
      exact .typed state frames rest tooLarge hplace
    · rw [hsaid]
      exact hwent _ rfl (.inr rfl) ⟨rfl, rfl, rfl⟩
  · exact hwent _ rfl (.inl rfl) ⟨rfl, rfl, rfl⟩
  · exact hwent _ rfl (.inr rfl) ⟨rfl, rfl, rfl⟩

theorem did_fail (hplace : (s.sessions id).place = .failing) : Did env s id i (s.fail id) := by
  unfold fail
  split
  · exact .nothing
  · rename_i hlock
    have hdid : Did env s id i _ := .removed [] (.inl hplace) (Option.not_isSome_iff_eq_none.1 hlock)
    rw [List.map_nil, List.append_nil] at hdid
    exact hdid

theorem did_act (i : Input) : Did env s id i (s.act env id i) := by
  have hwent (p : Place) (hmember : (s.sessions id).place.phase = .member)
      (hrelays : (s.sessions id).place.relays = none) (hphase : p.phase = .member)
      (hstage : p.stage = .ending ∨ p.stage = (s.sessions id).place.stage ∧ (s.sessions id).place.forwards = none)
      (hquiet : p.speaks = none ∧ p.relays = none ∧ p.forwards = none) : Did env s id i (s.goes id p) :=
    .went p hmember hphase hstage hrelays hquiet
  unfold act
  split <;> rename_i hplace <;> try rw [hplace] at hwent
  · exact did_readJoin env s id hplace
  · exact .dropped _ hplace rfl
  · exact did_enter env s id hplace
  · exact did_register env s id hplace
  · unfold endRefused
    dsimp only
    split
    · exact .nothing
    · rename_i hlock
      exact .endedRefused _ hplace (Option.not_isSome_iff_eq_none.1 hlock)
  · unfold lockUsers
    split
    · exact .nothing
    · rename_i hlock
      exact .lockedUsers hplace (Option.not_isSome_iff_eq_none.1 hlock)
  · exact .tookWelcome hplace
  · split
    · exact hwent _ rfl rfl rfl (.inr ⟨rfl, rfl⟩) ⟨rfl, rfl, rfl⟩
    · exact hwent _ rfl rfl rfl (.inl rfl) ⟨rfl, rfl, rfl⟩
  · unfold count
    split
    · exact .nothing
    · exact hwent _ rfl rfl rfl (.inr ⟨rfl, rfl⟩) ⟨rfl, rfl, rfl⟩
  · exact .announced _ _ hplace
  · exact .subscribed _ _ rfl hplace
  · exact hwent _ rfl rfl rfl (.inr ⟨rfl, rfl⟩) ⟨rfl, rfl, rfl⟩
  · exact hwent _ rfl rfl rfl (.inl rfl) ⟨rfl, rfl, rfl⟩
  · exact did_receive env s id hplace
  · split
    · exact hwent _ rfl rfl rfl (.inl rfl) ⟨rfl, rfl, rfl⟩
    · exact hwent _ rfl rfl rfl (.inr ⟨rfl, rfl⟩) ⟨rfl, rfl, rfl⟩
  · split
    · exact .forwarded _ hplace
    · exact hwent _ rfl rfl rfl (.inl rfl) ⟨rfl, rfl, rfl⟩
  · split
    · exact hwent _ rfl rfl rfl (.inl rfl) ⟨rfl, rfl, rfl⟩
    · exact hwent _ rfl rfl rfl (.inr ⟨rfl, rfl⟩) ⟨rfl, rfl, rfl⟩
  · split
    · exact .nothing
    · exact did_handle env s id hplace
  · split
    · exact .nothing
    · split
      · exact hwent _ rfl rfl rfl (.inr ⟨rfl, rfl⟩) ⟨rfl, rfl, rfl⟩
      · exact hwent _ rfl rfl rfl (.inl rfl) ⟨rfl, rfl, rfl⟩
  · exact .pushed _ _ _ hplace
  · exact .relayed _ _ rfl _ _ _ hplace
  · exact did_fail env s id hplace
  · unfold leave
    dsimp only
    split
    · exact .nothing
    · rename_i hlock
      exact .removed [_] (.inr hplace) (Option.not_isSome_iff_eq_none.1 hlock)
  · unfold lockRooms
    split
    · exact .nothing
    · rename_i hlock
      exact .lockedRooms hplace (Option.not_isSome_iff_eq_none.1 hlock)
  · unfold reap
    dsimp only
    split
    · exact .nothing
    · rename_i hlock
      exact .reaped hplace (Option.not_isSome_iff_eq_none.1 hlock)
  · exact .nothing

end ChatServer

end HidraNet.Hidrachat
